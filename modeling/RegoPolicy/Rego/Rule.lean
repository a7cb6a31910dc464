import RegoPolicy.Rego.Condition

/-!
Predicates and rules as Rego definitions, each with its final line feed.
-/
namespace RegoPolicy.Rego

open Policy Json

def bodyLine (s : String) : String := "    " ++ s ++ "\n"

def definition (head : String) (body : List String) : String :=
  head ++ " if \x7b\n" ++ String.join (body.map bodyLine) ++ "\x7d\n"

def predicate (p : Predicate) : String := definition p.name (p.conditions.map condition)

def entry (key value : String) : String := "\"" ++ key ++ "\": " ++ value

def textEntry (key : String) (value : Option String) : List String :=
  (filled value).toList.map fun s => entry key (quote s)

def columnsEntry (e : Effect) : List String :=
  match e.target with
  | some .allColumns => [entry "columns" "input.columns"]
  | some _ => [entry "columns" "columns"]
  | none => []

def effectEntries (e : Effect) : List String :=
  entry "action" (quote e.action.name) ::
    (textEntry "type" e.kind ++ textEntry "sub_type" e.subKind ++
      textEntry "typesafe" e.typesafe ++ textEntry "message" e.message ++
      textEntry "reason" e.reason ++ columnsEntry e)

def effect (e : Effect) : String :=
  "\x7b " ++ String.intercalate ", " (effectEntries e) ++ " \x7d"

def reference (r : Reference) : String := if r.negated then "not " ++ r.name else r.name

def columnsBinding (key value : String) : String :=
  "columns := [col | col := input.columns[_]; col[\"" ++ key ++ "\"] == " ++ quote value ++
    "]"

def targetLine (e : Effect) : List String :=
  match e.target with
  | some (.dataLabel label) => [columnsBinding "data_label" label]
  | some (.columnName name) => [columnsBinding "name" name]
  | _ => []

/-- A body is never empty. -/
def ruleBody (r : Rule) : List String :=
  let lines := r.whenAllOf.map reference ++ targetLine r.effect
  if lines.isEmpty then ["true"] else lines

def rule (r : Rule) : String :=
  if r.isDefault then "default " ++ r.name ++ " := " ++ effect r.effect ++ "\n"
  else definition (r.name ++ " := " ++ effect r.effect) (ruleBody r)

end RegoPolicy.Rego
