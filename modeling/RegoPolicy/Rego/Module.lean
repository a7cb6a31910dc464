import RegoPolicy.Policy.Draft
import RegoPolicy.Rego.Rule
import RegoPolicy.Text.Blank

/-!
The Rego module of a draft. It is a list of sections in a fixed order; a section that has nothing
to say is empty.
-/
namespace RegoPolicy.Rego

open Policy Json

def packageSection : String := "package formal.v2\n\n"

def needsIf (d : Draft) : Bool := !d.predicates.entries.isEmpty || !d.rules.isEmpty

def needsIn (d : Draft) : Bool :=
  d.predicates.entries.any fun (_, blocks) =>
    blocks.any fun p => p.conditions.any fun c => c.operator.isMembership

def importSection (d : Draft) : String :=
  (if needsIf d then "import future.keywords.if\n" else "") ++
    (if needsIn d then "import future.keywords.in\n" else "") ++
    (if needsIf d || needsIn d then "\n" else "")

def commentLine (line : List Char) : String :=
  String.ofList (Text.trimEnd ('#' :: ' ' :: line)) ++ "\n"

def descriptionSection (description : Option String) : String :=
  match filled description with
  | some s => String.join ((Text.lines s).map commentLine) ++ "\n"
  | none => ""

def connectorSection (connectors : List String) : String :=
  if connectors.isEmpty then ""
  else "included_connectors := " ++ (Value.array (connectors.map .string)).compact ++ "\n\n"

def constantLine (name value : String) : String := name ++ " := " ++ value ++ "\n"

def constantSection (constants : Table String) : String :=
  if constants.entries.isEmpty then ""
  else String.join (constants.entries.map fun (name, value) => constantLine name value) ++ "\n"

def predicateSections (predicates : Table (List Predicate)) : List String :=
  predicates.entries.flatMap fun (_, blocks) => blocks.map fun p => predicate p ++ "\n"

def rawSection (raw : Option String) : String :=
  match filled raw with
  | some s => s ++ "\n\n"
  | none => ""

/-- Conditional rules stand before default rules, each kind by its places in the document. -/
def comesBefore (r s : Rule) : Bool :=
  (!r.isDefault && s.isDefault) || (r.isDefault = s.isDefault && r.index ≤ s.index)

def placeRule (r : Rule) : List Rule → List Rule
  | [] => [r]
  | s :: rest => if comesBefore r s then r :: s :: rest else s :: placeRule r rest

/-- Rules that tie keep their order. -/
def orderRules (rules : List Rule) : List Rule := rules.foldr placeRule []

def ruleSections (rules : List Rule) : List String :=
  (orderRules rules).map fun r => rule r ++ "\n"

def sections (d : Draft) : List String :=
  [packageSection, importSection d, descriptionSection d.description,
    connectorSection d.connectors, constantSection d.constants] ++
  predicateSections d.predicates ++ [rawSection d.rawRego] ++ ruleSections d.rules

def dropFeeds (cs : List Char) : List Char := (cs.reverse.dropWhile (· = '\n')).reverse

/-- The sections one after another, with one line feed at the end. -/
def moduleText (d : Draft) : String :=
  String.ofList (dropFeeds (String.join (sections d)).toList) ++ "\n"

end RegoPolicy.Rego
