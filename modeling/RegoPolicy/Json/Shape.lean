import RegoPolicy.Json.Read

/-!
The JSON form of a type. A `Shape` tells how a value of the type is written and what is accepted
when one is read, so that one reader and one writer serve every record.

A record is read from an object, with its fields in any order, or from a list of its fields in the
order they are declared. Keys that name no field are passed over.
-/
namespace RegoPolicy.Json

open Text

mutual

inductive Shape : Type → Type 1 where
  | text : Shape String
  | flag : Shape Bool
  /-- any value: a string as it is, everything else as its compact text; written as a string -/
  | literal : Shape String
  | optional {α : Type} (inner : Shape α) : Shape (Option α)
  | sequence {α : Type} (item : Shape α) : Shape (List α)
  /-- one of some names, as a string or as the key of an object that holds `null` -/
  | choice {α : Type} (variants : List (String × α)) (name : α → String) : Shape α
  | record {α τ σ : Type} (name : String) (fields : Fields τ σ) (make : τ → α) (take : α → τ) :
      Shape α
  | via {α β : Type} (inner : Shape α) (make : α → β) (take : β → α) : Shape β

/-- The fields of a record: `τ` holds their values and `σ` those that have been read so far. -/
inductive Fields : Type → Type → Type 1 where
  | done : Fields Unit Unit
  /-- a field with its further names, the value it has when it is left out, and the values for which
      it is not written -/
  | field {α τ σ : Type} (name : String) (aliases : List String) (shape : Shape α)
      (default : Option α) (omitted : α → Bool) (rest : Fields τ σ) : Fields (α × τ) (Option α × σ)

end

/-- The fault of a value that is not of the wanted type. Words, numbers and strings are read first
    and may be at fault themselves. -/
def mismatch (wanted : String) (s : Symbol) (rest : List Symbol) : Fault :=
  match s with
  | .char '[' => .looking (.wrongType .sequence wanted) (s :: rest)
  | .char '{' => .looking (.wrongType .map wanted) (s :: rest)
  | s =>
    match readScalar s rest with
    | .error f => f
    | .ok (.bool b, rest) => .here (.wrongType (.bool b) wanted) rest
    | .ok (.number n, rest) => .looking (.wrongType (.number n) wanted) rest
    | .ok (.string text, rest) => .here (.wrongType (.string text) wanted) rest
    | .ok (_, rest) => .here (.wrongType .null wanted) rest

def readText (wanted : String) : Reader String := fun input =>
  match skipSpace input with
  | [] => .error (.here .endInValue [])
  | .char '"' :: rest => readString rest
  | s :: rest => .error (mismatch wanted s rest)

def readFlag : Reader Bool := fun input =>
  match skipSpace input with
  | [] => .error (.here .endInValue [])
  | .char 't' :: rest => return (true, ← expectWord ['r', 'u', 'e'] rest)
  | .char 'f' :: rest => return (false, ← expectWord ['a', 'l', 's', 'e'] rest)
  | s :: rest => .error (mismatch "a boolean" s rest)

def readUnit (input : List Symbol) : Except Fault (List Symbol) :=
  match skipSpace input with
  | [] => .error (.here .endInValue [])
  | .char 'n' :: rest => expectWord ['u', 'l', 'l'] rest
  | s :: rest => .error (mismatch "unit" s rest)

def Value.toLiteral : Value → String
  | .string s => s
  | v => v.compact

def readLiteral (levels : Nat) : Reader String := fun input => do
  let (v, rest) ← readValue levels input
  return (v.toLiteral, rest)

def deeper {α : Type} (levels : Nat) (input : List Symbol) (inside : Nat → Except Fault α) :
    Except Fault α :=
  match levels with
  | 0 => .error (.next .tooDeep input)
  | levels + 1 => inside levels

def readVariant {α : Type} (variants : List (String × α)) : Reader α := fun input => do
  let (name, rest) ← readString input
  match variants.lookup name with
  | some a => .ok (a, rest)
  | none => .error (.here (.unknownVariant name (variants.map (·.1))) rest)

/-- Reads a variant from its name, or from an object with the name as its only key and no data. -/
def readChoice {α : Type} (variants : List (String × α)) (levels : Nat) : Reader α :=
  fun input =>
    match skipSpace input with
    | [] => .error (.here .endInValue [])
    | .char '"' :: rest => readVariant variants rest
    | .char '{' :: rest =>
      deeper levels (.char '{' :: rest) fun _ => do
        let some key ← firstKey rest | .error (.next .expectedValue (skipSpace rest))
        let (a, rest) ← readVariant variants key
        let rest ← expectColon rest
        let rest ← readUnit rest
        match skipSpace rest with
        | [] => .error (.here .endInObject [])
        | .char '}' :: rest => .ok (a, rest)
        | rest => .error (.looking .expectedValue rest)
    | s :: rest => .error (.next .expectedValue (s :: rest))

/-- The place of a repeated field: after its key and what space follows, and after the bracket if
    the object ends there. -/
def duplicate (name : String) (input : List Symbol) : Fault :=
  match skipSpace input with
  | .char '}' :: rest => .here (.duplicateField name) rest
  | rest => .looking (.duplicateField name) rest

def Fields.count {τ σ : Type} : Fields τ σ → Nat
  | .done => 0
  | .field _ _ _ _ _ rest => rest.count + 1

def Fields.start {τ σ : Type} : Fields τ σ → σ
  | .done => ()
  | .field _ _ _ _ _ rest => (none, rest.start)

def Fields.finish {τ σ : Type} : Fields τ σ → σ → Except String τ
  | .done, _ => .ok ()
  | .field name _ _ default _ rest, (slot, slots) =>
    match slot.or default with
    | none => .error name
    | some a => do return (a, ← rest.finish slots)

mutual

def Shape.read {α : Type} : Shape α → Nat → Reader α
  | .text, _ => readText "a string"
  | .flag, _ => readFlag
  | .literal, levels => readLiteral levels
  | .optional inner, levels => fun input =>
    match skipSpace input with
    | .char 'n' :: rest => return (none, ← expectWord ['u', 'l', 'l'] rest)
    | input => do
      let (a, rest) ← inner.read levels input
      return (some a, rest)
  | .sequence item, levels => fun input =>
    match skipSpace input with
    | [] => .error (.here .endInValue [])
    | .char '[' :: rest =>
      deeper levels (.char '[' :: rest) fun levels => readItems (item.read levels) rest
    | s :: rest => .error (mismatch "a sequence" s rest)
  | .choice variants _, levels => readChoice variants levels
  | .record name fields make _, levels => fun input =>
    match skipSpace input with
    | [] => .error (.here .endInValue [])
    | .char '[' :: rest =>
      deeper levels (.char '[' :: rest) fun levels => do
        let (values, rest) ← fields.readRow levels (.wrongLength · name fields.count) 0 rest
        return (make values, ← closeList rest)
    | .char '{' :: rest =>
      deeper levels (.char '{' :: rest) fun levels => do
        let (slots, rest) ← readMembers (fields.readMember levels) fields.start rest
        match fields.finish slots with
        | .error missing => .error (.here (.missingField missing) rest)
        | .ok values => return (make values, rest)
    | s :: rest => .error (mismatch ("struct " ++ name) s rest)
  | .via inner make _, levels => fun input => do
    let (a, rest) ← inner.read levels input
    return (make a, rest)

def Fields.readRow {τ σ : Type} : Fields τ σ → Nat → (Nat → Cause) → Nat → Reader τ
  | .done, _, _, _ => fun input => .ok ((), input)
  | .field _ _ shape default _ rest, levels, short, index => fun input => do
    match ← (if index = 0 then firstItem input else nextItem input) with
    | some item =>
      let (a, input) ← shape.read levels item
      let (values, input) ← rest.readRow levels short (index + 1) input
      return ((a, values), input)
    | none =>
      match default with
      | none => .error (.next (short index) (skipSpace input))
      | some a =>
        let (values, input) ← rest.readRow levels short (index + 1) input
        return ((a, values), input)

def Fields.readMember {τ σ : Type} : Fields τ σ → Nat → σ → String → Reader σ
  | .done, _, slots, _ => fun input => do
    let rest ← expectColon input
    return (slots, ← scanValue rest)
  | .field name aliases shape _ _ rest, levels, (slot, slots), key => fun input =>
    if key = name ∨ key ∈ aliases then
      if slot.isSome then .error (duplicate name input)
      else do
        let input ← expectColon input
        let (a, input) ← shape.read levels input
        return ((some a, slots), input)
    else do
      let (slots, input) ← rest.readMember levels slots key input
      return ((slot, slots), input)

end

mutual

def Shape.write {α : Type} : Shape α → α → Value
  | .text, s => .string s
  | .flag, b => .bool b
  | .literal, s => .string s
  | .optional _, none => .null
  | .optional inner, some a => inner.write a
  | .sequence item, items => .array (items.map item.write)
  | .choice _ name, a => .string (name a)
  | .record _ fields _ take, a => .object (fields.write (take a))
  | .via inner _ take, b => inner.write (take b)

def Fields.write {τ σ : Type} : Fields τ σ → τ → List (String × Value)
  | .done, _ => []
  | .field name _ shape _ omitted rest, (a, values) =>
    if omitted a then rest.write values else (name, shape.write a) :: rest.write values

end

def Shape.parse {α : Type} (shape : Shape α) (kind : SourceKind) (input : List Symbol) :
    Except Problem α :=
  let result := do
    let (a, rest) ← shape.read levelLimit input
    expectEnd rest
    return a
  result.mapError (Fault.locate kind input)

def Shape.parseText {α : Type} (shape : Shape α) (s : String) : Except Problem α :=
  shape.parse .text (ofString s)

end RegoPolicy.Json
