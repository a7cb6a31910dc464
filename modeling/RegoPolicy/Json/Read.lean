import RegoPolicy.Json.Scan

/-!
Reads JSON values, and the bodies of lists and objects whatever their parts are. A value may open
only so many lists and objects inside each other; `levels` tells how many are left.
-/
namespace RegoPolicy.Json

open Text

def levelLimit : Nat := 127

def nextItem (input : List Symbol) : Except Fault (Option (List Symbol)) :=
  match skipSpace input with
  | [] => .error (.here .endInList [])
  | .char ']' :: _ => .ok none
  | .char ',' :: rest =>
    match skipSpace rest with
    | [] => .error (.here .endInValue [])
    | .char ']' :: inner => .error (.next .trailingComma (.char ']' :: inner))
    | rest => .ok (some rest)
  | rest => .error (.next .expectedListEnd rest)

def firstItem (input : List Symbol) : Except Fault (Option (List Symbol)) :=
  match skipSpace input with
  | [] => .error (.here .endInList [])
  | .char ']' :: _ => .ok none
  | rest => .ok (some rest)

def closeList (input : List Symbol) : Except Fault (List Symbol) :=
  match skipSpace input with
  | [] => .error (.here .endInList [])
  | .char ']' :: rest => .ok rest
  | .char ',' :: rest =>
    match skipSpace rest with
    | .char ']' :: inner => .error (.next .trailingComma (.char ']' :: inner))
    | rest => .error (.next .trailingCharacters rest)
  | rest => .error (.next .trailingCharacters rest)

/-- Each item takes at least one symbol, so the input bounds how many items there are. -/
def itemsWithin {α : Type} (item : Reader α) :
    List Symbol → List Symbol → Except Fault (List α × List Symbol)
  | [], input => .error (.here .endInList input)
  | _ :: bound, input => do
    let (a, rest) ← item input
    match ← nextItem rest with
    | none => return ([a], ← closeList rest)
    | some input => do
      let (more, rest) ← itemsWithin item bound input
      return (a :: more, rest)

def readItems {α : Type} (item : Reader α) : Reader (List α) := fun input => do
  match ← firstItem input with
  | none => return ([], ← closeList input)
  | some first => itemsWithin item first first

def nextKey (input : List Symbol) : Except Fault (Option (List Symbol)) :=
  match skipSpace input with
  | [] => .error (.here .endInObject [])
  | .char '}' :: _ => .ok none
  | .char ',' :: rest =>
    match skipSpace rest with
    | [] => .error (.here .endInValue [])
    -- the quote in front of a key is taken here
    | .char '"' :: rest => .ok (some rest)
    | .char '}' :: rest => .error (.next .trailingComma (.char '}' :: rest))
    | rest => .error (.next .keyNotString rest)
  | rest => .error (.next .expectedObjectEnd rest)

def firstKey (input : List Symbol) : Except Fault (Option (List Symbol)) :=
  match skipSpace input with
  | [] => .error (.here .endInObject [])
  | .char '}' :: _ => .ok none
  | .char '"' :: rest => .ok (some rest)
  | rest => .error (.next .keyNotString rest)

def closeObject (input : List Symbol) : List Symbol := (skipSpace input).drop 1

def expectColon (input : List Symbol) : Except Fault (List Symbol) :=
  match skipSpace input with
  | [] => .error (.here .endInObject [])
  | .char ':' :: rest => .ok rest
  | rest => .error (.next .expectedColon rest)

/-- Reads on with `member state key` after each key, which gives the next state. Each member takes
    at least one symbol, so the input bounds how many members there are. -/
def membersWithin {σ : Type} (member : σ → String → Reader σ) :
    List Symbol → σ → List Symbol → Except Fault (σ × List Symbol)
  | [], _, input => .error (.here .endInObject input)
  | _ :: bound, state, input => do
    let (key, rest) ← readString input
    let (state, rest) ← member state key rest
    match ← nextKey rest with
    | none => return (state, closeObject rest)
    | some input => membersWithin member bound state input

def readMembers {σ : Type} (member : σ → String → Reader σ) (start : σ) : Reader σ :=
  fun input => do
    match ← firstKey input with
    | none => return (start, closeObject input)
    | some first => membersWithin member input start first

def readScalar (s : Symbol) (rest : List Symbol) : Except Fault (Value × List Symbol) :=
  match s with
  | .char 'n' => return (.null, ← expectWord ['u', 'l', 'l'] rest)
  | .char 't' => return (.bool true, ← expectWord ['r', 'u', 'e'] rest)
  | .char 'f' => return (.bool false, ← expectWord ['a', 'l', 's', 'e'] rest)
  | .char '"' => do
    let (text, rest) ← readString rest
    return (.string text, rest)
  | .char '-' => do
    let (n, rest) ← readNumber true rest
    return (.number n, rest)
  | s =>
    if (digit? s).isSome then do
      let (n, rest) ← readNumber false (s :: rest)
      return (.number n, rest)
    else .error (.next .expectedValue (s :: rest))

def readEntry (value : Reader Value) (entries : List (String × Value)) (key : String) :
    Reader (List (String × Value)) := fun input => do
  let rest ← expectColon input
  let (v, rest) ← value rest
  return (putEntry key v entries, rest)

/-- Reads any value. The members of an object stand in the order of their names, and of members
    with one name the last one counts. -/
def readValue : Nat → Reader Value
  | levels, input =>
    match skipSpace input with
    | [] => .error (.here .endInValue [])
    | .char '[' :: rest =>
      match levels with
      | 0 => .error (.next .tooDeep (.char '[' :: rest))
      | levels + 1 => do
        let (items, rest) ← readItems (readValue levels) rest
        return (.array items, rest)
    | .char '{' :: rest =>
      match levels with
      | 0 => .error (.next .tooDeep (.char '{' :: rest))
      | levels + 1 => do
        let (entries, rest) ← readMembers (readEntry (readValue levels)) [] rest
        return (.object entries, rest)
    | s :: rest => readScalar s rest

end RegoPolicy.Json
