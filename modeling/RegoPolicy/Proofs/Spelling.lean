import Mathlib.Tactic.SplitIfs
import RegoPolicy.Json.Read
import RegoPolicy.Proofs.Lexemes

/-!
The texts that spell a value, with any space between its lexemes. Strings are spelled as they are
written, and reading one gives back the text that was written. Both written forms of a value are
spellings of it.
-/
namespace RegoPolicy.Json

open Text

def content (s : String) : List Symbol := (s.toList.flatMap escape).map .char

theorem ofString_append (a b : String) : ofString (a ++ b) = ofString a ++ ofString b := by
  simp [ofString]

theorem ofString_quote (s : String) :
    ofString (quote s) = .char '"' :: (content s ++ [.char '"']) := by
  simp [ofString, quote, content]

theorem toString?_ofString (s : String) : toString? (ofString s) = some s := by
  have chars (cs : List Char) : (cs.map Symbol.char).mapM Symbol.char? = some cs := by
    induction cs with
    | nil => rfl
    | cons c cs ih => simp [List.mapM_cons, Symbol.char?, ih]
  simp [toString?, ofString, chars]

theorem readSymbols_skip (found skipped rest : List Symbol) :
    readSymbols found skipped.length (skipped ++ rest) = readSymbols found 0 rest := by
  induction skipped with
  | nil => rfl
  | cons s skipped ih => simpa [readSymbols] using ih

theorem hexNumber?_control {n : Nat} (control : n < 0x20) (rest : List Symbol) :
    hexNumber? ((['0', '0'] ++ hexPair n).map .char ++ rest) = some n := by
  have pairs : ∀ n < 0x20, hexDigit? (.char (Nat.digitChar (n / 16))) = some (n / 16) ∧
      hexDigit? (.char (Nat.digitChar (n % 16))) = some (n % 16) := by decide
  have zero : hexDigit? (.char '0') = some 0 := by decide
  obtain ⟨high, low⟩ := pairs n control
  simp only [hexPair, List.cons_append, List.nil_append, List.map_cons, List.map_nil, hexNumber?,
    zero, high, low, Option.bind_eq_bind, Option.bind_some]
  congr 1
  omega

theorem readEscape_control {c : Char} (control : c.toNat < 0x20) (rest : List Symbol) :
    readEscape ((['u', '0', '0'] ++ hexPair c.toNat).map .char ++ rest) = .ok (c, 5) := by
  have number := hexNumber?_control control rest
  have noLow : isLowSurrogate c.toNat = false := by
    simp only [isLowSurrogate, Bool.and_eq_false_iff, decide_eq_false_iff_not]
    omega
  have noHigh : isHighSurrogate c.toNat = false := by
    simp only [isHighSurrogate, Bool.and_eq_false_iff, decide_eq_false_iff_not]
    omega
  simp only [List.cons_append, List.nil_append, List.map_cons] at number ⊢
  simp [readEscape, hexEscape, number, noLow, noHigh, bind, Except.bind, pure, Except.pure]

theorem readSymbols_escaped {e : List Symbol} {c : Char} {rest : List Symbol}
    (read : readEscape (e ++ rest) = .ok (c, e.length)) (found : List Symbol) :
    readSymbols found 0 (.char '\\' :: (e ++ rest)) = readSymbols (.char c :: found) 0 rest := by
  simp [readSymbols, read, readSymbols_skip]

theorem readSymbols_escape (c : Char) (found rest : List Symbol) :
    readSymbols found 0 ((escape c).map .char ++ rest) = readSymbols (.char c :: found) 0 rest := by
  have letter (l : Char) (other : l ≠ 'u') (known : simpleEscape? l = some c) :
      readSymbols found 0 (.char '\\' :: .char l :: rest) =
        readSymbols (.char c :: found) 0 rest := by
    refine readSymbols_escaped (e := [.char l]) ?_ found
    simp only [List.cons_append, List.nil_append, readEscape]
    split <;> simp_all
  unfold escape
  split_ifs with quote backslash backspace formFeed lineFeed carriageReturn tab control
  · exact letter '"' (by decide) (by simp [simpleEscape?, quote])
  · exact letter '\\' (by decide) (by simp [simpleEscape?, backslash])
  · exact letter 'b' (by decide) (by simp [simpleEscape?, backspace])
  · exact letter 'f' (by decide) (by simp [simpleEscape?, formFeed])
  · exact letter 'n' (by decide) (by simp [simpleEscape?, lineFeed])
  · exact letter 'r' (by decide) (by simp [simpleEscape?, carriageReturn])
  · exact letter 't' (by decide) (by simp [simpleEscape?, tab])
  · exact readSymbols_escaped (e := (['u', '0', '0'] ++ hexPair c.toNat).map .char)
      (readEscape_control control rest) found
  · simp [readSymbols, quote, backslash, isControl, control]

theorem readSymbols_written (cs : List Char) (found rest : List Symbol) :
    readSymbols found 0 ((cs.flatMap escape).map .char ++ .char '"' :: rest) =
      .ok (found.reverse ++ cs.map .char, rest) := by
  induction cs generalizing found with
  | nil => simp [readSymbols]
  | cons c cs ih =>
    rw [List.flatMap_cons, List.map_append, List.append_assoc, readSymbols_escape, ih]
    simp

/-- A written string is read as the text that was written, whatever follows it. -/
theorem readString_content (s : String) (rest : List Symbol) :
    readString (content s ++ .char '"' :: rest) = .ok (s, rest) := by
  have read := readSymbols_written s.toList [] rest
  have whole := toString?_ofString s
  simp only [ofString] at whole
  simp [readString, content, read, whole, bind, Except.bind]

inductive Joined : List (List Symbol) → List Symbol → Prop where
  | none {space : List Symbol} (blank : Blank space) : Joined [] space
  | last {space part gap : List Symbol} (blank : Blank space) (after : Blank gap) :
      Joined [part] (space ++ (part ++ gap))
  | more {space part gap next body : List Symbol} {parts : List (List Symbol)}
      (blank : Blank space) (after : Blank gap) (rest : Joined (next :: parts) body) :
      Joined (part :: next :: parts) (space ++ (part ++ (gap ++ .char ',' :: body)))

def memberText (entry : String × List Symbol) : List Symbol :=
  .char '"' :: (content entry.1 ++ .char '"' :: entry.2)

mutual

inductive Spells : Value → List Symbol → Prop where
  | null : Spells .null (ofString "null")
  | true : Spells (.bool true) (ofString "true")
  | false : Spells (.bool false) (ofString "false")
  | number (n : Number) : Spells (.number n) (ofString n.write)
  | string (s : String) : Spells (.string s) (.char '"' :: (content s ++ [.char '"']))
  | array {items : List Value} {parts : List (List Symbol)} {body : List Symbol}
      (each : SpellItems items parts) (joined : Joined parts body) :
      Spells (.array items) (.char '[' :: (body ++ [.char ']']))
  | object {members : List (String × Value)} {entries : List (String × List Symbol)}
      {body : List Symbol} (each : SpellMembers members entries)
      (joined : Joined (entries.map memberText) body) :
      Spells (.object members) (.char '{' :: (body ++ [.char '}']))

inductive SpellItems : List Value → List (List Symbol) → Prop where
  | nil : SpellItems [] []
  | cons {v : Value} {items : List Value} {text : List Symbol} {parts : List (List Symbol)}
      (first : Spells v text) (rest : SpellItems items parts) :
      SpellItems (v :: items) (text :: parts)

inductive SpellMembers : List (String × Value) → List (String × List Symbol) → Prop where
  | nil : SpellMembers [] []
  | cons {key : String} {v : Value} {members : List (String × Value)}
      {gap space text : List Symbol} {entries : List (String × List Symbol)} (apart : Blank gap)
      (blank : Blank space) (first : Spells v text) (rest : SpellMembers members entries) :
      SpellMembers ((key, v) :: members) ((key, gap ++ .char ':' :: (space ++ text)) :: entries)

end

theorem blank_nil : Blank [] := by
  intro s member
  cases member

theorem lineStart_blank (level : Nat) : Blank (ofString (lineStart level)) := by
  intro s member
  simp only [ofString, lineStart, String.toList_ofList, List.map_cons, List.map_replicate,
    List.mem_cons, List.mem_replicate] at member
  rcases member with rfl | ⟨-, rfl⟩ <;> decide

theorem intercalate_joined {separator : String} {gap : List Symbol}
    (blank : Blank (ofString separator)) (after : Blank gap) (item : String)
    (items : List String) :
    Joined ((item :: items).map ofString) (ofString separator ++
      (ofString (String.intercalate ("," ++ separator) (item :: items)) ++ gap)) := by
  induction items generalizing item with
  | nil =>
    rw [String.intercalate_singleton]
    exact .last blank after
  | cons next items ih =>
    have comma : ofString "," = [.char ','] := by decide
    have joined : Joined ((item :: next :: items).map ofString) _ := .more blank blank_nil (ih next)
    rw [String.intercalate_cons_cons]
    simpa [ofString_append, comma, List.append_assoc] using joined

theorem onLines_joined (level : Nat) (opening closing : String) (items : List String) :
    ∃ body, Joined (items.map ofString) body ∧
      ofString (onLines level opening items closing) =
        ofString opening ++ (body ++ ofString closing) := by
  cases items with
  | nil => exact ⟨[], .none blank_nil, by simp [onLines, ofString_append]⟩
  | cons item items =>
    refine ⟨_, intercalate_joined (lineStart_blank (level + 1)) (lineStart_blank level) item items,
      ?_⟩
    simp [onLines, ofString_append, List.append_assoc]

mutual

/-- The indented form of a value spells it, at every level. -/
theorem prettyAt_spells (level : Nat) : (v : Value) → Spells v (ofString (v.prettyAt level))
  | .null => .null
  | .bool true => .true
  | .bool false => .false
  | .number n => .number n
  | .string s => by
    rw [Value.prettyAt, ofString_quote]
    exact .string s
  | .array items => by
    have each := prettyItems_spell (level + 1) items
    obtain ⟨body, joined, text⟩ := onLines_joined level "[" "]" (prettyItems (level + 1) items)
    rw [Value.prettyAt, text]
    exact .array each joined
  | .object members => by
    obtain ⟨entries, each, texts⟩ := prettyMembers_spell (level + 1) members
    obtain ⟨body, joined, text⟩ :=
      onLines_joined level "\x7b" "\x7d" (prettyMembers (level + 1) members)
    rw [Value.prettyAt, text]
    rw [texts] at joined
    exact .object each joined

theorem prettyItems_spell (level : Nat) :
    (items : List Value) → SpellItems items ((prettyItems level items).map ofString)
  | [] => .nil
  | v :: items => .cons (prettyAt_spells level v) (prettyItems_spell level items)

theorem prettyMembers_spell (level : Nat) : (members : List (String × Value)) →
    ∃ entries, SpellMembers members entries ∧
      (prettyMembers level members).map ofString = entries.map memberText
  | [] => ⟨[], .nil, rfl⟩
  | (key, v) :: members => by
    obtain ⟨entries, each, texts⟩ := prettyMembers_spell level members
    have space : Blank [.char ' '] := by simp [Blank, isSpace]
    have colon : ofString ": " = .char ':' :: [.char ' '] := by decide
    refine ⟨_, .cons blank_nil space (prettyAt_spells level v) each, ?_⟩
    simp [prettyMembers, texts, memberText, ofString_append, ofString_quote, colon]

end

theorem pretty_spells (v : Value) : Spells v (ofString v.pretty) := prettyAt_spells 0 v

theorem commas_joined (opening closing : String) (items : List String) :
    ∃ body, Joined (items.map ofString) body ∧
      ofString (opening ++ String.intercalate "," items ++ closing) =
        ofString opening ++ (body ++ ofString closing) := by
  cases items with
  | nil => exact ⟨[], .none blank_nil, by simp [ofString_append]⟩
  | cons item items =>
    have empty : Blank (ofString "") := blank_nil
    have joined := intercalate_joined empty blank_nil item items
    refine ⟨_, joined, ?_⟩
    simp [ofString]

mutual

theorem compact_spells : (v : Value) → Spells v (ofString v.compact)
  | .null => .null
  | .bool true => .true
  | .bool false => .false
  | .number n => .number n
  | .string s => by
    rw [Value.compact, ofString_quote]
    exact .string s
  | .array items => by
    obtain ⟨body, joined, text⟩ := commas_joined "[" "]" (compactItems items)
    rw [Value.compact, text]
    exact .array (compactItems_spell items) joined
  | .object members => by
    obtain ⟨entries, each, texts⟩ := compactMembers_spell members
    obtain ⟨body, joined, text⟩ := commas_joined "\x7b" "\x7d" (compactMembers members)
    rw [Value.compact, text]
    rw [texts] at joined
    exact .object each joined

theorem compactItems_spell :
    (items : List Value) → SpellItems items ((compactItems items).map ofString)
  | [] => .nil
  | v :: items => .cons (compact_spells v) (compactItems_spell items)

theorem compactMembers_spell : (members : List (String × Value)) →
    ∃ entries, SpellMembers members entries ∧
      (compactMembers members).map ofString = entries.map memberText
  | [] => ⟨[], .nil, rfl⟩
  | (key, v) :: members => by
    obtain ⟨entries, each, texts⟩ := compactMembers_spell members
    have colon : ofString ":" = [.char ':'] := by decide
    refine ⟨_, .cons blank_nil blank_nil (compact_spells v) each, ?_⟩
    simp [compactMembers, texts, memberText, ofString_append, ofString_quote, colon]

end

end RegoPolicy.Json
