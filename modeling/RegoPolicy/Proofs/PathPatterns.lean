import Mathlib.Computability.Language
import RegoPolicy.Proofs.Names

/-!
Names and paths as patterns. A path is an identifier and any number of dots, each with an identifier
behind it. These are the texts that fall into identifiers where they are cut at their dots, so that
a dot between two texts makes a path exactly if both of them are paths.
-/
namespace RegoPolicy.Policy

open scoped Computability

def within (first last : Char) : Language Char := {text | ∃ c, text = [c] ∧ first ≤ c ∧ c ≤ last}

def firstChar : Language Char := within 'a' 'z' + within 'A' 'Z' + within '_' '_'

def laterChar : Language Char := firstChar + within '0' '9'

def identifierPattern : Language Char := firstChar * laterChar∗

def pathPattern : Language Char := identifierPattern * (within '.' '.' * identifierPattern)∗

def dotParts (s : String) : List String := (s.toList.splitOn '.').map String.ofList

section Patterns

theorem mem_within_self (c : Char) (text : List Char) : text ∈ within c c ↔ text = [c] := by
  constructor
  · rintro ⟨d, rfl, least, most⟩
    rw [Char.le_antisymm most least]
  · rintro rfl
    exact ⟨c, rfl, Char.le_refl c, Char.le_refl c⟩

theorem mem_firstChar (text : List Char) :
    text ∈ firstChar ↔ ∃ c, text = [c] ∧ isLetter c = true := by
  simp only [firstChar, Language.mem_add, mem_within_self, isLetter, Bool.or_eq_true,
    Bool.and_eq_true, decide_eq_true_eq]
  constructor
  · rintro ((⟨c, rfl, small⟩ | ⟨c, rfl, large⟩) | rfl)
    · exact ⟨c, rfl, .inl (.inl small)⟩
    · exact ⟨c, rfl, .inl (.inr large)⟩
    · exact ⟨'_', rfl, .inr rfl⟩
  · rintro ⟨c, rfl, (small | large) | rfl⟩
    · exact .inl (.inl ⟨c, rfl, small⟩)
    · exact .inl (.inr ⟨c, rfl, large⟩)
    · exact .inr rfl

theorem mem_laterChar (text : List Char) :
    text ∈ laterChar ↔ ∃ c, text = [c] ∧ isNameChar c = true := by
  simp only [laterChar, Language.mem_add, mem_firstChar, isNameChar, Bool.or_eq_true,
    Bool.and_eq_true, decide_eq_true_eq]
  constructor
  · rintro (⟨c, rfl, letter⟩ | ⟨c, rfl, digit⟩)
    · exact ⟨c, rfl, .inl letter⟩
    · exact ⟨c, rfl, .inr digit⟩
  · rintro ⟨c, rfl, letter | digit⟩
    · exact .inl ⟨c, rfl, letter⟩
    · exact .inr ⟨c, rfl, digit⟩

theorem mem_laterChar_star (text : List Char) :
    text ∈ laterChar∗ ↔ ∀ c ∈ text, isNameChar c = true := by
  rw [Language.mem_kstar]
  constructor
  · rintro ⟨singles, rfl, each⟩ c member
    obtain ⟨single, inside, here⟩ := List.mem_flatten.1 member
    obtain ⟨d, rfl, named⟩ := (mem_laterChar single).1 (each single inside)
    obtain rfl := List.mem_singleton.1 here
    exact named
  · intro named
    refine ⟨text.map fun c => [c], ?_, fun single inside => ?_⟩
    · rw [← List.flatMap_def, List.flatMap_singleton']
    · obtain ⟨c, member, rfl⟩ := List.mem_map.1 inside
      exact (mem_laterChar [c]).2 ⟨c, rfl, named c member⟩

theorem mem_identifierPattern (text : List Char) :
    text ∈ identifierPattern ↔ isIdentifierChars text = true := by
  rw [identifierPattern, Language.mem_mul]
  constructor
  · rintro ⟨start, first, rest, later, rfl⟩
    obtain ⟨c, rfl, letter⟩ := (mem_firstChar start).1 first
    exact identifierChars_cons.2 ⟨letter, (mem_laterChar_star rest).1 later⟩
  · intro identifier
    cases text with
    | nil => cases identifier
    | cons c rest =>
      obtain ⟨letter, others⟩ := identifierChars_cons.1 identifier
      exact ⟨[c], (mem_firstChar [c]).2 ⟨c, rfl, letter⟩, rest,
        (mem_laterChar_star rest).2 others, rfl⟩

theorem mem_dotted_star (text : List Char) :
    text ∈ (within '.' '.' * identifierPattern)∗ ↔
      ∃ parts : List (List Char), text = (parts.map ('.' :: ·)).flatten ∧
        ∀ part ∈ parts, isIdentifierChars part = true := by
  have dotted (piece : List Char) : piece ∈ within '.' '.' * identifierPattern ↔
      ∃ part, isIdentifierChars part = true ∧ piece = '.' :: part := by
    simp only [Language.mem_mul, mem_within_self, mem_identifierPattern]
    constructor
    · rintro ⟨_, rfl, part, identifier, rfl⟩
      exact ⟨part, identifier, rfl⟩
    · rintro ⟨part, identifier, rfl⟩
      exact ⟨['.'], rfl, part, identifier, rfl⟩
  rw [Language.mem_kstar]
  constructor
  · rintro ⟨pieces, rfl, each⟩
    induction pieces with
    | nil => exact ⟨[], rfl, by simp⟩
    | cons piece pieces ih =>
      obtain ⟨part, identifier, rfl⟩ := (dotted piece).1 (each _ List.mem_cons_self)
      obtain ⟨parts, text, others⟩ :=
        ih fun other member => each other (List.mem_cons_of_mem _ member)
      exact ⟨part :: parts, by simp [text], List.forall_mem_cons.2 ⟨identifier, others⟩⟩
  · rintro ⟨parts, rfl, each⟩
    refine ⟨_, rfl, fun piece member => ?_⟩
    obtain ⟨part, inside, rfl⟩ := List.mem_map.1 member
    exact (dotted _).2 ⟨part, each part inside, rfl⟩

theorem intercalate_dots (first : List Char) (others : List (List Char)) :
    ['.'].intercalate (first :: others) = first ++ (others.map ('.' :: ·)).flatten := by
  induction others generalizing first with
  | nil => simp
  | cons next others ih => simp [List.intercalate_cons_cons, ih next]

theorem no_dot_in_identifier {part : List Char} (identifier : isIdentifierChars part = true) :
    '.' ∉ part := by
  have named : isIdentifier (String.ofList part) = true := by simpa [isIdentifier] using identifier
  simpa using not_mem_identifier named (c := '.') (by decide)

/-- The pattern repeats dots with identifiers, and cutting at the dots undoes this. -/
theorem mem_pathPattern (text : List Char) :
    text ∈ pathPattern ↔ ∀ part ∈ text.splitOn '.', isIdentifierChars part = true := by
  rw [pathPattern, Language.mem_mul]
  constructor
  · rintro ⟨first, start, rest, repeated, rfl⟩
    obtain ⟨others, rfl, later⟩ := (mem_dotted_star rest).1 repeated
    -- no identifier holds a dot, so that the parts are found again by splitting
    have each : ∀ part ∈ first :: others, isIdentifierChars part = true :=
      List.forall_mem_cons.2 ⟨(mem_identifierPattern first).1 start, later⟩
    rw [← intercalate_dots, List.splitOn_intercalate _
      (fun part member => no_dot_in_identifier (each part member)) (List.cons_ne_nil _ _)]
    exact each
  · intro each
    obtain ⟨first, others, split⟩ := List.exists_cons_of_ne_nil (List.splitOn_ne_nil '.' text)
    have whole : ['.'].intercalate (text.splitOn '.') = text := List.intercalate_splitOn '.'
    rw [split, intercalate_dots] at whole
    rw [split, List.forall_mem_cons] at each
    exact ⟨first, (mem_identifierPattern first).2 each.1, _,
      (mem_dotted_star _).2 ⟨others, rfl, each.2⟩, whole⟩

end Patterns

theorem isNameChar_alphanum {c : Char} (inside : isNameChar c = true) :
    c.isAlphanum = true ∨ c = '_' := by
  have kinds : c.isAlphanum = (c.isUpper || c.isLower || c.isDigit) := rfl
  simp only [isNameChar, isLetter, Bool.or_eq_true] at inside
  rcases inside with ((small | large) | underscore) | digit
  · have lower : c.isLower = true := small
    exact .inl (by simp [kinds, lower])
  · have upper : c.isUpper = true := by
      rw [Bool.and_eq_true, decide_eq_true_iff, decide_eq_true_iff] at large
      exact decide_eq_true large
    exact .inl (by simp [kinds, upper])
  · exact .inr (of_decide_eq_true underscore)
  · have numeral : c.isDigit = true := digit
    exact .inl (by simp [kinds, numeral])

theorem nameFault?_ne_invalid (s : String) :
    nameFault? s ≠ some .invalid ↔ isIdentifier s = true := by
  unfold nameFault?
  cases isIdentifier s with
  | false => simp
  | true =>
    cases isReserved s <;> simp

theorem dotted_iff_parts (s : String) :
    IsDotted s ↔ ∀ part ∈ dotParts s, isIdentifier part = true := by
  simp [IsDotted, dotParts, isIdentifier]

theorem dotted_append (s t : String) : IsDotted (s ++ "." ++ t) ↔ IsDotted s ∧ IsDotted t := by
  have chars : (s ++ "." ++ t).toList = s.toList ++ '.' :: t.toList := by simp
  unfold IsDotted
  rw [chars, List.splitOn_append_cons_self, List.forall_mem_append]

/-- A text is accepted as a path exactly if it matches the pattern of paths, and exactly if no part
    of it between dots is an invalid name. Paths are made of letters, digits, underscores and dots,
    no part of them is empty, and dots put them together and take them apart. -/
theorem isPath_iff_dotParts (s : String) :
    (isPath s = true ↔ ∀ part ∈ dotParts s, nameFault? part ≠ some .invalid) ∧
    (isPath s = true ↔ s.toList ∈ pathPattern) ∧
    (∀ part, nameFault? part ≠ some .invalid ↔ part.toList ∈ identifierPattern) ∧
    (isPath s = true →
      (∀ c ∈ s.toList, c.isAlphanum = true ∨ c = '_' ∨ c = '.') ∧ "" ∉ dotParts s) ∧
    ∀ t, isPath (s ++ "." ++ t) = true ↔ isPath s = true ∧ isPath t = true := by
  simp only [nameFault?_ne_invalid, isPath_iff_isDotted]
  refine ⟨dotted_iff_parts s, ?_, fun part => (mem_identifierPattern part.toList).symm, ?_,
    dotted_append s⟩
  · exact (mem_pathPattern s.toList).symm
  · intro dotted
    constructor
    · intro c member
      rcases isPathFrom_chars ((isPath_iff_isDotted s).2 dotted) c member with dot | inside
      · exact .inr (.inr dot)
      · rcases isNameChar_alphanum inside with plain | underscore
        · exact .inl plain
        · exact .inr (.inl underscore)
    · intro empty
      have identifier := (dotted_iff_parts s).1 dotted "" empty
      exact absurd identifier (by decide)

/-- A path of three names, and a name with a line feed behind it, which the pattern leaves out. -/
theorem tags_isPath :
    isPath "_meta.tags.env2" = true ∧ dotParts "_meta.tags.env2" = ["_meta", "tags", "env2"] ∧
      "_meta.tags.env2".toList ∈ pathPattern ∧ "" ∉ dotParts "_meta.tags.env2" ∧
      isPath "user\n" = false ∧ "user\n".toList ∉ pathPattern := by
  have accepted : isPath "_meta.tags.env2" = true := by decide
  have refused : isPath "user\n" = false := by decide
  obtain ⟨-, pattern, -, parts, -⟩ := isPath_iff_dotParts "_meta.tags.env2"
  obtain ⟨-, other, -⟩ := isPath_iff_dotParts "user\n"
  refine ⟨accepted, by decide +kernel, pattern.1 accepted, (parts accepted).2, refused, ?_⟩
  intro inside
  rw [other.2 inside] at refused
  cases refused

end RegoPolicy.Policy
