import RegoPolicy.Policy.Name

/-!
What the characters of names and paths can be. A path is accepted exactly if every stretch between
its dots is an identifier.
-/
namespace RegoPolicy.Policy

/-- Identifiers with single dots between them, told by splitting. -/
def IsDotted (s : String) : Prop :=
  ∀ part ∈ s.toList.splitOn '.', isIdentifierChars part = true

/-- A text that can name something: an identifier that is not taken by the language. -/
def IsName (s : String) : Prop := isIdentifier s = true ∧ s ∉ reservedNames

instance (s : String) : Decidable (IsName s) := inferInstanceAs (Decidable (_ ∧ _))

theorem nameFault?_eq_none (s : String) : nameFault? s = none ↔ IsName s := by
  unfold nameFault? IsName isReserved
  cases isIdentifier s <;> simp

theorem identifierChars_cons {c : Char} {rest : List Char} :
    isIdentifierChars (c :: rest) = true ↔
      isLetter c = true ∧ ∀ d ∈ rest, isNameChar d = true := by
  simp [isIdentifierChars]

theorem identifier_starts {s : String} (identifier : isIdentifier s = true) :
    ∃ c rest, s.toList = c :: rest ∧ isLetter c = true := by
  unfold isIdentifier at identifier
  cases chars : s.toList with
  | nil => simp [chars, isIdentifierChars] at identifier
  | cons c rest =>
    rw [chars] at identifier
    exact ⟨c, rest, rfl, (identifierChars_cons.1 identifier).1⟩

theorem identifier_nameChars {s : String} (identifier : isIdentifier s = true) :
    ∀ c ∈ s.toList, isNameChar c = true := by
  unfold isIdentifier at identifier
  cases chars : s.toList with
  | nil => simp
  | cons c rest =>
    rw [chars] at identifier
    obtain ⟨letter, others⟩ := identifierChars_cons.1 identifier
    intro d member
    rcases List.mem_cons.1 member with rfl | later
    · simp [isNameChar, letter]
    · exact others d later

theorem not_mem_identifier {s : String} (identifier : isIdentifier s = true) {c : Char}
    (outside : isNameChar c = false) : c ∉ s.toList := by
  intro member
  rw [identifier_nameChars identifier c member] at outside
  cases outside

theorem eq_of_append_separator {α : Type} {separator : α} {a b x y : List α}
    (left : separator ∉ a) (right : separator ∉ b)
    (same : a ++ separator :: x = b ++ separator :: y) : a = b ∧ x = y := by
  induction a generalizing b with
  | nil =>
    cases b with
    | nil => exact ⟨rfl, (List.cons.inj same).2⟩
    | cons d b =>
      have first := (List.cons.inj same).1
      exact absurd (by simp [first]) right
  | cons c a ih =>
    cases b with
    | nil =>
      have first := (List.cons.inj same).1
      exact absurd (by simp [first]) left
    | cons d b =>
      obtain ⟨first, others⟩ := List.cons.inj same
      obtain ⟨rest, tails⟩ := ih (fun member => left (List.mem_cons_of_mem c member))
        (fun member => right (List.mem_cons_of_mem d member)) others
      exact ⟨by rw [first, rest], tails⟩

theorem leading_run {α : Type} {kind : α → Bool} {a b x y : List α} (left : ∀ c ∈ a, kind c = true)
    (right : ∀ c ∈ b, kind c = true) (leftEnd : ∀ c, x.head? = some c → kind c = false)
    (rightEnd : ∀ c, y.head? = some c → kind c = false) (same : a ++ x = b ++ y) :
    a = b ∧ x = y := by
  have leading (w z : List α) (inside : ∀ c ∈ w, kind c = true)
      (outside : ∀ c, z.head? = some c → kind c = false) : (w ++ z).takeWhile kind = w := by
    rw [List.takeWhile_append_of_pos inside]
    cases z with
    | nil => simp
    | cons c z => simp [outside c rfl]
  have run : a = b := by
    rw [← leading a x left leftEnd, same, leading b y right rightEnd]
  subst run
  exact ⟨rfl, List.append_cancel_left same⟩

def GoesOn : List (List Char) → Prop
  | [] => False
  | first :: others => (∀ d ∈ first, isNameChar d = true) ∧
      ∀ part ∈ others, isIdentifierChars part = true

/-- A path is read from the start of a name or from inside one. Both readings are told together,
    since each dot leads from one to the other. -/
theorem isPathFrom_iff (cs : List Char) :
    (isPathFrom true cs = true ↔ ∀ part ∈ cs.splitOn '.', isIdentifierChars part = true) ∧
    (isPathFrom false cs = true ↔ GoesOn (cs.splitOn '.')) := by
  induction cs with
  | nil => simp [isPathFrom, isIdentifierChars, GoesOn]
  | cons c rest ih =>
    obtain ⟨fresh, inside⟩ := ih
    obtain ⟨first, others, split⟩ := List.exists_cons_of_ne_nil (List.splitOn_ne_nil '.' rest)
    rw [split, GoesOn] at inside
    rw [List.splitOn_cons_eq_if_modifyHead]
    by_cases dot : c = '.'
    · subst dot
      have noLetter : isLetter '.' = false := by decide
      constructor
      · simp [isPathFrom, noLetter, isIdentifierChars]
      · simpa [isPathFrom, GoesOn] using fresh
    · rw [if_neg (by simpa using dot), split]
      constructor
      · simp only [isPathFrom, Bool.and_eq_true, inside]
        simp [identifierChars_cons, and_assoc]
      · simp only [isPathFrom, if_neg dot, Bool.and_eq_true, inside]
        simp [GoesOn, and_assoc]

theorem isPath_iff_isDotted (s : String) : isPath s = true ↔ IsDotted s :=
  (isPathFrom_iff s.toList).1

theorem isPathFrom_chars {fresh : Bool} {cs : List Char} (path : isPathFrom fresh cs = true) :
    ∀ c ∈ cs, c = '.' ∨ isNameChar c = true := by
  induction cs generalizing fresh with
  | nil => simp
  | cons d rest ih =>
    intro c member
    cases fresh with
    | true =>
      simp only [isPathFrom, Bool.and_eq_true] at path
      rcases List.mem_cons.1 member with rfl | later
      · exact .inr (by simp [isNameChar, path.1])
      · exact ih path.2 c later
    | false =>
      simp only [isPathFrom] at path
      split at path
      · rename_i dot
        rcases List.mem_cons.1 member with rfl | later
        · exact .inl dot
        · exact ih path c later
      · rw [Bool.and_eq_true] at path
        rcases List.mem_cons.1 member with rfl | later
        · exact .inr path.1
        · exact ih path.2 c later

theorem not_mem_dotted {s : String} (dotted : IsDotted s) {c : Char} (noDot : c ≠ '.')
    (outside : isNameChar c = false) : c ∉ s.toList := by
  intro member
  rcases isPathFrom_chars ((isPath_iff_isDotted s).2 dotted) c member with dot | inside
  · exact noDot dot
  · rw [inside] at outside
    cases outside

end RegoPolicy.Policy
