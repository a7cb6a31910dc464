import RegoPolicy.Proofs.WellFormed

/-!
Variables that the lines of a body bind, and the declared names that the same body refers to. A name
keeps its meaning if no binding in whose scope it stands captures it.
-/
namespace RegoPolicy.Rego

open Policy Json

/-- A line that binds a variable for the whole body it stands in. -/
def BindsInBody (v line : String) : Prop :=
  ∃ rest, line = "some " ++ v ++ " in " ++ rest ∨ line = v ++ " := " ++ rest

/-- A line that binds a variable for itself alone. -/
def BindsInLine (v line : String) : Prop :=
  ∃ rest, line = "every " ++ v ++ " in " ++ rest ∨ line = "not (some " ++ v ++ " in " ++ rest

def Captured (body : List String) (line name : String) : Prop :=
  BindsInLine name line ∨ ∃ other ∈ body, BindsInBody name other

/-- A condition is written with a constant. A test of existence is not, even if it gives one. -/
def ComparesWith (c : Condition) (name : String) : Prop :=
  c.operator.isExistence = false ∧ Gives c.constant name

/-- In every body of a document's module, the constants and the predicates that it refers to are the
    ones that the document declares. -/
structure KeepsMeaning (doc : Document) : Prop where
  constants : ∀ p ∈ doc.predicates, ∀ c ∈ p.conditions, ∀ name, ComparesWith c name →
    ¬ Captured (p.conditions.map condition) (condition c) name
  predicates : ∀ r ∈ doc.rules, r.isDefault = false → ∀ ref ∈ r.whenAllOf,
    ¬ Captured (ruleBody r) (reference ref) ref.name

/-- No block that searches for a common member compares with a constant `_x`, no test on all
    members or on none compares with one, and no rule that filters columns refers to a predicate
    `columns`. -/
structure AvoidsBinders (doc : Document) : Prop where
  constants : ∀ p ∈ doc.predicates, ∀ c ∈ p.conditions, ComparesWith c "_x" →
    c.operator ≠ .allMember ∧ c.operator ≠ .noMember ∧
      ∀ other ∈ p.conditions, other.operator ≠ .anyMember
  predicates : ∀ r ∈ doc.rules, r.isDefault = false → r.effect.filters = true →
    ∀ ref ∈ r.whenAllOf, ref.name ≠ "columns"

theorem leading_name {a b x y : List Char} {s t : Char} (left : ∀ c ∈ a, isNameChar c = true)
    (right : ∀ c ∈ b, isNameChar c = true) (leftEnd : isNameChar s = false)
    (rightEnd : isNameChar t = false) (same : a ++ s :: x = b ++ t :: y) : a = b ∧ s = t := by
  have stop {c : Char} {z : List Char} (outside : isNameChar c = false) (d : Char)
      (first : (c :: z).head? = some d) : isNameChar d = false := by
    obtain rfl : c = d := by simpa using first
    exact outside
  obtain ⟨words, rests⟩ := leading_run left right (stop leftEnd) (stop rightEnd) same
  exact ⟨words, (List.cons.inj rests).1⟩

structure Opening where
  word : String
  mark : Char
  tail : String
  deriving DecidableEq

def Opening.text (o : Opening) : String := o.word ++ String.singleton o.mark ++ o.tail

/-- How the expressions start that bind nothing. -/
def openings : List Opening :=
  [⟨"input", '.', ""⟩, ⟨"not", ' ', "input"⟩, ⟨"contains", '(', ""⟩, ⟨"not", ' ', "contains("⟩,
   ⟨"startswith", '(', ""⟩, ⟨"endswith", '(', ""⟩, ⟨"regex", '.', "match("⟩]

/-- How the lines start that bind the variable after it. -/
def starts : List String := ["some ", "every ", "not (some "]

section Lines

variable {v : String} (named : IsName v)

include named

theorem not_assigned (word : String) (mark : Char) (tail : List Char) (more : String)
    (identifier : isIdentifier word = true) (outside : isNameChar mark = false)
    (apart : mark = ' ' → word ∈ reservedNames) :
    word.toList ++ mark :: tail ≠ (v ++ " := " ++ more).toList := by
  intro same
  have split : word.toList ++ mark :: tail = v.toList ++ ' ' :: (":= ".toList ++ more.toList) := by
    simpa using same
  obtain ⟨words, marks⟩ := leading_name (identifier_nameChars identifier)
    (identifier_nameChars named.1) outside (by decide) split
  have reserved := apart marks
  rw [String.toList_injective words] at reserved
  exact named.2 reserved

theorem opening_not_assigned {o : Opening} (plain : o ∈ openings) (rest more : String) :
    o.text ++ rest ≠ v ++ " := " ++ more := by
  have shape : ∀ o ∈ openings, isIdentifier o.word = true ∧ isNameChar o.mark = false ∧
      (o.mark = ' ' → o.word ∈ reservedNames) := by decide
  obtain ⟨identifier, outside, apart⟩ := shape o plain
  intro same
  refine not_assigned named o.word o.mark (o.tail.toList ++ rest.toList) more identifier outside
    apart ?_
  rw [← same]
  simp [Opening.text]

end Lines

theorem other_start {a b : String}
    (apart : ¬ a.toList <+: b.toList ∧ ¬ b.toList <+: a.toList) (v rest more : String) :
    a ++ rest ≠ b ++ v ++ " in " ++ more := by
  intro same
  have chars : a.toList ++ rest.toList = b.toList ++ (v ++ " in " ++ more).toList := by
    simpa using congrArg String.toList same
  have left : a.toList <+: b.toList ++ (v ++ " in " ++ more).toList := ⟨rest.toList, chars⟩
  rcases List.prefix_or_prefix_of_prefix left (List.prefix_append _ _) with shorter | longer
  · exact apart.1 shorter
  · exact apart.2 longer

theorem word_binds_nothing {v line : String} (word : ' ' ∉ line.toList) :
    ¬ BindsInBody v line ∧ ¬ BindsInLine v line := by
  constructor
  · rintro ⟨more, rfl | rfl⟩ <;> simp at word
  · rintro ⟨more, rfl | rfl⟩ <;> simp at word

theorem opening_binds_nothing {v : String} (named : IsName v) {o : Opening} (plain : o ∈ openings)
    (rest : String) : ¬ BindsInBody v (o.text ++ rest) ∧ ¬ BindsInLine v (o.text ++ rest) := by
  have apart : ∀ o ∈ openings, ∀ start ∈ ["some ", "every ", "not (some "],
      ¬ o.text.toList <+: start.toList ∧ ¬ start.toList <+: o.text.toList := by decide
  constructor
  · rintro ⟨more, bound | assigned⟩
    · exact other_start (apart o plain _ (by simp)) v rest more bound
    · exact opening_not_assigned named plain rest more assigned
  · rintro ⟨more, bound | bound⟩
    · exact other_start (apart o plain _ (by simp)) v rest more bound
    · exact other_start (apart o plain _ (by simp)) v rest more bound

theorem expression_cons {o : Operator} {p : Piece} {more : List Piece}
    (first : pieces o = p :: more) (path value : String) :
    ∃ rest, expression o path value = String.ofList (p.fill path value) ++ rest := by
  refine ⟨String.ofList (more.flatMap (Piece.fill path value)), ?_⟩
  apply String.toList_injective
  rw [expression_pieces, first]
  simp

def binder? (o : Operator) : Option String :=
  match pieces o with
  | .fixed text :: _ => starts.find? fun start => text = start ++ "_x in "
  | _ => none

theorem binder_scope (o : Operator) :
    (binder? o = some "some " ↔ o = .anyMember) ∧
      (binder? o = some "every " ∨ binder? o = some "not (some " ↔
        o = .allMember ∨ o = .noMember) := by
  cases o <;> decide

theorem expression_binder {o : Operator} {start : String} (binds : binder? o = some start)
    (path value : String) :
    start ∈ starts ∧ ∃ rest, expression o path value = start ++ "_x in " ++ rest := by
  unfold binder? at binds
  split at binds
  · rename_i text more first
    have found := List.find?_some binds
    obtain rfl : text = start ++ "_x in " := by simpa using found
    refine ⟨List.mem_of_find?_eq_some binds, ?_⟩
    simpa [Piece.fill] using expression_cons first path value
  · cases binds

theorem inputPath_cases (c : Condition) :
    (∃ path, inputPath c = "input." ++ path) ∨
      (inputPath c = "input" ∧ ∀ s, ¬ Gives c.subject s) := by
  unfold inputPath Condition.path
  split
  · exact .inl ⟨_, rfl⟩
  · rename_i none
    refine .inr ⟨rfl, fun s given => ?_⟩
    rw [(filled_eq_some _ _).2 given] at none
    cases none

def Plain (line : String) : Prop :=
  line = "input" ∨ ∃ o ∈ openings, ∃ rest, line = o.text ++ rest

theorem expression_opens (o : Operator) (path value : String) (free : binder? o = none) :
    ∃ opening ∈ openings, ∃ rest, expression o ("input." ++ path) value = opening.text ++ rest := by
  have called (opening : Opening) {text : String} {more : List Piece}
      (first : pieces o = .fixed text :: more) (listed : opening ∈ openings ∧ opening.text = text) :
      ∃ opening ∈ openings, ∃ rest,
        expression o ("input." ++ path) value = opening.text ++ rest := by
    refine ⟨opening, listed.1, ?_⟩
    rw [listed.2]
    simpa [Piece.fill] using expression_cons first ("input." ++ path) value
  have located {more : List Piece} (first : pieces o = .path :: more) : ∃ opening ∈ openings,
      ∃ rest, expression o ("input." ++ path) value = opening.text ++ rest := by
    obtain ⟨rest, text⟩ := expression_cons first ("input." ++ path) value
    refine ⟨⟨"input", '.', ""⟩, by decide, path ++ rest, ?_⟩
    rw [text, Piece.fill, String.ofList_toList, String.append_assoc]
    rfl
  cases o
  case anyMember | allMember | noMember => cases free
  case contains => exact called ⟨"contains", '(', ""⟩ rfl (by decide)
  case notContains => exact called ⟨"not", ' ', "contains("⟩ rfl (by decide)
  case startsWith => exact called ⟨"startswith", '(', ""⟩ rfl (by decide)
  case endsWith => exact called ⟨"endswith", '(', ""⟩ rfl (by decide)
  case matchesRegex => exact called ⟨"regex", '.', "match("⟩ rfl (by decide)
  case notMember =>
    refine ⟨⟨"not", ' ', "input"⟩, by decide, "." ++ path ++ " in " ++ value, ?_⟩
    apply String.toList_injective
    rw [expression_pieces]
    simp [pieces, Piece.fill, Opening.text]
  case absent =>
    refine ⟨⟨"not", ' ', "input"⟩, by decide, "." ++ path, ?_⟩
    apply String.toList_injective
    rw [expression_pieces]
    simp [pieces, Piece.fill, Opening.text]
  all_goals exact located rfl

theorem condition_plain {constants : List String} {c : Condition}
    (wellFormed : c.WellFormed constants) (free : binder? c.operator = none) :
    Plain (condition c) := by
  rcases inputPath_cases c with ⟨path, dotted⟩ | ⟨bare, unset⟩
  · rw [condition, dotted]
    exact .inr (expression_opens c.operator path (comparand c) free)
  · -- only a test of existence may look at the whole input
    have existence : c.operator.isExistence = true := by
      rw [← Bool.not_eq_false]
      intro compares
      obtain ⟨path, given⟩ := wellFormed.subject compares
      exact unset path given
    unfold condition
    rw [bare]
    cases operator : c.operator
    case present => exact .inl rfl
    case absent => exact .inr ⟨⟨"not", ' ', "input"⟩, by decide, "", rfl⟩
    all_goals rw [operator] at existence; cases existence

section Binders

variable {v : String} (named : IsName v)

include named

theorem Plain.binds_nothing {line : String} (plain : Plain line) :
    ¬ BindsInBody v line ∧ ¬ BindsInLine v line := by
  rcases plain with rfl | ⟨o, listed, rest, rfl⟩
  · exact word_binds_nothing (by decide)
  · exact opening_binds_nothing named listed rest

theorem eq_of_word {word : String} (identifier : isIdentifier word = true) {x y : List Char}
    (same : word.toList ++ ' ' :: x = v.toList ++ ' ' :: y) : v = word := by
  have words := (leading_name (identifier_nameChars identifier) (identifier_nameChars named.1)
    (by decide) (by decide) same).1
  exact String.toList_injective words.symm

/-- A line binds one variable, and in the way that it starts. -/
theorem bound_iff {start other : String} (here : start ∈ starts) (there : other ∈ starts)
    (rest : String) :
    (∃ more, start ++ "_x in " ++ rest = other ++ v ++ " in " ++ more) ↔
      start = other ∧ v = "_x" := by
  have apart : ∀ a ∈ starts, ∀ b ∈ starts, a ≠ b →
      ¬ a.toList <+: b.toList ∧ ¬ b.toList <+: a.toList := by decide
  constructor
  · rintro ⟨more, same⟩
    obtain rfl : start = other := by
      by_contra differ
      rw [String.append_assoc] at same
      exact other_start (apart start here other there differ) v _ more same
    have split : "_x".toList ++ ' ' :: ("in ".toList ++ rest.toList) =
        v.toList ++ ' ' :: ("in ".toList ++ more.toList) := by
      simpa using congrArg String.toList same
    exact ⟨rfl, eq_of_word named (by decide) split⟩
  · rintro ⟨rfl, rfl⟩
    exact ⟨rest, by simp only [String.append_assoc]; rfl⟩

theorem binder_not_assigned {start : String} (here : start ∈ starts) (rest more : String) :
    start ++ "_x in " ++ rest ≠ v ++ " := " ++ more := by
  have worded : ∀ start ∈ starts, ∃ word ∈ reservedNames, isIdentifier word = true ∧
      ∃ tail, start.toList = word.toList ++ ' ' :: tail := by
    intro start member
    simp only [starts, List.mem_cons, List.not_mem_nil, or_false] at member
    rcases member with rfl | rfl | rfl
    · exact ⟨"some", by decide, by decide, [], rfl⟩
    · exact ⟨"every", by decide, by decide, [], rfl⟩
    · exact ⟨"not", by decide, by decide, "(some ".toList, rfl⟩
  obtain ⟨word, reserved, identifier, tail, text⟩ := worded start here
  intro same
  refine not_assigned named word ' ' (tail ++ "_x in ".toList ++ rest.toList) more identifier
    (by decide) (fun _ => reserved) ?_
  rw [← same]
  simp [text]

theorem binder_binds {start : String} (here : start ∈ starts) (rest : String) :
    (BindsInBody v (start ++ "_x in " ++ rest) ↔ start = "some " ∧ v = "_x") ∧
      (BindsInLine v (start ++ "_x in " ++ rest) ↔
        (start = "every " ∨ start = "not (some ") ∧ v = "_x") := by
  constructor
  · rw [← bound_iff named here (by decide) rest]
    constructor
    · rintro ⟨more, bound | assigned⟩
      · exact ⟨more, bound⟩
      · exact absurd assigned (binder_not_assigned named here rest more)
    · rintro ⟨more, bound⟩
      exact ⟨more, .inl bound⟩
  · rw [or_and_right, ← bound_iff named here (by decide) rest,
      ← bound_iff named here (by decide) rest, ← exists_or]
    rfl

end Binders

section Bodies

variable {constants : List String} {c : Condition} {v : String} (named : IsName v)

include named

theorem condition_binds (wellFormed : c.WellFormed constants) :
    (BindsInBody v (condition c) ↔ c.operator = .anyMember ∧ v = "_x") ∧
      (BindsInLine v (condition c) ↔
        (c.operator = .allMember ∨ c.operator = .noMember) ∧ v = "_x") := by
  obtain ⟨body, line⟩ := binder_scope c.operator
  rw [← body, ← line]
  cases binds : binder? c.operator with
  | none =>
    have nothing := (condition_plain wellFormed binds).binds_nothing named
    simp [nothing]
  | some start =>
    obtain ⟨listed, rest, bound⟩ := expression_binder binds (inputPath c) (comparand c)
    rw [condition, bound]
    simpa using binder_binds named listed rest

theorem reference_binds_nothing {ref : Reference} (referred : IsName ref.name) :
    ¬ BindsInBody v (reference ref) ∧ ¬ BindsInLine v (reference ref) := by
  unfold reference
  split
  · constructor
    · rintro ⟨more, bound | assigned⟩
      · exact other_start (by decide) v ref.name more bound
      · refine not_assigned named "not" ' ' ref.name.toList more (by decide) (by decide)
          (by decide) ?_
        rw [← assigned]
        simp
    · rintro ⟨more, bound | bound⟩
      · exact other_start (by decide) v ref.name more bound
      · have chars : ref.name.toList = "(some ".toList ++ (v ++ " in " ++ more).toList := by
          simpa using congrArg String.toList bound
        have bracket : '(' ∉ ref.name.toList := not_mem_identifier referred.1 (by decide)
        exact bracket (by simp [chars])
  · exact word_binds_nothing (not_mem_identifier referred.1 (by decide))

theorem columnsBinding_binds (key value : String) :
    BindsInBody v (columnsBinding key value) ↔ v = "columns" := by
  have shape : ∃ rest, columnsBinding key value = "columns := " ++ rest := by
    refine ⟨"[col | col := input.columns[_]; col[\"" ++ key ++ "\"] == " ++ quote value ++ "]", ?_⟩
    unfold columnsBinding
    simp only [← String.append_assoc]
    rfl
  obtain ⟨rest, text⟩ := shape
  rw [text]
  constructor
  · rintro ⟨more, bound | assigned⟩
    · exact absurd bound (other_start (by decide) v rest more)
    · have split : "columns".toList ++ ' ' :: (":= ".toList ++ rest.toList) =
          v.toList ++ ' ' :: (":= ".toList ++ more.toList) := by
        simpa using congrArg String.toList assigned
      exact eq_of_word named (by decide) split
  · rintro rfl
    exact ⟨rest, .inr rfl⟩

theorem targetLine_binds (e : Effect) :
    (∃ line ∈ targetLine e, BindsInBody v line) ↔ e.filters = true ∧ v = "columns" := by
  unfold targetLine Effect.filters
  cases e.target with
  | none => simp
  | some target => cases target <;> simp [columnsBinding_binds named]

theorem ruleBody_binds {r : Rule} (references : ∀ ref ∈ r.whenAllOf, IsName ref.name) :
    (∃ line ∈ ruleBody r, BindsInBody v line) ↔ r.effect.filters = true ∧ v = "columns" := by
  have quiet : ∀ line ∈ r.whenAllOf.map reference, ¬ BindsInBody v line := by
    intro line member
    obtain ⟨ref, inside, rfl⟩ := List.mem_map.1 member
    exact (reference_binds_nothing named (references ref inside)).1
  rw [← targetLine_binds named]
  unfold ruleBody
  simp only
  split
  · rename_i empty
    rw [List.isEmpty_iff, List.append_eq_nil_iff] at empty
    have word : ¬ BindsInBody v "true" := (word_binds_nothing (by decide)).1
    simp [empty.2, word]
  · constructor
    · rintro ⟨line, member, bound⟩
      rcases List.mem_append.1 member with early | late
      · exact absurd bound (quiet line early)
      · exact ⟨line, late, bound⟩
    · rintro ⟨line, member, bound⟩
      exact ⟨line, List.mem_append_right _ member, bound⟩

theorem condition_captured {p : Predicate} (wellFormed : p.WellFormed constants)
    (inside : c ∈ p.conditions) :
    Captured (p.conditions.map condition) (condition c) v ↔ v = "_x" ∧
      ((c.operator = .allMember ∨ c.operator = .noMember) ∨
        ∃ other ∈ p.conditions, other.operator = .anyMember) := by
  have own := (condition_binds named (wellFormed.conditions c inside)).2
  have others : (∃ line ∈ p.conditions.map condition, BindsInBody v line) ↔
      (∃ other ∈ p.conditions, other.operator = .anyMember) ∧ v = "_x" := by
    constructor
    · rintro ⟨line, member, bound⟩
      obtain ⟨other, within, rfl⟩ := List.mem_map.1 member
      obtain ⟨search, same⟩ :=
        (condition_binds named (wellFormed.conditions other within)).1.1 bound
      exact ⟨⟨other, within, search⟩, same⟩
    · rintro ⟨⟨other, within, search⟩, same⟩
      exact ⟨condition other, List.mem_map_of_mem within,
        (condition_binds named (wellFormed.conditions other within)).1.2 ⟨search, same⟩⟩
  rw [Captured, own, others, ← or_and_right, and_comm]

theorem reference_captured {r : Rule} (references : ∀ ref ∈ r.whenAllOf, IsName ref.name)
    {ref : Reference} (inside : ref ∈ r.whenAllOf) :
    Captured (ruleBody r) (reference ref) v ↔ r.effect.filters = true ∧ v = "columns" := by
  have own := (reference_binds_nothing named (references ref inside)).2
  rw [Captured, ruleBody_binds named references]
  exact or_iff_right own

end Bodies

theorem keepsMeaning_of_avoids {doc : Document} (wellFormed : doc.WellFormed)
    (avoids : AvoidsBinders doc) : KeepsMeaning doc := by
  constructor
  · intro p member c inside name given captured
    have checked := wellFormed.predicates p member
    have named :=
      wellFormed.constant_named name ((checked.conditions c inside).declared name given.2)
    obtain ⟨rfl, binds⟩ := (condition_captured named checked inside).1 captured
    obtain ⟨notAll, notNone, noSearch⟩ := avoids.constants p member c inside given
    rcases binds with (all | none) | ⟨other, within, search⟩
    · exact notAll all
    · exact notNone none
    · exact noSearch other within search
  · intro r member conditional ref inside captured
    have named := wellFormed.reference_named member
    obtain ⟨filters, same⟩ := (reference_captured (named ref inside) named inside).1 captured
    exact avoids.predicates r member conditional filters ref inside same

theorem avoids_of_keepsMeaning {doc : Document} (wellFormed : doc.WellFormed)
    (keeps : KeepsMeaning doc) : AvoidsBinders doc := by
  constructor
  · intro p member c inside given
    have free := keeps.constants p member c inside "_x" given
    rw [condition_captured (by decide) (wellFormed.predicates p member) inside] at free
    refine ⟨fun all => ?_, fun none => ?_, fun other within search => ?_⟩
    · exact free ⟨rfl, .inl (.inl all)⟩
    · exact free ⟨rfl, .inl (.inr none)⟩
    · exact free ⟨rfl, .inr ⟨other, within, search⟩⟩
  · intro r member conditional filters ref inside same
    have named := wellFormed.reference_named member
    have free := keeps.predicates r member conditional ref inside
    rw [reference_captured (named ref inside) named inside] at free
    exact free ⟨filters, same⟩

theorem avoids_of_free {doc : Document} (wellFormed : doc.WellFormed)
    (constant : "_x" ∉ doc.constantNames) (predicate : "columns" ∉ doc.predicateNames) :
    AvoidsBinders doc := by
  constructor
  · intro p member c inside given
    have checked := (wellFormed.predicates p member).conditions c inside
    exact absurd (checked.declared "_x" given.2) constant
  · intro r member _ _ ref inside same
    have declared := (wellFormed.rules r member).references ref inside
    rw [same] at declared
    exact predicate declared

/-- Which compiled documents keep the meaning of their names. Keeping two names free is enough. -/
theorem keepsMeaning_iff_avoidsBinders {doc : Document} {policy : Compiled}
    (compiled : doc.compile = .ok policy) :
    (KeepsMeaning doc ↔ AvoidsBinders doc) ∧
      ("_x" ∉ doc.constantNames → "columns" ∉ doc.predicateNames → KeepsMeaning doc) := by
  have wellFormed := ((compile_eq_ok doc policy).1 compiled).1
  refine ⟨⟨avoids_of_keepsMeaning wellFormed, keepsMeaning_of_avoids wellFormed⟩, ?_⟩
  intro constant predicate
  exact keepsMeaning_of_avoids wellFormed (avoids_of_free wellFormed constant predicate)

def comparing (constant predicate : String) : Document where
  description := none
  connectors := []
  constants := [⟨constant, "[1]"⟩]
  predicates := [⟨predicate, [⟨.anyMember, some "groups", [], some constant⟩]⟩]
  rules := [⟨"hide", false, ⟨.mask, none, none, none, none, none, some "email", none, false⟩,
    [⟨predicate, false⟩], 0⟩]
  rawRego := none

/-- A document that searches for a common member and asks for existence, with a constant that only
    the second gives. -/
def asking : Document where
  description := none
  connectors := []
  constants := [⟨"_x", "[1]"⟩]
  predicates := [⟨"asked",
    [⟨.present, some "name", [], some "_x"⟩, ⟨.anyMember, some "groups", ["1"], none⟩]⟩]
  rules := []
  rawRego := none

/-- Each of the two names is accepted and loses its meaning. With other names nothing does, and
    neither does a constant that is not written. -/
theorem comparing_loses_meaning :
    (∃ policy, (comparing "_x" "shared").compile = .ok policy ∧
      ¬ KeepsMeaning (comparing "_x" "shared")) ∧
    (∃ policy, (comparing "allowed" "columns").compile = .ok policy ∧
      ¬ KeepsMeaning (comparing "allowed" "columns")) ∧
    (∃ policy, (comparing "allowed" "shared").compile = .ok policy ∧
      KeepsMeaning (comparing "allowed" "shared")) ∧
    ∃ policy, asking.compile = .ok policy ∧ KeepsMeaning asking := by
  have first := compile_of_clean (comparing "_x" "shared") (by decide +kernel)
  have second := compile_of_clean (comparing "allowed" "columns") (by decide +kernel)
  have third := compile_of_clean (comparing "allowed" "shared") (by decide +kernel)
  have fourth := compile_of_clean asking (by decide +kernel)
  refine ⟨⟨_, first, fun keeps => ?_⟩, ⟨_, second, fun keeps => ?_⟩, ⟨_, third, ?_⟩,
    ⟨_, fourth, ?_⟩⟩
  · have avoids := (keepsMeaning_iff_avoidsBinders first).1.1 keeps
    obtain ⟨-, -, noSearch⟩ := avoids.constants _ List.mem_cons_self _ List.mem_cons_self
      ⟨rfl, rfl, by decide⟩
    exact noSearch _ List.mem_cons_self rfl
  · have avoids := (keepsMeaning_iff_avoidsBinders second).1.1 keeps
    exact avoids.predicates _ List.mem_cons_self rfl rfl _ List.mem_cons_self rfl
  · exact (keepsMeaning_iff_avoidsBinders third).2 (by decide) (by decide)
  · refine (keepsMeaning_iff_avoidsBinders fourth).1.2 ⟨?_, by simp [asking]⟩
    simp [asking, ComparesWith, Gives, Operator.isExistence]

end RegoPolicy.Rego
