import RegoPolicy.Proofs.Heads
import RegoPolicy.Proofs.WellFormed

/-!
The lines of the bodies of predicates and rules. Texts of a document stand there in quotes or as
JSON texts, so that no line of a body opens a definition.
-/
namespace RegoPolicy.Rego

open Policy Json Text

theorem intercalate_closed {holds : List Char → Prop} (nil : holds [])
    (append : ∀ a b, holds a → holds b → holds (a ++ b)) {separator : String} {parts : List String}
    (between : holds separator.toList) (each : ∀ part ∈ parts, holds part.toList) :
    holds (String.intercalate separator parts).toList := by
  induction parts with
  | nil => simpa using nil
  | cons a parts ih =>
    have others := ih fun b member => each b (List.mem_cons_of_mem a member)
    have first := each a List.mem_cons_self
    cases parts with
    | nil => simpa using first
    | cons b parts =>
      rw [String.intercalate_cons_cons, String.toList_append, String.toList_append]
      exact append _ _ (append _ _ first between) others

theorem flat_append (a b : List Char) (left : '\n' ∉ a) (right : '\n' ∉ b) : '\n' ∉ a ++ b := by
  simp [left, right]

theorem escape_no_feed (c : Char) : '\n' ∉ escape c := by
  have pairs : ∀ n < 0x20, '\n' ∉ hexPair n := by decide
  unfold escape
  iterate 7 (split; · decide)
  split
  · rename_i low
    simpa using pairs c.toNat low
  · rename_i feed _ _ _
    simpa using Ne.symm feed

theorem quoted_no_feed (s : String) : '\n' ∉ s.toList.flatMap escape := by
  simp [List.mem_flatMap, escape_no_feed]

theorem quote_flat (s : String) : '\n' ∉ (quote s).toList := by
  simp [quote, escape_no_feed]

theorem quote_run (s : String) : Run (quote s).toList := by
  simpa [quote] using Run.token (token_quoted (quoted_no_feed s))

theorem operand_run (value : String) : Run (operand value).toList := by
  unfold operand
  split
  · rename_i literal
    exact isText_run ((isLiteral_iff_isText value).1 literal)
  · exact quote_run value

theorem list_closed {holds : List Char → Prop} (nil : holds [])
    (append : ∀ a b, holds a → holds b → holds (a ++ b)) (opening : holds "[".toList)
    (closing : holds "]".toList) {separator : String} {parts : List String}
    (between : holds separator.toList) (each : ∀ part ∈ parts, holds part.toList) :
    holds ("[" ++ String.intercalate separator parts ++ "]").toList := by
  have inner := intercalate_closed nil append between each
  rw [String.toList_append, String.toList_append]
  exact append _ _ (append _ _ opening inner) closing

theorem list_run {separator : String} {parts : List String} (between : Run separator.toList)
    (each : ∀ part ∈ parts, Run part.toList) :
    Run ("[" ++ String.intercalate separator parts ++ "]").toList :=
  list_closed .nil (fun _ _ => Run.append) (run_of_singles (by decide))
    (run_of_singles (by decide)) between each

theorem comparand_closed {holds : List Char → Prop} (nil : holds [])
    (append : ∀ a b, holds a → holds b → holds (a ++ b))
    (marks : ∀ mark ∈ ["[", ", ", "]"], holds mark.toList)
    (operands : ∀ value, holds (operand value).toList) (c : Condition) :
    (∃ name, Gives c.constant name ∧ comparand c = name) ∨ holds (comparand c).toList := by
  have listed (values : List String) :
      holds ("[" ++ String.intercalate ", " (values.map operand) ++ "]").toList := by
    refine list_closed nil append (marks _ (by simp)) (marks _ (by simp)) (marks _ (by simp)) ?_
    intro part member
    obtain ⟨value, -, rfl⟩ := List.mem_map.1 member
    exact operands value
  unfold comparand Condition.constantName
  split
  · rename_i name given
    exact .inl ⟨name, (filled_eq_some _ _).1 given, rfl⟩
  · right
    split
    · exact nil
    · rename_i single _
      split
      · simpa using listed [single]
      · exact operands single
    · exact listed _

theorem comparand_cases (c : Condition) :
    (∃ name, Gives c.constant name ∧ comparand c = name) ∨ Run (comparand c).toList := by
  refine comparand_closed .nil (fun _ _ => Run.append) (fun mark member => ?_) operand_run c
  have singles : ∀ mark ∈ ["[", ", ", "]"], mark.toList.all isSingle = true := by decide
  exact run_of_singles (singles mark member)

theorem expression_flat (o : Operator) {path value : String} (straight : '\n' ∉ path.toList)
    (flat : '\n' ∉ value.toList) : '\n' ∉ (expression o path value).toList := by
  unfold expression
  cases o <;>
    simp only [String.toList_append, List.mem_append, straight, flat, or_false, false_or] <;>
    decide

structure Frames (o : Operator) (path front tail post : String) : Prop where
  around : ∀ value, expression o path value = front ++ tail ++ value ++ post
  calm : Calm tail.toList
  start : post.toList.head? ≠ some 'd'
  stop : post.toList.getLast? ≠ some '{'
  equals : '=' ∉ post.toList

theorem expression_frames (o : Operator) {path : String} (plain : '=' ∉ path.toList)
    (compares : o.isExistence = false) : ∃ front tail post, Frames o path front tail post := by
  have calm (a b : Char) {tail : String}
      (ends : [a, b] <:+ tail.toList ∧ a ≠ 'f' ∧ b ≠ 'f' ∧ b ≠ '{') : Calm tail.toList :=
    ⟨a, b, ends⟩
  have bare {front tail : String}
      (around : ∀ value, expression o path value = front ++ tail ++ value)
      (calm : Calm tail.toList) : ∃ front tail post, Frames o path front tail post :=
    ⟨front, tail, "", by simpa using around, calm, by decide, by decide, by decide⟩
  have call {front : String}
      (around : ∀ value, expression o path value = front ++ path ++ ", " ++ value ++ ")") :
      ∃ front tail post, Frames o path front tail post :=
    ⟨front ++ path, ", ", ")", around, calm ',' ' ' (by decide), by decide, by decide, by decide⟩
  cases o with
  | equals => exact bare (fun _ => rfl) (calm '=' ' ' (by decide))
  | notEquals => exact bare (fun _ => rfl) (calm '=' ' ' (by decide))
  | member => exact bare (fun _ => rfl) (calm 'n' ' ' (by decide))
  | notMember => exact bare (fun _ => rfl) (calm 'n' ' ' (by decide))
  | anyMember => exact bare (fun _ => rfl) (calm 'n' ' ' (by decide))
  | allMember =>
    exact ⟨"every _x in " ++ path, " \x7b _x in ", " \x7d", fun _ => rfl,
      calm 'n' ' ' (by decide), by decide, by decide, by decide⟩
  | noMember =>
    exact ⟨"not (some _x in " ++ path, "; _x in ", ")", fun _ => rfl,
      calm 'n' ' ' (by decide), by decide, by decide, by decide⟩
  | contains => exact call fun _ => rfl
  | notContains => exact call fun _ => rfl
  | startsWith => exact call fun _ => rfl
  | endsWith => exact call fun _ => rfl
  | matchesRegex =>
    refine ⟨"", "regex.match(", ", " ++ path ++ ")", ?_, calm 'h' '(' (by decide), ?_, ?_, ?_⟩
    · intro value
      have call : expression .matchesRegex path value =
        "regex.match(" ++ value ++ ", " ++ path ++ ")" := rfl
      rw [call]
      simp [String.append_assoc]
    · simp
    · rw [String.toList_append, List.getLast?_append]
      simp
    · simp [plain]
  | greater => exact bare (fun _ => rfl) (calm '>' ' ' (by decide))
  | less => exact bare (fun _ => rfl) (calm '<' ' ' (by decide))
  | greaterOrEqual => exact bare (fun _ => rfl) (calm '=' ' ' (by decide))
  | lessOrEqual => exact bare (fun _ => rfl) (calm '=' ' ' (by decide))
  | present => cases compares
  | absent => cases compares

theorem hushed_bodyLine {text : String} (flat : '\n' ∉ text.toList) :
    Hushed (bodyLine text).toList := by
  have line : '\n' ∉ "    ".toList ++ text.toList := flat_append _ _ (by decide) flat
  have hushed := hushed_line line (quiet_of_start (c := ' ') (by decide) _)
  simpa [bodyLine] using hushed

/-- A value that is a run of tokens may take several lines. -/
theorem expression_hushed (o : Operator) {path value : String} (straight : '\n' ∉ path.toList)
    (plain : '=' ∉ path.toList) (run : Run value.toList) :
    Hushed (bodyLine (expression o path value)).toList := by
  have shell : '\n' ∉ (expression o path "").toList := expression_flat o straight (by decide)
  cases existence : o.isExistence with
  | true =>
    have silent : expression o path value = expression o path "" := by
      cases o <;> first | rfl | cases existence
    rw [silent]
    exact hushed_bodyLine shell
  | false =>
    obtain ⟨front, tail, post, frames⟩ := expression_frames o plain existence
    simp only [frames.around, String.toList_append, List.mem_append, not_or] at shell
    obtain ⟨⟨⟨flatFront, flatTail⟩, -⟩, flatPost⟩ := shell
    have settled := frames.calm.settled ("    ".toList ++ front.toList)
    obtain ⟨first, rest, split, -, quiet⟩ := run_first_line run (by simp [flatFront, flatTail])
      settled ⟨flatPost, frames.start, frames.stop, frames.equals⟩
    have indented : Quiet ("    ".toList ++ front.toList ++ tail.toList ++ first) :=
      quiet_of_start (c := ' ') (by decide) _
    have hushed := (shows_lines split quiet).hushed indented
    simpa [bodyLine, frames.around] using hushed

section Conditions

variable {constants : List String} {c : Condition}

theorem not_mem_inputPath (wellFormed : c.WellFormed constants) {other : Char}
    (noDot : other ≠ '.') (outside : isNameChar other = false) :
    other ∉ (inputPath c).toList := by
  have input : other ∉ "input".toList := not_mem_identifier (by decide) outside
  unfold inputPath Condition.path
  split
  · rename_i path given
    have dotted := wellFormed.path path ((filled_eq_some _ _).1 given)
    rw [String.toList_append, List.mem_append, not_or]
    exact ⟨by simpa [noDot] using input, not_mem_dotted dotted noDot outside⟩
  · exact input

theorem condition_hushed (named : ∀ name ∈ constants, IsName name)
    (wellFormed : c.WellFormed constants) : Hushed (bodyLine (condition c)).toList := by
  have straight : '\n' ∉ (inputPath c).toList :=
    not_mem_inputPath wellFormed (by decide) (by decide)
  rcases comparand_cases c with ⟨name, given, same⟩ | run
  · have identifier := (named name (wellFormed.declared name given)).1
    rw [condition, same]
    exact hushed_bodyLine (expression_flat _ straight (not_mem_identifier identifier (by decide)))
  · exact expression_hushed _ straight
      (not_mem_inputPath wellFormed (by decide) (by decide)) run

end Conditions

theorem entry_flat {key value : String} (plain : '\n' ∉ key.toList) (flat : '\n' ∉ value.toList) :
    '\n' ∉ (entry key value).toList := by
  simp [entry, plain, flat]

theorem textEntry_flat {key : String} (plain : '\n' ∉ key.toList) (value : Option String) :
    ∀ text ∈ textEntry key value, '\n' ∉ text.toList := by
  intro text member
  obtain ⟨s, -, rfl⟩ := List.mem_map.1 member
  exact entry_flat plain (quote_flat s)

theorem columnsEntry_flat (e : Effect) : ∀ text ∈ columnsEntry e, '\n' ∉ text.toList := by
  unfold columnsEntry
  split <;> decide

theorem effect_flat (e : Effect) : '\n' ∉ (effect e).toList := by
  have entries : ∀ text ∈ effectEntries e, '\n' ∉ text.toList := by
    simp only [effectEntries, List.mem_cons, List.mem_append]
    rintro text (rfl | (((((member | member) | member) | member) | member) | member))
    · exact entry_flat (by decide) (quote_flat _)
    · exact textEntry_flat (by decide) _ text member
    · exact textEntry_flat (by decide) _ text member
    · exact textEntry_flat (by decide) _ text member
    · exact textEntry_flat (by decide) _ text member
    · exact textEntry_flat (by decide) _ text member
    · exact columnsEntry_flat e text member
  have joined : '\n' ∉ (String.intercalate ", " (effectEntries e)).toList :=
    intercalate_closed (by simp) flat_append (by decide) entries
  simpa [effect] using joined

theorem columnsBinding_flat {key : String} (plain : '\n' ∉ key.toList) (value : String) :
    '\n' ∉ (columnsBinding key value).toList := by
  unfold columnsBinding
  simp only [String.toList_append, List.mem_append, plain, quote_flat, or_false]
  decide

theorem targetLine_flat (e : Effect) : ∀ text ∈ targetLine e, '\n' ∉ text.toList := by
  unfold targetLine
  split
  · exact List.forall_mem_singleton.2 (columnsBinding_flat (by decide) _)
  · exact List.forall_mem_singleton.2 (columnsBinding_flat (by decide) _)
  · simp

theorem ruleBody_flat {r : Rule} (references : ∀ ref ∈ r.whenAllOf, IsName ref.name) :
    ∀ text ∈ ruleBody r, '\n' ∉ text.toList := by
  have named : ∀ text ∈ r.whenAllOf.map reference, '\n' ∉ text.toList := by
    intro text member
    obtain ⟨ref, inside, rfl⟩ := List.mem_map.1 member
    have flat : '\n' ∉ ref.name.toList :=
      not_mem_identifier (references ref inside).1 (by decide)
    unfold reference
    split <;> simp [flat]
  unfold ruleBody
  simp only
  split
  · decide
  · intro text member
    rcases List.mem_append.1 member with early | late
    · exact named text early
    · exact targetLine_flat r.effect text late

end RegoPolicy.Rego
