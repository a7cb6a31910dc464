import RegoPolicy.Proofs.DefinedBefore
import RegoPolicy.Proofs.RuleTexts

/-!
Where rules use the columns and where they bind them. An effect names its columns by a variable
exactly if the last line of the body binds this variable, and it is bound to the columns that the
one target of the rule chooses. Blocks have bodies of at least one line.
-/
namespace RegoPolicy.Rego

open Policy Json

section Words

structure Wordless (text : List Char) : Prop where
  closed : Mode.fresh.after text = .fresh
  silent : bareWords text = []

theorem Wordless.words_behind {a : List Char} (front : Wordless a) (b : List Char) :
    bareWords (a ++ b) = bareWords b := by
  rw [bareWords_append front.closed (.inl front.closed), front.silent, List.nil_append]

theorem wordless_append (a b : List Char) (left : Wordless a) (right : Wordless b) :
    Wordless (a ++ b) := by
  refine ⟨?_, ?_⟩
  · rw [after_append, left.closed, right.closed]
  · rw [left.words_behind, right.silent]

theorem quote_wordless (s : String) : Wordless (quote s).toList := by
  have inside := escapes_enclosed s.toList
  have chars : (quote s).toList = '"' :: (s.toList.flatMap escape ++ ['"']) := by simp [quote]
  have reached : Mode.fresh.after (quote s).toList = .fresh := by
    rw [chars]
    change Mode.quoted.after _ = _
    rw [after_append, inside.stays]
    rfl
  refine ⟨reached, ?_⟩
  rw [bareWords_eq, reached, ended_fresh, List.append_nil, chars]
  change wordsFrom .quoted _ = _
  rw [wordsFrom_append, inside.silent, inside.stays]
  rfl

theorem effectTexts_wordless (e : Effect) : Wordless (effectTexts e).toList := by
  have fronts : ∀ key ∈ effectKeys, Mode.fresh.after ("\"" ++ key ++ "\": ").toList = .fresh ∧
      bareWords ("\"" ++ key ++ "\": ").toList = [] := by decide
  refine intercalate_closed ⟨rfl, by decide⟩ wordless_append ⟨by decide, by decide⟩ ?_
  intro text member
  obtain ⟨m, inside, rfl⟩ := List.mem_map.1 member
  obtain ⟨closed, silent⟩ := fronts m.1 (metadata_keys e inside)
  rw [entry, String.toList_append]
  exact wordless_append _ _ ⟨closed, silent⟩ (quote_wordless m.2)

/-- The texts of an effect are strings, so that its columns alone are named by a word. -/
theorem bareWords_effect (e : Effect) : bareWords (effect e).toList =
    if e.target.isNone then [] else if e.allColumns then ["input"] else ["columns"] := by
  have opening : Wordless "\x7b ".toList := ⟨by decide, by decide⟩
  have front := wordless_append _ _ opening (effectTexts_wordless e)
  rw [effect_eq, String.append_assoc, String.toList_append, String.toList_append,
    front.words_behind]
  split
  · decide
  · split <;> decide

theorem bareWords_default {r : Rule} (named : IsName r.name) (fallback : r.isDefault = true) :
    bareWords (rule r).toList =
      "default" :: r.name :: bareWords (effect r.effect).toList := by
  have word : Mode.fresh.after "default ".toList = .fresh := by decide
  have sign : Wordless " := ".toList := ⟨by decide, by decide⟩
  have text : (rule r).toList = "default ".toList ++ (r.name.toList ++ (" := ".toList ++
      ((effect r.effect).toList ++ '\n' :: []))) := by
    simp [rule, fallback]
  obtain ⟨reached, -⟩ := after_word (identifier_nameChars named.1) [] false
  have boundary : ∀ c, (" := ".toList ++ ((effect r.effect).toList ++ '\n' :: [])).head? = some c →
      isNameChar c = false := by
    rintro c ⟨⟩
    decide
  rw [text, bareWords_append word (.inl word), bareWords_append reached (.inr boundary),
    sign.words_behind, bareWords_feed, bareWords_name named.1]
  have first : bareWords "default ".toList = ["default"] := by decide
  have last : bareWords [] = [] := by decide
  rw [first, last]
  simp

end Words

section Blocks

def blockBody (text : String) : List (List Char) :=
  ((text.toList.splitOn '\n').drop 1).dropLast.dropLast

def indented (line : String) : List Char := "    ".toList ++ line.toList

theorem bodyLines_chars (body : List String) :
    (String.join (body.map bodyLine)).toList =
      (body.map indented).flatMap fun line => line ++ ['\n'] := by
  simp [String.toList_join, List.flatMap_map, bodyLine, indented]

theorem blockBody_definition {head : String} (flat : '\n' ∉ head.toList) (body : List String) :
    blockBody (definition head body) = (body.map indented).flatMap (·.splitOn '\n') := by
  have text : (definition head body).toList = (head.toList ++ " if \x7b".toList) ++ '\n' ::
      ((String.join (body.map bodyLine)).toList ++ "\x7d\n".toList) := by
    simp [definition]
  have line : '\n' ∉ head.toList ++ " if \x7b".toList := by simp [flat]
  have closing : "\x7d\n".toList.splitOn '\n' = [['}'], []] := by decide
  rw [blockBody, text, List.splitOn_append_cons_self, List.splitOn_eq_singleton line,
    bodyLines_chars, splitOn_ended, closing]
  simp

theorem blockBody_ne_nil {head : String} (flat : '\n' ∉ head.toList) {body : List String}
    (some : body ≠ []) : blockBody (definition head body) ≠ [] := by
  obtain ⟨line, rest, rfl⟩ := List.exists_cons_of_ne_nil some
  rw [blockBody_definition flat, List.map_cons, List.flatMap_cons]
  exact List.append_ne_nil_of_left_ne_nil (List.splitOn_ne_nil _ _) _

variable {r : Rule}

theorem ruleHead_flat (named : IsName r.name) :
    '\n' ∉ (r.name ++ " := " ++ effect r.effect).toList := by
  have name : '\n' ∉ r.name.toList := not_mem_identifier named.1 (by decide)
  simp [name, effect_flat]

theorem ruleBody_ne_nil (r : Rule) : ruleBody r ≠ [] := by
  unfold ruleBody
  simp only
  split
  · simp
  · rename_i some
    simpa using some

theorem blockBody_conditional (named : IsName r.name) (conditional : r.isDefault = false)
    (references : ∀ ref ∈ r.whenAllOf, IsName ref.name) :
    blockBody (rule r) = (ruleBody r).map indented := by
  have flat : ∀ line ∈ (ruleBody r).map indented, '\n' ∉ line := by
    intro line member
    obtain ⟨text, inside, rfl⟩ := List.mem_map.1 member
    simp [indented, ruleBody_flat references text inside]
  have text : rule r = definition (r.name ++ " := " ++ effect r.effect) (ruleBody r) := by
    simp [rule, conditional]
  rw [text, blockBody_definition (ruleHead_flat named), flatMap_splitOn_flat flat]

theorem blockBody_default (named : IsName r.name) (fallback : r.isDefault = true) :
    blockBody (rule r) = [] := by
  have text : (rule r).toList =
      ("default ".toList ++ (r.name ++ " := " ++ effect r.effect).toList) ++ '\n' :: [] := by
    simp [rule, fallback]
  have line : '\n' ∉ "default ".toList ++ (r.name ++ " := " ++ effect r.effect).toList :=
    List.not_mem_append (by decide) (ruleHead_flat named)
  rw [blockBody, text, List.splitOn_append_cons_self, List.splitOn_eq_singleton line]
  simp

end Blocks

section Bindings

def Target.filter? : Target → Option (String × String)
  | .dataLabel label => some ("data_label", label)
  | .columnName name => some ("name", name)
  | .allColumns => none

def bindsColumns (line : List Char) : Bool :=
  (indented "columns := [col | ").isPrefixOf line

def columnBindings (text : String) : List (List Char) := (blockBody text).filter bindsColumns

theorem targetLine_eq (e : Effect) : targetLine e =
    ((e.target.bind Target.filter?).map fun f => columnsBinding f.1 f.2).toList := by
  unfold targetLine
  cases e.target with
  | none => rfl
  | some target => cases target <;> rfl

theorem bindsColumns_equals {line : List Char} (binds : bindsColumns line = true) : '=' ∈ line := by
  have front : indented "columns := [col | " <+: line := List.isPrefixOf_iff_prefix.1 binds
  exact front.subset (by decide)

theorem bindsColumns_binding {target : Target} {f : String × String}
    (chosen : Target.filter? target = some f) :
    bindsColumns (indented (columnsBinding f.1 f.2)) = true := by
  have fronts : ∀ key ∈ ["data_label", "name"],
      (indented "columns := [col | ").isPrefixOf (indented (columnsFront key)) = true := by
    decide +kernel
  have known : f.1 ∈ ["data_label", "name"] := by
    cases target with
    | allColumns => cases chosen
    | dataLabel label => cases chosen; simp
    | columnName name => cases chosen; simp
  have text : columnsBinding f.1 f.2 = columnsFront f.1 ++ quote f.2 ++ "]" := rfl
  have front := List.isPrefixOf_iff_prefix.1 (fronts f.1 known)
  apply List.isPrefixOf_iff_prefix.2
  rw [text]
  refine front.trans ⟨(quote f.2 ++ "]").toList, ?_⟩
  simp [indented]

theorem ruleBody_split {r : Rule} (references : ∀ ref ∈ r.whenAllOf, IsName ref.name) :
    ∃ front, ruleBody r = front ++ targetLine r.effect ∧ ∀ line ∈ front, '=' ∉ line.toList := by
  have plain : ∀ line ∈ r.whenAllOf.map reference, '=' ∉ line.toList := by
    intro line member
    exact of_decide_eq_true (references_no_equals references line member)
  unfold ruleBody
  simp only
  split
  · rename_i none
    obtain ⟨-, noTarget⟩ := List.append_eq_nil_iff.1 (List.isEmpty_iff.1 none)
    exact ⟨["true"], by rw [noTarget, List.append_nil], by decide⟩
  · exact ⟨_, rfl, plain⟩

theorem columnBindings_conditional {r : Rule} (named : IsName r.name)
    (conditional : r.isDefault = false) (references : ∀ ref ∈ r.whenAllOf, IsName ref.name) :
    columnBindings (rule r) = (targetLine r.effect).map indented ∧
      (targetLine r.effect).map indented <:+ blockBody (rule r) := by
  obtain ⟨front, body, plain⟩ := ruleBody_split references
  have silent : (front.map indented).filter bindsColumns = [] := by
    rw [List.filter_eq_nil_iff]
    intro line member binds
    obtain ⟨text, inside, rfl⟩ := List.mem_map.1 member
    have equals := bindsColumns_equals binds
    simp [indented, plain text inside] at equals
  have kept : ∀ line ∈ (targetLine r.effect).map indented, bindsColumns line = true := by
    intro line member
    obtain ⟨text, inside, rfl⟩ := List.mem_map.1 member
    rw [targetLine_eq, Option.mem_toList, Option.map_eq_some_iff] at inside
    obtain ⟨f, found, rfl⟩ := inside
    obtain ⟨target, -, chosen⟩ := Option.bind_eq_some_iff.1 found
    exact bindsColumns_binding chosen
  rw [columnBindings, blockBody_conditional named conditional references, body, List.map_append,
    List.filter_append, silent, List.nil_append, List.filter_eq_self.2 kept]
  exact ⟨rfl, List.suffix_append _ _⟩

end Bindings

section Emission

theorem dropFeeds_append (a b : List Char) :
    dropFeeds (a ++ b) = if dropFeeds b = [] then dropFeeds a else a ++ dropFeeds b := by
  unfold dropFeeds
  rw [List.reverse_append, List.dropWhile_append]
  by_cases empty : b.reverse.dropWhile (· = '\n') = []
  · simp [empty]
  · simp [empty]

theorem prefix_dropFeeds {c : Char} (solid : c ≠ '\n') (front back : List Char) :
    front ++ [c, '\n'] <+: dropFeeds (front ++ [c, '\n'] ++ back) ++ ['\n'] := by
  have start : dropFeeds (front ++ [c]) = front ++ [c] := by
    simp [dropFeeds, solid]
  have split : front ++ [c, '\n'] ++ back = front ++ [c] ++ '\n' :: back := by
    simp
  rw [split, dropFeeds_append, start]
  split
  · exact ⟨[], by simp⟩
  · rename_i more
    have fronted : dropFeeds ('\n' :: back) <+: '\n' :: back := by
      rw [dropFeeds, ← List.reverse_suffix]
      simpa using List.dropWhile_suffix _
    obtain ⟨rest, others, cut⟩ := List.exists_cons_of_ne_nil more
    rw [cut] at fronted
    obtain rfl : rest = '\n' := (List.cons_prefix_cons.1 fronted).1
    rw [cut]
    exact ⟨others ++ ['\n'], by simp⟩

theorem infix_dropFeeds {c : Char} (solid : c ≠ '\n') (front text back : List Char) :
    text ++ [c, '\n'] <:+: dropFeeds (front ++ (text ++ [c, '\n']) ++ back) ++ ['\n'] := by
  obtain ⟨rest, whole⟩ := prefix_dropFeeds solid (front ++ text) back
  exact ⟨front, rest, by simpa using whole⟩

theorem section_emitted {d : Draft} {text : String} {front : List Char}
    (written : text ++ "\n" ∈ sections d) (ends : text.toList = front ++ ['}', '\n']) :
    text.toList <:+: (moduleText d).toList := by
  obtain ⟨before, after, split⟩ := List.append_of_mem written
  have joined : (String.join (sections d)).toList =
      (String.join before).toList ++ (front ++ ['}', '\n']) ++
        '\n' :: (String.join after).toList := by
    simp [split, ends]
  rw [moduleText_toList, joined, ends]
  exact infix_dropFeeds (by decide) _ _ _

theorem definition_ends (head : String) (body : List String) :
    ∃ front, (definition head body).toList = front ++ ['}', '\n'] :=
  ⟨(head ++ " if \x7b\n" ++ String.join (body.map bodyLine)).toList, by simp [definition]⟩

theorem rule_ends (r : Rule) : ∃ front, (rule r).toList = front ++ ['}', '\n'] := by
  unfold rule
  split
  · refine ⟨("default " ++ r.name ++ " := \x7b " ++
      String.intercalate ", " (effectEntries r.effect) ++ " ").toList, ?_⟩
    simp [effect]
  · exact definition_ends _ _

variable {doc : Document}

theorem rule_emitted {r : Rule} (member : r ∈ doc.rules) :
    (rule r).toList <:+: (moduleText (Draft.ofDocument doc).checkReferences).toList := by
  obtain ⟨front, ends⟩ := rule_ends r
  refine section_emitted ?_ ends
  rw [ofDocument_eq]
  exact List.mem_append_right _ (rule_written member)

theorem predicate_emitted {p : Predicate} (member : p ∈ doc.predicates) :
    (predicate p).toList <:+: (moduleText (Draft.ofDocument doc).checkReferences).toList := by
  obtain ⟨front, ends⟩ := definition_ends p.name (p.conditions.map condition)
  refine section_emitted ?_ ends
  rw [ofDocument_eq]
  exact List.mem_append_left _ (List.mem_append_left _
    (List.mem_append_right _ (predicate_written member)))

end Emission

structure ColumnsBound (r : Rule) : Prop where
  used : "columns" ∈ bareWords (effect r.effect).toList ↔
    r.isDefault = false ∧ columnBindings (rule r) ≠ []
  /-- they are bound once, on the last line, and by the one target of the rule -/
  once : columnBindings (rule r) ≠ [] → ∃ target key value,
    r.effect.targets = [target] ∧ Target.filter? target = some (key, value) ∧
    columnBindings (rule r) = [indented (columnsBinding key value)] ∧
    (blockBody (rule r)).getLast? = some (indented (columnsBinding key value))
  fallback : r.isDefault = true → bareWords (rule r).toList =
    "default" :: r.name :: if r.effect.target.isNone then [] else ["input"]
  filled : r.isDefault = false → blockBody (rule r) ≠ []

section Rules

variable {r : Rule} {constants predicates : List String}

theorem columns_named_iff (e : Effect) :
    "columns" ∈ bareWords (effect e).toList ↔ targetLine e ≠ [] := by
  have whole := e.target_allColumns
  rw [bareWords_effect, targetLine]
  cases chosen : e.target with
  | none => simp
  | some target =>
    rw [chosen] at whole
    cases target with
    | allColumns => simp [whole.1 rfl]
    | dataLabel label =>
      have some : e.allColumns = false := by simpa using whole
      simp [some]
    | columnName name =>
      have some : e.allColumns = false := by simpa using whole
      simp [some]

theorem targets_single {e : Effect} (right : e.RightTargets) {target : Target}
    (chosen : e.target = some target) : e.targets = [target] := by
  have most : e.targets.length ≤ 1 := by
    unfold Effect.RightTargets at right
    split at right <;> omega
  obtain ⟨rest, targets⟩ := List.head?_eq_some_iff.1 chosen
  rw [targets, List.length_cons] at most
  have alone : rest = [] := List.length_eq_zero_iff.1 (by omega)
  rw [targets, alone]

theorem default_columns (wellFormed : r.WellFormed constants predicates)
    (fallback : r.isDefault = true) : ColumnsBound r := by
  have unbound : columnBindings (rule r) = [] := by
    rw [columnBindings, blockBody_default wellFormed.name fallback, List.filter_nil]
  refine ⟨?_, fun bound => absurd unbound bound, fun _ => ?_, fun conditional => ?_⟩
  · simp [columns_named_iff, targetLine_default wellFormed fallback, fallback]
  · rw [bareWords_default wellFormed.name fallback, bareWords_effect]
    -- a target of a default rule is all columns
    cases chosen : r.effect.target with
    | none => rfl
    | some target =>
      obtain rfl := wellFormed.unfiltered fallback target chosen
      simp [r.effect.target_allColumns.1 chosen]
  · rw [fallback] at conditional
    cases conditional

theorem conditional_columns (wellFormed : r.WellFormed constants predicates)
    (references : ∀ ref ∈ r.whenAllOf, IsName ref.name) (conditional : r.isDefault = false) :
    ColumnsBound r := by
  obtain ⟨bindings, last⟩ := columnBindings_conditional wellFormed.name conditional references
  refine ⟨?_, fun bound => ?_, fun fallback => ?_, fun _ => ?_⟩
  · rw [columns_named_iff, bindings]
    simp [conditional]
  · rw [bindings, targetLine_eq] at *
    cases found : r.effect.target.bind Target.filter? with
    | none => simp [found] at bound
    | some f =>
      obtain ⟨target, chosen, filters⟩ := Option.bind_eq_some_iff.1 found
      rw [found] at last
      obtain ⟨front, body⟩ := last
      refine ⟨target, f.1, f.2, targets_single wellFormed.targets chosen, filters, rfl, ?_⟩
      rw [← body]
      simp
  · rw [conditional] at fallback
    cases fallback
  · rw [blockBody_conditional wellFormed.name conditional references]
    simpa using ruleBody_ne_nil r

end Rules

/-- In a compiled document columns are used exactly where they are bound, and no block is empty. -/
theorem columns_used_where_bound {doc : Document} {policy : Compiled}
    (compiled : doc.compile = .ok policy) :
    (∀ r ∈ doc.rules, (rule r).toList <:+: policy.rego.toList ∧ ColumnsBound r) ∧
      ∀ p ∈ doc.predicates, (predicate p).toList <:+: policy.rego.toList ∧
        blockBody (predicate p) ≠ [] := by
  obtain ⟨wellFormed, rfl⟩ := (compile_eq_ok doc policy).1 compiled
  refine ⟨fun r member => ⟨rule_emitted member, ?_⟩, fun p member => ⟨predicate_emitted member, ?_⟩⟩
  · have checked := wellFormed.rules r member
    cases kind : r.isDefault with
    | true => exact default_columns checked kind
    | false => exact conditional_columns checked (wellFormed.reference_named member) kind
  · have checked := wellFormed.predicates p member
    have flat : '\n' ∉ p.name.toList := not_mem_identifier checked.name.1 (by decide)
    apply blockBody_ne_nil flat
    simpa using checked.nonempty

/-- A rule whose texts speak of columns, with a reference that has their name. -/
def hidesPay : Rule :=
  ⟨"hide_pay", false,
    ⟨.mask, some "hash", none, none, some "\", \"columns\": columns", none,
      some "pay\"] columns := [col | ", some "", false⟩,
    [⟨"columns", true⟩], 0⟩

def allowsAll : Rule :=
  ⟨"allowed", true, ⟨.mask, none, none, none, none, some "columns", none, some "", true⟩, [], 1⟩

def payroll : Document where
  description := none
  connectors := []
  constants := []
  predicates := [⟨"columns", [⟨.present, some "user.id", [], none⟩]⟩]
  rules := [hidesPay, allowsAll]
  rawRego := none

/-- Neither strings nor references are mistaken for the variable. -/
theorem payroll_columns_bound :
    ∃ policy, payroll.compile = .ok policy ∧
      ((rule hidesPay).toList <:+: policy.rego.toList ∧ ColumnsBound hidesPay) ∧
      bareWords (effect hidesPay.effect).toList = ["columns"] ∧
      blockBody (rule hidesPay) = ["    not columns".toList,
        ("    columns := [col | col := input.columns[_]; " ++
          "col[\"data_label\"] == \"pay\\\"] columns := [col | \"]").toList] ∧
      ((rule allowsAll).toList <:+: policy.rego.toList ∧ ColumnsBound allowsAll) ∧
      bareWords (rule allowsAll).toList = ["default", "allowed", "input"] := by
  have compiled := compile_of_clean payroll (by decide +kernel)
  have bound := (columns_used_where_bound compiled).1
  refine ⟨_, compiled, bound hidesPay (by decide), by decide +kernel, ?_,
    bound allowsAll (by decide), by decide +kernel⟩
  rw [blockBody_conditional (by decide) rfl (by decide)]
  decide +kernel

end RegoPolicy.Rego
