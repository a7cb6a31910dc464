import RegoPolicy.Proofs.ModuleHeads

/-!
What a module refers to is defined further up. The predicates that a rule asks for stand before the
rule, and the constant that a condition compares with stands before the predicate, whatever the raw
text between them holds.
-/
namespace RegoPolicy.Rego

open Policy Text

/-- A line is there, and wherever it stands a definition stands before it. -/
def DefinedBefore (text : String) (line : List Char) (defines : List Char → Prop) : Prop :=
  line ∈ text.toList.splitOn '\n' ∧
    ∀ front back, text.toList.splitOn '\n' = front ++ line :: back → ∃ found ∈ front, defines found

namespace Ended

theorem flatMap {α : Type} {l : List α} {write : α → List Char}
    (each : ∀ a ∈ l, Ended (write a)) : Ended (l.flatMap write) := by
  induction l with
  | nil => exact .inl rfl
  | cons a l ih =>
    have rest := ih fun b member => each b (List.mem_cons_of_mem a member)
    exact (each a List.mem_cons_self).append rest

theorem line_mem {pre line : List Char} (ended : Ended pre) (flat : '\n' ∉ line)
    (post : List Char) : line ∈ (pre ++ (line ++ '\n' :: post)).splitOn '\n' := by
  have first : line ∈ (line ++ '\n' :: post).splitOn '\n' := by
    rw [List.splitOn_append_cons_self, List.splitOn_eq_singleton flat]
    exact List.mem_cons_self
  rcases ended with rfl | ⟨front, rfl⟩
  · exact first
  · rw [List.append_assoc, List.singleton_append, List.splitOn_append_cons_self]
    exact List.mem_append_right _ first

theorem feed (s : String) : Ended (s ++ "\n").toList :=
  .inr ⟨s.toList, String.toList_append⟩

theorem first_mem {pre line rest : List Char} (ended : Ended pre) {texts : List String}
    (closed : ∀ s ∈ texts, Ended s.toList) {s : String} (member : s ∈ texts)
    (starts : s.toList = line ++ '\n' :: rest) (flat : '\n' ∉ line) (post : List Char) :
    line ∈ (pre ++ ((String.join texts).toList ++ post)).splitOn '\n' := by
  obtain ⟨before, after, rfl⟩ := List.append_of_mem member
  have whole : Ended (before.flatMap String.toList) :=
    flatMap fun t inside => closed t (List.mem_append_left _ inside)
  have found := (ended.append whole).line_mem flat (rest ++ (after.flatMap String.toList ++ post))
  simpa [String.toList_join, starts] using found

end Ended

/-- A part that defines a name and does not use another: each use below it has a definition before
    it. -/
theorem Shows.defined_before {text rest line : List Char} {count : Head → String → Nat}
    (shown : Shows text count) {definer user : Head} {name other : String} (named : IsName name)
    (used : IsName other) (defined : 0 < count definer name) (unused : count user other = 0)
    {front back : List (List Char)} (split : (text ++ rest).splitOn '\n' = front ++ line :: back)
    (uses : user.opens other line = true) : ∃ found ∈ front, definer.opens name found = true := by
  have counts := shown.counted definer name named
  have none := shown.counted user other used
  have blank : (([] : List Char).splitOn '\n').countP (definer.opens name) = 0 := by
    simp [quiet_nil definer name named]
  rcases shown.ended with rfl | ⟨whole, rfl⟩
  · omega
  · rw [countP_feed] at counts none
    rw [List.append_assoc, List.singleton_append, List.splitOn_append_cons_self] at split
    have here : ∃ found ∈ whole.splitOn '\n', definer.opens name found = true := by
      rw [← List.countP_pos_iff]
      omega
    have free : line ∉ whole.splitOn '\n' := by
      intro inside
      have some := List.countP_pos_iff.2 ⟨line, inside, uses⟩
      omega
    obtain ⟨found, member, defines⟩ := here
    refine ⟨found, ?_, defines⟩
    -- the line stands behind the whole part, since no line of the part uses the other name
    rcases List.append_eq_append_iff.1 split with ⟨more, rfl, -⟩ | ⟨more, before, after⟩
    · exact List.mem_append_left _ member
    · cases more with
      | nil => rwa [before, List.append_nil] at member
      | cons l more =>
        obtain ⟨rfl, -⟩ := List.cons.inj after
        exact absurd (by simp [before]) free

def upToConstants (doc : Document) : List Char :=
  let d := (Draft.ofDocument doc).checkReferences
  (packageSection.toList ++ ((importSection d).toList ++
    (descriptionSection d.description).toList)) ++
  ((Part.connectors.text d).toList ++ (Part.constants.text d).toList)

def upToPredicates (doc : Document) : List Char :=
  upToConstants doc ++ (String.join (predicateSections (predicateTable doc.predicates))).toList

section Parts

variable {doc : Document}

theorem sections_upToPredicates (doc : Document) :
    (String.join (sections (Draft.ofDocument doc).checkReferences)).toList =
      upToPredicates doc ++ ((rawSection doc.rawRego).toList ++
        (String.join (ruleSections (placed doc.rules))).toList) := by
  rw [sections_parts, upToPredicates, upToConstants, ofDocument_eq]
  simp only [List.append_assoc]
  rfl

theorem upToConstants_shows (wellFormed : doc.WellFormed) :
    Shows (upToConstants doc) fun h name =>
      Part.connectors.declares doc h name + Part.constants.declares doc h name := by
  have before := packageSection_hushed.append
    ((importSection_hushed (Draft.ofDocument doc).checkReferences).append
      (descriptionSection_hushed (Draft.ofDocument doc).checkReferences.description))
  have parts := (part_shows wellFormed .connectors).append (part_shows wellFormed .constants)
  exact (Shows.append before parts).recount fun h name _ => Nat.zero_add _

theorem upToPredicates_shows (wellFormed : doc.WellFormed) :
    Shows (upToPredicates doc) fun h name =>
      Part.connectors.declares doc h name + Part.constants.declares doc h name +
        Part.predicates.declares doc h name :=
  (upToConstants_shows wellFormed).append (predicateSections_show wellFormed)

theorem definition_starts (head : String) (body : List String) :
    (definition head body ++ "\n").toList = (head ++ " if \x7b").toList ++ '\n' ::
      ((String.join (body.map bodyLine)).toList ++ "\x7d\n\n".toList) := by
  simp [definition]

def ruleHead (r : Rule) : String := r.name ++ " := " ++ effect r.effect ++ " if \x7b"

theorem ruleHead_opens (r : Rule) : Head.conditional.opens r.name (ruleHead r).toList = true := by
  rw [opens_conditional_iff, opens_assignment_iff]
  constructor
  · exact ⟨(effect r.effect).toList ++ " if \x7b".toList, by simp [ruleHead]⟩
  · exact ⟨(r.name ++ " := " ++ effect r.effect).toList, by simp [ruleHead]⟩

theorem rule_written {r : Rule} (member : r ∈ doc.rules) :
    rule r ++ "\n" ∈ ruleSections (placed doc.rules) := by
  have views := map_placed (fun r => rule r ++ "\n") doc.rules fun _ _ => rfl
  rw [ruleSections, ((orderRules_perm _).map _).mem_iff, views]
  exact List.mem_map_of_mem member

theorem predicate_written {p : Predicate} (member : p ∈ doc.predicates) :
    predicate p ++ "\n" ∈ predicateSections (predicateTable doc.predicates) := by
  have inside := (predicateTable_blocks doc.predicates).mem_iff.2 member
  obtain ⟨entry, among, block⟩ := List.mem_flatMap.1 inside
  exact List.mem_flatMap.2 ⟨entry, among, List.mem_map_of_mem block⟩

theorem ruleHead_mem (wellFormed : doc.WellFormed) {r : Rule} (member : r ∈ doc.rules)
    (conditional : r.isDefault = false) :
    (ruleHead r).toList ∈
      (String.join (sections (Draft.ofDocument doc).checkReferences)).toList.splitOn '\n' := by
  have name : '\n' ∉ r.name.toList :=
    not_mem_identifier (wellFormed.rules r member).name.1 (by decide)
  have flat : '\n' ∉ (ruleHead r).toList := by simp [ruleHead, name, effect_flat]
  have starts := definition_starts (r.name ++ " := " ++ effect r.effect) (ruleBody r)
  have text : rule r = definition (r.name ++ " := " ++ effect r.effect) (ruleBody r) := by
    simp [rule, conditional]
  rw [← text] at starts
  have closed : ∀ s ∈ ruleSections (placed doc.rules), Ended s.toList := by
    intro s inside
    obtain ⟨other, -, rfl⟩ := List.mem_map.1 inside
    exact .feed (rule other)
  have predicates : Ended _ := (upToPredicates_shows wellFormed).ended
  have above := predicates.append (rawSection_ended doc.rawRego)
  have found := above.first_mem closed (rule_written member) starts flat []
  rwa [List.append_assoc, List.append_nil, ← sections_upToPredicates] at found

theorem predicateHead_mem (wellFormed : doc.WellFormed) {p : Predicate}
    (member : p ∈ doc.predicates) :
    (p.name ++ " if \x7b").toList ∈
      (String.join (sections (Draft.ofDocument doc).checkReferences)).toList.splitOn '\n' := by
  have name : '\n' ∉ p.name.toList :=
    not_mem_identifier (wellFormed.predicates p member).name.1 (by decide)
  have flat : '\n' ∉ (p.name ++ " if \x7b").toList := by simp [name]
  have starts := definition_starts p.name (p.conditions.map condition)
  have closed : ∀ s ∈ predicateSections (predicateTable doc.predicates), Ended s.toList := by
    intro s inside
    obtain ⟨entry, -, block⟩ := List.mem_flatMap.1 inside
    obtain ⟨other, -, rfl⟩ := List.mem_map.1 block
    exact .feed (predicate other)
  have above : Ended _ := (upToConstants_shows wellFormed).ended
  have found := above.first_mem closed (predicate_written member) starts flat
    ((rawSection doc.rawRego).toList ++ (String.join (ruleSections (placed doc.rules))).toList)
  rwa [← List.append_assoc, ← upToPredicates, ← sections_upToPredicates] at found

theorem moduleText_mem {d : Draft} {line : List Char} (filled : line ≠ [])
    (member : line ∈ (String.join (sections d)).toList.splitOn '\n') :
    line ∈ (moduleText d).toList.splitOn '\n' := by
  have counts := countP_moduleText (fun l => decide (l = line)) (by simpa using filled.symm) d
  have some : 0 < ((String.join (sections d)).toList.splitOn '\n').countP
      (fun l => decide (l = line)) := List.countP_pos_iff.2 ⟨line, member, by simp⟩
  rw [← counts, List.countP_pos_iff] at some
  simpa using some

theorem predicate_before_rule (wellFormed : doc.WellFormed) {r : Rule} (member : r ∈ doc.rules)
    (conditional : r.isDefault = false) {ref : Reference} (inside : ref ∈ r.whenAllOf) :
    DefinedBefore (moduleText (Draft.ofDocument doc).checkReferences) (ruleHead r).toList
      fun line => line = (ref.name ++ " if \x7b").toList := by
  have filled : (ruleHead r).toList ≠ [] := by simp [ruleHead]
  refine ⟨moduleText_mem filled (ruleHead_mem wellFormed member conditional), ?_⟩
  intro front back split
  obtain ⟨rest, lines⟩ := moduleText_front split filled
  have declared := (wellFormed.rules r member).references ref inside
  have defined : 0 < Part.predicates.declares doc .predicate ref.name := by
    obtain ⟨p, among, same⟩ := List.mem_map.1 declared
    exact List.countP_pos_iff.2 ⟨p, among, by simp [same]⟩
  -- no rule is opened before the raw text, so this line stands behind all predicates
  rw [sections_upToPredicates] at lines
  obtain ⟨found, before, opens⟩ := (upToPredicates_shows wellFormed).defined_before
    (wellFormed.predicate_named _ declared) (wellFormed.rules r member).name
    (Nat.add_pos_right _ defined) (by simp [Part.declares]) lines (ruleHead_opens r)
  exact ⟨found, before, by simpa [Head.opens] using opens⟩

theorem constant_before_predicate (wellFormed : doc.WellFormed) {p : Predicate}
    (member : p ∈ doc.predicates) {c : Condition} (inside : c ∈ p.conditions) {name : String}
    (given : Gives c.constant name) :
    DefinedBefore (moduleText (Draft.ofDocument doc).checkReferences) (p.name ++ " if \x7b").toList
      fun line => (name ++ " := ").toList <+: line := by
  have filled : (p.name ++ " if \x7b").toList ≠ [] := by simp
  have head : Head.predicate.opens p.name (p.name ++ " if \x7b").toList = true := by
    simp [Head.opens]
  refine ⟨moduleText_mem filled (predicateHead_mem wellFormed member), ?_⟩
  intro front back split
  obtain ⟨rest, lines⟩ := moduleText_front split filled
  have declared := ((wellFormed.predicates p member).conditions c inside).declared name given
  have defined : 0 < Part.constants.declares doc .assignment name := by
    obtain ⟨c, among, same⟩ := List.mem_map.1 declared
    exact List.countP_pos_iff.2 ⟨c, among, by simp [same]⟩
  rw [sections_upToPredicates, upToPredicates, List.append_assoc] at lines
  obtain ⟨found, before, opens⟩ := (upToConstants_shows wellFormed).defined_before
    (wellFormed.constant_named _ declared) (wellFormed.predicates p member).name
    (Nat.add_pos_right _ defined) (by simp [Part.declares]) lines head
  exact ⟨found, before, by simpa [Head.opens] using opens⟩

end Parts

/-- In every module that compiles, the predicates that a rule asks for are defined before the rule,
    and the constant of a condition before the predicate that compares with it. -/
theorem references_defined_before {doc : Document} {policy : Compiled}
    (compiled : doc.compile = .ok policy) :
    (∀ r ∈ doc.rules, r.isDefault = false → ∀ ref ∈ r.whenAllOf,
      DefinedBefore policy.rego (r.name ++ " := " ++ effect r.effect ++ " if \x7b").toList
        fun line => line = (ref.name ++ " if \x7b").toList) ∧
    ∀ p ∈ doc.predicates, ∀ c ∈ p.conditions, ∀ name, Gives c.constant name →
      DefinedBefore policy.rego (p.name ++ " if \x7b").toList
        fun line => (name ++ " := ").toList <+: line := by
  obtain ⟨wellFormed, rfl⟩ := (compile_eq_ok doc policy).1 compiled
  constructor
  · intro r member conditional ref inside
    exact predicate_before_rule wellFormed member conditional inside
  · intro p member c inside name given
    exact constant_before_predicate wellFormed member inside given

/-- A document whose raw text opens its predicate and its rule once more. -/
def reopened : Document where
  description := none
  connectors := []
  constants := [⟨"limits", "[1,\n2]"⟩]
  predicates :=
    [⟨"hot", [⟨.member, some "level", [], some "limits"⟩]⟩,
     ⟨"hot", [⟨.present, some "alarm", [], none⟩]⟩]
  rules :=
    [⟨"allow", false, ⟨.allow, none, none, none, none, none, none, none, false⟩,
       [⟨"hot", true⟩], 0⟩]
  rawRego := some "hot if \x7b\nallow := \x7b \"action\": \"allow\" \x7d if \x7b\n"

theorem reopened_defined_before :
    ∃ policy, reopened.compile = .ok policy ∧
      DefinedBefore policy.rego "allow := \x7b \"action\": \"allow\" \x7d if \x7b".toList
        (fun line => line = "hot if \x7b".toList) ∧
      DefinedBefore policy.rego "hot if \x7b".toList fun line => "limits := ".toList <+: line := by
  have compiled := compile_of_clean reopened (by decide +kernel)
  obtain ⟨rules, predicates⟩ := references_defined_before compiled
  exact ⟨_, compiled, rules _ List.mem_cons_self rfl _ List.mem_cons_self,
    predicates _ List.mem_cons_self _ List.mem_cons_self "limits" ⟨rfl, by decide⟩⟩

end RegoPolicy.Rego
