import Mathlib.Data.Prod.Lex
import RegoPolicy.Proofs.ColumnBindings
import RegoPolicy.Proofs.DeclarationOrder

/-!
How modules begin and end, and where raw text stands in them. A module is made of its sections by
turning the line feeds at the end into one, and nothing else of them is lost: the header stays, and
raw text that has rules behind it stays as it is, whatever the draft holds.
-/
namespace RegoPolicy.Rego

open Policy

section Ends

/-- The first text with the line feeds at its end, of which there may be none, turned into one. -/
def FeedsToOne (whole text : String) : Prop :=
  ∃ body n, whole.toList = body ++ List.replicate n '\n' ∧ body.getLast? ≠ some '\n' ∧
    text.toList = body ++ ['\n']

theorem dropFeeds_solid (cs : List Char) : (dropFeeds cs).getLast? ≠ some '\n' := by
  intro last
  obtain ⟨front, ends⟩ := List.getLast?_eq_some_iff.1 last
  have more : cs.rdropWhile (· = '\n') ≠ [] := by
    change dropFeeds cs ≠ []
    simp [ends]
  have solid := List.rdropWhile_last_not (fun c : Char => decide (c = '\n')) cs more
  have feed : (cs.rdropWhile (· = '\n')).getLast more = '\n' := by
    have same : cs.rdropWhile (· = '\n') = front ++ ['\n'] := ends
    simp [same]
  simp [feed] at solid

theorem dropFeeds_lost (cs : List Char) : ∃ n, cs = dropFeeds cs ++ List.replicate n '\n' := by
  have feeds : ∀ c ∈ cs.rtakeWhile (· = '\n'), c = '\n' := fun c member => by
    simpa using List.mem_rtakeWhile_imp member
  refine ⟨(cs.rtakeWhile (· = '\n')).length, ?_⟩
  rw [← List.eq_replicate_of_mem feeds]
  exact List.rdropWhile_append_rtakeWhile.symm

theorem feedsToOne_dropFeeds (whole : String) :
    FeedsToOne whole (String.ofList (dropFeeds whole.toList) ++ "\n") := by
  obtain ⟨n, lost⟩ := dropFeeds_lost whole.toList
  exact ⟨_, n, lost, dropFeeds_solid _, by simp⟩

end Ends

section RuleOrder

/-- What rules are ordered by: default rules come behind, and places count within each kind. -/
def rank (r : Rule) : Bool ×ₗ Nat := toLex (r.isDefault, r.index)

def byRank (rules : List Rule) : List Rule := rules.mergeSort fun r s => rank r ≤ rank s

theorem byRank_perm (rules : List Rule) : (byRank rules).Perm rules := List.mergeSort_perm _ _

theorem comesBefore_eq (r s : Rule) : comesBefore r s = decide (rank r ≤ rank s) := by
  rw [Bool.eq_iff_iff, decide_eq_true_iff, rank, rank, Prod.Lex.toLex_le_toLex]
  cases first : r.isDefault <;> cases second : s.isDefault <;> simp [comesBefore, first, second]

theorem orderRules_eq_byRank (rules : List Rule) : orderRules rules = byRank rules := by
  induction rules with
  | nil => simp [orderRules, byRank]
  | cons r rules ih =>
    have trans (a b c : Rule) (first : decide (rank a ≤ rank b) = true)
        (second : decide (rank b ≤ rank c) = true) : decide (rank a ≤ rank c) = true := by
      simp only [decide_eq_true_eq] at *
      exact le_trans first second
    have total (a b : Rule) : (decide (rank a ≤ rank b) || decide (rank b ≤ rank a)) = true := by
      simpa using le_total (rank a) (rank b)
    -- the stable sort puts the first rule behind those of lower rank only
    obtain ⟨front, back, sorted, rest, behind⟩ := List.mergeSort_cons trans total r rules
    have order := List.pairwise_mergeSort trans total (r :: rules)
    rw [sorted] at order
    have before := (List.pairwise_cons.1 (List.pairwise_append.1 order).2.1).1
    have step : orderRules (r :: rules) = placeRule r (orderRules rules) := rfl
    rw [step, ih, byRank, rest, byRank, sorted]
    apply placeRule_between
    · intro s member
      rw [comesBefore_eq]
      simpa using behind s member
    · intro s member
      rw [comesBefore_eq]
      exact before s member

end RuleOrder

section Sections

def opening (d : Draft) : String :=
  String.join ([packageSection, importSection d, descriptionSection d.description,
    connectorSection d.connectors, constantSection d.constants] ++ predicateSections d.predicates)

def ruleTexts (first : Rule) (others : List Rule) : String :=
  rule first ++ String.join (others.map fun r => "\n" ++ rule r)

theorem join_sections (d : Draft) : (String.join (sections d)).toList =
    (opening d).toList ++ (rawSection d.rawRego).toList ++
      (String.join (ruleSections d.rules)).toList := by
  simp [sections, opening]

theorem join_rules (first : Rule) (others : List Rule) :
    (String.join ((first :: others).map fun r => rule r ++ "\n")).toList =
      (ruleTexts first others).toList ++ ['\n'] := by
  induction others generalizing first with
  | nil => simp [ruleTexts]
  | cons next others ih =>
    have rest := ih next
    rw [List.map_cons, String.join_cons, String.toList_append, rest]
    simp [ruleTexts]

theorem ruleTexts_ends (first : Rule) (others : List Rule) :
    ∃ front, (ruleTexts first others).toList = front ++ ['}', '\n'] := by
  rcases List.eq_nil_or_concat others with rfl | ⟨inner, last, rfl⟩
  · obtain ⟨front, ends⟩ := rule_ends first
    exact ⟨front, by simpa [ruleTexts] using ends⟩
  · obtain ⟨front, ends⟩ := rule_ends last
    exact ⟨(ruleTexts first inner).toList ++ '\n' :: front, by simp [ruleTexts, ends]⟩

variable {d : Draft}

theorem header_kept (d : Draft) : "package formal.v2\n".toList <+: (moduleText d).toList := by
  have whole : (String.join (sections d)).toList = "package formal.v".toList ++ ['2', '\n'] ++
      '\n' :: (String.join (sections d).tail).toList := by
    rw [sections, List.cons_append, List.cons_append, List.cons_append, String.join_cons,
      String.toList_append]
    rfl
  have head : "package formal.v2\n".toList = "package formal.v".toList ++ ['2', '\n'] := by decide
  rw [moduleText_toList, whole, head]
  exact prefix_dropFeeds (by decide) _ _

/-- The feed that is written at the end is one of those behind the last rule. -/
theorem moduleText_rules {first : Rule} {others : List Rule}
    (ordered : byRank d.rules = first :: others) :
    moduleText d = opening d ++ rawSection d.rawRego ++ ruleTexts first others := by
  obtain ⟨front, ends⟩ := ruleTexts_ends first others
  have rules := join_rules first others
  rw [← ordered, ← orderRules_eq_byRank] at rules
  apply String.toList_injective
  rw [moduleText_toList, join_sections, ruleSections, rules, ends]
  simp [dropFeeds, ends]

theorem moduleText_raw {raw : String} (given : Gives d.rawRego raw) (none : d.rules = []) :
    moduleText d = String.ofList (dropFeeds (opening d ++ raw).toList) ++ "\n" := by
  have shown : rawSection d.rawRego = raw ++ "\n\n" := by
    rw [rawSection, (filled_eq_some _ _).2 given]
  have feeds : dropFeeds "\n\n".toList = [] := by decide
  apply String.toList_injective
  rw [moduleText_toList, join_sections, shown, none]
  have split : (opening d).toList ++ (raw ++ "\n\n").toList ++
      (String.join (ruleSections [])).toList = (opening d ++ raw).toList ++ "\n\n".toList := by
    simp [ruleSections, orderRules]
  rw [split, dropFeeds_append, if_pos feeds]
  simp

theorem generate_clean (clean : d.findings = []) : d.generate = .ok (moduleText d) := by
  have valid : d.isValid = true := by simp [Draft.isValid, clean]
  rw [Draft.generate, if_pos valid]

end Sections

structure Framed (d : Draft) (text : String) : Prop where
  header : "package formal.v2\n".toList <+: text.toList
  ending : ∃ body, text.toList = body ++ ['\n'] ∧ body.getLast? ≠ some '\n'
  followed : ∀ raw, Gives d.rawRego raw → d.rules ≠ [] → ∃ first others,
    byRank d.rules = first :: others ∧
    text = opening d ++ raw ++ "\n\n" ++ rule first ++ String.join (others.map ("\n" ++ rule ·))
  last : ∀ raw, Gives d.rawRego raw → d.rules = [] → FeedsToOne (opening d ++ raw) text

/-- A draft without findings gives a module that starts with its header and ends in one line feed.
    Its raw text is unchanged, two line feeds and the first rule behind it; without rules it is the
    end of the module, and only line feeds there are dropped. -/
theorem generate_framed {d : Draft} (clean : d.findings = []) :
    ∃ text, d.generate = .ok text ∧ Framed d text := by
  refine ⟨moduleText d, generate_clean clean, header_kept d, ?_, ?_, ?_⟩
  · exact ⟨_, moduleText_toList d, dropFeeds_solid _⟩
  · intro raw given some
    have ordered : byRank d.rules ≠ [] := by
      intro none
      have same := byRank_perm d.rules
      rw [none] at same
      exact some same.nil_eq.symm
    obtain ⟨first, others, split⟩ := List.exists_cons_of_ne_nil ordered
    refine ⟨first, others, split, ?_⟩
    rw [moduleText_rules split, rawSection, (filled_eq_some _ _).2 given]
    simp [ruleTexts, String.append_assoc]
  · intro raw given none
    rw [moduleText_raw given none]
    exact feedsToOne_dropFeeds _

/-- A draft of rules at odd places behind raw text that ends in empty lines. -/
def guarded : Draft :=
  { Draft.empty with
    rules :=
      [⟨"late", true, ⟨.block, none, none, none, none, none, none, none, false⟩, [], 0⟩,
       ⟨"early", false, ⟨.allow, none, none, none, none, none, none, none, false⟩,
         [⟨"open", true⟩], 2⟩]
    rawRego := some "extra := 1\n\n" }

def blankEnd : Draft :=
  { Draft.empty with description := some "who may read", rawRego := some "\n\n\n" }

/-- The empty lines of raw text are kept in front of rules and dropped at the end. -/
theorem guarded_framed :
    (∃ text, guarded.generate = .ok text ∧ Framed guarded text ∧
      text = "package formal.v2\n\nimport future.keywords.if\n\nextra := 1\n\n\n\n" ++
        "early := \x7b \"action\": \"allow\" \x7d if \x7b\n    not open\n\x7d\n\n" ++
        "default late := \x7b \"action\": \"block\" \x7d\n") ∧
    ∃ text, blankEnd.generate = .ok text ∧ Framed blankEnd text ∧
      text = "package formal.v2\n\n# who may read\n" := by
  obtain ⟨text, given, framed⟩ := @generate_framed guarded rfl
  obtain ⟨other, shown, bare⟩ := @generate_framed blankEnd rfl
  refine ⟨⟨text, given, framed, ?_⟩, other, shown, bare, ?_⟩
  · obtain rfl := Except.ok.inj ((generate_clean rfl).symm.trans given)
    decide +kernel
  · obtain rfl := Except.ok.inj ((generate_clean rfl).symm.trans shown)
    decide +kernel

end RegoPolicy.Rego
