import Mathlib.Data.List.DropRight
import RegoPolicy.Proofs.BodyLines

/-!
The definitions that the module of a document opens are the ones the document declares, whatever the
texts of the document hold.
-/
namespace RegoPolicy.Rego

open Policy Json Text

theorem definition_shows {head : String} {body : List String} (flat : '\n' ∉ head.toList)
    (quiet : ∀ text ∈ body, Hushed (bodyLine text).toList) :
    Shows (definition head body ++ "\n").toList fun h name =>
      (h.opens name (head.toList ++ " if \x7b".toList)).toNat := by
  have first := shows_line (flat_append _ " if \x7b".toList flat (by decide))
  have lines : Hushed ((body.map bodyLine).flatMap String.toList) := by
    rw [List.flatMap_map]
    exact hushed_flatMap quiet
  have closing : Hushed (['}'] ++ ['\n']) :=
    hushed_line (by decide) (quiet_of_start (by decide) [])
  have whole := first.append (lines.append (closing.append hushed_blank))
  simpa [definition, String.toList_join] using whole

theorem predicate_shows {constants : List String} {p : Predicate}
    (named : ∀ name ∈ constants, IsName name) (wellFormed : p.WellFormed constants) :
    Shows (predicate p ++ "\n").toList fun h name =>
      (decide (h = .predicate ∧ p.name = name)).toNat := by
  have flat : '\n' ∉ p.name.toList := not_mem_identifier wellFormed.name.1 (by decide)
  have quiet : ∀ text ∈ p.conditions.map condition, Hushed (bodyLine text).toList := by
    intro text member
    obtain ⟨c, inside, rfl⟩ := List.mem_map.1 member
    exact condition_hushed named (wellFormed.conditions c inside)
  refine (definition_shows flat quiet).recount fun h name asked => ?_
  rw [← predicate_opens asked wellFormed.name]
  rfl

def Head.fits (h : Head) (r : Rule) : Bool :=
  match h with
  | .predicate => false
  | .assignment => !r.isDefault
  | .conditional => !r.isDefault
  | .fallback => r.isDefault

theorem default_shows {r : Rule} (named : IsName r.name) :
    Shows ("default " ++ r.name ++ " := " ++ effect r.effect ++ "\n" ++ "\n").toList fun h name =>
      (decide (h = .fallback ∧ r.name = name)).toNat := by
  have flat : '\n' ∉ r.name.toList := not_mem_identifier named.1 (by decide)
  have plain := effect_flat r.effect
  have text (value : String) : ("default " ++ r.name ++ " := " ++ value ++ "\n" ++ "\n").toList =
      "default".toList ++ ' ' :: (r.name.toList ++ ' ' :: (":= ".toList ++ value.toList)) ++
        ['\n'] ++ ['\n'] := by
    simp
  rw [text]
  generalize (effect r.effect).toList = value at plain
  have line :
      '\n' ∉ "default".toList ++ ' ' :: (r.name.toList ++ ' ' :: (":= ".toList ++ value)) := by
    simp [flat, plain]
  refine ((shows_line line).append hushed_blank).recount fun h name asked => ?_
  rw [fallback_opens asked named h value, Nat.add_zero]

theorem conditional_shows {r : Rule} (named : IsName r.name)
    (references : ∀ ref ∈ r.whenAllOf, IsName ref.name) :
    Shows (definition (r.name ++ " := " ++ effect r.effect) (ruleBody r) ++ "\n").toList
      fun h name => (decide ((h = .assignment ∨ h = .conditional) ∧ r.name = name)).toNat := by
  have flat : '\n' ∉ r.name.toList := not_mem_identifier named.1 (by decide)
  have head : '\n' ∉ (r.name ++ " := " ++ effect r.effect).toList := by
    simp [flat, effect_flat]
  have quiet : ∀ text ∈ ruleBody r, Hushed (bodyLine text).toList := fun text member =>
    hushed_bodyLine (ruleBody_flat references text member)
  refine (definition_shows head quiet).recount fun h name asked => ?_
  have opened := assignment_opens asked named h ((effect r.effect).toList ++ " if \x7b".toList)
  have body : " if \x7b".toList <:+
      r.name.toList ++ ' ' :: (":= ".toList ++ ((effect r.effect).toList ++ " if \x7b".toList)) :=
    ⟨r.name.toList ++ ' ' :: (":= ".toList ++ (effect r.effect).toList), by simp⟩
  simp only [body, and_true] at opened
  rw [← opened]
  simp

theorem rule_shows {r : Rule} (named : IsName r.name)
    (references : ∀ ref ∈ r.whenAllOf, IsName ref.name) :
    Shows (rule r ++ "\n").toList fun h name => (h.fits r && r.name = name).toNat := by
  unfold rule
  split
  · rename_i unconditional
    refine (default_shows named).recount fun h name _ => ?_
    cases h <;> simp [Head.fits, unconditional]
  · rename_i conditional
    refine (conditional_shows named references).recount fun h name _ => ?_
    cases h <;> simp [Head.fits, conditional]

theorem hushed_literal {line : String} (flat : '\n' ∉ line.toList)
    (ends : ¬ " if \x7b".toList <:+ line.toList ∧ ¬ "default ".toList <+: line.toList)
    (plain : '=' ∉ line.toList) : Hushed (line ++ "\n").toList := by
  rw [String.toList_append]
  exact hushed_line flat (quiet_of_ends ends.1 ends.2 (guarded_of_not_mem plain))

theorem packageSection_hushed : Hushed packageSection.toList := by
  have line : Hushed ("package formal.v2" ++ "\n").toList :=
    hushed_literal (by decide) (by decide) (by decide)
  exact line.append hushed_blank

theorem importSection_hushed (d : Draft) : Hushed (importSection d).toList := by
  have ifLine : Hushed ("import future.keywords.if" ++ "\n").toList :=
    hushed_literal (by decide) (by decide) (by decide)
  have inLine : Hushed ("import future.keywords.in" ++ "\n").toList :=
    hushed_literal (by decide) (by decide) (by decide)
  unfold importSection
  rw [String.toList_append, String.toList_append]
  refine (Hushed.append ?_ ?_).append ?_
  · split
    · exact ifLine
    · exact shows_nil
  · split
    · exact inLine
    · exact shows_nil
  · split
    · exact hushed_blank
    · exact shows_nil

theorem linesFrom_flat {line cs : List Char} (flat : '\n' ∉ line) :
    ∀ found ∈ linesFrom line cs, '\n' ∉ found := by
  have shorter (l : List Char) (whole : '\n' ∉ l) : '\n' ∉ dropReturn l := by
    unfold dropReturn
    split
    · exact fun member => whole ((List.dropLast_sublist l).subset member)
    · exact whole
  induction cs generalizing line with
  | nil =>
    unfold linesFrom
    split <;> simp [flat]
  | cons c rest ih =>
    unfold linesFrom
    split
    · intro found member
      rcases List.mem_cons.1 member with rfl | later
      · exact shorter _ (by simpa using flat)
      · exact ih (by simp) found later
    · rename_i inside
      exact ih (by simp [flat, Ne.symm inside])

theorem commentLine_eq {line : List Char} (flat : '\n' ∉ line) :
    ∃ rest, '\n' ∉ rest ∧ (commentLine line).toList = '#' :: rest ++ ['\n'] := by
  have part : trimEnd ('#' :: ' ' :: line) <+: '#' :: ' ' :: line :=
    List.rdropWhile_prefix isBlank _
  have kept : trimEnd ('#' :: ' ' :: line) ≠ [] := by
    intro gone
    have blank := List.rdropWhile_eq_nil_iff.1 gone
    exact absurd (blank '#' List.mem_cons_self) (by decide)
  obtain ⟨c, rest, shape⟩ := List.exists_cons_of_ne_nil kept
  rw [shape] at part
  have hash : c = '#' := (List.cons_prefix_cons.1 part).1
  refine ⟨rest, fun member => ?_, by simp [commentLine, shape, hash]⟩
  have inside := part.subset (List.mem_cons_of_mem c member)
  simp [flat] at inside

theorem commentLine_hushed {line : List Char} (flat : '\n' ∉ line) :
    Hushed (commentLine line).toList := by
  obtain ⟨rest, straight, text⟩ := commentLine_eq flat
  rw [text]
  exact hushed_line (by simp [straight]) (quiet_of_start (by decide) rest)

theorem descriptionSection_hushed (description : Option String) :
    Hushed (descriptionSection description).toList := by
  unfold descriptionSection
  split
  · rename_i s _
    have comments : Hushed ((Text.lines s).flatMap fun line => (commentLine line).toList) :=
      hushed_flatMap fun line member => commentLine_hushed (linesFrom_flat (by simp) line member)
    simpa [String.toList_join, List.flatMap_map] using comments.append hushed_blank
  · exact shows_nil

theorem compactItems_strings (texts : List String) :
    compactItems (texts.map .string) = texts.map quote := by
  induction texts with
  | nil => rfl
  | cons s texts ih => rw [List.map_cons, compactItems, ih]; rfl

theorem constantLine_shows {own value : String} (owned : IsName own) (run : Run value.toList) :
    Shows (constantLine own value).toList fun h name =>
      (decide (h = .assignment ∧ own = name)).toNat := by
  have flat : '\n' ∉ own.toList := not_mem_identifier owned.1 (by decide)
  have calm : Calm " := ".toList := ⟨'=', ' ', by decide⟩
  obtain ⟨first, rest, split, noBody, quiet⟩ := run_first_line run
    (flat_append _ _ flat (by decide)) (calm.settled own.toList) closing_nil
  have text : (constantLine own value).toList =
      own.toList ++ " := ".toList ++ (value.toList ++ []) ++ ['\n'] := by
    simp [constantLine]
  have line : own.toList ++ " := ".toList ++ first =
      own.toList ++ ' ' :: (":= ".toList ++ first) := by simp
  rw [text]
  refine (shows_lines split quiet).recount fun h name asked => ?_
  have opened := assignment_opens asked owned h first
  rw [line] at noBody ⊢
  simp only [noBody, and_false, or_false] at opened
  rw [opened]

theorem connectorSection_shows (connectors : List String) :
    Shows (connectorSection connectors).toList fun h name =>
      (decide (h = .assignment ∧ connectors ≠ [] ∧ name = "included_connectors")).toNat := by
  unfold connectorSection
  split
  · rename_i none
    simpa [List.isEmpty_iff.1 none] using shows_nil
  · rename_i some
    have filled : connectors ≠ [] := by simpa using some
    have run : Run (Value.array (connectors.map .string)).compact.toList := by
      rw [Value.compact, compactItems_strings]
      refine list_run (run_of_singles (by decide)) fun part member => ?_
      obtain ⟨s, -, rfl⟩ := List.mem_map.1 member
      exact quote_run s
    generalize (Value.array (connectors.map .string)).compact = value at run
    have named : IsName "included_connectors" := by decide
    have text : ("included_connectors := " ++ value ++ "\n\n").toList =
        (constantLine "included_connectors" value).toList ++ ['\n'] := by
      simp [constantLine]
    rw [text]
    refine ((constantLine_shows named run).append hushed_blank).recount fun h name _ => ?_
    simp [filled, eq_comm]

theorem constantSection_shows {constants : List Constant}
    (wellFormed : ∀ c ∈ constants, c.WellFormed) (distinct : (constants.map (·.name)).Nodup) :
    Shows (constantSection (constantTable constants)).toList fun h name =>
      constants.countP fun c => h = .assignment ∧ c.name = name := by
  have perm := constantTable_perm distinct
  unfold constantSection
  split
  · rename_i none
    rw [List.isEmpty_iff.1 none, List.nil_perm, List.map_eq_nil_iff] at perm
    rw [perm]
    exact shows_nil
  · have each : ∀ entry ∈ (constantTable constants).entries,
        Shows (constantLine entry.1 entry.2).toList fun h name =>
          (decide (h = .assignment ∧ entry.1 = name)).toNat := by
      intro entry member
      obtain ⟨c, declared, rfl⟩ := List.mem_map.1 (perm.mem_iff.1 member)
      exact constantLine_shows (wellFormed c declared).name
        (isText_run (wellFormed c declared).value)
    have lines := shows_flatMap
      (fun h name (entry : String × String) => h = .assignment ∧ entry.1 = name) each
    rw [String.toList_append, String.toList_join, List.flatMap_map]
    refine (lines.append hushed_blank).recount fun h name _ => ?_
    rw [Nat.add_zero, perm.countP_eq, List.countP_map]
    rfl

theorem placeRule_perm (r : Rule) (rules : List Rule) : (placeRule r rules).Perm (r :: rules) := by
  induction rules with
  | nil => exact .rfl
  | cons s rest ih =>
    unfold placeRule
    split
    · exact .rfl
    · exact (ih.cons s).trans (.swap r s rest)

theorem orderRules_perm (rules : List Rule) : (orderRules rules).Perm rules := by
  induction rules with
  | nil => exact .nil
  | cons r rules ih => exact (placeRule_perm r _).trans (ih.cons r)

theorem splitOn_dropFeeds (cs : List Char) :
    ∃ n, cs.splitOn '\n' = (dropFeeds cs).splitOn '\n' ++ List.replicate n [] := by
  have same (cs : List Char) : dropFeeds cs = cs.rdropWhile (· = '\n') := rfl
  induction cs using List.reverseRecOn with
  | nil => exact ⟨0, rfl⟩
  | append_singleton cs c ih =>
    rw [same, List.rdropWhile_concat, ← same]
    split
    · rename_i feed
      obtain ⟨n, split⟩ := ih
      refine ⟨n + 1, ?_⟩
      rw [of_decide_eq_true feed, List.splitOn_append_cons_self, split, List.append_assoc,
        List.replicate_succ']
      rfl
    · exact ⟨0, by simp⟩

theorem countP_dropFeeds (p : List Char → Bool) (blank : p [] = false) (cs : List Char) :
    ((dropFeeds cs).splitOn '\n').countP p = (cs.splitOn '\n').countP p := by
  obtain ⟨n, whole⟩ := splitOn_dropFeeds cs
  rw [whole, List.countP_append, List.countP_replicate]
  simp [blank]

theorem moduleText_toList (d : Draft) :
    (moduleText d).toList = dropFeeds (String.join (sections d)).toList ++ '\n' :: [] := by
  unfold moduleText
  rw [String.toList_append, String.toList_ofList]
  rfl

theorem countP_moduleText (p : List Char → Bool) (blank : p [] = false) (d : Draft) :
    ((moduleText d).toList.splitOn '\n').countP p =
      ((String.join (sections d)).toList.splitOn '\n').countP p := by
  rw [moduleText_toList, countP_feed, countP_dropFeeds p blank]
  simp [blank]

/-- Up to a line that is not empty, a module has the lines of its sections. -/
theorem moduleText_front {d : Draft} {front back : List (List Char)} {line : List Char}
    (split : (moduleText d).toList.splitOn '\n' = front ++ line :: back) (filled : line ≠ []) :
    ∃ rest, (String.join (sections d)).toList.splitOn '\n' = front ++ line :: rest := by
  obtain ⟨n, whole⟩ := splitOn_dropFeeds (String.join (sections d)).toList
  rw [moduleText_toList, List.splitOn_append_cons_self] at split
  rcases List.eq_nil_or_concat back with rfl | ⟨inner, last, rfl⟩
  · have ends := (List.append_inj' split rfl).2
    exact absurd (List.cons.inj ends).1.symm filled
  · have front := (List.append_inj' (split.trans (by simp) :
      _ ++ [[]] = (front ++ line :: inner) ++ [last]) rfl).1
    exact ⟨inner ++ List.replicate n [], by rw [whole, front]; simp⟩

theorem predicateSections_text (predicates : Table (List Predicate)) :
    (String.join (predicateSections predicates)).toList =
      (predicates.entries.flatMap (·.2)).flatMap fun p => (predicate p ++ "\n").toList := by
  simp [predicateSections, String.toList_join, List.flatMap_assoc, List.flatMap_map]

theorem ruleSections_text (rules : List Rule) :
    (String.join (ruleSections rules)).toList =
      (orderRules rules).flatMap fun r => (rule r ++ "\n").toList := by
  simp [ruleSections, String.toList_join, List.flatMap_map]

theorem predicateSections_show {doc : Document} (wellFormed : doc.WellFormed) :
    Shows (String.join (predicateSections (predicateTable doc.predicates))).toList fun h name =>
      doc.predicates.countP fun p => h = .predicate ∧ p.name = name := by
  have blocks := predicateTable_blocks doc.predicates
  have shown := shows_flatMap (fun h name (p : Predicate) => h = .predicate ∧ p.name = name)
    fun p member => predicate_shows wellFormed.constant_named
      (wellFormed.predicates p (blocks.mem_iff.1 member))
  rw [predicateSections_text]
  exact shown.recount fun h name _ => blocks.countP_eq _

theorem ruleSections_show {doc : Document} (wellFormed : doc.WellFormed) :
    Shows (String.join (ruleSections (placed doc.rules))).toList fun h name =>
      doc.rules.countP fun r => h.fits r && r.name = name := by
  have each : ∀ r ∈ placed doc.rules, Shows (rule r ++ "\n").toList fun h name =>
      (h.fits r && r.name = name).toNat :=
    (forall_placed _ doc.rules fun r index => rfl).2 fun r member =>
      rule_shows (wellFormed.rules r member).name (wellFormed.reference_named member)
  have shown := shows_flatMap (fun h name (r : Rule) => h.fits r && r.name = name)
    fun r member => each r ((orderRules_perm _).mem_iff.1 member)
  rw [ruleSections_text]
  refine shown.recount fun h name _ => ?_
  have views := map_placed (fun r => h.fits r && decide (r.name = name)) doc.rules fun _ _ => rfl
  have counts := congrArg (List.countP id) views
  rw [(orderRules_perm _).countP_eq]
  simpa [List.countP_map, Function.comp_def] using counts

theorem rawSection_ended (raw : Option String) : Ended (rawSection raw).toList := by
  unfold rawSection
  split
  · rename_i s _
    exact .inr ⟨s.toList ++ ['\n'], by simp⟩
  · exact .inl rfl

inductive Part where
  | connectors
  | constants
  | predicates
  | raw
  | rules
  deriving DecidableEq

def Part.text (d : Draft) : Part → String
  | .connectors => connectorSection d.connectors
  | .constants => constantSection d.constants
  | .predicates => String.join (predicateSections d.predicates)
  | .raw => rawSection d.rawRego
  | .rules => String.join (ruleSections d.rules)

/-- How often a part of a document declares what opens a definition of a name. The raw text
    declares what its lines open. -/
def Part.declares (doc : Document) (h : Head) (name : String) : Part → Nat
  | .connectors =>
    (decide (h = .assignment ∧ doc.connectors ≠ [] ∧ name = "included_connectors")).toNat
  | .constants => doc.constants.countP fun c => h = .assignment ∧ c.name = name
  | .predicates => doc.predicates.countP fun p => h = .predicate ∧ p.name = name
  | .raw => ((rawSection doc.rawRego).toList.splitOn '\n').countP (h.opens name)
  | .rules => doc.rules.countP fun r => h.fits r && r.name = name

theorem part_shows {doc : Document} (wellFormed : doc.WellFormed) (part : Part) :
    Shows (part.text (Draft.ofDocument doc).checkReferences).toList fun h name =>
      part.declares doc h name := by
  rw [ofDocument_eq]
  cases part with
  | connectors => exact connectorSection_shows doc.connectors
  | constants => exact constantSection_shows wellFormed.constants wellFormed.distinct
  | predicates => exact predicateSections_show wellFormed
  | raw => exact ⟨rawSection_ended doc.rawRego, fun _ _ _ => rfl⟩
  | rules => exact ruleSections_show wellFormed

theorem sections_parts (d : Draft) :
    (String.join (sections d)).toList =
      (packageSection.toList ++ ((importSection d).toList ++
        (descriptionSection d.description).toList)) ++
      ((Part.connectors.text d).toList ++ ((Part.constants.text d).toList ++
        ((Part.predicates.text d).toList ++ ((Part.raw.text d).toList ++
          (Part.rules.text d).toList)))) := by
  simp only [sections, Part.text, String.toList_join, List.flatMap_append, List.flatMap_cons,
    List.flatMap_nil, List.append_nil, List.append_assoc]

theorem rawSection_empty {raw : Option String} (noRaw : filled raw = none) :
    rawSection raw = "" := by
  unfold rawSection
  rw [noRaw]

theorem sections_text {d : Draft} (noRaw : filled d.rawRego = none) :
    (String.join (sections d)).toList =
      (packageSection.toList ++ ((importSection d).toList ++
        (descriptionSection d.description).toList)) ++
      ((Part.connectors.text d).toList ++ ((Part.constants.text d).toList ++
        ((Part.predicates.text d).toList ++ (Part.rules.text d).toList))) := by
  have raw : Part.raw.text d = "" := rawSection_empty noRaw
  rw [sections_parts, raw]
  rfl

theorem sections_show {doc : Document} (wellFormed : doc.WellFormed) :
    Shows (String.join (sections (Draft.ofDocument doc).checkReferences)).toList fun h name =>
      Part.connectors.declares doc h name + (Part.constants.declares doc h name +
        (Part.predicates.declares doc h name + (Part.raw.declares doc h name +
          Part.rules.declares doc h name))) := by
  have before := packageSection_hushed.append
    ((importSection_hushed (Draft.ofDocument doc).checkReferences).append
      (descriptionSection_hushed (Draft.ofDocument doc).checkReferences.description))
  have parts := (part_shows wellFormed .connectors).append
    ((part_shows wellFormed .constants).append
      ((part_shows wellFormed .predicates).append
        ((part_shows wellFormed .raw).append (part_shows wellFormed .rules))))
  rw [sections_parts]
  exact (Shows.append before parts).recount fun h name _ => Nat.zero_add _

/-- The definitions that a document declares of a name. Assignments are the list of connectors,
    constants and conditional rules. -/
def declaredCount (doc : Document) (h : Head) (name : String) : Nat :=
  match h with
  | .predicate => doc.predicates.countP fun p => p.name = name
  | .assignment =>
    (decide (doc.connectors ≠ [] ∧ name = "included_connectors")).toNat +
      (doc.constants.countP fun c => c.name = name) +
      doc.rules.countP fun r => !r.isDefault && r.name = name
  | .conditional => doc.rules.countP fun r => !r.isDefault && r.name = name
  | .fallback => doc.rules.countP fun r => r.isDefault && r.name = name

theorem declaredCount_eq {doc : Document} (noRaw : filled doc.rawRego = none) (h : Head)
    {name : String} (named : IsName name) :
    Part.connectors.declares doc h name + (Part.constants.declares doc h name +
      (Part.predicates.declares doc h name + (Part.raw.declares doc h name +
        Part.rules.declares doc h name))) = declaredCount doc h name := by
  have raw : Part.raw.declares doc h name = 0 := by
    simp [Part.declares, rawSection_empty noRaw, quiet_nil h name named]
  rw [raw]
  cases h with
  | predicate => simp [Part.declares, declaredCount, Head.fits]
  | assignment => simp [Part.declares, declaredCount, Head.fits, Nat.add_assoc]
  | conditional => simp [Part.declares, declaredCount, Head.fits]
  | fallback => simp [Part.declares, declaredCount, Head.fits]

/-- Whatever a document's texts hold, its module opens the definitions that the document declares,
    as often as it declares them, and no others. -/
theorem heads_are_declared {doc : Document} {policy : Compiled}
    (compiled : doc.compile = .ok policy) (noRaw : doc.rawRego = none ∨ doc.rawRego = some "")
    {name : String} (named : IsName name) (h : Head) :
    (policy.rego.toList.splitOn '\n').countP (h.opens name) = declaredCount doc h name := by
  obtain ⟨wellFormed, rfl⟩ := (compile_eq_ok doc policy).1 compiled
  have empty : filled doc.rawRego = none := by
    rcases noRaw with unset | blank
    · rw [unset]; rfl
    · rw [blank]; rfl
  have shown := (sections_show wellFormed).counted h name named
  rw [declaredCount_eq empty h named] at shown
  exact (countP_moduleText _ (quiet_nil h name named) _).trans shown

/-- A document whose texts hold openings of definitions on lines of their own. -/
def crowded : Document where
  description := some "first\nhot if \x7b\ndefault allow := 1"
  connectors := ["a\nhot if \x7b\n"]
  constants := [⟨"limits", "[1,\n\"hot if \x7b\"\n]"⟩]
  predicates :=
    [⟨"hot", [⟨.member, some "a.b", [], some "limits"⟩]⟩,
     ⟨"hot", [⟨.equals, some "a", ["\x7b\n\"default allow := \": 1\x7d"], none⟩,
       ⟨.contains, some "a", ["\nhot if \x7b\n"], none⟩]⟩]
  rules :=
    [⟨"allow", true,
       ⟨.block, none, none, none, some "\ndefault allow := 1", none, none, none, false⟩, [], 0⟩,
     ⟨"allow", false, ⟨.mask, none, none, none, none, none, some "x\nhot if \x7b", none, false⟩,
       [⟨"hot", true⟩], 0⟩]
  rawRego := some ""

theorem heads_are_declared_crowded :
    ∃ policy, crowded.compile = .ok policy ∧
      (crowded.rawRego = none ∨ crowded.rawRego = some "") ∧
      IsName "limits" ∧ IsName "hot" ∧ IsName "allow" ∧
      (policy.rego.toList.splitOn '\n').countP (Head.assignment.opens "limits") = 1 ∧
      (policy.rego.toList.splitOn '\n').countP (Head.predicate.opens "hot") = 2 ∧
      (policy.rego.toList.splitOn '\n').countP (Head.conditional.opens "allow") = 1 ∧
      (policy.rego.toList.splitOn '\n').countP (Head.fallback.opens "allow") = 1 := by
  have compiled := compile_of_clean crowded (by decide +kernel)
  exact ⟨_, compiled, .inr rfl, by decide, by decide, by decide,
    heads_are_declared compiled (.inr rfl) (by decide) .assignment,
    heads_are_declared compiled (.inr rfl) (by decide) .predicate,
    heads_are_declared compiled (.inr rfl) (by decide) .conditional,
    heads_are_declared compiled (.inr rfl) (by decide) .fallback⟩

end RegoPolicy.Rego
