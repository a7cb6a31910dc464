import RegoPolicy.Proofs.BodyLines
import RegoPolicy.Proofs.EffectObjects

/-!
What the texts of rules tell. A rule is read off its text from the outside in: the first word, the
name, the effect up to the end of the line, and the body line by line. What a rule decides is all
that its text depends on, and all of it can be read off.
-/
namespace RegoPolicy.Json

open Text

theorem quote_inj {s t : String} (same : quote s = quote t) : s = t := by
  have symbols := congrArg ofString same
  rw [ofString_quote, ofString_quote] at symbols
  have left := readString_content s []
  rw [(List.cons.inj symbols).2, readString_content] at left
  cases left
  rfl

end RegoPolicy.Json

namespace RegoPolicy.Rego

open Policy Json

section Effects

variable {e f : Effect}

def effectEnd (untargeted allColumns : Bool) : String :=
  "\"" ++ (if untargeted then "" else
    ", \"columns\": " ++ (if allColumns then "input.columns" else "columns")) ++ " \x7d"

theorem effectTexts_closed (e : Effect) : ∃ front, effectTexts e = front ++ "\"" := by
  have closed (m : String × String) : ∃ front, entry m.1 (quote m.2) = front ++ "\"" := by
    refine ⟨"\"" ++ m.1 ++ "\": " ++ String.ofList ('"' :: m.2.toList.flatMap escape), ?_⟩
    exact String.toList_injective (by simp [entry, quote])
  obtain none | ⟨others, last, split⟩ := List.eq_nil_or_concat e.metadata
  · cases none
  · obtain ⟨front, ends⟩ := closed last
    rw [effectTexts, split, List.concat_eq_append, List.map_append, List.map_singleton, ends]
    cases others with
    | nil => exact ⟨front, String.intercalate_singleton⟩
    | cons m others =>
      rw [String.intercalate_append_of_ne_nil (by simp) (by simp), String.intercalate_singleton,
        ← String.append_assoc]
      exact ⟨_, rfl⟩

theorem effect_ended (e : Effect) : ∃ front, effectTexts e = front ++ "\"" ∧
    (effect e).toList = "\x7b ".toList ++ front.toList ++
      (effectEnd e.target.isNone e.allColumns).toList := by
  obtain ⟨front, closed⟩ := effectTexts_closed e
  refine ⟨front, closed, ?_⟩
  rw [effect_eq, closed, effectEnd]
  simp only [String.toList_append, List.append_assoc]

theorem effectEnd_suffix {none all other whole : Bool}
    (ends : (effectEnd none all).toList <:+ (effectEnd other whole).toList) :
    none = other ∧ (none = false → all = whole) := by
  revert ends
  cases none <;> cases all <;> cases other <;> cases whole <;> decide

/-- No end of an effect is an end of another one, so that the texts in front of them are equal. -/
theorem effect_inj (same : effect e = effect f) :
    effectTexts e = effectTexts f ∧ columnsEntry e = columnsEntry f := by
  obtain ⟨front, closed, written⟩ := effect_ended e
  obtain ⟨start, stops, shown⟩ := effect_ended f
  have whole := congrArg String.toList same
  rw [written, shown] at whole
  have ends : e.target.isNone = f.target.isNone ∧
      (e.target.isNone = false → e.allColumns = f.allColumns) := by
    -- Either end may be the longer one.
    rcases List.suffix_or_suffix_of_suffix ⟨_, whole⟩ (List.suffix_append _ _) with first | second
    · exact effectEnd_suffix first
    · obtain ⟨targets, columns⟩ := effectEnd_suffix second
      exact ⟨targets.symm, fun some => (columns (targets ▸ some)).symm⟩
  have columns : effectEnd e.target.isNone e.allColumns = effectEnd f.target.isNone f.allColumns ∧
      columnsEntry e = columnsEntry f := by
    rw [columnsEntry_eq, columnsEntry_eq, ← ends.1]
    cases target : e.target.isNone with
    | true => exact ⟨rfl, rfl⟩
    | false =>
      rw [ends.2 target]
      exact ⟨rfl, rfl⟩
  rw [columns.1] at whole
  have fronts : front = start :=
    String.toList_injective (List.append_cancel_left (List.append_cancel_right whole))
  exact ⟨by rw [closed, stops, fronts], columns.2⟩

theorem untargeted_of_texts (same : effectTexts e = effectTexts f) :
    e.untargeted = f.untargeted := by
  have left := e.untargeted_read (effectTexts_spell e)
  rw [same, f.untargeted_read (effectTexts_spell f)] at left
  exact (Except.ok.inj left).symm

theorem columnsBinding_split : ∃ front : List Char, ∀ key value,
    (columnsBinding key value).toList = front ++
      (key.toList ++ '"' :: ("] == ".toList ++ ((quote value).toList ++ "]".toList))) := by
  have around (front key value : String) :
      (front ++ key ++ "\"] == " ++ quote value ++ "]").toList = front.toList ++
        (key.toList ++ '"' :: ("] == ".toList ++ ((quote value).toList ++ "]".toList))) := by
    simp
  exact ⟨_, around _⟩

theorem columnsBinding_inj {key other value text : String} (left : '"' ∉ key.toList)
    (right : '"' ∉ other.toList) (same : columnsBinding key value = columnsBinding other text) :
    key = other ∧ value = text := by
  obtain ⟨front, split⟩ := columnsBinding_split
  have chars := congrArg String.toList same
  rw [split, split] at chars
  obtain ⟨keys, rests⟩ := eq_of_append_separator left right (List.append_cancel_left chars)
  have quotes := List.append_cancel_right (List.append_cancel_left rests)
  exact ⟨String.toList_injective keys, quote_inj (String.toList_injective quotes)⟩

theorem target_of_texts (columns : columnsEntry e = columnsEntry f)
    (binding : targetLine e = targetLine f) : e.target = f.target := by
  have apart : entry "columns" "input.columns" ≠ entry "columns" "columns" := by decide
  unfold columnsEntry at columns
  unfold targetLine at binding
  cases first : e.target with
  | none =>
    cases second : f.target with
    | none => rfl
    | some other => cases other <;> simp [first, second] at columns
  | some target =>
    cases second : f.target with
    | none => cases target <;> simp [first, second] at columns
    | some other =>
      rw [first, second] at columns binding
      cases target with
      | allColumns =>
        cases other with
        | allColumns => rfl
        | dataLabel _ => exact absurd (List.cons.inj columns).1 apart
        | columnName _ => exact absurd (List.cons.inj columns).1 apart
      | dataLabel label =>
        cases other with
        | allColumns => exact absurd (List.cons.inj columns).1.symm apart
        | dataLabel _ =>
          rw [(columnsBinding_inj (by decide) (by decide) (List.cons.inj binding).1).2]
        | columnName _ =>
          have keys := (columnsBinding_inj (by decide) (by decide) (List.cons.inj binding).1).1
          exact absurd keys (by decide)
      | columnName name =>
        cases other with
        | allColumns => exact absurd (List.cons.inj columns).1.symm apart
        | dataLabel _ =>
          have keys := (columnsBinding_inj (by decide) (by decide) (List.cons.inj binding).1).1
          exact absurd keys (by decide)
        | columnName _ =>
          rw [(columnsBinding_inj (by decide) (by decide) (List.cons.inj binding).1).2]

end Effects

section References

variable {a b : Reference}

theorem reference_inj (left : IsName a.name) (right : IsName b.name)
    (same : reference a = reference b) : a = b := by
  have plain {name : String} (named : IsName name) (other : String) : name ≠ "not " ++ other := by
    rintro rfl
    exact name_no_space named (by simp)
  obtain ⟨name, negated⟩ := a
  obtain ⟨other, refused⟩ := b
  cases negated with
  | false =>
    cases refused with
    | false => exact congrArg (Reference.mk · false) same
    | true => exact absurd same (plain left other)
  | true =>
    cases refused with
    | false => exact absurd same.symm (plain right name)
    | true =>
      have chars : ("not " ++ name).toList = ("not " ++ other).toList := congrArg String.toList same
      have names : name.toList = other.toList := by simpa using chars
      rw [String.toList_injective names]

theorem reference_not_true (named : IsName a.name) : reference a ≠ "true" := by
  intro same
  cases negated : a.negated with
  | false =>
    have word : a.name = "true" := by simpa [reference, negated] using same
    exact named.2 (by rw [word]; decide)
  | true =>
    have chars := congrArg String.toList same
    simp [reference, negated] at chars

theorem reference_no_equals (named : IsName a.name) : '=' ∉ (reference a).toList := by
  have bare : '=' ∉ a.name.toList := not_mem_identifier named.1 (by decide)
  unfold reference
  split <;> simp [bare]

end References

theorem references_inj {a b : List Reference} (left : ∀ ref ∈ a, IsName ref.name)
    (right : ∀ ref ∈ b, IsName ref.name) (same : a.map reference = b.map reference) : a = b := by
  induction a generalizing b with
  | nil => exact (List.map_eq_nil_iff.1 same.symm).symm
  | cons ref a ih =>
    obtain ⟨other, b, rfl, first, rest⟩ := List.map_eq_cons_iff.1 same.symm
    rw [List.forall_mem_cons] at left right
    rw [reference_inj left.1 right.1 first.symm, ih left.2 right.2 rest.symm]

theorem bodyLines_inj {a b : List String} {x y : List Char} (left : ∀ line ∈ a, '\n' ∉ line.toList)
    (right : ∀ line ∈ b, '\n' ∉ line.toList)
    (same : (String.join (a.map bodyLine)).toList ++ '}' :: x =
      (String.join (b.map bodyLine)).toList ++ '}' :: y) : a = b := by
  have cons (line : String) (lines : List String) (rest : List Char) :
      (String.join ((line :: lines).map bodyLine)).toList ++ rest =
        "    ".toList ++ (line.toList ++
          '\n' :: ((String.join (lines.map bodyLine)).toList ++ rest)) := by
    simp [bodyLine]
  induction a generalizing b with
  | nil =>
    cases b with
    | nil => rfl
    | cons other b =>
      rw [cons] at same
      simp at same
  | cons line a ih =>
    cases b with
    | nil =>
      rw [cons] at same
      simp at same
    | cons other b =>
      rw [cons, cons] at same
      rw [List.forall_mem_cons] at left right
      obtain ⟨lines, rests⟩ :=
        eq_of_append_separator left.1 right.1 (List.append_cancel_left same)
      rw [String.toList_injective lines, ih left.2 right.2 rests]

theorem targetLine_equals (e : Effect) : ∀ line ∈ targetLine e, '=' ∈ line.toList := by
  have assigns (key value : String) : '=' ∈ (columnsBinding key value).toList := by
    obtain ⟨front, split⟩ := columnsBinding_split
    simp [split]
  unfold targetLine
  split
  · exact List.forall_mem_singleton.2 (assigns _ _)
  · exact List.forall_mem_singleton.2 (assigns _ _)
  · simp

/-- Lists that never hold the item put in place of an empty one are told apart with it. -/
theorem eq_of_filler {α : Type} {filler : α} {a b : List α} (left : filler ∉ a) (right : filler ∉ b)
    (same : (if a.isEmpty then [filler] else a) = if b.isEmpty then [filler] else b) : a = b := by
  cases a with
  | nil =>
    cases b with
    | nil => rfl
    | cons second b =>
      have shown : [filler] = second :: b := same
      exact absurd (by simp [← shown]) right
  | cons first a =>
    cases b with
    | nil =>
      have shown : first :: a = [filler] := same
      exact absurd (by simp [shown]) left
    | cons second b => exact same

section Bodies

variable {r s : Rule}

theorem true_not_mem_lines (references : ∀ ref ∈ r.whenAllOf, IsName ref.name) :
    "true" ∉ r.whenAllOf.map reference ++ targetLine r.effect := by
  intro member
  rcases List.mem_append.1 member with ofReference | ofTarget
  · obtain ⟨ref, inside, same⟩ := List.mem_map.1 ofReference
    exact reference_not_true (references ref inside) same
  · exact absurd (targetLine_equals r.effect "true" ofTarget) (by decide)

theorem references_no_equals {references : List Reference}
    (named : ∀ ref ∈ references, IsName ref.name) :
    ∀ line ∈ references.map reference, decide ('=' ∉ line.toList) = true := by
  intro line member
  obtain ⟨ref, inside, rfl⟩ := List.mem_map.1 member
  exact decide_eq_true (reference_no_equals (named ref inside))

theorem ruleBody_inj (left : ∀ ref ∈ r.whenAllOf, IsName ref.name)
    (right : ∀ ref ∈ s.whenAllOf, IsName ref.name) (same : ruleBody r = ruleBody s) :
    r.whenAllOf = s.whenAllOf ∧ targetLine r.effect = targetLine s.effect := by
  have lines := eq_of_filler (true_not_mem_lines left) (true_not_mem_lines right) same
  have stops (e : Effect) : ∀ line, (targetLine e).head? = some line →
      decide ('=' ∉ line.toList) = false := by
    intro line first
    simpa using targetLine_equals e line (List.mem_of_mem_head? first)
  -- The references are the lines in front that assign nothing.
  obtain ⟨references, bindings⟩ := leading_run (references_no_equals left)
    (references_no_equals right) (stops r.effect) (stops s.effect) lines
  exact ⟨references_inj left right references, bindings⟩

end Bodies

section Rules

variable {r s : Rule}

theorem rule_default (fallback : r.isDefault = true) : (rule r).toList =
    "default".toList ++ ' ' ::
      (r.name.toList ++ ' ' :: (":= ".toList ++ ((effect r.effect).toList ++ "\n".toList))) := by
  simp [rule, fallback]

theorem rule_conditional (conditional : r.isDefault = false) : (rule r).toList =
    r.name.toList ++ ' ' :: (":= ".toList ++ ((effect r.effect ++ " if \x7b").toList ++
      '\n' :: ((String.join ((ruleBody r).map bodyLine)).toList ++ '}' :: "\n".toList))) := by
  simp [rule, conditional, definition]

theorem default_ne_conditional (named : IsName s.name) (fallback : r.isDefault = true)
    (conditional : s.isDefault = false) : rule r ≠ rule s := by
  intro same
  have chars := congrArg String.toList same
  rw [rule_default fallback, rule_conditional conditional] at chars
  have words := (eq_of_append_separator (by decide) (name_no_space named) chars).1
  exact name_not_default named words.symm

theorem rule_isDefault (left : IsName r.name) (right : IsName s.name) (same : rule r = rule s) :
    r.isDefault = s.isDefault := by
  cases first : r.isDefault with
  | true =>
    cases second : s.isDefault with
    | true => rfl
    | false => exact absurd same (default_ne_conditional right first second)
  | false =>
    cases second : s.isDefault with
    | true => exact absurd same.symm (default_ne_conditional left second first)
    | false => rfl

theorem default_inj (left : IsName r.name) (right : IsName s.name) (first : r.isDefault = true)
    (second : s.isDefault = true) (same : rule r = rule s) :
    r.name = s.name ∧ effect r.effect = effect s.effect := by
  have chars := congrArg String.toList same
  rw [rule_default first, rule_default second] at chars
  obtain ⟨-, named⟩ := eq_of_append_separator (by decide) (by decide) chars
  obtain ⟨names, rests⟩ := eq_of_append_separator (name_no_space left) (name_no_space right) named
  have effects := List.append_cancel_right (List.append_cancel_left rests)
  exact ⟨String.toList_injective names, String.toList_injective effects⟩

theorem conditional_inj (left : IsName r.name) (right : IsName s.name)
    (leftReferences : ∀ ref ∈ r.whenAllOf, IsName ref.name)
    (rightReferences : ∀ ref ∈ s.whenAllOf, IsName ref.name) (first : r.isDefault = false)
    (second : s.isDefault = false) (same : rule r = rule s) :
    r.name = s.name ∧ effect r.effect = effect s.effect ∧ ruleBody r = ruleBody s := by
  have flat (e : Effect) : '\n' ∉ (effect e ++ " if \x7b").toList := by simp [effect_flat]
  have chars := congrArg String.toList same
  rw [rule_conditional first, rule_conditional second] at chars
  obtain ⟨names, rests⟩ := eq_of_append_separator (name_no_space left) (name_no_space right) chars
  obtain ⟨heads, bodies⟩ :=
    eq_of_append_separator (flat r.effect) (flat s.effect) (List.append_cancel_left rests)
  rw [String.toList_append, String.toList_append] at heads
  have effects := List.append_cancel_right heads
  exact ⟨String.toList_injective names, String.toList_injective effects,
    bodyLines_inj (ruleBody_flat leftReferences) (ruleBody_flat rightReferences) bodies⟩

theorem targetLine_default {constants predicates : List String}
    (wellFormed : r.WellFormed constants predicates) (fallback : r.isDefault = true) :
    targetLine r.effect = [] := by
  unfold targetLine
  split
  · rename_i label chosen
    cases wellFormed.unfiltered fallback _ chosen
  · rename_i name chosen
    cases wellFormed.unfiltered fallback _ chosen
  · rfl

theorem rule_inj {doc other : Document} (left : doc.WellFormed) (right : other.WellFormed)
    (mine : r ∈ doc.rules) (theirs : s ∈ other.rules) (same : rule r = rule s) :
    r.name = s.name ∧ effect r.effect = effect s.effect ∧ r.whenAllOf = s.whenAllOf ∧
      targetLine r.effect = targetLine s.effect := by
  have checked := left.rules r mine
  have accepted := right.rules s theirs
  have defaults := rule_isDefault checked.name accepted.name same
  cases first : r.isDefault with
  | true =>
    have second : s.isDefault = true := by rw [← defaults, first]
    obtain ⟨names, effects⟩ := default_inj checked.name accepted.name first second same
    refine ⟨names, effects, ?_, ?_⟩
    · rw [checked.unconditional first, accepted.unconditional second]
    · rw [targetLine_default checked first, targetLine_default accepted second]
  | false =>
    have second : s.isDefault = false := by rw [← defaults, first]
    have leftReferences := left.reference_named mine
    have rightReferences := right.reference_named theirs
    obtain ⟨names, effects, bodies⟩ := conditional_inj checked.name accepted.name leftReferences
      rightReferences first second same
    exact ⟨names, effects, ruleBody_inj leftReferences rightReferences bodies⟩

/-- Two rules decide the same: they may differ in their places, and in whether a text is empty or
    not set. -/
structure SameDecision (r s : Rule) : Prop where
  name : r.name = s.name
  isDefault : r.isDefault = s.isDefault
  action : r.effect.action = s.effect.action
  kind : filled r.effect.kind = filled s.effect.kind
  subKind : filled r.effect.subKind = filled s.effect.subKind
  typesafe : filled r.effect.typesafe = filled s.effect.typesafe
  message : filled r.effect.message = filled s.effect.message
  reason : filled r.effect.reason = filled s.effect.reason
  target : r.effect.target = s.effect.target
  whenAllOf : r.whenAllOf = s.whenAllOf

theorem SameDecision.rule_eq (same : SameDecision r s) : rule r = rule s := by
  have metadata : r.effect.metadata = s.effect.metadata := by
    simp only [Effect.metadata, Effect.fields, List.filterMap_cons, same.action, same.kind,
      same.subKind, same.typesafe, same.message, same.reason]
  -- The flag for all columns is not compared, since only the target is written.
  have effects : effect r.effect = effect s.effect := by
    rw [effect, effect, effectEntries_eq, effectEntries_eq, metadata, columnsEntry, columnsEntry,
      same.target]
  have bodies : ruleBody r = ruleBody s := by
    rw [ruleBody, ruleBody, targetLine, targetLine, same.whenAllOf, same.target]
  rw [rule, rule, same.isDefault, same.name, effects, bodies]

end Rules

/-- Rules of compiled documents have one text exactly if they decide the same. -/
theorem rule_eq_iff {doc other : Document} {policy rival : Compiled}
    (left : doc.compile = .ok policy) (right : other.compile = .ok rival) {r s : Rule}
    (mine : r ∈ doc.rules) (theirs : s ∈ other.rules) : rule r = rule s ↔ SameDecision r s := by
  refine ⟨fun same => ?_, SameDecision.rule_eq⟩
  have wellFormed := ((compile_eq_ok doc policy).1 left).1
  have accepted := ((compile_eq_ok other rival).1 right).1
  have defaults :=
    rule_isDefault (wellFormed.rules r mine).name (accepted.rules s theirs).name same
  obtain ⟨names, effects, references, bindings⟩ := rule_inj wellFormed accepted mine theirs same
  obtain ⟨texts, columns⟩ := effect_inj effects
  have metadata := untargeted_of_texts texts
  simp only [Effect.untargeted, Effect.mk.injEq, and_true] at metadata
  obtain ⟨action, kind, subKind, typesafe, message, reason⟩ := metadata
  exact ⟨names, defaults, action, kind, subKind, typesafe, message, reason,
    target_of_texts columns bindings, references⟩

def masked (unset : Option String) (index : Nat) : Rule :=
  ⟨"mask_pay", false,
    ⟨.mask, some "hash", unset, unset, some "say \" \x7d\n", unset, unset, some "pay\"]", false⟩,
    [⟨"staff", true⟩, ⟨"staff", false⟩], index⟩

def masking (unset : Option String) (index : Nat) : Document where
  description := none
  connectors := []
  constants := []
  predicates := [⟨"staff", [⟨.present, some "user.id", [], none⟩]⟩]
  rules := [masked unset index]
  rawRego := none

/-- An empty text is not set, and a rule has its text wherever it stands. -/
theorem masked_eq :
    masked none 0 ≠ masked (some "") 7 ∧
    rule (masked none 0) = "mask_pay := \x7b \"action\": \"mask\", \"type\": \"hash\", " ++
      "\"message\": \"say \\\" \x7d\\n\", \"columns\": columns \x7d if \x7b\n" ++
      "    not staff\n    staff\n    columns := [col | col := input.columns[_]; " ++
      "col[\"name\"] == \"pay\\\"]\"]\n\x7d\n" ∧
    rule (masked (some "") 7) = rule (masked none 0) ∧
    SameDecision (masked (some "") 7) (masked none 0) := by
  have left := compile_of_clean (masking (some "") 7) (by decide +kernel)
  have right := compile_of_clean (masking none 0) (by decide +kernel)
  have same : rule (masked (some "") 7) = rule (masked none 0) := by decide +kernel
  exact ⟨by decide, by decide +kernel, same,
    (rule_eq_iff left right List.mem_cons_self List.mem_cons_self).1 same⟩

end RegoPolicy.Rego
