import RegoPolicy.Proofs.Decoding
import RegoPolicy.Proofs.WrittenNumbers

/-!
Written values are texts of the grammar, and a value that its text keeps is read back from it. What
a text does not keep is the order of members that do not stand in the order of their names, the
members of one name, and numbers that round.
-/
namespace RegoPolicy.Json

open Text

def Number.Kept (n : Number) : Prop :=
  ∀ negative numeral, ofString n.write = signed negative numeral →
    numeral.value? negative = some n

/-- A value that is read back from its text where so many levels are left. -/
def Value.Kept : Nat → Value → Prop
  | _, .null => True
  | _, .bool _ => True
  | _, .number n => n.Kept
  | _, .string _ => True
  | 0, .array _ => False
  | 0, .object _ => False
  | levels + 1, .array items => ∀ v ∈ items, Value.Kept levels v
  | levels + 1, .object members => Ordered members ∧ ∀ m ∈ members, Value.Kept levels m.2

theorem putEntry_last {α : Type} {name : String} {a : α} {entries : List (String × α)}
    (last : ∀ p ∈ entries, p.1 < name) : putEntry name a entries = entries ++ [(name, a)] := by
  induction entries with
  | nil => rfl
  | cons entry entries ih =>
    have here : entry.1 < name := last entry List.mem_cons_self
    have notLess : ¬ name < entry.1 := fun less => String.lt_irrefl _ (String.lt_trans here less)
    have notSame : name ≠ entry.1 := fun same => String.lt_irrefl _ (same ▸ here)
    rw [putEntry, if_neg notLess, if_neg notSame,
      ih fun p member => last p (List.mem_cons_of_mem entry member)]
    rfl

theorem ordered_front {α : Type} {entries : List (String × α)} {m : String × α}
    {members : List (String × α)} (ordered : Ordered (entries ++ m :: members)) :
    ∀ p ∈ entries, p.1 < m.1 := by
  intro p member
  exact (List.pairwise_append.1 ordered).2.2 p member m List.mem_cons_self

theorem signed_tree (negative : Bool) (n : Numeral) :
    HasTree (signed negative n) (.number negative n) := by
  cases negative with
  | false => exact .positive n
  | true => exact .negative n

mutual

/-- Every spelling of a value has a tree, from which the value is had back if its text keeps it. -/
theorem Spells.tree : {v : Value} → {text : List Symbol} → Spells v text →
    ∃ t, HasTree text t ∧ ∀ levels, v.Kept levels → t.value? levels = some v
  | _, _, .null => ⟨_, .null, fun _ _ => by simp [Tree.value?]⟩
  | _, _, .true => ⟨_, .true, fun _ _ => by simp [Tree.value?]⟩
  | _, _, .false => ⟨_, .false, fun _ _ => by simp [Tree.value?]⟩
  | _, _, .number n => by
    obtain ⟨negative, numeral, text⟩ := write_numeral n
    refine ⟨.number negative numeral, text ▸ signed_tree negative numeral, ?_⟩
    intro levels kept
    have same : numeral.value? negative = some n := by
      rw [Value.Kept] at kept
      exact kept negative numeral text
    rw [Tree.value?, same]
    rfl
  | _, _, .string s => by
    refine ⟨.string (.ofText s), .string (.ofText s), ?_⟩
    intro levels _
    rw [Tree.value?, Quotation.text?_ofText]
    rfl
  | _, _, .array each joined => by
    obtain ⟨trees, have', values⟩ := each.trees
    refine ⟨.list trees, .list have' joined, ?_⟩
    intro levels kept
    cases levels with
    | zero =>
      rw [Value.Kept] at kept
      exact kept.elim
    | succ levels =>
      rw [Value.Kept] at kept
      rw [Tree.value?, values levels kept]
      rfl
  | _, _, .object each joined => by
    obtain ⟨trees, have', values⟩ := each.trees
    rw [map_memberText] at joined
    refine ⟨.object trees, .object have' joined, ?_⟩
    intro levels kept
    cases levels with
    | zero =>
      rw [Value.Kept] at kept
      exact kept.elim
    | succ levels =>
      rw [Value.Kept] at kept
      rw [Tree.value?, values levels [] kept.2 kept.1]
      rfl

theorem SpellItems.trees : {items : List Value} → {parts : List (List Symbol)} →
    SpellItems items parts → ∃ trees, HaveTrees parts trees ∧
      ∀ levels, (∀ v ∈ items, v.Kept levels) → trees.mapM (Tree.value? levels) = some items
  | _, _, .nil => ⟨[], .nil, fun _ _ => rfl⟩
  | _, _, .cons first rest => by
    obtain ⟨t, tree, value⟩ := first.tree
    obtain ⟨trees, others, values⟩ := rest.trees
    refine ⟨t :: trees, .cons tree others, ?_⟩
    intro levels kept
    rw [List.mapM_cons, value levels (kept _ List.mem_cons_self),
      values levels fun v member => kept v (List.mem_cons_of_mem _ member)]
    rfl

theorem SpellMembers.trees : {members : List (String × Value)} →
    {entries : List (String × List Symbol)} → SpellMembers members entries →
      ∃ trees, HaveMembers (entries.map fun entry => (content entry.1, entry.2)) trees ∧
        ∀ levels front, (∀ m ∈ members, m.2.Kept levels) → Ordered (front ++ members) →
          trees.foldlM (decodeEntry (Tree.value? levels)) front = some (front ++ members)
  | _, _, .nil => ⟨[], .nil, fun _ front _ _ => by simp⟩
  | _, _, @SpellMembers.cons key v members _ _ _ _ apart blank first rest => by
    obtain ⟨t, tree, value⟩ := first.tree
    obtain ⟨trees, others, values⟩ := rest.trees
    refine ⟨(.ofText key, t) :: trees, .cons (q := .ofText key) apart blank tree others, ?_⟩
    intro levels front kept ordered
    have last := putEntry_last (a := v) (ordered_front ordered)
    have step : decodeEntry (Tree.value? levels) front (.ofText key, t) =
        some (front ++ [(key, v)]) := by
      simp [decodeEntry, Quotation.text?_ofText, value levels (kept _ List.mem_cons_self), last]
    rw [List.foldlM_cons, step]
    have more := values levels (front ++ [(key, v)])
      (fun m member => kept m (List.mem_cons_of_mem _ member)) (by simpa using ordered)
    simpa using more

end

theorem compact_isLiteral (v : Value) : isLiteral v.compact = true := by
  obtain ⟨t, tree, -⟩ := (compact_spells v).tree
  exact (isLiteral_iff_textOf _).2 ⟨t, [], _, [], blank_nil, tree, blank_nil, by simp⟩

end RegoPolicy.Json
