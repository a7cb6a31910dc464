import Mathlib.Data.List.Dedup
import RegoPolicy.Proofs.Declarations

/-!
Tables by the lists they are made from. The names in a table are the distinct names of the list in
their order, and under the name of a predicate stand its blocks as they were declared.
-/
namespace RegoPolicy

def sortedNames (names : List String) : List String :=
  names.dedup.mergeSort fun a b => decide (a ≤ b)

theorem mem_sortedNames {names : List String} {name : String} :
    name ∈ sortedNames names ↔ name ∈ names := by
  rw [sortedNames, (List.mergeSort_perm _ _).mem_iff, List.mem_dedup]

theorem sortedNames_nodup (names : List String) : (sortedNames names).Nodup :=
  (List.mergeSort_perm _ _).nodup_iff.2 names.nodup_dedup

theorem sortedNames_ascending (names : List String) :
    (sortedNames names).Pairwise fun a b => a ≤ b := by
  have sorted : (sortedNames names).Pairwise fun a b => decide (a ≤ b) = true := by
    apply List.pairwise_mergeSort
    · intro a b c first second
      simp only [decide_eq_true_eq] at *
      exact String.le_trans first second
    · intro a b
      simpa using String.le_total a b
  exact sorted.imp fun {a b} le => of_decide_eq_true le

theorem eq_sortedNames {sorted names : List String} (ascends : sorted.Pairwise fun a b => a ≤ b)
    (distinct : sorted.Nodup) (members : ∀ name, name ∈ sorted ↔ name ∈ names) :
    sorted = sortedNames names := by
  have perm : sorted.Perm (sortedNames names) := by
    rw [List.perm_ext_iff_of_nodup distinct (sortedNames_nodup names)]
    intro name
    rw [members, mem_sortedNames]
  exact perm.eq_of_pairwise (fun a b _ _ => String.le_antisymm) ascends
    (sortedNames_ascending names)

theorem sortedNames_congr {names others : List String}
    (members : ∀ name, name ∈ names ↔ name ∈ others) : sortedNames names = sortedNames others := by
  refine eq_sortedNames (sortedNames_ascending names) (sortedNames_nodup names) ?_
  intro name
  rw [mem_sortedNames, members]

namespace Table

variable {α : Type}

theorem ext_entries {s t : Table α} (same : s.entries = t.entries) : s = t := by
  cases s
  cases t
  cases same
  rfl

theorem ordered_unique {a b : List (String × α)} (left : Ordered a) (right : Ordered b)
    (perm : a.Perm b) : a = b := by
  refine perm.eq_of_pairwise ?_ left right
  intro p q _ _ less more
  exact absurd more (String.lt_asymm less)

theorem keys_eq_sortedNames (t : Table α) {names : List String}
    (held : ∀ name, t.contains name = true ↔ name ∈ names) : t.keys = sortedNames names := by
  have rising : t.keys.Pairwise fun a b => a < b := List.pairwise_map.2 t.ordered
  apply eq_sortedNames
  · exact rising.imp fun {a b} less => String.not_lt.1 (String.lt_asymm less)
  · refine rising.imp ?_
    rintro a b less rfl
    exact String.lt_irrefl a less
  · intro name
    rw [← held, keys, contains]
    simp

theorem get?_of_mem {t : Table α} {p : String × α} (member : p ∈ t.entries) :
    t.get? p.1 = some p.2 := by
  have least : ∀ entries : List (String × α), Ordered entries → p ∈ entries →
      entries.find? (fun q => q.1 = p.1) = some p := by
    intro entries ordered inside
    induction entries with
    | nil => cases inside
    | cons q rest ih =>
      obtain ⟨above, tail⟩ := List.pairwise_cons.1 ordered
      rcases List.mem_cons.1 inside with here | later
      · simp [here]
      · have apart : q.1 ≠ p.1 := by
          intro same
          have less := above p later
          rw [same] at less
          exact String.lt_irrefl _ less
        rw [List.find?_cons_of_neg (by simpa using apart)]
        exact ih tail later
  rw [get?, least t.entries t.ordered member]
  rfl

end Table

namespace Policy

theorem constantTable_keys (constants : List Constant) :
    (constantTable constants).keys = sortedNames (constants.map (·.name)) := by
  apply Table.keys_eq_sortedNames
  intro name
  rw [contains_constantTable]
  simp

theorem constantTable_of_perm {a b : List Constant} (distinct : (a.map (·.name)).Nodup)
    (perm : a.Perm b) : constantTable a = constantTable b := by
  have other : (b.map (·.name)).Nodup := (perm.map _).nodup_iff.1 distinct
  apply Table.ext_entries
  apply Table.ordered_unique (constantTable a).ordered (constantTable b).ordered
  have declared := (constantTable_perm distinct).trans (perm.map fun c => (c.name, c.value))
  exact declared.trans (constantTable_perm other).symm

def blocksNamed (predicates : List Predicate) (name : String) : List Predicate :=
  predicates.filter fun p => p.name = name

theorem get?_predicateTable (predicates : List Predicate) (name : String) :
    ((predicateTable predicates).get? name).getD [] = blocksNamed predicates name := by
  induction predicates using List.reverseRecOn with
  | nil => rfl
  | append_singleton predicates p ih =>
    rw [predicateTable_snoc, Table.get?_insert, blocksNamed, List.filter_append]
    by_cases same : p.name = name
    · subst same
      simp [ih, blocksNamed]
    · simpa [same, blocksNamed] using ih

theorem predicateTable_keys (predicates : List Predicate) :
    (predicateTable predicates).keys = sortedNames (predicates.map (·.name)) := by
  apply Table.keys_eq_sortedNames
  intro name
  rw [contains_predicateTable]
  simp

/-- The table of predicates, written out: every name once, with its blocks as they were declared. -/
theorem predicateTable_entries (predicates : List Predicate) :
    (predicateTable predicates).entries =
      (sortedNames (predicates.map (·.name))).map fun name =>
        (name, blocksNamed predicates name) := by
  have same : ∀ p ∈ (predicateTable predicates).entries,
      (p.1, blocksNamed predicates p.1) = p := by
    intro p member
    have blocks := get?_predicateTable predicates p.1
    rw [Table.get?_of_mem member, Option.getD_some] at blocks
    rw [← blocks]
  rw [← predicateTable_keys, Table.keys, List.map_map]
  exact ((List.map_congr_left same).trans (List.map_id' _)).symm

end Policy
end RegoPolicy
