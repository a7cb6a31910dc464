/-!
Entries by name. The names stand in the order of their code points, each once, so two tables with
the same entries are equal.
-/
namespace RegoPolicy

def putEntry {α : Type} (name : String) (a : α) : List (String × α) → List (String × α)
  | [] => [(name, a)]
  | (key, b) :: rest =>
    if name < key then (name, a) :: (key, b) :: rest
    else if name = key then (name, a) :: rest
    else (key, b) :: putEntry name a rest

abbrev Ordered {α : Type} (entries : List (String × α)) : Prop :=
  entries.Pairwise fun p q => p.1 < q.1

theorem name_mem_putEntry {α : Type} {name : String} {a : α} {p : String × α}
    {entries : List (String × α)} (member : p ∈ putEntry name a entries) :
    p = (name, a) ∨ p ∈ entries := by
  induction entries with
  | nil => simpa [putEntry] using member
  | cons entry rest ih =>
    obtain ⟨key, b⟩ := entry
    simp only [putEntry] at member
    split at member
    · simpa using member
    · split at member
      · rcases List.mem_cons.1 member with here | there
        · exact .inl here
        · exact .inr (List.mem_cons_of_mem _ there)
      · rcases List.mem_cons.1 member with here | there
        · exact .inr (by simp [here])
        · rcases ih there with fresh | old
          · exact .inl fresh
          · exact .inr (List.mem_cons_of_mem _ old)

theorem ordered_putEntry {α : Type} (name : String) (a : α) {entries : List (String × α)}
    (ordered : Ordered entries) : Ordered (putEntry name a entries) := by
  induction entries with
  | nil => simp [putEntry]
  | cons entry rest ih =>
    obtain ⟨key, b⟩ := entry
    have tail := (List.pairwise_cons.1 ordered).2
    have above := (List.pairwise_cons.1 ordered).1
    simp only [putEntry]
    split
    · rename_i less
      refine List.pairwise_cons.2 ⟨?_, ordered⟩
      intro p member
      rcases List.mem_cons.1 member with here | there
      · simpa [here] using less
      · exact String.lt_trans less (above p there)
    · rename_i notLess
      split
      · rename_i same
        subst same
        exact List.pairwise_cons.2 ⟨above, tail⟩
      · rename_i other
        refine List.pairwise_cons.2 ⟨?_, ih tail⟩
        intro p member
        rcases name_mem_putEntry member with fresh | old
        · subst fresh
          have le : key ≤ name := String.not_lt.1 notLess
          exact Std.lt_of_le_of_ne le (Ne.symm other)
        · exact above p old

theorem find?_putEntry {α : Type} (name key : String) (a : α) (entries : List (String × α)) :
    (putEntry name a entries).find? (fun p => p.1 = key) =
      if name = key then some (name, a) else entries.find? (fun p => p.1 = key) := by
  induction entries with
  | nil => by_cases same : name = key <;> simp [putEntry, same]
  | cons entry rest ih =>
    obtain ⟨other, b⟩ := entry
    simp only [putEntry]
    split
    · by_cases same : name = key <;> simp [List.find?_cons, same]
    · split
      · rename_i equal
        subst equal
        by_cases same : name = key <;> simp [same]
      · rename_i different
        by_cases same : name = key
        · subst same
          simp [ih, Ne.symm different]
        · simp [List.find?_cons, ih, same]

structure Table (α : Type) where
  entries : List (String × α)
  ordered : Ordered entries

namespace Table

variable {α : Type}

def empty : Table α := ⟨[], .nil⟩

def insert (t : Table α) (name : String) (a : α) : Table α :=
  ⟨putEntry name a t.entries, ordered_putEntry name a t.ordered⟩

def get? (t : Table α) (name : String) : Option α :=
  (t.entries.find? fun p => p.1 = name).map (·.2)

def contains (t : Table α) (name : String) : Bool :=
  t.entries.any fun p => p.1 = name

def keys (t : Table α) : List String := t.entries.map (·.1)

def size (t : Table α) : Nat := t.entries.length

theorem get?_insert (t : Table α) (name key : String) (a : α) :
    (t.insert name a).get? key = if name = key then some a else t.get? key := by
  simp only [get?, insert, find?_putEntry]
  split <;> rfl

theorem contains_eq_isSome_get? (t : Table α) (name : String) :
    t.contains name = (t.get? name).isSome := by
  rw [Bool.eq_iff_iff]
  simp [contains, get?, Option.isSome_map, List.find?_isSome]

theorem contains_insert (t : Table α) (name key : String) (a : α) :
    (t.insert name a).contains key = (decide (name = key) || t.contains key) := by
  rw [contains_eq_isSome_get?, contains_eq_isSome_get?, get?_insert]
  by_cases same : name = key <;> simp [same]

end Table
end RegoPolicy
