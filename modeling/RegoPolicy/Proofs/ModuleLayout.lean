import Mathlib.Tactic.SplitIfs
import RegoPolicy.Proofs.DeclarationOrder
import RegoPolicy.Proofs.KeywordImports

/-!
The sections of a module, said of the lists of its document. Every declaration is written once, at a
place that the lists alone decide: constants by their names, predicates in the stable order of
theirs, rules as they were declared with the default rules last. Names are in order if their bytes
are.
-/
namespace RegoPolicy.Text

theorem append_lt_append (front a b : List UInt8) : front ++ a < front ++ b ↔ a < b := by
  induction front with
  | nil => rfl
  | cons c front ih => simp [ih]

theorem digits_lt {m n : Nat} (less : m < n) :
    m / 262144 < n / 262144 ∨ m / 262144 = n / 262144 ∧
      (m / 4096 % 64 < n / 4096 % 64 ∨ m / 4096 % 64 = n / 4096 % 64 ∧
        (m / 64 % 64 < n / 64 % 64 ∨ m / 64 % 64 = n / 64 % 64 ∧ m % 64 < n % 64)) := by
  omega

theorem bytes_lt_of_lt {c d : Char} (less : c < d) (x y : List UInt8) :
    String.utf8EncodeChar c ++ x < String.utf8EncodeChar d ++ y := by
  have values : c.val.toNat < d.val.toNat := less
  have most : d.val.toNat < 0x110000 := by
    rcases d.valid with low | high <;> omega
  -- what the bytes of a character hold, by their number and place
  have later (k : Nat) : (k % 64 + 128) % 2 ^ 8 = k % 64 + 128 := by omega
  have ofTwo (k : Nat) : (k % 32 + 192) % 2 ^ 8 = k % 32 + 192 := by omega
  have ofThree (k : Nat) : (k % 16 + 224) % 2 ^ 8 = k % 16 + 224 := by omega
  have ofFour (k : Nat) (valid : k < 0x110000) :
      (k / 262144 % 8 + 240) % 2 ^ 8 = k / 262144 + 240 := by omega
  have order := digits_lt values
  simp only [String.utf8EncodeChar]
  generalize c.val.toNat = m at *
  generalize d.val.toNat = n at *
  split_ifs <;>
    simp only [List.cons_append, List.nil_append, List.cons_lt_cons_iff, UInt8.lt_iff_toNat_lt,
      ← UInt8.toNat_inj, UInt8.toNat_ofNat', later, ofTwo, ofThree, ofFour m (by omega),
      ofFour n most, Nat.add_lt_add_iff_right, Nat.add_right_cancel_iff] <;>
    omega

theorem bytes_lt_iff (a b : List Char) :
    a.flatMap String.utf8EncodeChar < b.flatMap String.utf8EncodeChar ↔ a < b := by
  induction a generalizing b with
  | nil =>
    cases b with
    | nil => simp
    | cons d b =>
      obtain ⟨byte, bytes, front⟩ :=
        List.exists_cons_of_ne_nil (String.utf8EncodeChar_ne_nil (c := d))
      simp [front]
  | cons c a ih =>
    cases b with
    | nil => simp
    | cons d b =>
      rw [List.flatMap_cons, List.flatMap_cons, List.cons_lt_cons_iff]
      rcases Std.lt_trichotomy c d with less | rfl | more
      · simp only [bytes_lt_of_lt less, less, true_or]
      · simp [append_lt_append, ih]
      · have reverse := bytes_lt_of_lt more (b.flatMap String.utf8EncodeChar)
          (a.flatMap String.utf8EncodeChar)
        have apart : ¬ (c < d ∨ c = d ∧ a < b) := by
          rintro (less | ⟨rfl, -⟩)
          · exact Char.lt_asymm less more
          · exact Char.lt_irrefl _ more
        simp only [apart, iff_false]
        exact List.lt_asymm reverse

/-- Texts are in order if their bytes are. -/
theorem encode_lt_iff (a b : String) : encode a < encode b ↔ a < b :=
  bytes_lt_iff a.toList b.toList

def bytesLe (a b : String) : Bool := encode a ≤ encode b

theorem bytesLe_iff (a b : String) : bytesLe a b = true ↔ a ≤ b := by
  rw [bytesLe, decide_eq_true_iff, ← String.not_lt, ← encode_lt_iff]
  exact List.not_lt.symm

theorem bytesLe_trans (a b c : String) (first : bytesLe a b = true) (second : bytesLe b c = true) :
    bytesLe a c = true := by
  rw [bytesLe_iff] at *
  exact String.le_trans first second

theorem bytesLe_total (a b : String) : (bytesLe a b || bytesLe b a) = true := by
  rw [Bool.or_eq_true, bytesLe_iff, bytesLe_iff]
  exact String.le_total a b

end RegoPolicy.Text

namespace RegoPolicy.Policy

open Rego Text

/-- What has a name in the order of the names, and in the given order where they are the same. -/
def sortedBy {α : Type} (name : α → String) (l : List α) : List α :=
  l.mergeSort fun a b => bytesLe (name a) (name b)

section SortedBy

variable {α : Type} (name : α → String)

theorem sortedBy_perm (l : List α) : (sortedBy name l).Perm l :=
  List.mergeSort_perm _ _

theorem sortedBy_ascending (l : List α) :
    (sortedBy name l).Pairwise fun a b => name a ≤ name b := by
  have sorted : (sortedBy name l).Pairwise fun a b => bytesLe (name a) (name b) = true :=
    List.pairwise_mergeSort (fun a b c => bytesLe_trans (name a) (name b) (name c))
      (fun a b => bytesLe_total (name a) (name b)) l
  exact sorted.imp (bytesLe_iff _ _).1

variable {name}

theorem sublist_sortedBy {part l : List α} (tied : part.Pairwise fun a b => name a ≤ name b)
    (inside : part.Sublist l) : part.Sublist (sortedBy name l) :=
  List.sublist_mergeSort (fun a b c => bytesLe_trans (name a) (name b) (name c))
    (fun a b => bytesLe_total (name a) (name b))
    (tied.imp (bytesLe_iff _ _).2) inside

theorem sortedBy_rising {l : List α} (distinct : (l.map name).Nodup) :
    (sortedBy name l).Pairwise fun a b => name a < name b := by
  have apart : (sortedBy name l).Pairwise fun a b => name a ≠ name b :=
    List.pairwise_map.1 (((sortedBy_perm name l).map name).nodup_iff.2 distinct)
  refine (apart.and (sortedBy_ascending name l)).imp fun ⟨differ, le⟩ => ?_
  exact Std.lt_of_le_of_ne le differ

end SortedBy

theorem constantTable_sorted {constants : List Constant}
    (distinct : (constants.map (·.name)).Nodup) :
    (constantTable constants).entries =
      (sortedBy (·.name) constants).map fun c => (c.name, c.value) := by
  apply Table.ordered_unique (constantTable constants).ordered
  · exact List.pairwise_map.2 (sortedBy_rising distinct)
  · exact (constantTable_perm distinct).trans ((sortedBy_perm _ constants).map _).symm

theorem name_of_blocksNamed {predicates : List Predicate} {name : String} {p : Predicate}
    (member : p ∈ blocksNamed predicates name) : p.name = name := by
  simpa using (List.mem_filter.1 member).2

theorem blocksNamed_tied (predicates : List Predicate) (name : String) :
    (blocksNamed predicates name).Pairwise fun p q => p.name ≤ q.name := by
  refine List.pairwise_of_forall_mem_list fun p first q second => ?_
  have same : p.name = q.name := (name_of_blocksNamed first).trans (name_of_blocksNamed second).symm
  exact same ▸ String.le_refl p.name

theorem blocksNamed_self {blocks : List Predicate} {name : String}
    (own : ∀ p ∈ blocks, p.name = name) : blocksNamed blocks name = blocks :=
  List.filter_eq_self.2 fun p member => decide_eq_true (own p member)

theorem blocksNamed_sorted (predicates : List Predicate) (name : String) :
    blocksNamed (sortedBy (·.name) predicates) name = blocksNamed predicates name := by
  -- the sort is stable, so the blocks stand in it in their order, and there are no others
  have inside : (blocksNamed predicates name).Sublist (sortedBy (·.name) predicates) :=
    sublist_sortedBy (blocksNamed_tied predicates name) List.filter_sublist
  have kept : (blocksNamed predicates name).Sublist
      (blocksNamed (sortedBy (·.name) predicates) name) := by
    rw [← blocksNamed_self fun p member => name_of_blocksNamed member]
    exact inside.filter _
  have lengths := ((sortedBy_perm (·.name) predicates).filter fun p => p.name = name).length_eq
  exact (kept.eq_of_length lengths.symm).symm

theorem blocksNamed_flatMap {names : List String} (distinct : names.Nodup)
    {blocks : String → List Predicate} (own : ∀ name, ∀ p ∈ blocks name, p.name = name)
    (name : String) :
    blocksNamed (names.flatMap blocks) name = if name ∈ names then blocks name else [] := by
  induction names with
  | nil => rfl
  | cons other names ih =>
    obtain ⟨fresh, rest⟩ := List.nodup_cons.1 distinct
    have split : blocksNamed ((other :: names).flatMap blocks) name =
        blocksNamed (blocks other) name ++ blocksNamed (names.flatMap blocks) name :=
      List.filter_append _ _
    rw [split, ih rest]
    by_cases same : other = name
    · subst same
      simp [blocksNamed_self (own other), fresh]
    · have none : blocksNamed (blocks other) name = [] := by
        refine List.filter_eq_nil_iff.2 fun p member => ?_
        simpa [own other p member] using same
      simp [none, Ne.symm same]

/-- Lists of blocks in order are equal if they have the same blocks of every name. -/
theorem eq_of_blocksNamed {a b : List Predicate} (left : a.Pairwise fun p q => p.name ≤ q.name)
    (right : b.Pairwise fun p q => p.name ≤ q.name)
    (same : ∀ name, blocksNamed a name = blocksNamed b name) : a = b := by
  have members (c : List Predicate) (p : Predicate) : p ∈ c ↔ p ∈ blocksNamed c p.name := by
    simp [blocksNamed]
  induction a generalizing b with
  | nil =>
    cases b with
    | nil => rfl
    | cons q b =>
      have present : q ∈ ([] : List Predicate) := by
        rw [members, same, ← members]
        exact List.mem_cons_self
      cases present
  | cons p a ih =>
    cases b with
    | nil =>
      have present : p ∈ ([] : List Predicate) := by
        rw [members, ← same, ← members]
        exact List.mem_cons_self
      cases present
    | cons q b =>
      -- each first block stands in the other list, so that both have the least name
      have names : p.name = q.name := by
        have ahead : p ∈ q :: b := by
          rw [members, ← same, ← members]
          exact List.mem_cons_self
        have behind : q ∈ p :: a := by
          rw [members, same, ← members]
          exact List.mem_cons_self
        rcases List.mem_cons.1 ahead with rfl | later
        · rfl
        · rcases List.mem_cons.1 behind with rfl | other
          · rfl
          · exact String.le_antisymm ((List.pairwise_cons.1 left).1 q other)
              ((List.pairwise_cons.1 right).1 p later)
      have blocks := same p.name
      simp only [blocksNamed, List.filter_cons, names, decide_true, if_true,
        List.cons.injEq] at blocks
      obtain ⟨rfl, -⟩ := blocks
      congr 1
      refine ih (List.pairwise_cons.1 left).2 (List.pairwise_cons.1 right).2 fun name => ?_
      have rest := same name
      simp only [blocksNamed, List.filter_cons] at rest
      split at rest
      · exact (List.cons.inj rest).2
      · exact rest

/-- The table of predicates holds their blocks in the order of their names. -/
theorem predicateTable_sorted (predicates : List Predicate) :
    (predicateTable predicates).entries.flatMap (·.2) = sortedBy (·.name) predicates := by
  have listed : (predicateTable predicates).entries.flatMap (·.2) =
      (sortedNames (predicates.map (·.name))).flatMap (blocksNamed predicates) := by
    rw [predicateTable_entries, List.flatMap_map]
  have ascending := sortedNames_ascending (predicates.map (·.name))
  rw [listed]
  apply eq_of_blocksNamed
  · refine List.pairwise_flatMap.2 ⟨fun name _ => blocksNamed_tied predicates name, ?_⟩
    refine ascending.imp fun {a b} le p first q second => ?_
    rwa [name_of_blocksNamed first, name_of_blocksNamed second]
  · exact sortedBy_ascending _ predicates
  · intro name
    rw [blocksNamed_sorted, blocksNamed_flatMap (sortedNames_nodup _)
      fun name p member => name_of_blocksNamed member]
    split
    · rfl
    · rename_i absent
      rw [mem_sortedNames] at absent
      refine (List.filter_eq_nil_iff.2 fun p member => ?_).symm
      simpa using fun same => absent (List.mem_map.2 ⟨p, member, same⟩)

end RegoPolicy.Policy

namespace RegoPolicy.Rego

open Policy

def importLines (doc : Document) : String :=
  let defines := !doc.predicates.isEmpty || !doc.rules.isEmpty
  let tests := doc.predicates.any fun p => p.conditions.any fun c => c.operator.isMembership
  (if defines then "import future.keywords.if\n" else "") ++
    (if tests then "import future.keywords.in\n" else "") ++
    (if defines || tests then "\n" else "")

def constantLines (constants : List Constant) : String :=
  if constants.isEmpty then ""
  else String.join (constants.map fun c => c.name ++ " := " ++ c.value ++ "\n") ++ "\n"

/-- The sections that a document asks for. The places that its rules keep are not looked at. -/
def layout (doc : Document) : List String :=
  ["package formal.v2\n\n", importLines doc, descriptionSection doc.description,
    connectorSection doc.connectors, constantLines (sortedBy (·.name) doc.constants)] ++
  (sortedBy (·.name) doc.predicates).map (fun p => predicate p ++ "\n") ++
  [rawSection doc.rawRego] ++
  ((doc.rules.filter fun r => !r.isDefault) ++ doc.rules.filter fun r => r.isDefault).map
    fun r => rule r ++ "\n"

theorem importSection_eq (doc : Document) :
    importSection (Draft.ofDocument doc).checkReferences = importLines doc := by
  rw [importSection, needsIf_eq, needsIn_eq]
  rfl

theorem constantSection_eq {constants : List Constant}
    (distinct : (constants.map (·.name)).Nodup) :
    constantSection (constantTable constants) = constantLines (sortedBy (·.name) constants) := by
  rw [constantSection, constantTable_sorted distinct, constantLines, List.map_map, List.isEmpty_map]
  rfl

theorem predicateSections_eq (predicates : List Predicate) :
    predicateSections (predicateTable predicates) =
      (sortedBy (·.name) predicates).map fun p => predicate p ++ "\n" := by
  rw [predicateSections, ← predicateTable_sorted, List.map_flatMap]

theorem sections_eq_layout {doc : Document} (distinct : doc.constantNames.Nodup) :
    sections (Draft.ofDocument doc).checkReferences = layout doc := by
  unfold sections
  rw [importSection_eq]
  simp only [Draft.checkReferences, Draft.report, ofDocument_eq, constantSection_eq distinct,
    predicateSections_eq, ruleSections_placed]
  rfl

theorem sameDeclarations_unplaced {doc : Document} {rules : List Rule}
    (same : rules.map Rule.unplaced = doc.rules.map Rule.unplaced) :
    SameDeclarations doc { doc with rules := rules } := by
  have kept (keeps : Rule → Bool) (placeless : keeps ∘ Rule.unplaced = keeps) :
      (doc.rules.filter keeps).map Rule.unplaced = (rules.filter keeps).map Rule.unplaced := by
    have through (l : List Rule) :
        (l.filter keeps).map Rule.unplaced = (l.map Rule.unplaced).filter keeps := by
      rw [List.filter_map, placeless]
    rw [through, through, same]
  exact ⟨rfl, rfl, rfl, .rfl, fun _ => rfl, kept _ rfl, kept _ rfl⟩

/-- A module is the layout of its document up to the line feeds at the end, its constants have
    rising names, and it stays the same whatever places the rules keep. -/
theorem module_follows_layout {doc : Document} {policy : Compiled}
    (compiled : doc.compile = .ok policy) :
    policy.rego = String.ofList (dropFeeds (String.join (layout doc)).toList) ++ "\n" ∧
      ((sortedBy (·.name) doc.constants).Pairwise fun a b =>
        Text.encode a.name < Text.encode b.name) ∧
      ∀ rules, rules.map Rule.unplaced = doc.rules.map Rule.unplaced →
        { doc with rules := rules }.compile = .ok policy := by
  obtain ⟨wellFormed, rfl⟩ := (compile_eq_ok doc policy).1 compiled
  refine ⟨?_, ?_, fun rules same => ?_⟩
  · rw [← sections_eq_layout wellFormed.distinct]
    rfl
  · refine (sortedBy_rising wellFormed.distinct).imp fun {a b} less => ?_
    exact (Text.encode_lt_iff a.name b.name).2 less
  · exact (sameDeclarations_unplaced same).compile_of compiled

def scattered : Document where
  description := some "who may read"
  connectors := []
  constants := [⟨"team_b", "[\"b\"]"⟩, ⟨"Team", "1"⟩, ⟨"team", "2"⟩]
  predicates :=
    [⟨"open", [⟨.present, some "a", [], none⟩]⟩,
     ⟨"late", [⟨.member, some "t", [], some "team_b"⟩]⟩,
     ⟨"open", [⟨.equals, some "b", [], some "Team"⟩, ⟨.equals, some "c", [], some "team"⟩]⟩]
  rules :=
    [⟨"allow", true, ⟨.block, none, none, none, none, none, none, none, false⟩, [], 1⟩,
     ⟨"allow", false, ⟨.allow, none, none, none, none, none, none, none, false⟩,
       [⟨"open", false⟩], 9⟩,
     ⟨"allow", false, ⟨.block, none, none, none, none, none, none, none, false⟩,
       [⟨"late", true⟩], 4⟩]
  rawRego := some "extra := 1\n\n"

theorem scattered_follows_layout :
    ∃ policy, scattered.compile = .ok policy ∧
      policy.rego = String.ofList (dropFeeds (String.join (layout scattered)).toList) ++ "\n" ∧
      (sortedBy (·.name) scattered.constants).map (·.name) = ["Team", "team", "team_b"] ∧
      (sortedBy (·.name) scattered.predicates).map (·.conditions.length) = [1, 1, 2] ∧
      { scattered with rules := scattered.rules.map Rule.unplaced }.compile = .ok policy := by
  have compiled := compile_of_clean scattered (by decide +kernel)
  obtain ⟨text, -, placeless⟩ := module_follows_layout compiled
  refine ⟨_, compiled, text, ?_, ?_, placeless _ (by decide)⟩
  · simp +decide [sortedBy, scattered, List.mergeSort, Text.bytesLe_iff]
  · simp +decide [sortedBy, scattered, List.mergeSort, Text.bytesLe_iff]

end RegoPolicy.Rego
