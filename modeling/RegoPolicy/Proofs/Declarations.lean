import Mathlib.Data.List.Induction
import RegoPolicy.Policy.Draft

/-!
What the draft of a document holds, said of the lists of the document: the tables of its constants
and predicates, its rules at their places, and what was found while they were declared.
-/
namespace RegoPolicy.Policy

/-- What is told of each element of a list, where the elements before it are known. -/
def inOrder {α β : Type} (tell : List α → α → List β) : List α → List α → List β
  | _, [] => []
  | before, a :: rest => tell before a ++ inOrder tell (before ++ [a]) rest

theorem inOrder_eq_nil {α β : Type} (tell : List α → α → List β) (before l : List α) :
    inOrder tell before l = [] ↔
      ∀ front a back, l = front ++ a :: back → tell (before ++ front) a = [] := by
  induction l generalizing before with
  | nil => simp [inOrder]
  | cons a rest ih =>
    rw [inOrder, List.append_eq_nil_iff, ih]
    constructor
    · rintro ⟨here, later⟩ front b back split
      cases front with
      | nil =>
        obtain ⟨rfl, rfl⟩ := List.cons.inj split
        simpa using here
      | cons c front =>
        obtain ⟨rfl, tail⟩ := List.cons.inj split
        simpa using later front b back tail
    · intro all
      refine ⟨by simpa using all [] a rest rfl, ?_⟩
      intro front b back split
      simpa using all (a :: front) b back (by simp [split])

theorem findingsAt_append (location : Location) (a b : List Issue) :
    findingsAt location (a ++ b) = findingsAt location a ++ findingsAt location b :=
  List.map_append

theorem findingsAt_eq_nil (location : Location) (issues : List Issue) :
    findingsAt location issues = [] ↔ issues = [] :=
  List.map_eq_nil_iff

section Constants

/-- The first constant of a name counts. -/
def constantTable (constants : List Constant) : Table String :=
  constants.foldl (fun t c => if t.contains c.name then t else t.insert c.name c.value) .empty

theorem constantTable_snoc (constants : List Constant) (c : Constant) :
    constantTable (constants ++ [c]) =
      if (constantTable constants).contains c.name then constantTable constants
      else (constantTable constants).insert c.name c.value := by
  rw [constantTable, List.foldl_append]
  rfl

theorem contains_constantTable (constants : List Constant) (name : String) :
    (constantTable constants).contains name = constants.any fun c => c.name = name := by
  induction constants using List.reverseRecOn with
  | nil => rfl
  | append_singleton constants c ih =>
    rw [constantTable_snoc, List.any_append]
    split
    · rename_i known
      by_cases same : c.name = name
      · subst same
        simp [known, ← ih]
      · simp [same, ih]
    · rw [Table.contains_insert, ih]
      simp [Bool.or_comm]

theorem putEntry_perm {α : Type} {name : String} {a : α} {entries : List (String × α)}
    (fresh : ∀ p ∈ entries, p.1 ≠ name) :
    (putEntry name a entries).Perm ((name, a) :: entries) := by
  induction entries with
  | nil => exact .rfl
  | cons entry rest ih =>
    obtain ⟨key, b⟩ := entry
    have other : name ≠ key := fun same => fresh (key, b) List.mem_cons_self same.symm
    have tail := ih fun p member => fresh p (List.mem_cons_of_mem _ member)
    simp only [putEntry, if_neg other]
    split
    · exact .rfl
    · exact (tail.cons _).trans (.swap _ _ _)

theorem constantTable_perm {constants : List Constant}
    (distinct : (constants.map (·.name)).Nodup) :
    (constantTable constants).entries.Perm (constants.map fun c => (c.name, c.value)) := by
  induction constants using List.reverseRecOn with
  | nil => exact .nil
  | append_singleton constants c ih =>
    rw [List.map_append, List.nodup_append] at distinct
    obtain ⟨earlier, -, apart⟩ := distinct
    have free : (constantTable constants).contains c.name = false := by
      rw [contains_constantTable, List.any_eq_false]
      intro b member
      simpa using apart b.name (List.mem_map_of_mem member) c.name (by simp)
    have fresh : ∀ p ∈ (constantTable constants).entries, p.1 ≠ c.name := by
      simpa [Table.contains] using free
    rw [constantTable_snoc, if_neg (by simp [free]), List.map_append]
    exact (putEntry_perm fresh).trans ((ih earlier).cons _ |>.trans
      (List.perm_append_singleton _ _).symm)

def constantFindings (before : List Constant) (c : Constant) : List Finding :=
  findingsAt (.constant before.length c.name)
    (c.issues ++ only (before.any fun b => b.name = c.name) (.nameTaken .earlierConstant))

theorem declareConstant_eq (d : Draft) (index : Nat) (c : Constant) :
    d.declareConstant index c =
      { d with
        constants := if d.constants.contains c.name then d.constants
          else d.constants.insert c.name c.value
        findings := d.findings ++ findingsAt (.constant index c.name)
          (c.issues ++ only (d.constants.contains c.name) (.nameTaken .earlierConstant)) } := by
  simp only [Draft.declareConstant, Draft.report]
  split
  · rename_i known
    simp [known, only, findingsAt_append]
  · rename_i fresh
    simp [fresh, only, Draft.addConstant]

theorem declare_constants (before rest : List Constant) (d : Draft)
    (held : d.constants = constantTable before) :
    (rest.zipIdx before.length).foldl (fun d (c, index) => d.declareConstant index c) d =
      { d with
        constants := constantTable (before ++ rest)
        findings := d.findings ++ inOrder constantFindings before rest } := by
  induction rest generalizing before d with
  | nil => simp [inOrder, ← held]
  | cons c rest ih =>
    have next : (d.declareConstant before.length c).constants = constantTable (before ++ [c]) := by
      rw [declareConstant_eq, constantTable_snoc, held]
    have step := ih (before ++ [c]) (d.declareConstant before.length c) next
    simp only [List.length_append, List.length_singleton] at step
    rw [List.zipIdx_cons, List.foldl_cons, step, declareConstant_eq]
    simp [inOrder, constantFindings, held, contains_constantTable]

end Constants

section Predicates

def predicateTable (predicates : List Predicate) : Table (List Predicate) :=
  predicates.foldl (fun t p => t.insert p.name ((t.get? p.name).getD [] ++ [p])) .empty

theorem predicateTable_snoc (predicates : List Predicate) (p : Predicate) :
    predicateTable (predicates ++ [p]) =
      (predicateTable predicates).insert p.name
        (((predicateTable predicates).get? p.name).getD [] ++ [p]) := by
  rw [predicateTable, List.foldl_append]
  rfl

theorem contains_predicateTable (predicates : List Predicate) (name : String) :
    (predicateTable predicates).contains name = predicates.any fun p => p.name = name := by
  induction predicates using List.reverseRecOn with
  | nil => rfl
  | append_singleton predicates p ih =>
    rw [predicateTable_snoc, Table.contains_insert, ih, List.any_append]
    simp [Bool.or_comm]

theorem putEntry_blocks_perm (p : Predicate) {entries : List (String × List Predicate)}
    (ordered : Ordered entries) :
    ((putEntry p.name (((entries.find? fun q => q.1 = p.name).map (·.2)).getD [] ++ [p])
      entries).flatMap (·.2)).Perm (p :: entries.flatMap (·.2)) := by
  induction entries with
  | nil => simp [putEntry]
  | cons entry rest ih =>
    obtain ⟨key, blocks⟩ := entry
    obtain ⟨above, tail⟩ := List.pairwise_cons.1 ordered
    simp only [putEntry]
    split
    · rename_i less
      -- the name comes before every key, so it has no blocks yet
      have absent : ((key, blocks) :: rest).find? (fun q => q.1 = p.name) = none := by
        rw [List.find?_eq_none]
        intro q member
        have larger : p.name < q.1 := by
          rcases List.mem_cons.1 member with rfl | later
          · exact less
          · exact String.lt_trans less (above q later)
        simpa using fun same : q.1 = p.name => String.lt_irrefl _ (same ▸ larger)
      simp [absent]
    · split
      · rename_i same
        simp only [List.find?_cons, ← same, decide_true, List.flatMap_cons, Option.map_some,
          Option.getD_some, List.append_assoc, List.singleton_append]
        exact List.perm_middle
      · rename_i other
        have later := ih tail
        simp only [List.find?_cons, Ne.symm other, decide_false, List.flatMap_cons]
        exact (later.append_left blocks).trans List.perm_middle

theorem predicateTable_blocks (predicates : List Predicate) :
    ((predicateTable predicates).entries.flatMap (·.2)).Perm predicates := by
  induction predicates using List.reverseRecOn with
  | nil => exact .nil
  | append_singleton predicates p ih =>
    rw [predicateTable_snoc]
    have added := putEntry_blocks_perm p (predicateTable predicates).ordered
    exact (added.trans (ih.cons p)).trans (List.perm_append_singleton p predicates).symm

def predicateFindings (constants : List Constant) (before : List Predicate) (p : Predicate) :
    List Finding :=
  findingsAt (.predicate before.length p.name)
    (p.issues fun name => constants.any fun c => c.name = name)

theorem declare_predicates (constants : List Constant) (before rest : List Predicate) (d : Draft)
    (known : d.constants = constantTable constants) (held : d.predicates = predicateTable before) :
    (rest.zipIdx before.length).foldl (fun d (p, index) => d.declarePredicate index p) d =
      { d with
        predicates := predicateTable (before ++ rest)
        findings := d.findings ++ inOrder (predicateFindings constants) before rest } := by
  induction rest generalizing before d with
  | nil => simp [inOrder, ← held]
  | cons p rest ih =>
    have next :
        (d.declarePredicate before.length p).predicates = predicateTable (before ++ [p]) := by
      rw [predicateTable_snoc, ← held]
      rfl
    have step := ih (before ++ [p]) (d.declarePredicate before.length p) known next
    have names : d.constants.contains = fun name => constants.any fun c => c.name = name := by
      funext name
      rw [known, contains_constantTable]
    simp only [List.length_append, List.length_singleton] at step
    rw [List.zipIdx_cons, List.foldl_cons, step]
    simp [inOrder, predicateFindings, Draft.declarePredicate, Draft.report, Draft.addPredicate,
      names]

end Predicates

section Rules

def placed (rules : List Rule) : List Rule :=
  rules.zipIdx.map fun (r, index) => { r with index := index }

theorem placed_snoc (rules : List Rule) (r : Rule) :
    placed (rules ++ [r]) = placed rules ++ [{ r with index := rules.length }] := by
  simp [placed, List.zipIdx_append]

theorem map_placed {β : Type} (view : Rule → β) (rules : List Rule)
    (unplaced : ∀ r index, view { r with index := index } = view r) :
    (placed rules).map view = rules.map view := by
  rw [placed, List.map_map]
  have same : (view ∘ fun (r, index) => { r with index := index }) = view ∘ Prod.fst :=
    funext fun (r, index) => unplaced r index
  rw [same, ← List.map_map, List.zipIdx_map_fst]

theorem forall_placed (holds : Rule → Prop) (rules : List Rule)
    (unplaced : ∀ r index, holds { r with index := index } = holds r) :
    (∀ r ∈ placed rules, holds r) ↔ ∀ r ∈ rules, holds r := by
  have views := map_placed holds rules unplaced
  constructor
  · intro all r member
    have seen : holds r ∈ (placed rules).map holds := views ▸ List.mem_map_of_mem member
    obtain ⟨s, found, same⟩ := List.mem_map.1 seen
    exact same ▸ all s found
  · intro all r member
    have seen : holds r ∈ rules.map holds := views ▸ List.mem_map_of_mem member
    obtain ⟨s, found, same⟩ := List.mem_map.1 seen
    exact same ▸ all s found

def nameConflicts (doc : Document) (before : List Rule) (r : Rule) : List Issue :=
  (if doc.predicates.any fun p => p.name = r.name then [.nameTaken .predicate]
    else only (doc.constants.any fun c => c.name = r.name) (.nameTaken .constant)) ++
  only (r.isDefault && before.any fun s => s.isDefault && s.name = r.name)
    (.nameTaken .earlierDefault)

def ruleFindings (doc : Document) (before : List Rule) (r : Rule) : List Finding :=
  findingsAt (.rule before.length r.name) (r.issues ++ nameConflicts doc before r)

theorem ruleConflicts_eq (doc : Document) (before : List Rule) (r : Rule) (index : Nat) (d : Draft)
    (constants : d.constants = constantTable doc.constants)
    (predicates : d.predicates = predicateTable doc.predicates) (held : d.rules = placed before) :
    d.ruleConflicts { r with index := index } = nameConflicts doc before r := by
  simp only [Draft.ruleConflicts, nameConflicts, constants, predicates, held,
    contains_constantTable, contains_predicateTable]
  have views := map_placed (fun s => s.isDefault && s.name = r.name) before fun _ _ => rfl
  have earlier := congrArg (fun seen => seen.any id) views
  simp only [List.any_map, Function.id_comp] at earlier
  rw [earlier]

theorem declare_rules (doc : Document) (before rest : List Rule) (d : Draft)
    (constants : d.constants = constantTable doc.constants)
    (predicates : d.predicates = predicateTable doc.predicates) (held : d.rules = placed before) :
    (rest.zipIdx before.length).foldl (fun d (r, index) => d.declareRule index r) d =
      { d with
        rules := placed (before ++ rest)
        findings := d.findings ++ inOrder (ruleFindings doc) before rest } := by
  induction rest generalizing before d with
  | nil => simp [inOrder, ← held]
  | cons r rest ih =>
    have next : (d.declareRule before.length r).rules = placed (before ++ [r]) := by
      rw [placed_snoc, ← held]
      rfl
    have step := ih (before ++ [r]) (d.declareRule before.length r) constants predicates next
    have conflicts := ruleConflicts_eq doc before r before.length d constants predicates held
    simp only [List.length_append, List.length_singleton] at step
    rw [List.zipIdx_cons, List.foldl_cons, step]
    simp only [Draft.declareRule, conflicts, Draft.report, Draft.addRule, inOrder, ruleFindings,
      List.append_assoc, List.singleton_append]
    rfl

end Rules

def declarationFindings (doc : Document) : List Finding :=
  inOrder constantFindings [] doc.constants ++
    inOrder (predicateFindings doc.constants) [] doc.predicates ++
    inOrder (ruleFindings doc) [] doc.rules

theorem ofDocument_eq (doc : Document) :
    Draft.ofDocument doc =
      { description := doc.description
        connectors := doc.connectors
        constants := constantTable doc.constants
        predicates := predicateTable doc.predicates
        rules := placed doc.rules
        rawRego := doc.rawRego
        findings := declarationFindings doc } := by
  have first := declare_constants [] doc.constants
    { Draft.empty with
      description := doc.description, connectors := doc.connectors, rawRego := doc.rawRego } rfl
  have second := declare_predicates doc.constants [] doc.predicates _
    (congrArg Draft.constants first) (congrArg Draft.predicates first)
  have third := declare_rules doc [] doc.rules _
    ((congrArg Draft.constants second).trans (congrArg Draft.constants first))
    (congrArg Draft.predicates second)
    ((congrArg Draft.rules second).trans (congrArg Draft.rules first))
  refine Eq.trans third ?_
  rw [second, first]
  rfl

theorem mem_draft_blocks (doc : Document) (p : Predicate) :
    (∃ entry ∈ (Draft.ofDocument doc).predicates.entries, p ∈ entry.2) ↔ p ∈ doc.predicates := by
  rw [← List.mem_flatMap, ofDocument_eq]
  exact (predicateTable_blocks doc.predicates).mem_iff

end RegoPolicy.Policy
