import RegoPolicy.Proofs.Respelling

/-!
Places in a document. What is read from a tree at some place and what stands around it have nothing
to do with each other: either nothing is read, whatever the tree is, or what the tree gives is put
into the same surroundings.
-/
namespace RegoPolicy.Policy

open Json

section Fills

variable {α β γ ι κ : Type}

/-- What is had from a tree that stands in some place: nothing whatever the tree is, or what the
    tree itself gives, put into what stands around. -/
def Fills (outer : Tree → Option α) (inner : Tree → Option β) (put : ι → β → α) : Prop :=
  (∀ t, outer t = none) ∨ ∃ around, ∀ t, outer t = (inner t).map (put around)

theorem Fills.comp {outer : Tree → Option α} {middle : Tree → Option β} {inner : Tree → Option γ}
    {put : ι → β → α} {place : κ → γ → β} {hole : Tree → Tree} (left : Fills outer middle put)
    (right : Fills (fun t => middle (hole t)) inner place) :
    Fills (fun t => outer (hole t)) inner fun (around : ι × κ) c =>
      put around.1 (place around.2 c) := by
  rcases left with nothing | ⟨first, filled⟩
  · exact .inl fun t => nothing (hole t)
  rcases right with nothing | ⟨second, placed⟩
  · left
    intro t
    simpa [filled] using nothing t
  · right
    refine ⟨(first, second), fun t => ?_⟩
    have inside : middle (hole t) = (inner t).map (place second) := placed t
    simp only [filled, inside, Option.map_map]
    rfl

theorem Fills.map {outer : Tree → Option α} {inner : Tree → Option β} {put : ι → β → α}
    (fills : Fills outer inner put) (make : α → γ) :
    Fills (fun t => (outer t).map make) inner fun around b => make (put around b) := by
  rcases fills with nothing | ⟨around, filled⟩
  · left
    intro t
    simp only [nothing, Option.map_none]
  · right
    refine ⟨around, fun t => ?_⟩
    simp only [filled, Option.map_map]
    rfl

theorem Fills.congr {outer other : Tree → Option α} {inner : Tree → Option β} {put : ι → β → α}
    (fills : Fills outer inner put) (same : ∀ t, other t = outer t) : Fills other inner put := by
  rwa [funext same]

theorem Fills.around {outer : Tree → Option α} {inner : Tree → Option β} {put : ι → β → α}
    {other : κ → β → α} (fills : Fills outer inner put) (tell : ι → κ)
    (same : ∀ around b, put around b = other (tell around) b) : Fills outer inner other := by
  rcases fills with nothing | ⟨around, filled⟩
  · exact .inl nothing
  · refine .inr ⟨tell around, fun t => ?_⟩
    rw [filled, funext (same around)]

end Fills

/-- A list without its item at a place. -/
structure Around (α : Type) (place : Nat) where
  front : List α
  back : List α
  length : front.length = place

namespace Around

variable {α : Type} {place : Nat}

def put (l : Around α place) (a : α) : List α := l.front ++ a :: l.back

@[simp] theorem put_getElem? (l : Around α place) (a : α) : (l.put a)[place]? = some a := by
  simp [put, ← l.length]

end Around

theorem mapM_around {α β : Type} (f : α → Option β) (before after : List α) :
    (∀ a, (before ++ a :: after).mapM f = none) ∨ ∃ around : Around β before.length,
      ∀ a, (before ++ a :: after).mapM f = (f a).map around.put := by
  induction before with
  | nil =>
    cases last : after.mapM f with
    | none =>
      refine .inl fun a => ?_
      cases f a <;> simp [last]
    | some back =>
      refine .inr ⟨⟨[], back, rfl⟩, fun a => ?_⟩
      cases read : f a <;> simp [last, read, Around.put]
  | cons c before ih =>
    cases first : f c with
    | none => exact .inl fun a => by simp [first]
    | some b =>
      rcases ih with nothing | ⟨⟨front, back, length⟩, around⟩
      · exact .inl fun a => by simp [first, nothing]
      · refine .inr ⟨⟨b :: front, back, by simp [length]⟩, fun a => ?_⟩
        cases read : f a <;> simp [first, around, read, Around.put]

theorem fills_item {α : Type} (item : Shape α) (levels : Nat) (before after : List Tree) :
    Fills (fun t => (Shape.sequence item).decode (levels + 1) (.list (before ++ t :: after)))
      (item.decode levels) (@Around.put α before.length) := by
  have list (items : List Tree) : (Shape.sequence item).decode (levels + 1) (.list items) =
      items.mapM (item.decode levels) := by rw [Shape.decode]
  simpa only [Fills, list] using mapM_around (item.decode levels) before after

/-- A member that stands among others may as well come after they have gone to their fields. -/
theorem decode_object_last {α τ σ : Type} {shape : Shape α} {name : String} {fields : Fields τ σ}
    {make : τ → α} {take : α → τ} (record : shape = .record name fields make take) (levels : Nat)
    (front back : List (Quotation × Tree)) :
    ∃ others : Option σ, ∀ m, shape.decode (levels + 1) (.object (front ++ m :: back)) =
      others.bind fun state => (takeMember fields levels state m).bind fun state =>
        (fields.finish state).toOption.map make := by
  refine ⟨(front ++ back).foldlM (takeMember fields levels) fields.start, fun m => ?_⟩
  have last : (front ++ m :: back).Perm ((front ++ back) ++ [m]) :=
    List.perm_middle.trans (List.perm_append_singleton m (front ++ back)).symm
  rw [record, decode_object, foldlM_perm (takeMember_comm fields levels) last, List.foldlM_append]
  simp [Option.bind_assoc]

theorem decode_list {α τ σ : Type} {shape : Shape α} {name : String} {fields : Fields τ σ}
    {make : τ → α} {take : α → τ} (record : shape = .record name fields make take) (levels : Nat)
    (items : List Tree) :
    shape.decode (levels + 1) (.list items) = (fields.decodeRow levels items).map make := by
  rw [record, Shape.decode]

theorem decodeRow_cons {α τ σ : Type} (name : String) (aliases : List String) (shape : Shape α)
    (default : Option α) (omitted : α → Bool) (rest : Fields τ σ) (levels : Nat) (t : Tree)
    (items : List Tree) :
    (Fields.field name aliases shape default omitted rest).decodeRow levels (t :: items) =
      (shape.decode levels t).bind fun a =>
        (rest.decodeRow levels items).bind fun values => some (a, values) := by
  rw [Fields.decodeRow]
  rfl

/-- Among fields, the one at a place has these names and this shape, and what it holds goes among
    what the others hold. -/
inductive Selects {β : Type} (names : List String) (inner : Shape β) :
    {τ σ ι : Type} → Fields τ σ → Nat → (ι → β → τ) → Prop where
  | here {τ σ : Type} {name : String} {aliases : List String} {default : Option β}
      {omitted : β → Bool} {rest : Fields τ σ} (own : names = name :: aliases) :
      Selects names inner (.field name aliases inner default omitted rest) 0
        fun (values : τ) b => (b, values)
  | there {α τ σ ι : Type} {name : String} {aliases : List String} {shape : Shape α}
      {default : Option α} {omitted : α → Bool} {rest : Fields τ σ} {place : Nat}
      {put : ι → β → τ} (other : ∀ key ∈ names, ¬ (key = name ∨ key ∈ aliases))
      (later : Selects names inner rest place put) :
      Selects names inner (.field name aliases shape default omitted rest) (place + 1)
        fun (around : α × ι) b => (around.1, put around.2 b)

section Selecting

variable {β τ σ ι : Type} {names : List String} {inner : Shape β} {fields : Fields τ σ}
  {place : Nat} {put : ι → β → τ}

theorem Selects.row (selects : Selects names inner fields place put) (levels : Nat)
    {front : List Tree} (there : front.length = place) (back : List Tree) :
    Fills (fun t => fields.decodeRow levels (front ++ t :: back)) (inner.decode levels) put := by
  induction selects generalizing front with
  | @here τ σ name aliases default omitted rest own =>
    obtain rfl := List.length_eq_zero_iff.1 there
    cases others : rest.decodeRow levels back with
    | none =>
      left
      intro t
      cases inner.decode levels t <;> simp [decodeRow_cons, others]
    | some values =>
      right
      refine ⟨values, fun t => ?_⟩
      cases read : inner.decode levels t <;> simp [decodeRow_cons, others, read]
  | @there α τ σ ι name aliases shape default omitted rest place put other later ih =>
    obtain ⟨first, front, rfl⟩ := List.exists_cons_of_length_eq_add_one there
    have within := ih (by simpa using there : front.length = place)
    cases read : shape.decode levels first with
    | none =>
      left
      intro t
      simp [decodeRow_cons, read]
    | some a =>
      refine ((within.map fun values => (a, values)).around (fun around => (a, around))
        fun around b => rfl).congr fun t => ?_
      rw [List.cons_append, decodeRow_cons, read, Option.bind_some]
      cases rest.decodeRow levels (front ++ t :: back) <;> rfl

theorem Selects.member (selects : Selects names inner fields place put) (levels : Nat)
    {key : String} (named : key ∈ names) (state : σ) :
    Fills (fun t => (fields.put levels key t state).bind fun after =>
        (fields.finish after).toOption) (inner.decode levels) put := by
  induction selects with
  | @here τ σ name aliases default omitted rest own =>
    have here : key = name ∨ key ∈ aliases := by rwa [own, List.mem_cons] at named
    obtain ⟨slot, slots⟩ := state
    cases slot with
    | some taken =>
      left
      intro t
      simp [put_here here]
    | none =>
      cases others : rest.finish slots with
      | error missing =>
        left
        intro t
        cases read : inner.decode levels t <;>
          simp [put_here here, read, Fields.finish, others, bind, Except.bind, Except.toOption]
      | ok values =>
        right
        refine ⟨values, fun t => ?_⟩
        cases read : inner.decode levels t <;>
          simp [put_here here, read, Fields.finish, others, bind, Except.bind, pure, Except.pure,
            Except.toOption]
  | @there α τ σ ι name aliases shape default omitted rest place put other later ih =>
    obtain ⟨slot, slots⟩ := state
    have within := ih slots
    cases first : slot.or default with
    | none =>
      left
      intro t
      cases rest.put levels key t slots <;>
        simp [put_later (other key named), Fields.finish, first, Except.toOption]
    | some a =>
      refine ((within.map fun values => (a, values)).around (fun around => (a, around))
        fun around b => rfl).congr fun t => ?_
      cases went : rest.put levels key t slots with
      | none => simp [put_later (other key named), went]
      | some after =>
        cases done : rest.finish after <;>
          simp [put_later (other key named), went, Fields.finish, first, done, bind, Except.bind,
            pure, Except.pure, Except.toOption]

end Selecting

/-- An object of a kind by the tree of the field at a place, with fields by name or by place. -/
inductive FieldAt (k : Kind) (place : Nat) : (Tree → Tree) → Prop where
  | object {slot : Slot} {q : Quotation} (field : k.slots[place]? = some slot)
      (named : slot.Takes q) (front back : List (Quotation × Tree)) :
      FieldAt k place fun t => .object (front ++ (q, t) :: back)
  | row {front : List Tree} (there : front.length = place) (back : List Tree) :
      FieldAt k place fun t => .list (front ++ t :: back)

theorem FieldAt.fills {k : Kind} {place : Nat} {hole : Tree → Tree} (field : FieldAt k place hole)
    {α β τ σ ι : Type} (shape : Shape α) {name : String} {fields : Fields τ σ} {make : τ → α}
    {take : α → τ} (record : shape = .record name fields make take) {slot : Slot}
    (known : k.slots[place]? = some slot) {inner : Shape β} {put : ι → β → τ}
    (selects : Selects slot.names inner fields place put) (levels : Nat) :
    Fills (fun t => shape.decode (levels + 1) (hole t)) (inner.decode levels)
      fun around b => make (put around b) := by
  cases field with
  | @object other q field named front back =>
    obtain rfl : slot = other := Option.some.inj (known.symm.trans field)
    obtain ⟨key, listed, text⟩ := named
    obtain ⟨others, decoded⟩ := decode_object_last record levels front back
    cases others with
    | none =>
      left
      intro t
      simp [decoded]
    | some state =>
      refine ((selects.member levels listed state).map make).congr fun t => ?_
      rw [decoded, Option.bind_some, takeMember, text, Option.bind_some, Option.map_bind]
      rfl
  | @row front there back =>
    refine ((selects.row levels there back).map make).congr fun t => ?_
    rw [decode_list record]

section Shapes

variable {hole : Tree → Tree}

theorem constants_fill (field : FieldAt .document 2 hole) (levels : Nat) :
    Fills (fun t => Document.shape.decode (levels + 1) (hole t))
      ((Shape.sequence Constant.shape).decode levels)
      fun (doc : Document) constants => { doc with constants := constants } := by
  have filled := field.fills Document.shape rfl rfl
    (.there (by decide) (.there (by decide) (.here rfl))) levels
  exact filled.around (fun around => ⟨around.1, around.2.1, [], around.2.2.1, around.2.2.2.1,
    around.2.2.2.2.1⟩) fun _ _ => rfl

theorem predicates_fill (field : FieldAt .document 3 hole) (levels : Nat) :
    Fills (fun t => Document.shape.decode (levels + 1) (hole t))
      ((Shape.sequence Predicate.shape).decode levels)
      fun (doc : Document) predicates => { doc with predicates := predicates } := by
  have filled := field.fills Document.shape rfl rfl
    (.there (by decide) (.there (by decide) (.there (by decide) (.here rfl)))) levels
  exact filled.around (fun around => ⟨around.1, around.2.1, around.2.2.1, [], around.2.2.2.1,
    around.2.2.2.2.1⟩) fun _ _ => rfl

theorem value_fills (field : FieldAt .constant 1 hole) (levels : Nat) :
    Fills (fun t => Constant.shape.decode (levels + 1) (hole t)) (Shape.literal.decode levels)
      fun (c : Constant) text => { c with value := text } := by
  have filled := field.fills Constant.shape rfl rfl (.there (by decide) (.here rfl)) levels
  exact filled.around (fun around => ⟨around.1, ""⟩) fun _ _ => rfl

theorem conditions_fill (field : FieldAt .predicate 1 hole) (levels : Nat) :
    Fills (fun t => Predicate.shape.decode (levels + 1) (hole t))
      ((Shape.sequence Condition.shape).decode levels)
      fun (p : Predicate) conditions => { p with conditions := conditions } := by
  have filled := field.fills Predicate.shape rfl rfl (.there (by decide) (.here rfl)) levels
  exact filled.around (fun around => ⟨around.1, []⟩) fun _ _ => rfl

theorem values_fill (field : FieldAt .condition 2 hole) (levels : Nat) :
    Fills (fun t => Condition.shape.decode (levels + 1) (hole t))
      ((Shape.sequence .literal).decode levels)
      fun (c : Condition) values => { c with values := values } := by
  have filled := field.fills Condition.shape rfl rfl
    (.there (by decide) (.there (by decide) (.here rfl))) levels
  exact filled.around (fun around => ⟨around.1, around.2.1, [], around.2.2.1⟩) fun _ _ => rfl

end Shapes

/-- All values of one constant are put into the same document, unless there is none for any
    value. -/
theorem constant_fills {outer inner : Tree → Tree} (constants : FieldAt .document 2 outer)
    (before after : List Tree) (value : FieldAt .constant 1 inner) (levels : Nat) :
    Fills (fun t => Document.shape.decode (levels + 3) (outer (.list (before ++ inner t :: after))))
      (Shape.literal.decode levels)
      fun (around : (Document × Around Constant before.length) × Constant) text =>
        { around.1.1 with constants := around.1.2.put { around.2 with value := text } } :=
  ((constants_fill constants (levels + 2)).comp
    (fills_item Constant.shape (levels + 1) before after)).comp (value_fills value levels)

theorem condition_fills {outer middle inner : Tree → Tree} (predicates : FieldAt .document 3 outer)
    (before after : List Tree) (conditions : FieldAt .predicate 1 middle) (front back : List Tree)
    (values : FieldAt .condition 2 inner) (left right : List Tree) (levels : Nat) :
    Fills (fun t => Document.shape.decode (levels + 6) (outer (.list (before ++
        middle (.list (front ++ inner (.list (left ++ t :: right)) :: back)) :: after))))
      (Shape.literal.decode levels)
      fun (around : ((Document × Around Predicate before.length) ×
          (Predicate × Around Condition front.length)) ×
          (Condition × Around String left.length)) text =>
        { around.1.1.1 with predicates := around.1.1.2.put { around.1.2.1 with
          conditions := around.1.2.2.put { around.2.1 with
            values := around.2.2.put text } } } :=
  (((predicates_fill predicates (levels + 5)).comp
    (fills_item Predicate.shape (levels + 4) before after)).comp
    ((conditions_fill conditions (levels + 3)).comp
      (fills_item Condition.shape (levels + 2) front back))).comp
    ((values_fill values (levels + 1)).comp (fills_item .literal levels left right))

end RegoPolicy.Policy
