import RegoPolicy.Proofs.AcceptedTexts
import RegoPolicy.Proofs.ShapeDecoding

/-!
Spellings of a document that do not count. Members may stand in any order, go by any name of their
field and have unknown ones among them, in the objects of every kind that a document is made of. A
field that an object carries twice is always refused.
-/
namespace RegoPolicy.Policy

open Json

inductive Kind where
  | document
  | constant
  | predicate
  | condition
  | rule
  | effect
  deriving DecidableEq

/-- What a field holds: objects of a kind, or data without such objects. -/
inductive Holding where
  | data
  | one (k : Kind)
  | many (k : Kind)

structure Slot where
  names : List String
  holds : Holding

def Kind.slots : Kind → List Slot
  | .document =>
    [⟨["description"], .data⟩, ⟨["included_connectors"], .data⟩,
      ⟨["constants", "constant"], .many .constant⟩, ⟨["predicates", "predicate"], .many .predicate⟩,
      ⟨["rules", "rule"], .many .rule⟩, ⟨["raw_rego"], .data⟩]
  | .constant => [⟨["name"], .data⟩, ⟨["value"], .data⟩]
  | .predicate => [⟨["name"], .data⟩, ⟨["conditions", "condition"], .many .condition⟩]
  | .condition =>
    [⟨["operator", "test"], .data⟩, ⟨["variable"], .data⟩, ⟨["values"], .data⟩,
      ⟨["constant"], .data⟩]
  | .rule =>
    [⟨["name"], .data⟩, ⟨["default"], .data⟩, ⟨["effect"], .one .effect⟩,
      ⟨["when_all_of"], .data⟩]
  | .effect =>
    [⟨["action"], .data⟩, ⟨["type"], .data⟩, ⟨["sub_type"], .data⟩, ⟨["typesafe"], .data⟩,
      ⟨["message"], .data⟩, ⟨["reason"], .data⟩, ⟨["data_label"], .data⟩, ⟨["column_name"], .data⟩,
      ⟨["all_columns"], .data⟩]

def Slot.Takes (slot : Slot) (q : Quotation) : Prop := ∃ key ∈ slot.names, q.text? = some key

/-- A key that stands for a text and names no field. -/
def Kind.Ignores (k : Kind) (q : Quotation) : Prop :=
  ∃ key, q.text? = some key ∧ ∀ slot ∈ k.slots, key ∉ slot.names

mutual

inductive Respelled : Kind → Tree → Tree → Prop where
  | refl (k : Kind) (t : Tree) : Respelled k t t
  | trans {k : Kind} {t u v : Tree} (first : Respelled k t u) (second : Respelled k u v) :
      Respelled k t v
  | reordered {k : Kind} {members others : List (Quotation × Tree)} (perm : members.Perm others) :
      Respelled k (.object members) (.object others)
  | renamed {k : Kind} {slot : Slot} {q r : Quotation} {t : Tree}
      (front back : List (Quotation × Tree)) (field : slot ∈ k.slots) (before : slot.Takes q)
      (after : slot.Takes r) :
      Respelled k (.object (front ++ (q, t) :: back)) (.object (front ++ (r, t) :: back))
  | inserted {k : Kind} {m : Quotation × Tree} (front back : List (Quotation × Tree))
      (unknown : k.Ignores m.1) :
      Respelled k (.object (front ++ back)) (.object (front ++ m :: back))
  | member {k : Kind} {slot : Slot} {q : Quotation} {t u : Tree}
      (front back : List (Quotation × Tree)) (field : slot ∈ k.slots) (named : slot.Takes q)
      (inside : RespelledIn slot.holds t u) :
      Respelled k (.object (front ++ (q, t) :: back)) (.object (front ++ (q, u) :: back))
  | item {k : Kind} {slot : Slot} {t u : Tree} (front back : List Tree)
      (field : k.slots[front.length]? = some slot) (inside : RespelledIn slot.holds t u) :
      Respelled k (.list (front ++ t :: back)) (.list (front ++ u :: back))

inductive RespelledIn : Holding → Tree → Tree → Prop where
  | one {k : Kind} {t u : Tree} (inside : Respelled k t u) : RespelledIn (.one k) t u
  | many {k : Kind} {t u : Tree} (front back : List Tree) (inside : Respelled k t u) :
      RespelledIn (.many k) (.list (front ++ t :: back)) (.list (front ++ u :: back))

end

mutual

/-- Somewhere in a tree that stands for an object of a kind, an object carries a field twice. -/
inductive Doubled : Kind → Tree → Prop where
  | here {k : Kind} {slot : Slot} {m n : Quotation × Tree} {members : List (Quotation × Tree)}
      (both : [m, n].Sublist members) (field : slot ∈ k.slots) (first : slot.Takes m.1)
      (second : slot.Takes n.1) : Doubled k (.object members)
  | member {k : Kind} {slot : Slot} {m : Quotation × Tree} {members : List (Quotation × Tree)}
      (inside : m ∈ members) (field : slot ∈ k.slots) (named : slot.Takes m.1)
      (doubled : DoubledIn slot.holds m.2) : Doubled k (.object members)
  | item {k : Kind} {slot : Slot} {t : Tree} (front back : List Tree)
      (field : k.slots[front.length]? = some slot) (doubled : DoubledIn slot.holds t) :
      Doubled k (.list (front ++ t :: back))

inductive DoubledIn : Holding → Tree → Prop where
  | one {k : Kind} {t : Tree} (doubled : Doubled k t) : DoubledIn (.one k) t
  | many {k : Kind} {t : Tree} {items : List Tree} (inside : t ∈ items) (doubled : Doubled k t) :
      DoubledIn (.many k) (.list items)

end

def Kind.Result : Kind → Type
  | .document => Document
  | .constant => Constant
  | .predicate => Predicate
  | .condition => Condition
  | .rule => Rule
  | .effect => Effect

def Kind.shape : (k : Kind) → Shape k.Result
  | .document => Document.shape
  | .constant => Constant.shape
  | .predicate => Predicate.shape
  | .condition => Condition.shape
  | .rule => Rule.shape
  | .effect => Effect.shape

inductive Holding.Fits : Holding → {α : Type} → Shape α → Prop where
  | data {α : Type} (shape : Shape α) : Fits .data shape
  | one (k : Kind) : Fits (.one k) k.shape
  | many (k : Kind) : Fits (.many k) (.sequence k.shape)

def FieldsMatch {τ σ : Type} : Fields τ σ → List Slot → Prop
  | .done, slots => slots = []
  | .field _ _ _ _ _ _, [] => False
  | .field name aliases shape _ _ rest, slot :: slots =>
    slot.names = name :: aliases ∧ slot.holds.Fits shape ∧ FieldsMatch rest slots

def NamesApart (slots : List Slot) : Prop :=
  slots.Pairwise fun a b => ∀ key ∈ a.names, key ∉ b.names

theorem Kind.shape_eq (k : Kind) : ∃ (τ σ : Type) (name : String) (fields : Fields τ σ)
    (make : τ → k.Result) (take : k.Result → τ), k.shape = .record name fields make take ∧
      FieldsMatch fields k.slots := by
  cases k with
  | document =>
    exact ⟨_, _, _, _, _, _, rfl, rfl, .data _, rfl, .data _, rfl, .many .constant, rfl,
      .many .predicate, rfl, .many .rule, rfl, .data _, rfl⟩
  | constant => exact ⟨_, _, _, _, _, _, rfl, rfl, .data _, rfl, .data _, rfl⟩
  | predicate => exact ⟨_, _, _, _, _, _, rfl, rfl, .data _, rfl, .many .condition, rfl⟩
  | condition =>
    exact ⟨_, _, _, _, _, _, rfl, rfl, .data _, rfl, .data _, rfl, .data _, rfl, .data _, rfl⟩
  | rule =>
    exact ⟨_, _, _, _, _, _, rfl, rfl, .data _, rfl, .data _, rfl, .one .effect, rfl, .data _, rfl⟩
  | effect =>
    exact ⟨_, _, _, _, _, _, rfl, rfl, .data _, rfl, .data _, rfl, .data _, rfl, .data _, rfl,
      .data _, rfl, .data _, rfl, .data _, rfl, .data _, rfl, .data _, rfl⟩

theorem Kind.slots_namesApart (k : Kind) : NamesApart k.slots := by
  unfold NamesApart
  cases k <;> decide

def takeMember {τ σ : Type} (fields : Fields τ σ) (levels : Nat) (state : σ)
    (m : Quotation × Tree) : Option σ :=
  m.1.text?.bind fun key => fields.put levels key m.2 state

theorem decode_object {α τ σ : Type} (name : String) (fields : Fields τ σ) (make : τ → α)
    (take : α → τ) (levels : Nat) (members : List (Quotation × Tree)) :
    (Shape.record name fields make take).decode (levels + 1) (.object members) =
      (members.foldlM (takeMember fields levels) fields.start).bind fun state =>
        (fields.finish state).toOption.map make := by
  rw [Shape.decode]
  rfl

section Put

variable {α τ σ : Type} {name key other : String} {aliases : List String} {shape : Shape α}
  {default : Option α} {omitted : α → Bool} {rest : Fields τ σ} {levels : Nat} {t u : Tree}

theorem put_here (here : key = name ∨ key ∈ aliases) :
    (Fields.field name aliases shape default omitted rest).put levels key t = fun state =>
      if state.1.isSome then none
      else (shape.decode levels t).map fun a => (some a, state.2) := by
  funext state
  rw [Fields.put, if_pos here]

theorem put_later (later : ¬ (key = name ∨ key ∈ aliases)) :
    (Fields.field name aliases shape default omitted rest).put levels key t = fun state =>
      (rest.put levels key t state.2).map fun after => (state.1, after) := by
  funext state
  rw [Fields.put, if_neg later]

theorem put_here_later (here : key = name ∨ key ∈ aliases)
    (later : ¬ (other = name ∨ other ∈ aliases)) (state : Option α × σ) :
    ((Fields.field name aliases shape default omitted rest).put levels key t state).bind
        ((Fields.field name aliases shape default omitted rest).put levels other u) =
      ((Fields.field name aliases shape default omitted rest).put levels other u state).bind
        ((Fields.field name aliases shape default omitted rest).put levels key t) := by
  obtain ⟨first, state⟩ := state
  simp only [put_here here, put_later later]
  generalize shape.decode levels t = x
  generalize after : rest.put levels other u state = y
  cases first <;> cases x <;> cases y <;> simp [after]

end Put

/-- A field of a record has a place of its own, which only its first member fills. -/
theorem put_field {τ σ : Type} : (fields : Fields τ σ) → {slots : List Slot} → {slot : Slot} →
    FieldsMatch fields slots → NamesApart slots → slot ∈ slots →
    ∃ (α : Type) (shape : Shape α) (get : σ → Option α) (set : σ → α → σ),
      slot.holds.Fits shape ∧ (∀ state a, get (set state a) = some a) ∧
      ∀ key ∈ slot.names, ∀ levels t state, fields.put levels key t state =
        if (get state).isSome then none else (shape.decode levels t).map (set state)
  | .done, slots, slot, fits, _, inside => by
    obtain rfl : slots = [] := fits
    cases inside
  | .field _ _ _ _ _ _, [], _, fits, _, _ => fits.elim
  | .field name aliases shape _ _ rest, head :: slots, slot, fits, apart, inside => by
    obtain ⟨names, holds, others⟩ := fits
    obtain ⟨alone, apart⟩ := List.pairwise_cons.1 apart
    rcases List.mem_cons.1 inside with rfl | later
    · refine ⟨_, shape, fun state => state.1, fun state a => (some a, state.2), holds,
        fun _ _ => rfl, ?_⟩
      intro key named levels t state
      rw [names, List.mem_cons] at named
      rw [put_here named]
    · obtain ⟨α, inner, get, set, fits, kept, put⟩ := put_field rest others apart later
      refine ⟨α, inner, fun state => get state.2, fun state a => (state.1, set state.2 a), fits,
        fun state a => kept state.2 a, ?_⟩
      intro key named levels t state
      have other : ¬ (key = name ∨ key ∈ aliases) := by
        intro here
        exact alone slot later key (by rwa [names, List.mem_cons]) named
      rw [put_later other]
      dsimp only
      rw [put key named]
      split
      · rfl
      · rw [Option.map_map]
        rfl

theorem put_unknown {τ σ : Type} {key : String} (levels : Nat) (t : Tree) :
    (fields : Fields τ σ) → {slots : List Slot} → FieldsMatch fields slots →
    (∀ slot ∈ slots, key ∉ slot.names) →
    fields.put levels key t = some
  | .done, _, _, _ => by
    funext state
    rw [Fields.put]
  | .field _ _ _ _ _ _, [], fits, _ => fits.elim
  | .field name aliases _ _ _ rest, head :: slots, fits, unknown => by
    obtain ⟨names, -, others⟩ := fits
    have other : ¬ (key = name ∨ key ∈ aliases) := by
      rw [← List.mem_cons, ← names]
      exact unknown head List.mem_cons_self
    have ih := put_unknown levels t rest others fun slot later =>
      unknown slot (List.mem_cons_of_mem head later)
    rw [put_later other, ih]
    rfl

/-- Members go to their fields in any order. -/
theorem put_comm {τ σ : Type} (levels : Nat) (key other : String) (t u : Tree) :
    (fields : Fields τ σ) → (state : σ) →
    (fields.put levels key t state).bind (fields.put levels other u) =
      (fields.put levels other u state).bind (fields.put levels key t)
  | .done, _ => by simp only [Fields.put, Option.bind_some]
  | .field name aliases shape _ _ rest, (first, state) => by
    by_cases here : key = name ∨ key ∈ aliases
    · by_cases there : other = name ∨ other ∈ aliases
      -- the second of the two finds the place taken, whichever it is
      · simp only [put_here here, put_here there]
        generalize shape.decode levels t = x
        generalize shape.decode levels u = y
        cases first <;> cases x <;> cases y <;> rfl
      · exact put_here_later here there (first, state)
    · by_cases there : other = name ∨ other ∈ aliases
      · exact (put_here_later there here (first, state)).symm
      · have ih := put_comm levels key other t u rest state
        have lifted := congrArg (Option.map fun after => (first, after)) ih
        simpa [put_later here, put_later there, Option.bind_map, Option.map_bind,
          Function.comp_def] using lifted

theorem takeMember_field {τ σ : Type} (fields : Fields τ σ) {slots : List Slot} {slot : Slot}
    (fits : FieldsMatch fields slots) (apart : NamesApart slots) (inside : slot ∈ slots) :
    ∃ (α : Type) (shape : Shape α) (get : σ → Option α) (set : σ → α → σ),
      slot.holds.Fits shape ∧ (∀ state a, get (set state a) = some a) ∧
      ∀ m, slot.Takes m.1 → ∀ levels state, takeMember fields levels state m =
        if (get state).isSome then none else (shape.decode levels m.2).map (set state) := by
  obtain ⟨α, shape, get, set, holds, kept, put⟩ := put_field fields fits apart inside
  refine ⟨α, shape, get, set, holds, kept, ?_⟩
  rintro m ⟨key, named, text⟩ levels state
  rw [takeMember, text, Option.bind_some, put key named]

theorem takeMember_comm {τ σ : Type} (fields : Fields τ σ) (levels : Nat) (state : σ)
    (m n : Quotation × Tree) :
    (takeMember fields levels state m).bind (takeMember fields levels · n) =
      (takeMember fields levels state n).bind (takeMember fields levels · m) := by
  unfold takeMember
  cases m.1.text? with
  | none => cases n.1.text? <;> simp
  | some key =>
    cases n.1.text? with
    | none => simp
    | some other => simpa using put_comm levels key other m.2 n.2 fields state

theorem foldlM_perm {α σ : Type} {f : σ → α → Option σ}
    (comm : ∀ state a b, (f state a).bind (f · b) = (f state b).bind (f · a)) {l m : List α}
    (perm : l.Perm m) : ∀ state, l.foldlM f state = m.foldlM f state := by
  induction perm with
  | nil => exact fun _ => rfl
  | cons a _ ih =>
    intro state
    simp only [List.foldlM_cons, ih]
  | swap a b l =>
    intro state
    have swapped := congrArg (·.bind (l.foldlM f ·)) (comm state b a)
    simpa [List.foldlM_cons, Option.bind_assoc] using swapped
  | trans _ _ first second => exact fun state => (first state).trans (second state)

theorem foldlM_refused {α σ : Type} {f : σ → α → Option σ} {l : List α} {a : α} (inside : a ∈ l)
    (refused : ∀ state, f state a = none) (state : σ) : l.foldlM f state = none := by
  induction l generalizing state with
  | nil => cases inside
  | cons b l ih =>
    rw [List.foldlM_cons]
    rcases List.mem_cons.1 inside with rfl | later
    · rw [refused]
      rfl
    · cases f state b with
      | none => rfl
      | some next => exact ih later next

theorem decodeRow_field {τ σ : Type} (levels : Nat) (back : List Tree) : (fields : Fields τ σ) →
    {slots : List Slot} → {slot : Slot} → FieldsMatch fields slots → (front : List Tree) →
    slots[front.length]? = some slot →
    ∃ (α : Type) (shape : Shape α) (make : Option α → Option τ), slot.holds.Fits shape ∧
      make none = none ∧
      ∀ t, fields.decodeRow levels (front ++ t :: back) = make (shape.decode levels t)
  | .done, slots, slot, fits, front, place => by
    obtain rfl : slots = [] := fits
    simp at place
  | .field _ _ _ _ _ _, [], _, fits, _, _ => fits.elim
  | .field _ _ shape _ _ rest, head :: slots, slot, fits, [], place => by
    obtain ⟨-, holds, -⟩ := fits
    obtain rfl : head = slot := Option.some.inj place
    refine ⟨_, shape, fun a => a.bind fun a =>
      (rest.decodeRow levels back).bind fun values => some (a, values), holds, rfl, ?_⟩
    intro t
    rw [List.nil_append, Fields.decodeRow]
    rfl
  | .field _ _ shape _ _ rest, head :: slots, slot, fits, first :: front, place => by
    obtain ⟨-, -, others⟩ := fits
    obtain ⟨α, inner, make, holds, refused, row⟩ :=
      decodeRow_field levels back rest others front (by simpa using place)
    refine ⟨α, inner, fun a => (shape.decode levels first).bind fun b =>
      (make a).bind fun values => some (b, values), holds, by simp [refused], ?_⟩
    intro t
    rw [List.cons_append, Fields.decodeRow, row]
    rfl

theorem Kind.decode_zero (k : Kind) (t : Tree) : k.shape.decode 0 t = none := by
  obtain ⟨τ, σ, name, fields, make, take, shape, -⟩ := k.shape_eq
  rw [shape, Shape.decode] <;> simp

theorem Kind.decode_object_congr (k : Kind) {members others : List (Quotation × Tree)}
    (alike : ∀ {τ σ : Type} (fields : Fields τ σ), FieldsMatch fields k.slots → ∀ levels state,
      members.foldlM (takeMember fields levels) state =
        others.foldlM (takeMember fields levels) state) (levels : Nat) :
    k.shape.decode levels (.object members) = k.shape.decode levels (.object others) := by
  cases levels with
  | zero => rw [k.decode_zero, k.decode_zero]
  | succ levels =>
    obtain ⟨τ, σ, name, fields, make, take, shape, fits⟩ := k.shape_eq
    rw [shape, decode_object, decode_object, alike fields fits]

theorem Kind.decode_object_refused (k : Kind) {members : List (Quotation × Tree)}
    (refused : ∀ {τ σ : Type} (fields : Fields τ σ), FieldsMatch fields k.slots → ∀ levels state,
      members.foldlM (takeMember fields levels) state = none) (levels : Nat) :
    k.shape.decode levels (.object members) = none := by
  cases levels with
  | zero => exact k.decode_zero _
  | succ levels =>
    obtain ⟨τ, σ, name, fields, make, take, shape, fits⟩ := k.shape_eq
    rw [shape, decode_object, refused fields fits, Option.bind_none]

theorem Kind.decode_row (k : Kind) {slot : Slot} (levels : Nat) (front back : List Tree)
    (place : k.slots[front.length]? = some slot) :
    ∃ (α : Type) (shape : Shape α) (make : Option α → Option k.Result), slot.holds.Fits shape ∧
      make none = none ∧
      ∀ t, k.shape.decode (levels + 1) (.list (front ++ t :: back)) =
        make (shape.decode levels t) := by
  obtain ⟨τ, σ, name, fields, make, take, shape, fits⟩ := k.shape_eq
  obtain ⟨α, inner, row, holds, refused, decoded⟩ :=
    decodeRow_field levels back fields fits front place
  refine ⟨α, inner, fun a => (row a).map make, holds, by simp [refused], ?_⟩
  intro t
  rw [shape, Shape.decode, decoded]

theorem mapM_refused {α β : Type} {f : α → Option β} {l : List α} {a : α} (inside : a ∈ l)
    (refused : f a = none) : l.mapM f = none := by
  induction l with
  | nil => cases inside
  | cons b l ih =>
    rw [List.mapM_cons]
    rcases List.mem_cons.1 inside with rfl | later
    · rw [refused]
      rfl
    · rw [ih later]
      cases f b <;> rfl

mutual

/-- Another spelling is read as the same. -/
theorem Respelled.decode {k : Kind} {t u : Tree} : Respelled k t u → ∀ levels,
    k.shape.decode levels t = k.shape.decode levels u
  | .refl _ _, _ => rfl
  | .trans first second, levels => (first.decode levels).trans (second.decode levels)
  | .reordered perm, levels => k.decode_object_congr (fun fields _ levels state =>
      foldlM_perm (takeMember_comm fields levels) perm state) levels
  | .renamed front back field before after, levels => by
    apply k.decode_object_congr
    intro τ σ fields fits levels state
    obtain ⟨α, shape, get, set, -, -, take⟩ := takeMember_field fields fits k.slots_namesApart field
    simp only [List.foldlM_append, List.foldlM_cons, take (_, _) before,
      take (_, _) after]
  | @Respelled.inserted _ m front back unknown, levels => by
    apply k.decode_object_congr
    intro τ σ fields fits levels state
    obtain ⟨key, text, other⟩ := unknown
    have ignored (state : σ) : takeMember fields levels state m = some state := by
      rw [takeMember, text, Option.bind_some, put_unknown levels m.2 fields fits other]
    simp [List.foldlM_append, List.foldlM_cons, ignored]
  | .member front back field named inside, levels => by
    apply k.decode_object_congr
    intro τ σ fields fits levels state
    obtain ⟨α, shape, get, set, holds, -, take⟩ :=
      takeMember_field fields fits k.slots_namesApart field
    simp only [List.foldlM_append, List.foldlM_cons, take (_, _) named,
      inside.decode holds levels]
  | .item front back place inside, levels => by
    cases levels with
    | zero => rw [k.decode_zero, k.decode_zero]
    | succ levels =>
      obtain ⟨α, shape, make, holds, -, row⟩ := k.decode_row levels front back place
      rw [row, row, inside.decode holds]

theorem RespelledIn.decode : {h : Holding} → {t u : Tree} → RespelledIn h t u →
    {α : Type} → {shape : Shape α} → h.Fits shape → (levels : Nat) →
    shape.decode levels t = shape.decode levels u
  | _, _, _, .one inside, _, _, holds, levels => by
    cases holds
    exact inside.decode levels
  | _, _, _, .many front back inside, _, _, holds, levels => by
    cases holds
    cases levels with
    | zero => rw [Shape.decode, Shape.decode] <;> simp
    | succ levels =>
      rw [Shape.decode, Shape.decode]
      simp only [List.mapM_append, List.mapM_cons, inside.decode levels]

end

mutual

/-- A field that stands twice is refused, wherever it does. -/
theorem Doubled.refused {k : Kind} {t : Tree} : Doubled k t → ∀ levels,
    k.shape.decode levels t = none
  | .here both field first second, levels => by
    apply k.decode_object_refused
    intro τ σ fields fits levels state
    obtain ⟨α, shape, get, set, -, kept, take⟩ :=
      takeMember_field fields fits k.slots_namesApart field
    obtain ⟨rest, perm⟩ := both.exists_perm_append
    rw [foldlM_perm (takeMember_comm fields levels) perm]
    simp only [List.cons_append, List.nil_append, List.foldlM_cons, take _ first]
    split
    · rfl
    · cases shape.decode levels _ with
      | none => rfl
      | some a =>
        -- the first member has filled the place that the second one goes to
        simp [take _ second, kept]
  | .member inside field named doubled, levels => by
    apply k.decode_object_refused
    intro τ σ fields fits levels state
    obtain ⟨α, shape, get, set, holds, -, take⟩ :=
      takeMember_field fields fits k.slots_namesApart field
    apply foldlM_refused inside
    intro state
    rw [take _ named, doubled.refused holds]
    simp
  | .item front back place doubled, levels => by
    cases levels with
    | zero => exact k.decode_zero _
    | succ levels =>
      obtain ⟨α, shape, make, holds, refused, row⟩ := k.decode_row levels front back place
      rw [row, doubled.refused holds, refused]

theorem DoubledIn.refused : {h : Holding} → {t : Tree} → DoubledIn h t →
    {α : Type} → {shape : Shape α} → h.Fits shape → (levels : Nat) → shape.decode levels t = none
  | _, _, .one inside, _, _, holds, levels => by
    cases holds
    exact inside.refused levels
  | _, _, .many inside doubled, _, _, holds, levels => by
    cases holds
    cases levels with
    | zero =>
      rw [Shape.decode]
      simp
    | succ levels =>
      rw [Shape.decode]
      exact mapM_refused inside (doubled.refused levels)

end

/-- A key that stands for no text is refused, even if it could name no field. -/
theorem Kind.decode_unreadable (k : Kind) {members : List (Quotation × Tree)} {m : Quotation × Tree}
    (inside : m ∈ members) (unreadable : m.1.text? = none) (levels : Nat) :
    k.shape.decode levels (.object members) = none := by
  apply k.decode_object_refused
  intro τ σ fields _ levels
  apply foldlM_refused inside
  intro state
  rw [takeMember, unreadable, Option.bind_none]

theorem fromText_tree {α : Type} (shape : Shape α) {s : String} {t : Tree} (text : TextOf s t)
    (a : α) : fromText shape s = .ok a ↔ shape.decode levelLimit t = some a := by
  rw [fromText_eq_ok, ← shape.parseText_tree text, toOption_eq_some]

theorem fromText_refused {α : Type} (shape : Shape α) {s : String} {t : Tree} (text : TextOf s t)
    (refused : shape.decode levelLimit t = none) :
    ∃ problem, fromText shape s = .error (.malformed problem) := by
  rw [← shape.parseText_tree text] at refused
  obtain ⟨problem, failed⟩ := toOption_eq_none.1 refused
  exact ⟨problem, by rw [fromText, failed, Except.mapError]⟩

/-- Every text of a document has a tree. A text gives the same document as every other spelling of
    its tree, and one in which an object carries a field twice gives none. -/
theorem spelling_keeps_document (s : String) :
    (∀ d, fromText Document.shape s = .ok d → ∃ t, TextOf s t) ∧
    ∀ t, TextOf s t →
      (∀ (other : String) (u : Tree), TextOf other u → Respelled .document t u → ∀ d,
        fromText Document.shape s = .ok d ↔ fromText Document.shape other = .ok d) ∧
      (Doubled .document t →
        ∃ problem, fromText Document.shape s = .error (.malformed problem)) := by
  refine ⟨fun d read => Document.shape.parseText_textOf (fromText_eq_ok.1 read), ?_⟩
  intro t text
  constructor
  · intro other u spelled respelled d
    have same := respelled.decode levelLimit
    rw [fromText_tree _ text, fromText_tree _ spelled]
    exact Eq.congr_left same
  · intro doubled
    exact fromText_refused _ text (doubled.refused levelLimit)

/-- The first half of a surrogate pair, alone. -/
def halfPair : Quotation where
  symbols := .char '\\' :: (.char 'u' :: [.char 'd', .char '8', .char '0', .char '0'] ++ [])
  content := .escaped (.code _ rfl (by decide)) .nil

/-- An object without members is a document. With a member more, whose key names no field and stands
    for no text, it is none. -/
theorem halfPair_refused :
    fromText Document.shape "\x7b\x7d" = .ok ⟨none, [], [], [], [], none⟩ ∧
    TextOf "\x7b\x7d" (.object []) ∧
    TextOf "\x7b\"\\ud800\":null\x7d" (.object [(halfPair, .null)]) ∧
    (∀ slot ∈ Kind.document.slots, ¬ slot.Takes halfPair) ∧
    ∃ problem,
      fromText Document.shape "\x7b\"\\ud800\":null\x7d" = .error (.malformed problem) := by
  have unreadable : halfPair.text? = none := by decide +kernel
  have text : TextOf "\x7b\"\\ud800\":null\x7d" (.object [(halfPair, .null)]) :=
    textOf_symbols (by decide +kernel)
  refine ⟨by decide +kernel, textOf_symbols (by decide +kernel), text, ?_, ?_⟩
  · rintro slot - ⟨key, -, denoted⟩
    rw [unreadable] at denoted
    cases denoted
  · exact fromText_refused _ text
      (Kind.document.decode_unreadable List.mem_cons_self unreadable levelLimit)

def keyed (key : String) (t : Tree) : Quotation × Tree := (Quotation.ofText key, t)

def switchMembers : List (Quotation × Tree) :=
  [keyed "name" (.string (.ofText "on")), keyed "value" (.bool true)]

def plainTree : Tree :=
  .object [keyed "constants" (.list [.object switchMembers]), keyed "rules" (.list [])]

def shuffledTree : Tree :=
  .object [keyed "rule" (.list []), keyed "note" .null,
    keyed "constant" (.list [.object switchMembers.reverse])]

theorem takes_name {slot : Slot} (key : String) (named : key ∈ slot.names) :
    slot.Takes (Quotation.ofText key) := ⟨key, named, Quotation.text?_ofText key⟩

def constantSlot : Slot := ⟨["constants", "constant"], .many .constant⟩

theorem constantSlot_mem : constantSlot ∈ Kind.document.slots := by
  simp [constantSlot, Kind.slots]

theorem shuffledTree_respelled : Respelled .document plainTree shuffledTree := by
  have rules : (⟨["rules", "rule"], .many .rule⟩ : Slot) ∈ Kind.document.slots := by
    simp [Kind.slots]
  have inner : RespelledIn constantSlot.holds (.list [.object switchMembers])
      (.list [.object switchMembers.reverse]) :=
    .many [] [] (.reordered (List.reverse_perm _).symm)
  have unknown : Kind.document.Ignores (keyed "note" .null).1 :=
    ⟨"note", Quotation.text?_ofText _, by decide⟩
  refine .trans (.renamed [] _ constantSlot_mem (takes_name "constants" (by decide))
    (takes_name "constant" (by decide))) ?_
  refine .trans (.renamed [_] [] rules (takes_name "rules" (by decide))
    (takes_name "rule" (by decide))) ?_
  refine .trans (.member [] _ constantSlot_mem (takes_name "constant" (by decide)) inner) ?_
  refine .trans (.reordered (.swap _ _ _)) ?_
  exact .inserted [_] [_] unknown

def plainText : String :=
  "\x7b\"constants\":[\x7b\"name\":\"on\",\"value\":true\x7d],\"rules\":[]\x7d"

def shuffledText : String :=
  "\x7b\"rule\":[],\"note\":null,\"constant\":[\x7b\"value\":true,\"name\":\"on\"\x7d]\x7d"

def doubledText : String :=
  "\x7b\"constants\":[\x7b\"name\":\"on\",\"value\":true\x7d],\"constant\":[]\x7d"

/-- Constants and rules by other names, in another order and with a member more are the same
    document; constants that stand by both their names are none. -/
theorem switch_spellings :
    fromText Document.shape plainText = .ok ⟨none, [], [⟨"on", "true"⟩], [], [], none⟩ ∧
    fromText Document.shape shuffledText = .ok ⟨none, [], [⟨"on", "true"⟩], [], [], none⟩ ∧
    ∃ problem, fromText Document.shape doubledText = .error (.malformed problem) := by
  have plain : TextOf plainText plainTree := textOf_symbols (by decide +kernel)
  have shuffled : TextOf shuffledText shuffledTree := textOf_symbols (by decide +kernel)
  have double : TextOf doubledText (.object
      [keyed "constants" (.list [.object switchMembers]), keyed "constant" (.list [])]) :=
    textOf_symbols (by decide +kernel)
  have twice : Doubled .document (.object
      [keyed "constants" (.list [.object switchMembers]), keyed "constant" (.list [])]) :=
    .here (.refl _) constantSlot_mem (takes_name "constants" (by decide))
      (takes_name "constant" (by decide))
  have document : fromText Document.shape plainText =
      .ok ⟨none, [], [⟨"on", "true"⟩], [], [], none⟩ := by decide +kernel
  obtain ⟨same, -⟩ := (spelling_keeps_document plainText).2 _ plain
  obtain ⟨-, refused⟩ := (spelling_keeps_document doubledText).2 _ double
  exact ⟨document, (same _ _ shuffled shuffledTree_respelled _).1 document, refused twice⟩

end RegoPolicy.Policy
