import RegoPolicy.Json.Shape
import RegoPolicy.Proofs.Decoding

/-!
What a tree is in a shape, told by recursion over the shape: the members of an object go to the
slots of their fields one after the other, the items of a row by their place. The reader agrees on
every text of the tree.
-/
namespace RegoPolicy.Json

open Text

def Tree.text? : Tree → Option String
  | .string q => q.text?
  | _ => none

def Tree.flag? : Tree → Option Bool
  | .bool b => some b
  | _ => none

def Tree.isNull : Tree → Bool
  | .null => true
  | _ => false

/-- A variant by its name, or by an object with the name as its only key and no data. -/
def Tree.variant? {α : Type} (variants : List (String × α)) (levels : Nat) : Tree → Option α
  | .string q => q.text?.bind fun name => variants.lookup name
  | .object [(q, .null)] =>
    if levels = 0 then none else q.text?.bind fun name => variants.lookup name
  | _ => none

mutual

def Shape.decode {α : Type} : Shape α → Nat → Tree → Option α
  | .text, _, t => t.text?
  | .flag, _, t => t.flag?
  | .literal, levels, t => (t.value? levels).map Value.toLiteral
  | .optional inner, levels, t =>
    if t.isNull then some none else (inner.decode levels t).map some
  | .sequence item, levels, t =>
    match levels, t with
    | levels + 1, .list items => items.mapM (item.decode levels)
    | _, _ => none
  | .choice variants _, levels, t => t.variant? variants levels
  | .record _ fields make _, levels, t =>
    match levels, t with
    | levels + 1, .list items => (fields.decodeRow levels items).map make
    | levels + 1, .object members => do
      let slots ← members.foldlM (fun slots m => do
        let key ← m.1.text?
        fields.put levels key m.2 slots) fields.start
      (fields.finish slots).toOption.map make
    | _, _ => none
  | .via inner make _, levels, t => (inner.decode levels t).map make

/-- The values of fields by their place; there may be no items beyond them. -/
def Fields.decodeRow {τ σ : Type} : Fields τ σ → Nat → List Tree → Option τ
  | .done, _, items => if items.isEmpty then some () else none
  | .field _ _ _ default _ rest, levels, [] => do
    let a ← default
    let values ← rest.decodeRow levels []
    some (a, values)
  | .field _ _ shape _ _ rest, levels, t :: items => do
    let a ← shape.decode levels t
    let values ← rest.decodeRow levels items
    some (a, values)

def Fields.put {τ σ : Type} : Fields τ σ → Nat → String → Tree → σ → Option σ
  | .done, _, _, _, slots => some slots
  | .field name aliases shape _ _ rest, levels, key, t, (slot, slots) =>
    if key = name ∨ key ∈ aliases then
      if slot.isSome then none
      else (shape.decode levels t).map fun a => (some a, slots)
    else (rest.put levels key t slots).map fun slots => (slot, slots)

end

theorem Tree.starts_quote {t : Tree} (starts : t.StartsWith (.char '"')) : ∃ q, t = .string q := by
  unfold Tree.StartsWith at starts
  split at starts <;> simp_all [digit?]

theorem Tree.starts_bracket {t : Tree} (starts : t.StartsWith (.char '[')) :
    ∃ items, t = .list items := by
  unfold Tree.StartsWith at starts
  split at starts <;> simp_all [digit?]

theorem Tree.starts_brace {t : Tree} (starts : t.StartsWith (.char '{')) :
    ∃ members, t = .object members := by
  unfold Tree.StartsWith at starts
  split at starts <;> simp_all [digit?]

theorem Tree.starts_n {t : Tree} (starts : t.StartsWith (.char 'n')) : t = .null := by
  unfold Tree.StartsWith at starts
  split at starts <;> simp_all [digit?]

theorem Tree.starts_t {t : Tree} (starts : t.StartsWith (.char 't')) : t = .bool true := by
  unfold Tree.StartsWith at starts
  split at starts <;> simp_all [digit?]

theorem Tree.starts_f {t : Tree} (starts : t.StartsWith (.char 'f')) : t = .bool false := by
  unfold Tree.StartsWith at starts
  split at starts <;> simp_all [digit?]

theorem HasTree.string_text {text : List Symbol} {q : Quotation} (tree : HasTree text (.string q)) :
    text = .char '"' :: (q.symbols ++ [.char '"']) := by
  cases tree
  rfl

theorem HasTree.true_text {text : List Symbol} (tree : HasTree text (.bool Bool.true)) :
    text = .char 't' :: ['r', 'u', 'e'].map .char := by
  cases tree
  rfl

theorem HasTree.false_text {text : List Symbol} (tree : HasTree text (.bool Bool.false)) :
    text = .char 'f' :: ['a', 'l', 's', 'e'].map .char := by
  cases tree
  rfl

theorem HasTree.null_text {text : List Symbol} (tree : HasTree text .null) :
    text = .char 'n' :: ['u', 'l', 'l'].map .char := by
  cases tree
  rfl

theorem HasTree.list_text {text : List Symbol} {items : List Tree}
    (tree : HasTree text (.list items)) :
    ∃ parts body, HaveTrees parts items ∧ Joined parts body ∧
      text = .char '[' :: (body ++ [.char ']']) := by
  cases tree with
  | list each joined => exact ⟨_, _, each, joined, rfl⟩

theorem HasTree.object_text {text : List Symbol} {members : List (Quotation × Tree)}
    (tree : HasTree text (.object members)) :
    ∃ entries body, HaveMembers entries members ∧ Joined (entries.map entryText) body ∧
      text = .char '{' :: (body ++ [.char '}']) := by
  cases tree with
  | object each joined => exact ⟨_, _, each, joined, rfl⟩

theorem readText_tree {text : List Symbol} {t : Tree} (wanted : String) (tree : HasTree text t) :
    ReadsAs (readText wanted) text t.text? := by
  obtain ⟨s, tail, rfl, solid, starts⟩ := tree.starts
  apply ReadsAs.of_front solid
  intro input rest ends front
  by_cases quote : s = .char '"'
  · subst quote
    obtain ⟨q, rfl⟩ := Tree.starts_quote starts
    obtain rfl := (List.cons.inj tree.string_text).2
    rw [List.append_assoc, List.cons_append, List.nil_append] at front
    simpa [readText, front, Tree.text?] using q.read rest
  · have other : t.text? = none := by
      cases t with
      | string q => exact absurd starts quote
      | _ => rfl
    simp [readText, front, other, Except.toOption]

theorem readFlag_tree {text : List Symbol} {t : Tree} (tree : HasTree text t) :
    ReadsAs readFlag text t.flag? := by
  obtain ⟨s, tail, rfl, solid, starts⟩ := tree.starts
  apply ReadsAs.of_front solid
  intro input rest ends front
  by_cases yes : s = .char 't'
  · subst yes
    obtain rfl := Tree.starts_t starts
    obtain rfl := (List.cons.inj tree.true_text).2
    have word := (expectWord_ok_iff ['r', 'u', 'e'] _ rest).2 rfl
    simp only [readFlag, front, word]
    rfl
  · by_cases no : s = .char 'f'
    · subst no
      obtain rfl := Tree.starts_f starts
      obtain rfl := (List.cons.inj tree.false_text).2
      have word := (expectWord_ok_iff ['a', 'l', 's', 'e'] _ rest).2 rfl
      simp only [readFlag, front, word]
      rfl
    · have other : t.flag? = none := by
        cases t with
        | bool b => cases b <;> simp_all [Tree.StartsWith]
        | _ => rfl
      simp [readFlag, front, other, Except.toOption]

theorem readLiteral_tree {text : List Symbol} {t : Tree} (levels : Nat) (tree : HasTree text t) :
    ReadsAs (readLiteral levels) text ((t.value? levels).map Value.toLiteral) := by
  intro space rest blank ends
  have read := readValue_tree levels tree space rest blank ends
  have whole (input : List Symbol) : readLiteral levels input =
      (readValue levels input).map fun r => (r.1.toLiteral, r.2) := by
    simp only [readLiteral, bind, Except.bind, pure, Except.pure, Except.map]
  rw [whole, toOption_map, read, Option.map_map, Option.map_map]
  rfl

theorem optional_tree {α : Type} {inner : Shape α} {levels : Nat} {text : List Symbol} {t : Tree}
    (tree : HasTree text t) (read : ReadsAs (inner.read levels) text (inner.decode levels t)) :
    ReadsAs ((Shape.optional inner).read levels) text ((Shape.optional inner).decode levels t) := by
  obtain ⟨s, tail, rfl, solid, starts⟩ := tree.starts
  apply ReadsAs.of_front solid
  intro input rest ends front
  rw [Shape.decode]
  by_cases null : s = .char 'n'
  · subst null
    obtain rfl := Tree.starts_n starts
    obtain rfl := (List.cons.inj tree.null_text).2
    have word := (expectWord_ok_iff ['u', 'l', 'l'] _ rest).2 rfl
    simp only [Shape.read, front, word]
    rfl
  · have other : t.isNull = false := by
      cases t with
      | null => exact absurd starts null
      | _ => rfl
    have whole : (Shape.optional inner).read levels input =
        (inner.read levels (s :: (tail ++ rest))).map fun r => (some r.1, r.2) := by
      simp only [Shape.read, front, bind, Except.bind, pure, Except.pure, Except.map]
      split
      · simp_all
      · rfl
    have taken := read [] rest blank_nil ends
    rw [List.nil_append, List.cons_append] at taken
    rw [whole, toOption_map, taken, if_neg (by simp [other]), Option.map_map, Option.map_map]
    rfl

theorem readUnit_tree {space text : List Symbol} {t : Tree} (blank : Blank space)
    (tree : HasTree text t) (rest : List Symbol) :
    (readUnit (space ++ (text ++ rest))).toOption = if t.isNull then some rest else none := by
  obtain ⟨s, tail, rfl, solid, starts⟩ := tree.starts
  have front : skipSpace (space ++ (s :: tail ++ rest)) = s :: (tail ++ rest) := by
    rw [skipSpace_append blank]
    exact skipSpace_of_solid solid _
  by_cases null : s = .char 'n'
  · subst null
    obtain rfl := Tree.starts_n starts
    obtain rfl := (List.cons.inj tree.null_text).2
    have word := (expectWord_ok_iff ['u', 'l', 'l'] _ rest).2 rfl
    simp only [readUnit, front, word]
    rfl
  · have other : t.isNull = false := by
      cases t with
      | null => exact absurd starts null
      | _ => rfl
    rw [readUnit, front]
    simp [other, Except.toOption]

theorem readVariant_tree {α : Type} (variants : List (String × α)) (q : Quotation)
    (rest : List Symbol) :
    (readVariant variants (q.symbols ++ .char '"' :: rest)).toOption =
      (q.text?.bind fun name => variants.lookup name).map fun a => (a, rest) := by
  have read := q.read rest
  cases text : q.text? with
  | none =>
    rw [text] at read
    obtain ⟨f, refused⟩ := toOption_eq_none.1 read
    simp [readVariant, refused, bind, Except.bind, Except.toOption]
  | some name =>
    rw [text] at read
    have taken := toOption_eq_some.1 read
    cases found : variants.lookup name with
    | none => simp [readVariant, taken, found, bind, Except.bind, Except.toOption]
    | some a => simp [readVariant, taken, found, bind, Except.bind, Except.toOption]

theorem Tree.variant?_single {α : Type} (variants : List (String × α)) (levels : Nat)
    (q : Quotation) (t : Tree) :
    (Tree.object [(q, t)]).variant? variants (levels + 1) =
      if t.isNull then q.text?.bind fun name => variants.lookup name else none := by
  cases t <;> rfl

theorem firstKey_entry {space : List Symbol} (blank : Blank space) (key after rest : List Symbol) :
    firstKey (space ++ (entryText (key, after) ++ rest)) =
      .ok (some (key ++ .char '"' :: (after ++ rest))) := by
  simp [firstKey, skipSpace_entryText blank]

theorem readChoice_member {α : Type} (variants : List (String × α)) (levels : Nat) (q : Quotation)
    {gap space text after body input : List Symbol} {t : Tree} (apart : Blank gap)
    (blank : Blank space) (tree : HasTree text t) (front : skipSpace input = .char '{' :: body)
    (key : firstKey body =
      .ok (some (q.symbols ++ .char '"' :: (gap ++ .char ':' :: (space ++ (text ++ after)))))) :
    (∀ rest, skipSpace after = .char '}' :: rest →
      (readChoice variants (levels + 1) input).toOption =
        (if t.isNull then q.text?.bind fun name => variants.lookup name else none).map
          fun a => (a, rest)) ∧
    ((∀ rest, skipSpace after ≠ .char '}' :: rest) →
      (readChoice variants (levels + 1) input).toOption = none) := by
  have named := readVariant_tree variants q (gap ++ .char ':' :: (space ++ (text ++ after)))
  have unit := readUnit_tree blank tree after
  cases found : q.text?.bind fun name => variants.lookup name with
  | none =>
    rw [found] at named
    obtain ⟨f, refused⟩ := toOption_eq_none.1 named
    simp [readChoice, front, deeper, key, refused, bind, Except.bind, Except.toOption]
  | some a =>
    rw [found] at named
    have taken := toOption_eq_some.1 named
    cases null : t.isNull with
    | false =>
      rw [null] at unit
      obtain ⟨f, refused⟩ := toOption_eq_none.1 unit
      simp [readChoice, front, deeper, key, taken, expectColon_spaced apart, refused, bind,
        Except.bind, Except.toOption]
    | true =>
      rw [null] at unit
      have nothing := toOption_eq_some.1 unit
      constructor
      · intro rest close
        simp [readChoice, front, deeper, key, taken, expectColon_spaced apart, nothing, close,
          bind, Except.bind, Except.toOption]
      · intro open'
        simp only [readChoice, front, deeper, key, taken, expectColon_spaced apart, nothing, bind,
          Except.bind]
        split
        · rfl
        · rename_i rest close
          exact absurd close (open' rest)
        · rfl

theorem readChoice_object {α : Type} (variants : List (String × α)) (levels : Nat)
    {entries : List (List Symbol × List Symbol)} {members : List (Quotation × Tree)}
    {body input rest : List Symbol} (each : HaveMembers entries members)
    (joined : Joined (entries.map entryText) body)
    (front : skipSpace input = .char '{' :: (body ++ .char '}' :: rest)) :
    (readChoice variants (levels + 1) input).toOption =
      ((Tree.object members).variant? variants (levels + 1)).map fun a => (a, rest) := by
  have close : skipSpace (.char '}' :: rest) = .char '}' :: rest :=
    skipSpace_of_solid (by decide) rest
  cases each with
  | nil =>
    cases joined with
    | none blank =>
      simp [readChoice, front, deeper, firstKey, skipSpace_append blank, close, Tree.variant?, bind,
        Except.bind, Except.toOption]
  | @cons q t gap space text entries members apart blank tree others =>
    cases others with
    | nil =>
      cases joined with
      | @last before _ after spaced closing =>
        have key := firstKey_entry spaced q.symbols (gap ++ .char ':' :: (space ++ text))
          (after ++ .char '}' :: rest)
        simp only [List.append_assoc, List.cons_append] at key front
        rw [Tree.variant?_single]
        exact (readChoice_member variants levels q apart blank tree front key).1 rest
          (by rw [skipSpace_append closing, close])
    | cons apart' blank' tree' others =>
      cases joined with
      | @more before _ after _ body _ spaced closing joined =>
        have key := firstKey_entry spaced q.symbols (gap ++ .char ':' :: (space ++ text))
          (after ++ .char ',' :: (body ++ .char '}' :: rest))
        have comma : skipSpace (.char ',' :: (body ++ .char '}' :: rest)) =
            .char ',' :: (body ++ .char '}' :: rest) := skipSpace_of_solid (by decide) _
        simp only [List.append_assoc, List.cons_append] at key front
        have refused := (readChoice_member variants levels q apart blank tree front key).2
          (by simp [skipSpace_append closing, comma])
        simpa [Tree.variant?] using refused

theorem readChoice_tree {α : Type} (variants : List (String × α)) (levels : Nat)
    {text : List Symbol} {t : Tree} (tree : HasTree text t) :
    ReadsAs (readChoice variants levels) text (t.variant? variants levels) := by
  obtain ⟨s, tail, rfl, solid, starts⟩ := tree.starts
  apply ReadsAs.of_front solid
  intro input rest ends front
  by_cases quote : s = .char '"'
  · subst quote
    obtain ⟨q, rfl⟩ := Tree.starts_quote starts
    obtain rfl := (List.cons.inj tree.string_text).2
    rw [List.append_assoc, List.cons_append, List.nil_append] at front
    simpa [readChoice, front, Tree.variant?] using readVariant_tree variants q rest
  · by_cases brace : s = .char '{'
    · subst brace
      obtain ⟨members, rfl⟩ := Tree.starts_brace starts
      obtain ⟨entries, body, each, joined, split⟩ := tree.object_text
      obtain rfl := (List.cons.inj split).2
      rw [List.append_assoc, List.cons_append, List.nil_append] at front
      cases levels with
      | zero =>
        have none : (Tree.object members).variant? variants 0 = none := by
          unfold Tree.variant?
          split <;> simp_all
        simp [readChoice, front, deeper, none, Except.toOption]
      | succ levels => exact readChoice_object variants levels each joined front
    · have other : t.variant? variants levels = none := by
        cases t with
        | string q => exact absurd starts quote
        | object members => exact absurd starts brace
        | _ => rfl
      simp [readChoice, front, other, Except.toOption]

/-- Where a row stands after some of its items: at its end, or before the next item. -/
inductive RowAt (rest : List Symbol) : Nat → List (List Symbol) → List Symbol → Prop where
  | start {parts : List (List Symbol)} {body : List Symbol} (joined : Joined parts body) :
      RowAt rest 0 parts (body ++ .char ']' :: rest)
  | ended {gap : List Symbol} (index : Nat) (blank : Blank gap) :
      RowAt rest (index + 1) [] (gap ++ .char ']' :: rest)
  | next {gap part body : List Symbol} {parts : List (List Symbol)} (index : Nat)
      (blank : Blank gap) (joined : Joined (part :: parts) body) :
      RowAt rest (index + 1) (part :: parts) (gap ++ .char ',' :: (body ++ .char ']' :: rest))

def rowItem (index : Nat) (input : List Symbol) : Except Fault (Option (List Symbol)) :=
  if index = 0 then firstItem input else nextItem input

theorem RowAt.at_end {rest input : List Symbol} {index : Nat} (row : RowAt rest index [] input) :
    rowItem index input = .ok none ∧ closeList input = .ok rest ∧
      RowAt rest (index + 1) [] input := by
  cases row with
  | start joined =>
    cases joined with
    | none blank =>
      exact ⟨firstItem_close blank rest, closeList_close blank rest, .ended 0 blank⟩
  | ended index blank =>
    exact ⟨nextItem_close blank rest, closeList_close blank rest, .ended (index + 1) blank⟩

theorem Joined.first {part body : List Symbol} {parts : List (List Symbol)}
    (joined : Joined (part :: parts) body) (rest : List Symbol) (index : Nat) :
    ∃ space after, Blank space ∧ body ++ .char ']' :: rest = space ++ (part ++ after) ∧
      RowAt rest (index + 1) parts after ∧ EndsNumber after := by
  cases joined with
  | @last space _ gap blank closing =>
    refine ⟨space, gap ++ .char ']' :: rest, blank, by simp, .ended index closing, ?_⟩
    exact endsNumber_of_blank closing (endsNumber_listEnd rest)
  | @more space _ gap next body parts blank between joined =>
    refine ⟨space, gap ++ .char ',' :: (body ++ .char ']' :: rest), blank, by simp,
      .next index between joined, ?_⟩
    exact endsNumber_of_blank between (endsNumber_comma _)

theorem RowAt.at_item {rest input part : List Symbol} {parts : List (List Symbol)} {index : Nat}
    (row : RowAt rest index (part :: parts) input) (solid : Solid part) :
    ∃ after, rowItem index input = .ok (some (part ++ after)) ∧
      RowAt rest (index + 1) parts after ∧ EndsNumber after ∧ ∀ r, closeList input ≠ .ok r := by
  obtain ⟨s, tail, rfl, plain, other⟩ := solid
  cases row with
  | start joined =>
    obtain ⟨space, after, blank, split, row, ends⟩ := joined.first rest 0
    have front : skipSpace (space ++ (s :: tail ++ after)) = s :: (tail ++ after) := by
      rw [skipSpace_append blank]
      exact skipSpace_of_solid plain _
    rw [split]
    refine ⟨after, firstItem_solid front other, row, ends, fun r closed => ?_⟩
    simp only [closeList, front] at closed
    split at closed
    · simp_all
    · simp_all
    · split at closed <;> cases closed
    · cases closed
  | next index blank joined =>
    obtain ⟨space, after, spaced, split, row, ends⟩ := joined.first rest (index + 1)
    have front : skipSpace (space ++ (s :: tail ++ after)) = s :: (tail ++ after) := by
      rw [skipSpace_append spaced]
      exact skipSpace_of_solid plain _
    rw [split]
    refine ⟨after, nextItem_comma blank front other, row, ends, fun r closed => ?_⟩
    have comma (input : List Symbol) : skipSpace (.char ',' :: input) = .char ',' :: input :=
      skipSpace_of_solid (by decide) input
    simp only [closeList, skipSpace_append blank, comma] at closed
    split at closed <;> cases closed

section Rows

variable {α τ σ : Type} {name : String} {aliases : List String} {shape : Shape α}
  {default : Option α} {omitted : α → Bool} {fields : Fields τ σ} {levels index : Nat}
  {short : Nat → Cause} {input : List Symbol}

def readClosedRow (fields : Fields τ σ) (levels : Nat) (short : Nat → Cause) (index : Nat) :
    Reader τ := fun input =>
  (fields.readRow levels short index input).bind fun r =>
    (closeList r.2).map fun rest => (r.1, rest)

theorem readClosedRow_item {item : List Symbol} (goes : rowItem index input = .ok (some item)) :
    readClosedRow (.field name aliases shape default omitted fields) levels short index input =
      (shape.read levels item).bind fun r =>
        (readClosedRow fields levels short (index + 1) r.2).map fun q => ((r.1, q.1), q.2) := by
  unfold rowItem at goes
  simp only [readClosedRow, Fields.readRow, goes, bind, Except.bind, pure, Except.pure]
  cases shape.read levels item with
  | error f => rfl
  | ok r =>
    dsimp only
    cases fields.readRow levels short (index + 1) r.2 with
    | error f => rfl
    | ok q => dsimp only; cases closeList q.2 <;> rfl

theorem readClosedRow_filled {a : α} (ends : rowItem index input = .ok none) :
    readClosedRow (.field name aliases shape (some a) omitted fields) levels short index input =
      (readClosedRow fields levels short (index + 1) input).map fun q => ((a, q.1), q.2) := by
  unfold rowItem at ends
  simp only [readClosedRow, Fields.readRow, ends, bind, Except.bind, pure, Except.pure]
  cases fields.readRow levels short (index + 1) input with
  | error f => rfl
  | ok q => dsimp only; cases closeList q.2 <;> rfl

theorem readClosedRow_short (ends : rowItem index input = .ok none) :
    (readClosedRow (.field name aliases shape none omitted fields) levels short index
      input).toOption = none := by
  unfold rowItem at ends
  simp [readClosedRow, Fields.readRow, ends, bind, Except.bind, Except.toOption]

theorem readClosedRow_done {rest : List Symbol} {parts : List (List Symbol)} {items : List Tree}
    (each : HaveTrees parts items) (row : RowAt rest index parts input) :
    (readClosedRow .done levels short index input).toOption =
      (Fields.done.decodeRow levels items).map fun values => (values, rest) := by
  have whole : readClosedRow .done levels short index input =
      (closeList input).map fun rest => ((), rest) := by
    simp only [readClosedRow, Fields.readRow, Except.bind]
  rw [whole, toOption_map]
  cases each with
  | nil =>
    rw [row.at_end.2.1]
    rfl
  | cons first others =>
    obtain ⟨after, -, -, -, refused⟩ := row.at_item (value_starts first.derives)
    cases closed : closeList input with
    | error f => rfl
    | ok r => exact absurd closed (refused r)

end Rows

theorem readRecord_row {α τ σ : Type} {name : String} {fields : Fields τ σ} {make : τ → α}
    {take : α → τ} {levels : Nat} {input tail : List Symbol}
    (front : skipSpace input = .char '[' :: tail) :
    ((Shape.record name fields make take).read (levels + 1) input).toOption =
      (readClosedRow fields levels (.wrongLength · name fields.count) 0 tail).toOption.map
        fun r => (make r.1, r.2) := by
  simp only [Shape.read, front, deeper, readClosedRow, bind, Except.bind, pure, Except.pure]
  cases fields.readRow levels (.wrongLength · name fields.count) 0 tail with
  | error f => rfl
  | ok r => dsimp only; cases closeList r.2 <;> rfl

theorem readRecord_members {α τ σ : Type} {name : String} {fields : Fields τ σ} {make : τ → α}
    {take : α → τ} {levels : Nat} {input tail : List Symbol}
    (front : skipSpace input = .char '{' :: tail) :
    ((Shape.record name fields make take).read (levels + 1) input).toOption =
      (readMembers (fields.readMember levels) fields.start tail).toOption.bind fun r =>
        (fields.finish r.1).toOption.map fun values => (make values, r.2) := by
  simp only [Shape.read, front, deeper, bind, Except.bind, pure, Except.pure]
  cases readMembers (fields.readMember levels) fields.start tail with
  | error f => rfl
  | ok r =>
    simp only [Except.toOption, Option.bind_some]
    cases fields.finish r.1 <;> rfl

section Members

variable {α τ σ : Type} {name key : String} {aliases : List String} {shape : Shape α}
  {default : Option α} {omitted : α → Bool} {fields : Fields τ σ} {levels : Nat} {slots : σ}
  {input : List Symbol}

theorem readMember_named (named : key = name ∨ key ∈ aliases) :
    (Fields.field name aliases shape default omitted fields).readMember levels (none, slots) key
        input =
      (expectColon input).bind fun input =>
        (shape.read levels input).map fun r => ((some r.1, slots), r.2) := by
  simp only [Fields.readMember, if_pos named, Option.isSome_none, Bool.false_eq_true, if_false,
    bind, Except.bind, pure, Except.pure, Except.map]

theorem readMember_passed (other : ¬ (key = name ∨ key ∈ aliases)) (slot : Option α) :
    (Fields.field name aliases shape default omitted fields).readMember levels (slot, slots) key
        input =
      (fields.readMember levels slots key input).map fun r => ((slot, r.1), r.2) := by
  simp only [Fields.readMember, if_neg other, bind, Except.bind, pure, Except.pure, Except.map]

end Members

theorem scanValue_tree {space text rest : List Symbol} {t : Tree} (blank : Blank space)
    (tree : HasTree text t) (ends : EndsNumber rest) :
    scanValue (space ++ (text ++ rest)) = .ok rest := by
  obtain ⟨start, reached, scans⟩ :=
    derives_completes (.item blank tree.derives) ends (scans_done 0 rest)
  have same : space ++ (text ++ rest) = start := by simpa [Bracket.scanToValue] using reached
  unfold scanValue
  rw [same]
  exact scans _ (by simp [← same])

mutual

/-- A text is read in a shape as the value of its tree. -/
theorem Shape.read_tree {α : Type} : (shape : Shape α) → {levels : Nat} → {text : List Symbol} →
    {t : Tree} → HasTree text t → ReadsAs (shape.read levels) text (shape.decode levels t)
  | .text, _, _, _, tree => by
    simpa only [Shape.read, Shape.decode] using readText_tree "a string" tree
  | .flag, _, _, _, tree => by simpa only [Shape.read, Shape.decode] using readFlag_tree tree
  | .literal, levels, _, _, tree => by
    simpa only [Shape.read, Shape.decode] using readLiteral_tree levels tree
  | .optional inner, _, _, _, tree => optional_tree tree (inner.read_tree tree)
  | .choice variants name, levels, _, _, tree => by
    simpa only [Shape.read, Shape.decode] using readChoice_tree variants levels tree
  | .via inner make take, levels, text, t, tree => by
    intro space rest blank ends
    have read : ReadsAs (inner.read levels) _ _ := inner.read_tree tree
    have whole (input : List Symbol) : (Shape.via inner make take).read levels input =
        (inner.read levels input).map fun r => (make r.1, r.2) := by
      simp only [Shape.read, bind, Except.bind, pure, Except.pure, Except.map]
    rw [whole, toOption_map, read space rest blank ends, Shape.decode, Option.map_map,
      Option.map_map]
    rfl
  | .sequence item, levels, text, t, tree => by
    obtain ⟨s, tail, rfl, solid, starts⟩ := tree.starts
    apply ReadsAs.of_front solid
    intro input rest ends front
    by_cases bracket : s = .char '['
    · subst bracket
      obtain ⟨items, rfl⟩ := Tree.starts_bracket starts
      obtain ⟨parts, body, each, joined, split⟩ := tree.list_text
      obtain rfl := (List.cons.inj split).2
      rw [List.append_assoc, List.cons_append, List.nil_append] at front
      cases levels with
      | zero => simp [Shape.read, Shape.decode, front, deeper, Except.toOption]
      | succ levels =>
        have parted := each.forall₂ fun text t tree =>
          (⟨value_starts tree.derives, item.read_tree tree⟩ :
            Solid text ∧ ReadsAs (item.read levels) text (item.decode levels t))
        simpa only [Shape.read, Shape.decode, front, deeper] using
          readItems_parts parted joined rest
    · have other : (Shape.sequence item).decode levels t = none := by
        cases t with
        | list items => exact absurd starts bracket
        | _ => simp [Shape.decode]
      rw [other]
      simp [Shape.read, front, Except.toOption]
  | .record name fields make take, levels, text, t, tree => by
    obtain ⟨s, tail, rfl, solid, starts⟩ := tree.starts
    apply ReadsAs.of_front solid
    intro input rest ends front
    by_cases bracket : s = .char '['
    · subst bracket
      obtain ⟨items, rfl⟩ := Tree.starts_bracket starts
      obtain ⟨parts, body, each, joined, split⟩ := tree.list_text
      obtain rfl := (List.cons.inj split).2
      rw [List.append_assoc, List.cons_append, List.nil_append] at front
      cases levels with
      | zero => simp [Shape.read, Shape.decode, front, deeper, Except.toOption]
      | succ levels =>
        rw [readRecord_row front, fields.readRow_tree each (.start joined), Shape.decode,
          Option.map_map, Option.map_map]
        rfl
    · by_cases brace : s = .char '{'
      · subst brace
        obtain ⟨members, rfl⟩ := Tree.starts_brace starts
        obtain ⟨entries, body, each, joined, split⟩ := tree.object_text
        obtain rfl := (List.cons.inj split).2
        rw [List.append_assoc, List.cons_append, List.nil_append] at front
        cases levels with
        | zero => simp [Shape.read, Shape.decode, front, deeper, Except.toOption]
        | succ levels =>
          have steps : List.Forall₂ (fun entry m => ∀ slots, StepsAs (fields.readMember levels)
              slots entry (m.1.text?.bind fun key => fields.put levels key m.2 slots))
              entries members :=
            each.forall₂ fun q t gap space text apart blank tree slots =>
              stepsAs_of_key q fun key rest ends =>
                fields.readMember_tree slots apart blank tree ends
          rw [readRecord_members front,
            readMembers_runs (Runs.of_steps steps fields.start) joined rest, Shape.decode]
          cases members.foldlM (fun slots m =>
            m.1.text?.bind fun key => fields.put levels key m.2 slots) fields.start with
          | none => rfl
          | some slots =>
            simp only [Option.map_some, Option.bind_some, Option.bind_eq_bind, Option.map_map]
            rfl
      · have other : (Shape.record name fields make take).decode levels t = none := by
          cases t with
          | list items => exact absurd starts bracket
          | object members => exact absurd starts brace
          | _ => simp [Shape.decode]
        rw [other]
        simp [Shape.read, front, Except.toOption]

theorem Fields.readRow_tree {τ σ : Type} : (fields : Fields τ σ) → {levels : Nat} →
    {short : Nat → Cause} → {index : Nat} → {parts : List (List Symbol)} → {items : List Tree} →
      {input rest : List Symbol} → HaveTrees parts items → RowAt rest index parts input →
        (readClosedRow fields levels short index input).toOption =
          (fields.decodeRow levels items).map fun values => (values, rest)
  | .done, _, _, _, _, _, _, _, each, row => readClosedRow_done each row
  | .field name aliases shape default omitted fields, levels, short, index, parts, items, input,
      rest, each, row => by
    cases each with
    | nil =>
      obtain ⟨ends, -, row⟩ := row.at_end
      cases default with
      | none =>
        rw [readClosedRow_short ends]
        rfl
      | some a =>
        have others : (readClosedRow fields levels short _ _).toOption = _ :=
          fields.readRow_tree .nil row
        rw [readClosedRow_filled ends, toOption_map, others, Fields.decodeRow]
        cases fields.decodeRow levels [] <;> rfl
    | @cons text t parts items first others =>
      obtain ⟨after, goes, row, ends, -⟩ := row.at_item (value_starts first.derives)
      have here : ReadsAs (shape.read levels) _ _ := shape.read_tree first
      have read := here [] after blank_nil ends
      have others : (readClosedRow fields levels short _ _).toOption = _ :=
        fields.readRow_tree others row
      rw [List.nil_append] at read
      rw [readClosedRow_item goes, toOption_bind read, Fields.decodeRow]
      cases shape.decode levels t with
      | none => rfl
      | some a =>
        rw [Option.bind_some, toOption_map, others]
        cases fields.decodeRow levels items <;> rfl

theorem Fields.readMember_tree {τ σ : Type} : (fields : Fields τ σ) → {levels : Nat} →
    {key : String} → (slots : σ) → {gap space text rest : List Symbol} → {t : Tree} → Blank gap →
      Blank space → HasTree text t → EndsNumber rest →
        (fields.readMember levels slots key
            (gap ++ .char ':' :: (space ++ text) ++ rest)).toOption =
          (fields.put levels key t slots).map fun next => (next, rest)
  | .done, levels, key, slots, gap, space, text, rest, t, apart, blank, tree, ends => by
    have passed := scanValue_tree blank tree ends
    simp [Fields.readMember, Fields.put, expectColon_spaced apart, passed, bind, Except.bind, pure,
      Except.pure, Except.toOption]
  | .field name aliases shape default omitted fields, levels, key, (slot, slots), gap, space, text,
      rest, t, apart, blank, tree, ends => by
    have here : ReadsAs (shape.read levels) _ _ := shape.read_tree tree
    have read := here space rest blank ends
    have others : (fields.readMember levels slots key _).toOption = _ :=
      fields.readMember_tree slots apart blank tree ends
    rw [Fields.put]
    by_cases named : key = name ∨ key ∈ aliases
    · rw [if_pos named]
      cases slot with
      | some a => simp [Fields.readMember, named, Except.toOption]
      | none =>
        rw [readMember_named named, if_neg (by simp), List.append_assoc, List.cons_append,
          List.append_assoc, expectColon_spaced apart, Except.bind, toOption_map, read,
          Option.map_map, Option.map_map]
        rfl
    · rw [if_neg named, readMember_passed named, toOption_map, others, Option.map_map,
        Option.map_map]
      rfl

end

theorem toOption_mapError {ε δ α : Type} (x : Except ε α) (f : ε → δ) :
    (x.mapError f).toOption = x.toOption := by
  cases x <;> rfl

theorem Shape.parseText_tree {α : Type} (shape : Shape α) {s : String} {t : Tree}
    (text : TextOf s t) : (shape.parseText s).toOption = shape.decode levelLimit t := by
  obtain ⟨before, text, after, blank, tree, ends, split⟩ := text
  have nothing : EndsNumber [] := ⟨rfl, rfl, by simp⟩
  have closed : EndsNumber after := by simpa using endsNumber_of_blank ends nothing
  have reads : ReadsAs (shape.read levelLimit) text (shape.decode levelLimit t) :=
    shape.read_tree tree
  have read := reads before after blank closed
  have ended : expectEnd after = .ok () := by simp [expectEnd, blank_skipped ends]
  rw [← split] at read
  have whole : (shape.parseText s).toOption = ((shape.read levelLimit (ofString s)).bind fun r =>
      (expectEnd r.2).map fun _ => r.1).toOption := by
    simp only [Shape.parseText, Shape.parse, toOption_mapError, bind, Except.bind, pure,
      Except.pure, Except.map]
  rw [whole, toOption_bind read]
  simp only [ended]
  cases shape.decode levelLimit t <;> rfl

end RegoPolicy.Json
