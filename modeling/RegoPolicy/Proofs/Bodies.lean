import Mathlib.Data.List.Forall2
import RegoPolicy.Proofs.Scanner
import RegoPolicy.Proofs.Spelling

/-!
Bodies of lists and objects, read part by part. What a reader makes of each part tells what becomes
of the body: either every part is read, in order, or the body is refused.
-/
namespace RegoPolicy.Json

open Text

def Solid (text : List Symbol) : Prop :=
  ∃ s tail, text = s :: tail ∧ isSpace s = false ∧ s ≠ .char ']'

/-- What a reader makes of a text, with any space in front of it and anything behind it that does
    not go on with a number. -/
def ReadsAs {α : Type} (reader : Reader α) (text : List Symbol) (result : Option α) : Prop :=
  ∀ space rest, Blank space → EndsNumber rest →
    (reader (space ++ (text ++ rest))).toOption = result.map fun a => (a, rest)

def entryText (entry : List Symbol × List Symbol) : List Symbol :=
  .char '"' :: (entry.1 ++ .char '"' :: entry.2)

theorem map_memberText (entries : List (String × List Symbol)) : entries.map memberText =
    (entries.map fun entry => (content entry.1, entry.2)).map entryText := by
  simp [memberText, entryText]

def readNamed {σ : Type} (member : σ → String → Reader σ) (state : σ) : Reader σ := fun input =>
  readString input >>= fun named => member state named.1 named.2

def StepsAs {σ : Type} (member : σ → String → Reader σ) (state : σ)
    (entry : List Symbol × List Symbol) (result : Option σ) : Prop :=
  ∀ rest, EndsNumber rest →
    (readNamed member state (entry.1 ++ .char '"' :: (entry.2 ++ rest))).toOption =
      result.map fun next => (next, rest)

/-- The states that reading one member after the other goes through, up to the first member that
    is refused. -/
inductive Runs {σ : Type} (member : σ → String → Reader σ) :
    σ → List (List Symbol × List Symbol) → Option σ → Prop where
  | done (state : σ) : Runs member state [] (some state)
  | refused {state : σ} {entry : List Symbol × List Symbol}
      {entries : List (List Symbol × List Symbol)} (step : StepsAs member state entry none) :
      Runs member state (entry :: entries) none
  | taken {state next : σ} {last : Option σ} {entry : List Symbol × List Symbol}
      {entries : List (List Symbol × List Symbol)} (step : StepsAs member state entry (some next))
      (more : Runs member next entries last) : Runs member state (entry :: entries) last

theorem toOption_eq_some {ε α : Type} {x : Except ε α} {a : α} :
    x.toOption = some a ↔ x = .ok a := by
  cases x <;> simp [Except.toOption]

theorem toOption_eq_none {ε α : Type} {x : Except ε α} :
    x.toOption = none ↔ ∃ e, x = .error e := by
  cases x <;> simp [Except.toOption]

theorem skipSpace_length (input : List Symbol) : (skipSpace input).length ≤ input.length := by
  exact (List.dropWhile_suffix isSpace).length_le

theorem endsNumber_comma (rest : List Symbol) : EndsNumber (.char ',' :: rest) :=
  ⟨rfl, rfl, by simp⟩

theorem endsNumber_listEnd (rest : List Symbol) : EndsNumber (.char ']' :: rest) :=
  ⟨rfl, rfl, by simp⟩

theorem endsNumber_objectEnd (rest : List Symbol) : EndsNumber (.char '}' :: rest) :=
  ⟨rfl, rfl, by simp⟩

section Lists

variable {α β : Type} {item : Reader α} {decode : β → Option α}

theorem nextItem_close {gap : List Symbol} (blank : Blank gap) (rest : List Symbol) :
    nextItem (gap ++ .char ']' :: rest) = .ok none := by
  have close : skipSpace (.char ']' :: rest) = .char ']' :: rest :=
    skipSpace_of_solid (by decide) rest
  simp [nextItem, skipSpace_append blank, close]

theorem closeList_close {gap : List Symbol} (blank : Blank gap) (rest : List Symbol) :
    closeList (gap ++ .char ']' :: rest) = .ok rest := by
  have close : skipSpace (.char ']' :: rest) = .char ']' :: rest :=
    skipSpace_of_solid (by decide) rest
  simp [closeList, skipSpace_append blank, close]

theorem nextItem_comma {gap input tail : List Symbol} {s : Symbol} (blank : Blank gap)
    (front : skipSpace input = s :: tail) (other : s ≠ .char ']') :
    nextItem (gap ++ .char ',' :: input) = .ok (some (s :: tail)) := by
  have comma : skipSpace (.char ',' :: input) = .char ',' :: input :=
    skipSpace_of_solid (by decide) input
  simp only [nextItem, skipSpace_append blank, comma, front]
  split <;> simp_all

theorem firstItem_close {gap : List Symbol} (blank : Blank gap) (rest : List Symbol) :
    firstItem (gap ++ .char ']' :: rest) = .ok none := by
  have close : skipSpace (.char ']' :: rest) = .char ']' :: rest :=
    skipSpace_of_solid (by decide) rest
  simp [firstItem, skipSpace_append blank, close]

theorem firstItem_solid {input tail : List Symbol} {s : Symbol}
    (front : skipSpace input = s :: tail) (other : s ≠ .char ']') :
    firstItem input = .ok (some (s :: tail)) := by
  simp only [firstItem, front]
  split <;> simp_all

/-- Parts in a row are read one after the other, up to the first that is refused. Reading an item
    shortens the input, so the bound lasts. -/
theorem itemsWithin_parts {parts : List (List Symbol)} {items : List β} {body : List Symbol}
    (each : List.Forall₂ (fun text b => Solid text ∧ ReadsAs item text (decode b)) parts items)
    (joined : Joined parts body) (nonempty : parts ≠ []) (rest : List Symbol) :
    ∃ s tail, skipSpace (body ++ .char ']' :: rest) = s :: tail ∧ s ≠ .char ']' ∧
      ∀ bound : List Symbol, (s :: tail).length ≤ bound.length →
        (itemsWithin item bound (s :: tail)).toOption =
          (items.mapM decode).map fun values => (values, rest) := by
  induction joined generalizing items with
  | none blank => exact absurd rfl nonempty
  | @last space part gap blank after =>
    cases each with
    | @cons _ b _ _ first more =>
      cases more
      obtain ⟨⟨s, tail, rfl, solid, other⟩, reads⟩ := first
      refine ⟨s, tail ++ (gap ++ .char ']' :: rest), ?_, other, ?_⟩
      · rw [List.append_assoc, skipSpace_append blank]
        simpa using skipSpace_of_solid solid _
      · intro bound enough
        cases bound with
        | nil => simp at enough
        | cons x bound =>
          have read := reads [] (gap ++ .char ']' :: rest) blank_nil
            (endsNumber_of_blank after (endsNumber_listEnd rest))
          simp only [List.nil_append, List.cons_append] at read
          cases value : decode b with
          | none =>
            rw [value] at read
            obtain ⟨f, refused⟩ := toOption_eq_none.1 read
            simp [itemsWithin, refused, value, bind, Except.bind, Except.toOption]
          | some a =>
            rw [value] at read
            have taken := toOption_eq_some.1 read
            simp [itemsWithin, taken, value, nextItem_close after, closeList_close after, bind,
              Except.bind, pure, Except.pure, Except.toOption]
  | @more space part gap next body parts blank after joined ih =>
    cases each with
    | @cons _ b _ items first more =>
      obtain ⟨t, left, front, unlike, within⟩ := ih more (by simp)
      obtain ⟨⟨s, tail, rfl, solid, other⟩, reads⟩ := first
      refine ⟨s, tail ++ (gap ++ .char ',' :: (body ++ .char ']' :: rest)), ?_, other, ?_⟩
      · rw [List.append_assoc, skipSpace_append blank]
        simpa using skipSpace_of_solid solid _
      · intro bound enough
        cases bound with
        | nil => simp at enough
        | cons x bound =>
          have read := reads [] (gap ++ .char ',' :: (body ++ .char ']' :: rest)) blank_nil
            (endsNumber_of_blank after (endsNumber_comma _))
          have shorter := skipSpace_length (body ++ .char ']' :: rest)
          rw [front] at shorter
          have left : (t :: left).length ≤ bound.length := by
            simp only [List.length_cons, List.length_append] at enough shorter ⊢
            omega
          have others := within bound left
          simp only [List.nil_append, List.cons_append] at read
          cases value : decode b with
          | none =>
            rw [value] at read
            obtain ⟨f, refused⟩ := toOption_eq_none.1 read
            simp [itemsWithin, refused, value, bind, Except.bind, Except.toOption]
          | some a =>
            rw [value] at read
            have taken := toOption_eq_some.1 read
            cases more : items.mapM decode with
            | none =>
              rw [more] at others
              obtain ⟨f, refused⟩ := toOption_eq_none.1 others
              simp [itemsWithin, taken, value, nextItem_comma after front unlike, refused, more,
                bind, Except.bind, Except.toOption]
            | some values =>
              rw [more] at others
              have tail := toOption_eq_some.1 others
              simp [itemsWithin, taken, value, nextItem_comma after front unlike, tail, more, bind,
                Except.bind, pure, Except.pure, Except.toOption]

theorem readItems_parts {parts : List (List Symbol)} {items : List β} {body : List Symbol}
    (each : List.Forall₂ (fun text b => Solid text ∧ ReadsAs item text (decode b)) parts items)
    (joined : Joined parts body) (rest : List Symbol) :
    (readItems item (body ++ .char ']' :: rest)).toOption =
      (items.mapM decode).map fun values => (values, rest) := by
  by_cases empty : parts = []
  · subst empty
    cases each
    cases joined with
    | none blank =>
      simp [readItems, firstItem_close blank, closeList_close blank, bind, Except.bind, pure,
        Except.pure, Except.toOption]
  · obtain ⟨s, tail, front, other, within⟩ := itemsWithin_parts each joined empty rest
    have read := within (s :: tail) (Nat.le_refl _)
    simpa [readItems, firstItem_solid front other, bind, Except.bind] using read

end Lists

section Objects

variable {σ β : Type} {member : σ → String → Reader σ} {step : σ → β → Option σ}

theorem nextKey_close {gap : List Symbol} (blank : Blank gap) (rest : List Symbol) :
    nextKey (gap ++ .char '}' :: rest) = .ok none := by
  have close : skipSpace (.char '}' :: rest) = .char '}' :: rest :=
    skipSpace_of_solid (by decide) rest
  simp [nextKey, skipSpace_append blank, close]

theorem closeObject_close {gap : List Symbol} (blank : Blank gap) (rest : List Symbol) :
    closeObject (gap ++ .char '}' :: rest) = rest := by
  have close : skipSpace (.char '}' :: rest) = .char '}' :: rest :=
    skipSpace_of_solid (by decide) rest
  simp [closeObject, skipSpace_append blank, close]

theorem nextKey_comma {gap input tail : List Symbol} (blank : Blank gap)
    (front : skipSpace input = .char '"' :: tail) :
    nextKey (gap ++ .char ',' :: input) = .ok (some tail) := by
  have comma : skipSpace (.char ',' :: input) = .char ',' :: input :=
    skipSpace_of_solid (by decide) input
  simp [nextKey, skipSpace_append blank, comma, front]

theorem expectColon_spaced {gap : List Symbol} (blank : Blank gap) (rest : List Symbol) :
    expectColon (gap ++ .char ':' :: rest) = .ok rest := by
  have colon : skipSpace (.char ':' :: rest) = .char ':' :: rest :=
    skipSpace_of_solid (by decide) rest
  simp [expectColon, skipSpace_append blank, colon]

theorem skipSpace_entryText {space : List Symbol} (blank : Blank space) (key after : List Symbol)
    (rest : List Symbol) :
    skipSpace (space ++ (entryText (key, after) ++ rest)) =
      .char '"' :: (key ++ .char '"' :: (after ++ rest)) := by
  rw [skipSpace_append blank]
  simpa [entryText] using skipSpace_of_solid (by decide) _

theorem membersWithin_refused {state : σ} {input : List Symbol} {f : Fault}
    (read : readNamed member state input = .error f) (x : Symbol) (bound : List Symbol) :
    membersWithin member (x :: bound) state input = .error f := by
  rw [membersWithin]
  cases named : readString input with
  | error g => simpa [readNamed, named, bind, Except.bind] using read
  | ok key =>
    have failed : member state key.1 key.2 = .error f := by
      simpa [readNamed, named, bind, Except.bind] using read
    simp [failed, bind, Except.bind]

theorem membersWithin_taken {state next : σ} {input rest : List Symbol}
    (read : readNamed member state input = .ok (next, rest)) (x : Symbol) (bound : List Symbol) :
    (nextKey rest = .ok none →
      membersWithin member (x :: bound) state input = .ok (next, closeObject rest)) ∧
    ∀ key, nextKey rest = .ok (some key) →
      membersWithin member (x :: bound) state input = membersWithin member bound next key := by
  cases named : readString input with
  | error g => simp [readNamed, named, bind, Except.bind] at read
  | ok key =>
    have passed : member state key.1 key.2 = .ok (next, rest) := by
      simpa [readNamed, named, bind, Except.bind] using read
    constructor
    · intro ends
      simp [membersWithin, named, passed, ends, bind, Except.bind, pure, Except.pure]
    · intro other goes
      simp [membersWithin, named, passed, goes, bind, Except.bind]

theorem membersWithin_runs {entries : List (List Symbol × List Symbol)} {last : Option σ}
    (rest : List Symbol) (entry : List Symbol × List Symbol) (state : σ) (body : List Symbol)
    (runs : Runs member state (entry :: entries) last)
    (joined : Joined ((entry :: entries).map entryText) body) :
    ∃ first, skipSpace (body ++ .char '}' :: rest) = .char '"' :: first ∧
      ∀ bound : List Symbol, first.length ≤ bound.length →
        (membersWithin member bound state first).toOption = last.map fun s => (s, rest) := by
  induction entries generalizing entry state body with
  | nil =>
    cases joined with
    | @last space _ gap blank closing =>
      have ends := endsNumber_of_blank closing (endsNumber_objectEnd rest)
      refine ⟨entry.1 ++ .char '"' :: (entry.2 ++ (gap ++ .char '}' :: rest)), ?_, ?_⟩
      · simpa using skipSpace_entryText blank entry.1 entry.2 (gap ++ .char '}' :: rest)
      · intro bound enough
        cases bound with
        | nil => simp at enough
        | cons x bound =>
          cases runs with
          | refused step =>
            obtain ⟨f, read⟩ := toOption_eq_none.1 (step _ ends)
            simp [membersWithin_refused read, Except.toOption]
          | taken step more =>
            cases more
            have read := toOption_eq_some.1 (step _ ends)
            have whole := (membersWithin_taken read x bound).1 (nextKey_close closing rest)
            simp [whole, closeObject_close closing, Except.toOption]
  | cons other entries ih =>
    cases joined with
    | @more space _ gap _ inner _ blank between joined =>
      have ends := endsNumber_of_blank between (endsNumber_comma (inner ++ .char '}' :: rest))
      refine ⟨entry.1 ++ .char '"' ::
        (entry.2 ++ (gap ++ .char ',' :: (inner ++ .char '}' :: rest))), ?_, ?_⟩
      · simpa using skipSpace_entryText blank entry.1 entry.2
          (gap ++ .char ',' :: (inner ++ .char '}' :: rest))
      · intro bound enough
        cases bound with
        | nil => simp at enough
        | cons x bound =>
          cases runs with
          | refused step =>
            obtain ⟨f, read⟩ := toOption_eq_none.1 (step _ ends)
            simp [membersWithin_refused read, Except.toOption]
          | taken step more =>
            obtain ⟨first, front, within⟩ := ih other _ inner more joined
            have shorter := skipSpace_length (inner ++ .char '}' :: rest)
            rw [front] at shorter
            have left : first.length ≤ bound.length := by
              simp only [List.length_cons, List.length_append] at enough shorter ⊢
              omega
            have read := toOption_eq_some.1 (step _ ends)
            rw [(membersWithin_taken read x bound).2 first (nextKey_comma between front)]
            exact within bound left

theorem readMembers_runs {entries : List (List Symbol × List Symbol)} {start : σ} {last : Option σ}
    {body : List Symbol} (runs : Runs member start entries last)
    (joined : Joined (entries.map entryText) body) (rest : List Symbol) :
    (readMembers member start (body ++ .char '}' :: rest)).toOption =
      last.map fun s => (s, rest) := by
  cases entries with
  | nil =>
    cases runs
    cases joined with
    | none blank =>
      have close : skipSpace (.char '}' :: rest) = .char '}' :: rest :=
        skipSpace_of_solid (by decide) rest
      simp [readMembers, firstKey, skipSpace_append blank, close, closeObject_close blank, bind,
        Except.bind, pure, Except.pure, Except.toOption]
  | cons entry entries =>
    obtain ⟨first, front, within⟩ := membersWithin_runs rest entry start body runs joined
    have shorter := skipSpace_length (body ++ .char '}' :: rest)
    rw [front, List.length_cons] at shorter
    have read := within (body ++ .char '}' :: rest) (by omega)
    simpa [readMembers, firstKey, front, bind, Except.bind] using read

theorem Runs.of_steps {entries : List (List Symbol × List Symbol)} {members : List β}
    (each : List.Forall₂ (fun entry m => ∀ state, StepsAs member state entry (step state m))
      entries members) (start : σ) : Runs member start entries (members.foldlM step start) := by
  induction each generalizing start with
  | nil => exact .done start
  | @cons entry m entries members first more ih =>
    have here := first start
    rw [List.foldlM_cons]
    cases known : step start m with
    | none =>
      rw [known] at here
      exact .refused here
    | some next =>
      rw [known] at here
      exact .taken here (ih next)

end Objects

end RegoPolicy.Json
