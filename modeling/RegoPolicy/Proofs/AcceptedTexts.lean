import RegoPolicy.Proofs.RoundTrip
import RegoPolicy.Proofs.Trees

/-!
Readers accept texts of the grammar only. Whatever the shape, what a reader takes from the front of
its input is a value with space in front of it, so a text that is read has a tree.
-/
namespace RegoPolicy.Json

open Text

def TakesValue (input rest : List Symbol) : Prop := ∃ v, Derives .value v ∧ input = v ++ rest

def TakesEntry (input rest : List Symbol) : Prop :=
  ∃ e, Derives (.entry .list) e ∧ input = e ++ rest

def TakesMember (input rest : List Symbol) : Prop :=
  ∃ gap after, Blank gap ∧ input = gap ++ .char ':' :: after ∧ TakesEntry after rest

def TakesBody (b : Bracket) (input rest : List Symbol) : Prop :=
  TakesValue (b.opening :: input) rest

theorem TakesValue.scalar {input rest v : List Symbol} (scalar : Scalar v)
    (split : input = v ++ rest) : TakesValue input rest := ⟨v, .scalar scalar, split⟩

section Punctuation

variable {input rest : List Symbol}

theorem skipSpace_eq {front : List Symbol} (skipped : skipSpace input = front) :
    ∃ gap, Blank gap ∧ input = gap ++ front := by
  obtain ⟨gap, blank, split⟩ := skipSpace_split input
  exact ⟨gap, blank, skipped ▸ split⟩

theorem TakesEntry.of_front {front : List Symbol} (skipped : skipSpace input = front)
    (value : TakesValue front rest) : TakesEntry input rest := by
  obtain ⟨space, blank, rfl⟩ := skipSpace_eq skipped
  obtain ⟨v, derived, rfl⟩ := value
  exact ⟨space ++ v, .item blank derived, by simp⟩

theorem TakesEntry.of_skipSpace (entry : TakesEntry (skipSpace input) rest) :
    TakesEntry input rest := by
  obtain ⟨space, blank, split⟩ := skipSpace_split input
  obtain ⟨e, derived, front⟩ := entry
  exact ⟨space ++ e, entry_after_blank blank derived, by rw [split, front, List.append_assoc]⟩

theorem closeList_sound (closed : closeList input = .ok rest) :
    ∃ gap, Blank gap ∧ input = gap ++ .char ']' :: rest := by
  unfold closeList at closed
  split at closed
  · cases closed
  · rename_i tail front
    cases closed
    exact skipSpace_eq front
  · split at closed <;> cases closed
  · cases closed

theorem nextItem_sound (more : nextItem input = .ok (some rest)) :
    ∃ gap space, Blank gap ∧ Blank space ∧ input = gap ++ .char ',' :: (space ++ rest) := by
  unfold nextItem at more
  split at more
  · cases more
  · cases more
  · rename_i tail front
    obtain ⟨gap, apart, rfl⟩ := skipSpace_eq front
    obtain ⟨space, blank, split⟩ := skipSpace_split tail
    split at more
    · cases more
    · cases more
    · cases more
      exact ⟨gap, space, apart, blank, by rw [← split]⟩
  · cases more

theorem firstItem_sound (more : firstItem input = .ok (some rest)) :
    ∃ space, Blank space ∧ input = space ++ rest := by
  unfold firstItem at more
  split at more
  · cases more
  · cases more
  · cases more
    exact skipSpace_eq rfl

theorem firstItem_closed (closed : firstItem input = .ok none) :
    ∃ rest, skipSpace input = .char ']' :: rest := by
  unfold firstItem at closed
  split at closed
  · cases closed
  · rename_i tail front
    exact ⟨tail, front⟩
  · cases closed

theorem nextKey_sound (more : nextKey input = .ok (some rest)) :
    ∃ gap space, Blank gap ∧ Blank space ∧
      input = gap ++ .char ',' :: (space ++ .char '"' :: rest) := by
  unfold nextKey at more
  split at more
  · cases more
  · cases more
  · rename_i tail front
    obtain ⟨gap, apart, rfl⟩ := skipSpace_eq front
    split at more
    · cases more
    · rename_i after quote
      cases more
      obtain ⟨space, blank, rfl⟩ := skipSpace_eq quote
      exact ⟨gap, space, apart, blank, rfl⟩
    · cases more
    · cases more
  · cases more

theorem nextKey_closed (closed : nextKey input = .ok none) :
    ∃ gap, Blank gap ∧ input = gap ++ .char '}' :: closeObject input := by
  unfold nextKey at closed
  split at closed
  · cases closed
  · rename_i tail front
    obtain ⟨gap, blank, split⟩ := skipSpace_eq front
    exact ⟨gap, blank, by rw [closeObject, front]; exact split⟩
  · split at closed <;> cases closed
  · cases closed

theorem firstKey_sound (more : firstKey input = .ok (some rest)) :
    ∃ space, Blank space ∧ input = space ++ .char '"' :: rest := by
  unfold firstKey at more
  split at more
  · cases more
  · cases more
  · rename_i tail front
    cases more
    exact skipSpace_eq front
  · cases more

theorem firstKey_closed (closed : firstKey input = .ok none) :
    ∃ gap, Blank gap ∧ input = gap ++ .char '}' :: closeObject input := by
  unfold firstKey at closed
  split at closed
  · cases closed
  · rename_i tail front
    obtain ⟨gap, blank, split⟩ := skipSpace_eq front
    exact ⟨gap, blank, by rw [closeObject, front]; exact split⟩
  · cases closed
  · cases closed

theorem expectColon_sound (taken : expectColon input = .ok rest) :
    ∃ gap, Blank gap ∧ input = gap ++ .char ':' :: rest := by
  unfold expectColon at taken
  split at taken
  · cases taken
  · rename_i tail front
    cases taken
    exact skipSpace_eq front
  · cases taken

end Punctuation

section Bodies

variable {α σ : Type} {item : Reader α} {member : σ → String → Reader σ}

theorem itemsWithin_sound
    (each : ∀ input a rest, item input = .ok (a, rest) → TakesEntry input rest)
    {bound input rest : List Symbol} {items : List α}
    (read : itemsWithin item bound input = .ok (items, rest)) :
    ∃ e m, Derives (.entry .list) e ∧ Derives (.more .list) m ∧
      input = e ++ (m ++ .char ']' :: rest) := by
  induction bound generalizing input items rest with
  | nil => cases read
  | cons b bound ih =>
    rw [itemsWithin] at read
    obtain ⟨⟨a, left⟩, first, read⟩ := bind_eq_ok read
    obtain ⟨next, found, read⟩ := bind_eq_ok read
    obtain ⟨e, entry, rfl⟩ := each input a left first
    cases next with
    | none =>
      obtain ⟨closed, close, result⟩ := bind_eq_ok read
      cases result
      obtain ⟨gap, blank, rfl⟩ := closeList_sound close
      exact ⟨e, gap, entry, .last .list blank, rfl⟩
    | some next =>
      obtain ⟨⟨more, left⟩, others, result⟩ := bind_eq_ok read
      cases result
      obtain ⟨gap, space, apart, blank, rfl⟩ := nextItem_sound found
      obtain ⟨second, m, further, rest, rfl⟩ := ih others
      refine ⟨e, _, entry, .next .list apart (entry_after_blank blank further) rest, ?_⟩
      simp

theorem readItems_sound
    (each : ∀ input a rest, item input = .ok (a, rest) → TakesEntry input rest)
    {input rest : List Symbol} {items : List α}
    (read : readItems item input = .ok (items, rest)) : TakesBody .list input rest := by
  obtain ⟨first, found, read⟩ := bind_eq_ok read
  cases first with
  | none =>
    obtain ⟨closed, close, result⟩ := bind_eq_ok read
    cases result
    obtain ⟨gap, blank, rfl⟩ := closeList_sound close
    exact ⟨_, .empty .list blank, by simp [Bracket.closing]⟩
  | some first =>
    obtain ⟨space, blank, rfl⟩ := firstItem_sound found
    obtain ⟨e, m, entry, more, rfl⟩ := itemsWithin_sound each read
    exact ⟨_, .filled .list (entry_after_blank blank entry) more, by simp [Bracket.closing]⟩

theorem membersWithin_sound
    (each : ∀ state key input next rest, member state key input = .ok (next, rest) →
      TakesMember input rest) {bound input rest : List Symbol} {state last : σ}
    (read : membersWithin member bound state input = .ok (last, rest)) :
    ∃ e m, Derives (.entry .object) e ∧ Derives (.more .object) m ∧
      .char '"' :: input = e ++ (m ++ .char '}' :: rest) := by
  induction bound generalizing state input with
  | nil => cases read
  | cons b bound ih =>
    rw [membersWithin] at read
    obtain ⟨⟨key, after⟩, name, read⟩ := bind_eq_ok read
    obtain ⟨⟨next, left⟩, taken, read⟩ := bind_eq_ok read
    obtain ⟨more, found, read⟩ := bind_eq_ok read
    obtain ⟨q, denotes, rfl⟩ := readString_sound name
    obtain ⟨gap, value, apart, rfl, e, entry, rfl⟩ := each state key after next left taken
    have here : Derives (.entry .object) _ := .member blank_nil denotes.content apart entry
    cases more with
    | none =>
      cases read
      obtain ⟨space, blank, split⟩ := nextKey_closed found
      refine ⟨_, space, here, .last .object blank, ?_⟩
      simp [← split]
    | some input =>
      obtain ⟨space, before, spaced, blank, rfl⟩ := nextKey_sound found
      obtain ⟨second, m, further, rest, split⟩ := ih read
      refine ⟨_, _, here, .next .object spaced (entry_after_blank blank further) rest, ?_⟩
      simp [split]

theorem readMembers_sound
    (each : ∀ state key input next rest, member state key input = .ok (next, rest) →
      TakesMember input rest) {input rest : List Symbol} {start last : σ}
    (read : readMembers member start input = .ok (last, rest)) : TakesBody .object input rest := by
  obtain ⟨first, found, read⟩ := bind_eq_ok read
  cases first with
  | none =>
    cases read
    obtain ⟨gap, blank, split⟩ := firstKey_closed found
    exact ⟨_, .empty .object blank, by simp [Bracket.closing, ← split]⟩
  | some first =>
    obtain ⟨space, blank, rfl⟩ := firstKey_sound found
    obtain ⟨e, m, entry, more, split⟩ := membersWithin_sound each read
    refine ⟨_, .filled .object (entry_after_blank blank entry) more, ?_⟩
    simp [Bracket.closing, split]

end Bodies

section Scalars

variable {input rest : List Symbol}

theorem expectWord_scalar {word : List Char} {c : Char} (taken : expectWord word input = .ok rest)
    (scalar : Scalar (.char c :: word.map .char)) : TakesValue (.char c :: input) rest :=
  .scalar scalar (congrArg _ ((expectWord_ok_iff word input rest).1 taken))

theorem readString_scalar {s : String} (read : readString input = .ok (s, rest)) :
    TakesValue (.char '"' :: input) rest := by
  obtain ⟨q, denotes, rfl⟩ := readString_sound read
  exact .scalar (.string denotes.content) (by simp)

theorem readScalar_sound {s : Symbol} {v : Value} (read : readScalar s input = .ok (v, rest)) :
    TakesValue (s :: input) rest := by
  unfold readScalar at read
  split at read
  · obtain ⟨left, word, result⟩ := bind_eq_ok read
    cases result
    exact expectWord_scalar word .null
  · obtain ⟨left, word, result⟩ := bind_eq_ok read
    cases result
    exact expectWord_scalar word .true
  · obtain ⟨left, word, result⟩ := bind_eq_ok read
    cases result
    exact expectWord_scalar word .false
  · obtain ⟨⟨text, left⟩, string, result⟩ := bind_eq_ok read
    cases result
    exact readString_scalar string
  · obtain ⟨⟨n, left⟩, number, result⟩ := bind_eq_ok read
    cases result
    obtain ⟨digits, rfl⟩ := readNumber_sound number
    exact .scalar (.negative ((unsigned_iff _).2 ⟨digits, rfl⟩)) rfl
  · split at read
    · obtain ⟨⟨n, left⟩, number, result⟩ := bind_eq_ok read
      cases result
      obtain ⟨digits, split⟩ := readNumber_sound number
      exact .scalar (.positive ((unsigned_iff _).2 ⟨digits, rfl⟩)) split
    · cases read

theorem readText_sound {wanted s : String} (read : readText wanted input = .ok (s, rest)) :
    TakesEntry input rest := by
  unfold readText at read
  split at read
  · cases read
  · rename_i tail front
    exact .of_front front (readString_scalar read)
  · cases read

theorem readFlag_sound {b : Bool} (read : readFlag input = .ok (b, rest)) :
    TakesEntry input rest := by
  unfold readFlag at read
  split at read
  · cases read
  · rename_i tail front
    obtain ⟨left, word, result⟩ := bind_eq_ok read
    cases result
    exact .of_front front (expectWord_scalar word .true)
  · rename_i tail front
    obtain ⟨left, word, result⟩ := bind_eq_ok read
    cases result
    exact .of_front front (expectWord_scalar word .false)
  · cases read

theorem readUnit_sound (read : readUnit input = .ok rest) : TakesEntry input rest := by
  unfold readUnit at read
  split at read
  · cases read
  · rename_i tail front
    exact .of_front front (expectWord_scalar read .null)
  · cases read

theorem scanValue_sound (scanned : scanValue input = .ok rest) : TakesEntry input rest := by
  obtain ⟨_, ⟨e, tail, value, closes, rfl⟩, split⟩ := scanWithin_sound scanned
  have nothing : tail = [] := closes
  exact ⟨e, value, by simpa [nothing] using split⟩

end Scalars

theorem readEntry_sound {value : Reader Value}
    (each : ∀ input v rest, value input = .ok (v, rest) → TakesEntry input rest)
    (entries : List (String × Value)) (key : String) (input : List Symbol)
    (next : List (String × Value)) (rest : List Symbol)
    (read : readEntry value entries key input = .ok (next, rest)) : TakesMember input rest := by
  obtain ⟨after, colon, read⟩ := bind_eq_ok read
  obtain ⟨⟨v, left⟩, inside, result⟩ := bind_eq_ok read
  cases result
  obtain ⟨gap, blank, split⟩ := expectColon_sound colon
  exact ⟨gap, after, blank, split, each after v _ inside⟩

theorem readValue_sound {levels : Nat} {input rest : List Symbol} {v : Value}
    (read : readValue levels input = .ok (v, rest)) : TakesEntry input rest := by
  induction levels generalizing input rest v with
  | zero =>
    unfold readValue at read
    split at read
    · cases read
    · cases read
    · cases read
    · rename_i front
      exact .of_front front (readScalar_sound read)
  | succ levels ih =>
    unfold readValue at read
    split at read
    · cases read
    · rename_i tail front
      obtain ⟨⟨items, left⟩, inside, result⟩ := bind_eq_ok read
      cases result
      exact .of_front front (readItems_sound (fun _ _ _ => ih) inside)
    · rename_i tail front
      obtain ⟨⟨entries, left⟩, inside, result⟩ := bind_eq_ok read
      cases result
      exact .of_front front (readMembers_sound (readEntry_sound fun _ _ _ => ih) inside)
    · rename_i front
      exact .of_front front (readScalar_sound read)

theorem readChoice_sound {α : Type} {variants : List (String × α)} {levels : Nat}
    {input rest : List Symbol} {a : α} (read : readChoice variants levels input = .ok (a, rest)) :
    TakesEntry input rest := by
  have variant {input rest : List Symbol} {a : α}
      (read : readVariant variants input = .ok (a, rest)) :
      ∃ name, readString input = .ok (name, rest) := by
    obtain ⟨⟨name, left⟩, string, read⟩ := bind_eq_ok read
    cases found : variants.lookup name with
    | none => simp [found] at read
    | some b =>
      simp only [found] at read
      cases read
      exact ⟨name, string⟩
  unfold readChoice at read
  split at read
  · cases read
  · rename_i front
    obtain ⟨name, string⟩ := variant read
    exact .of_front front (readString_scalar string)
  · rename_i front
    cases levels with
    | zero => cases read
    | succ levels =>
      simp only [deeper] at read
      obtain ⟨key, first, read⟩ := bind_eq_ok read
      cases key with
      | none => cases read
      | some key =>
        obtain ⟨⟨b, left⟩, named, read⟩ := bind_eq_ok read
        obtain ⟨value, colon, read⟩ := bind_eq_ok read
        obtain ⟨closing, unit, read⟩ := bind_eq_ok read
        split at read
        · cases read
        · rename_i close
          cases read
          obtain ⟨space, blank, rfl⟩ := firstKey_sound first
          obtain ⟨name, string⟩ := variant named
          obtain ⟨q, denotes, rfl⟩ := readString_sound string
          obtain ⟨gap, apart, rfl⟩ := expectColon_sound colon
          obtain ⟨e, entry, rfl⟩ := readUnit_sound unit
          obtain ⟨after, closes, rfl⟩ := skipSpace_eq close
          refine .of_front front ⟨_, .filled .object (.member blank denotes.content apart entry)
            (.last .object closes), ?_⟩
          simp [Bracket.opening, Bracket.closing]
        · cases read
  · cases read

mutual

theorem Shape.read_sound {α : Type} : (shape : Shape α) → {levels : Nat} →
    {input rest : List Symbol} → {a : α} → shape.read levels input = .ok (a, rest) →
      TakesEntry input rest
  | .text, _, _, _, _, read => readText_sound (by simpa only [Shape.read] using read)
  | .flag, _, _, _, _, read => readFlag_sound (by simpa only [Shape.read] using read)
  | .literal, levels, input, rest, a, read => by
    simp only [Shape.read] at read
    obtain ⟨⟨v, left⟩, inside, result⟩ := bind_eq_ok read
    cases result
    exact readValue_sound inside
  | .optional inner, levels, input, rest, o, read => by
    simp only [Shape.read] at read
    split at read
    · rename_i front
      obtain ⟨left, word, result⟩ := bind_eq_ok read
      cases result
      exact .of_front front (expectWord_scalar word .null)
    · obtain ⟨⟨b, left⟩, inside, result⟩ := bind_eq_ok read
      cases result
      exact .of_skipSpace (inner.read_sound inside)
  | .sequence item, levels, input, rest, items, read => by
    simp only [Shape.read] at read
    split at read
    · cases read
    · rename_i front
      cases levels with
      | zero => cases read
      | succ levels => exact .of_front front (readItems_sound (fun _ _ _ => item.read_sound) read)
    · cases read
  | .choice variants name, levels, input, rest, a, read => by
    simp only [Shape.read] at read
    exact readChoice_sound read
  | .record name fields make take, levels, input, rest, a, read => by
    simp only [Shape.read] at read
    split at read
    · cases read
    · rename_i front
      cases levels with
      | zero => cases read
      | succ levels =>
        obtain ⟨⟨values, left⟩, row, read⟩ := bind_eq_ok read
        obtain ⟨closed, close, result⟩ := bind_eq_ok read
        cases result
        have body := fields.readRow_sound row close
        rw [if_pos rfl] at body
        exact .of_front front body
    · rename_i front
      cases levels with
      | zero => cases read
      | succ levels =>
        obtain ⟨⟨slots, left⟩, members, read⟩ := bind_eq_ok read
        have body := readMembers_sound (fun _ _ _ _ _ => fields.readMember_sound) members
        cases finished : fields.finish slots with
        | error missing => simp [finished] at read
        | ok values =>
          simp only [finished] at read
          cases read
          exact .of_front front body
    · cases read
  | .via inner make take, levels, input, rest, b, read => by
    simp only [Shape.read] at read
    obtain ⟨⟨a, left⟩, inside, result⟩ := bind_eq_ok read
    cases result
    exact inner.read_sound inside

theorem Fields.readRow_sound {τ σ : Type} : (fields : Fields τ σ) → {levels : Nat} →
    {short : Nat → Cause} → {index : Nat} → {input left rest : List Symbol} → {values : τ} →
      fields.readRow levels short index input = .ok (values, left) → closeList left = .ok rest →
      if index = 0 then TakesBody .list input rest
      else ∃ m, Derives (.more .list) m ∧ input = m ++ .char ']' :: rest
  | .done, _, _, index, input, left, rest, _, read, close => by
    simp only [Fields.readRow] at read
    cases read
    obtain ⟨gap, blank, rfl⟩ := closeList_sound close
    split
    · exact ⟨_, .empty .list blank, by simp [Bracket.closing]⟩
    · exact ⟨gap, .last .list blank, rfl⟩
  | .field name aliases shape default omitted others, levels, short, index, input, left, rest,
      (a, values), read, close => by
    simp only [Fields.readRow] at read
    obtain ⟨next, found, read⟩ := bind_eq_ok read
    cases next with
    | some next =>
      obtain ⟨⟨b, after⟩, inside, read⟩ := bind_eq_ok read
      obtain ⟨⟨left, last⟩, row, result⟩ := bind_eq_ok read
      cases result
      obtain ⟨e, entry, rfl⟩ := shape.read_sound inside
      obtain ⟨m, more, rfl⟩ := others.readRow_sound row close
      split at found
      · rename_i first
        rw [if_pos first]
        obtain ⟨space, blank, rfl⟩ := firstItem_sound found
        exact ⟨_, .filled .list (entry_after_blank blank entry) more, by simp [Bracket.closing]⟩
      · rename_i later
        rw [if_neg later]
        obtain ⟨gap, space, apart, blank, rfl⟩ := nextItem_sound found
        exact ⟨_, .next .list apart (entry_after_blank blank entry) more, by simp⟩
    | none =>
      cases default with
      | none => cases read
      | some b =>
        obtain ⟨⟨left, last⟩, row, result⟩ := bind_eq_ok read
        cases result
        obtain ⟨m, more, rfl⟩ := others.readRow_sound row close
        split at found
        · rename_i first
          rw [if_pos first]
          obtain ⟨tail, front⟩ := firstItem_closed found
          -- nothing but space can stand before a bracket that closes at once
          cases more with
          | last _ blank => exact ⟨_, .empty .list blank, by simp [Bracket.closing]⟩
          | next _ blank entry more =>
            rw [List.append_assoc, skipSpace_append blank] at front
            cases front
        · rename_i later
          rw [if_neg later]
          exact ⟨m, more, rfl⟩

theorem Fields.readMember_sound {τ σ : Type} : (fields : Fields τ σ) → {levels : Nat} →
    {slots next : σ} → {key : String} → {input rest : List Symbol} →
      fields.readMember levels slots key input = .ok (next, rest) → TakesMember input rest
  | .done, _, _, _, _, input, rest, read => by
    simp only [Fields.readMember] at read
    obtain ⟨after, colon, read⟩ := bind_eq_ok read
    obtain ⟨left, scanned, result⟩ := bind_eq_ok read
    cases result
    obtain ⟨gap, blank, split⟩ := expectColon_sound colon
    exact ⟨gap, after, blank, split, scanValue_sound scanned⟩
  | .field name aliases shape default omitted others, levels, (slot, slots), next, key, input, rest,
      read => by
    simp only [Fields.readMember] at read
    split at read
    · split at read
      · cases read
      · obtain ⟨after, colon, read⟩ := bind_eq_ok read
        obtain ⟨⟨a, left⟩, inside, result⟩ := bind_eq_ok read
        cases result
        obtain ⟨gap, blank, split⟩ := expectColon_sound colon
        exact ⟨gap, after, blank, split, shape.read_sound inside⟩
    · obtain ⟨⟨left, after⟩, passed, result⟩ := bind_eq_ok read
      cases result
      exact others.readMember_sound passed

end

theorem Shape.parseText_textOf {α : Type} (shape : Shape α) {s : String} {a : α}
    (parsed : shape.parseText s = .ok a) : ∃ t, TextOf s t := by
  rw [← isLiteral_iff_textOf, isLiteral_iff_isText]
  simp only [Shape.parseText, Shape.parse] at parsed
  cases read : shape.read levelLimit (ofString s) with
  | error f => simp [read, bind, Except.bind, Except.mapError] at parsed
  | ok result =>
    obtain ⟨e, entry, split⟩ := shape.read_sound read
    cases ended : expectEnd result.2 with
    | error f => simp [read, ended, bind, Except.bind, Except.mapError] at parsed
    | ok nothing => exact ⟨e, result.2, entry, (expectEnd_isOk _).1 (by rw [ended]; rfl), split⟩

end RegoPolicy.Json
