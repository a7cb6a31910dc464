import RegoPolicy.Proofs.Spelling

/-!
Bytes and the symbols they are decoded to. Decoding loses no byte, and a text comes back from its
encoding, so bytes are decoded to characters alone exactly if they are the encoding of a text.
-/
namespace RegoPolicy.Text

def Symbol.bytes : Symbol → List UInt8
  | .char c => String.utf8EncodeChar c
  | .stray b => [b]

theorem scalar?_eq_some {least n : Nat} {c : Char} (found : scalar? least n = some c) :
    least ≤ n ∧ c.toNat = n := by
  unfold scalar? at found
  split at found
  · rename_i valid
    cases found
    refine ⟨valid.1, ?_⟩
    rw [Char.ofNat, dif_pos valid.2]
    rfl
  · cases found

theorem scalar?_toNat {least : Nat} {c : Char} (enough : least ≤ c.toNat) :
    scalar? least c.toNat = some c := by
  have valid : c.toNat.isValidChar := c.valid
  simp [scalar?, enough, valid, Char.ofNat_toNat]

theorem continuation?_eq_some {b : UInt8} {x : Nat} (found : continuation? b = some x) :
    x < 64 ∧ b.toNat = x + 0x80 := by
  unfold continuation? at found
  split at found
  · have value := Option.some.inj found
    omega
  · cases found

theorem continuation?_ofNat {x : Nat} (low : x < 64) :
    continuation? (UInt8.ofNat (x + 0x80)) = some x := by
  have value : (UInt8.ofNat (x + 0x80)).toNat = x + 0x80 := by
    rw [UInt8.toNat_ofNat']
    omega
  simp only [continuation?, value]
  rw [if_pos (by omega)]
  simp

theorem char_range (c : Char) : c.toNat < 0x110000 := by
  have valid : c.toNat.isValidChar := c.valid
  rcases valid with low | high
  · omega
  · exact high.2

theorem leading?_encoded (c : Char) (rest : List UInt8) :
    leading? (String.utf8EncodeChar c ++ rest) = some c := by
  have range := char_range c
  have value : c.val.toNat = c.toNat := rfl
  unfold String.utf8EncodeChar
  simp only [value]
  split
  · have lead : (UInt8.ofNat c.toNat).toNat = c.toNat := by rw [UInt8.toNat_ofNat']; omega
    simp only [List.cons_append, List.nil_append, leading?, lead]
    rw [if_pos (by omega), scalar?_toNat (by omega)]
  · split
    · have lead : (UInt8.ofNat (c.toNat / 64 % 0x20 + 0xc0)).toNat = c.toNat / 64 + 0xc0 := by
        rw [UInt8.toNat_ofNat']; omega
      have whole : (c.toNat / 64 + 0xc0 - 0xC0) * 64 + c.toNat % 0x40 = c.toNat := by omega
      simp only [List.cons_append, List.nil_append, leading?, lead,
        continuation?_ofNat (Nat.mod_lt c.toNat (by decide : 0x40 > 0)), Option.bind_eq_bind,
        Option.bind_some, whole]
      rw [if_neg (by omega), if_neg (by omega), if_pos (by omega), scalar?_toNat (by omega)]
    · split
      · have lead : (UInt8.ofNat (c.toNat / 4096 % 0x10 + 0xe0)).toNat = c.toNat / 4096 + 0xe0 := by
          rw [UInt8.toNat_ofNat']; omega
        have whole : ((c.toNat / 4096 + 0xe0 - 0xE0) * 64 + c.toNat / 64 % 0x40) * 64 +
            c.toNat % 0x40 = c.toNat := by omega
        simp only [List.cons_append, List.nil_append, leading?, lead,
          continuation?_ofNat (Nat.mod_lt c.toNat (by decide : 0x40 > 0)),
          continuation?_ofNat (Nat.mod_lt (c.toNat / 64) (by decide : 0x40 > 0)),
          Option.bind_eq_bind, Option.bind_some, whole]
        rw [if_neg (by omega), if_neg (by omega), if_neg (by omega), if_pos (by omega),
          scalar?_toNat (by omega)]
      · have lead : (UInt8.ofNat (c.toNat / 262144 % 0x08 + 0xf0)).toNat =
            c.toNat / 262144 + 0xf0 := by
          rw [UInt8.toNat_ofNat']; omega
        have whole : (((c.toNat / 262144 + 0xf0 - 0xF0) * 64 + c.toNat / 4096 % 0x40) * 64 +
            c.toNat / 64 % 0x40) * 64 + c.toNat % 0x40 = c.toNat := by omega
        simp only [List.cons_append, List.nil_append, leading?, lead,
          continuation?_ofNat (Nat.mod_lt c.toNat (by decide : 0x40 > 0)),
          continuation?_ofNat (Nat.mod_lt (c.toNat / 64) (by decide : 0x40 > 0)),
          continuation?_ofNat (Nat.mod_lt (c.toNat / 4096) (by decide : 0x40 > 0)),
          Option.bind_eq_bind, Option.bind_some, whole]
        rw [if_neg (by omega), if_neg (by omega), if_neg (by omega), if_neg (by omega),
          if_pos (by omega), scalar?_toNat (by omega)]

theorem leading?_sound {bytes : List UInt8} {c : Char} (found : leading? bytes = some c) :
    ∃ rest, bytes = String.utf8EncodeChar c ++ rest := by
  have value : c.val.toNat = c.toNat := rfl
  have byte (b : UInt8) {n : Nat} (same : b.toNat = n) : b = UInt8.ofNat n := by
    rw [← same, UInt8.ofNat_toNat]
  cases bytes with
  | nil => cases found
  | cons a bytes =>
    simp only [leading?] at found
    split at found
    · obtain ⟨-, same⟩ := scalar?_eq_some found
      refine ⟨bytes, ?_⟩
      simp only [String.utf8EncodeChar, value]
      rw [if_pos (by omega), byte a same.symm]
      rfl
    · split at found
      · cases found
      · split at found
        · cases bytes with
          | nil => cases found
          | cons b bytes =>
            obtain ⟨x, second, found⟩ := Option.bind_eq_some_iff.1 found
            obtain ⟨small, tail⟩ := continuation?_eq_some second
            obtain ⟨least, same⟩ := scalar?_eq_some found
            refine ⟨bytes, ?_⟩
            simp only [String.utf8EncodeChar, value]
            rw [if_neg (by omega), if_pos (by omega),
              byte a (by omega : a.toNat = c.toNat / 64 % 0x20 + 0xc0),
              byte b (by omega : b.toNat = c.toNat % 0x40 + 0x80)]
            rfl
        · split at found
          · match bytes with
            | [] | [_] => cases found
            | b :: d :: bytes =>
              obtain ⟨x, second, found⟩ := Option.bind_eq_some_iff.1 found
              obtain ⟨y, third, found⟩ := Option.bind_eq_some_iff.1 found
              obtain ⟨smallX, tailX⟩ := continuation?_eq_some second
              obtain ⟨smallY, tailY⟩ := continuation?_eq_some third
              obtain ⟨least, same⟩ := scalar?_eq_some found
              refine ⟨bytes, ?_⟩
              simp only [String.utf8EncodeChar, value]
              rw [if_neg (by omega), if_neg (by omega), if_pos (by omega),
                byte a (by omega : a.toNat = c.toNat / 4096 % 0x10 + 0xe0),
                byte b (by omega : b.toNat = c.toNat / 64 % 0x40 + 0x80),
                byte d (by omega : d.toNat = c.toNat % 0x40 + 0x80)]
              rfl
          · split at found
            · match bytes with
              | [] | [_] | [_, _] => cases found
              | b :: d :: e :: bytes =>
                obtain ⟨x, second, found⟩ := Option.bind_eq_some_iff.1 found
                obtain ⟨y, third, found⟩ := Option.bind_eq_some_iff.1 found
                obtain ⟨z, fourth, found⟩ := Option.bind_eq_some_iff.1 found
                obtain ⟨smallX, tailX⟩ := continuation?_eq_some second
                obtain ⟨smallY, tailY⟩ := continuation?_eq_some third
                obtain ⟨smallZ, tailZ⟩ := continuation?_eq_some fourth
                obtain ⟨least, same⟩ := scalar?_eq_some found
                refine ⟨bytes, ?_⟩
                simp only [String.utf8EncodeChar, value]
                rw [if_neg (by omega), if_neg (by omega), if_neg (by omega),
                  byte a (by omega : a.toNat = c.toNat / 262144 % 0x08 + 0xf0),
                  byte b (by omega : b.toNat = c.toNat / 4096 % 0x40 + 0x80),
                  byte d (by omega : d.toNat = c.toNat / 64 % 0x40 + 0x80),
                  byte e (by omega : e.toNat = c.toNat % 0x40 + 0x80)]
                rfl
            · cases found

theorem decodeOnto_skip (found : List Symbol) (skipped rest : List UInt8) :
    decodeOnto found skipped.length (skipped ++ rest) = decodeOnto found 0 rest := by
  induction skipped with
  | nil => rfl
  | cons b skipped ih => simpa [decodeOnto] using ih

theorem utf8EncodeChar_cons (c : Char) : ∃ b bytes, String.utf8EncodeChar c = b :: bytes := by
  have positive := c.utf8Size_pos
  rw [← String.length_utf8EncodeChar] at positive
  exact List.exists_cons_of_length_pos positive

theorem decodeOnto_char (found : List Symbol) (c : Char) (rest : List UInt8) :
    decodeOnto found 0 (String.utf8EncodeChar c ++ rest) =
      decodeOnto (.char c :: found) 0 rest := by
  have known := leading?_encoded c rest
  have size := String.length_utf8EncodeChar c
  obtain ⟨b, bytes, split⟩ := utf8EncodeChar_cons c
  rw [split] at known size ⊢
  have left : c.utf8Size - 1 = bytes.length := by
    rw [← size]
    simp
  simp only [List.cons_append] at known ⊢
  simp only [decodeOnto, known, left, decodeOnto_skip]

theorem decode_encode (s : String) : decode (encode s) = ofString s := by
  have each (cs : List Char) (found : List Symbol) :
      decodeOnto found 0 (cs.flatMap String.utf8EncodeChar) = found.reverse ++ cs.map .char := by
    induction cs generalizing found with
    | nil => simp [decodeOnto]
    | cons c cs ih =>
      rw [List.flatMap_cons, decodeOnto_char, ih]
      simp
  simpa [decode, encode, ofString] using each s.toList []

theorem decode_bytes (bytes : List UInt8) : (decode bytes).flatMap Symbol.bytes = bytes := by
  have each (n : Nat) (bytes : List UInt8) (short : bytes.length ≤ n) (found : List Symbol) :
      (decodeOnto found 0 bytes).flatMap Symbol.bytes =
        found.reverse.flatMap Symbol.bytes ++ bytes := by
    induction n generalizing bytes found with
    | zero =>
      obtain rfl := List.length_eq_zero_iff.1 (Nat.le_zero.1 short)
      simp [decodeOnto]
    | succ n ih =>
      cases bytes with
      | nil => simp [decodeOnto]
      | cons b rest =>
        cases lead : leading? (b :: rest) with
        | none =>
          have shorter := ih rest (by simpa using short) (.stray b :: found)
          simp only [decodeOnto, lead, shorter]
          simp [Symbol.bytes]
        | some c =>
          obtain ⟨left, split⟩ := leading?_sound lead
          obtain ⟨a, bytes, encoded⟩ := utf8EncodeChar_cons c
          rw [split, decodeOnto_char, ih left]
          · simp [Symbol.bytes]
          · rw [encoded] at split
            have lengths := congrArg List.length split
            simp only [List.length_cons, List.length_append] at lengths short
            omega
  simpa [decode] using each bytes.length bytes (Nat.le_refl _) []

theorem eq_ofString {input : List Symbol} {s : String} (text : toString? input = some s) :
    input = ofString s := by
  have each (input : List Symbol) (cs : List Char) (chars : input.mapM Symbol.char? = some cs) :
      input = cs.map .char := by
    induction input generalizing cs with
    | nil =>
      cases chars
      rfl
    | cons symbol input ih =>
      rw [List.mapM_cons] at chars
      obtain ⟨c, first, chars⟩ := Option.bind_eq_some_iff.1 chars
      obtain ⟨cs, others, chars⟩ := Option.bind_eq_some_iff.1 chars
      cases chars
      cases symbol with
      | char d =>
        cases first
        rw [ih cs others]
        rfl
      | stray b => cases first
  obtain ⟨cs, chars, rfl⟩ := Option.map_eq_some_iff.1 text
  simpa [ofString] using each input cs chars

/-- Bytes are read as a text exactly if they encode it. -/
theorem toString?_decode (bytes : List UInt8) (s : String) :
    toString? (decode bytes) = some s ↔ bytes = encode s := by
  constructor
  · intro text
    have symbols := eq_ofString text
    rw [← decode_bytes bytes, symbols]
    simp [ofString, encode, List.flatMap_map, Symbol.bytes]
  · rintro rfl
    rw [decode_encode, Json.toString?_ofString]

end RegoPolicy.Text
