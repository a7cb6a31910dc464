import RegoPolicy.Proofs.WrittenNumbers

/-!
Integers by their digits. Digits without a superfluous zero are those of the number they come to, so
that an integer which fits a word is written as it was read. Every other one is had as a double, if
at all, and a double is never written with digits alone.
-/
namespace RegoPolicy.Json

open Text Decimal

section Digits

variable {cs : List Char}

theorem digit?_char {c : Char} {d : Nat} (known : digit? (.char c) = some d) :
    c.toNat - '0'.toNat = d ∧ c = Nat.digitChar d := by
  have least := digit_lt known
  simp only [digit?] at known
  split at known
  · rename_i bounds
    have value := Option.some.inj known
    have lower : '0'.toNat ≤ c.toNat := bounds.1
    refine ⟨value, Char.toNat_inj.1 ?_⟩
    rw [Nat.toNat_digitChar_of_lt_ten least]
    have zero : '0'.toNat = 48 := rfl
    omega
  · cases known

theorem le_ofDigitChars (cs : List Char) (value : Nat) : value ≤ Nat.ofDigitChars 10 cs value := by
  induction cs generalizing value with
  | nil => exact Nat.le_refl value
  | cons c cs ih =>
    have more := ih (10 * value + (c.toNat - '0'.toNat))
    have step : Nat.ofDigitChars 10 (c :: cs) value =
        Nat.ofDigitChars 10 cs (10 * value + (c.toNat - '0'.toNat)) := rfl
    omega

/-- Digits are gathered to their end exactly if they come to less than the limit. -/
theorem gather_all {limit value : Nat} (digits : ∀ c ∈ cs, (digit? (.char c)).isSome = true)
    (below : value < limit) (count : Nat) :
    ((gather limit value count (cs.map .char)).rest = [] ↔
      Nat.ofDigitChars 10 cs value < limit) ∧
    (Nat.ofDigitChars 10 cs value < limit →
      (gather limit value count (cs.map .char)).value = Nat.ofDigitChars 10 cs value) := by
  induction cs generalizing value count with
  | nil => exact ⟨iff_of_true rfl below, fun _ => rfl⟩
  | cons c cs ih =>
    obtain ⟨d, known⟩ := Option.isSome_iff_exists.1 (digits c List.mem_cons_self)
    have others := fun e member => digits e (List.mem_cons_of_mem c member)
    have step : Nat.ofDigitChars 10 (c :: cs) value =
        Nat.ofDigitChars 10 cs (value * 10 + d) := by
      rw [← (digit?_char known).1, Nat.mul_comm]
      rfl
    simp only [List.map_cons, gather, known, step]
    split
    · rename_i fits
      exact ih others fits (count + 1)
    · rename_i full
      have least := le_ofDigitChars cs (value * 10 + d)
      refine ⟨iff_of_false (by simp) (by omega), fun less => ?_⟩
      omega

theorem toDigits_ofDigitChars {value : Nat} (positive : 0 < value)
    (digits : ∀ c ∈ cs, (digit? (.char c)).isSome = true) :
    Nat.toDigits 10 (Nat.ofDigitChars 10 cs value) = Nat.toDigits 10 value ++ cs := by
  induction cs generalizing value with
  | nil => simp [Nat.ofDigitChars]
  | cons c cs ih =>
    obtain ⟨d, known⟩ := Option.isSome_iff_exists.1 (digits c List.mem_cons_self)
    have others := fun e member => digits e (List.mem_cons_of_mem c member)
    have least := digit_lt known
    obtain ⟨value', char⟩ := digit?_char known
    have step : Nat.ofDigitChars 10 (c :: cs) value =
        Nat.ofDigitChars 10 cs (10 * value + d) := by
      rw [← value']
      rfl
    rw [step, ih (by omega) others, ← Nat.toDigits_append_toDigits (by decide) positive least,
      Nat.toDigits_of_lt_base least, ← char, List.append_assoc]
    rfl

/-- Digits without a superfluous zero are those of the number they come to. -/
theorem whole_toDigits (whole : Whole (cs.map .char)) :
    Nat.toDigits 10 (Nat.ofDigitChars 10 cs 0) = cs := by
  generalize symbols : cs.map Symbol.char = w at whole
  cases whole with
  | zero s value =>
    obtain ⟨c, rfl, rfl⟩ := List.map_eq_singleton_iff.1 symbols
    obtain ⟨-, rfl⟩ := digit?_char value
    rfl
  | digits s rest d value positive more =>
    obtain ⟨c, cs, rfl, rfl, rfl⟩ := List.map_eq_cons_iff.1 symbols
    obtain ⟨least, char⟩ := digit?_char value
    have others : ∀ e ∈ cs, (digit? (.char e)).isSome = true :=
      fun e member => more _ (List.mem_map_of_mem member)
    have step : Nat.ofDigitChars 10 (c :: cs) 0 = Nat.ofDigitChars 10 cs d := by
      rw [← least]
      simp [Nat.ofDigitChars]
    rw [step, toDigits_ofDigitChars (by omega) others, Nat.toDigits_of_lt_base (digit_lt value),
      ← char]
    rfl

theorem whole_digits (whole : Whole (cs.map .char)) :
    ∀ c ∈ cs, (digit? (.char c)).isSome = true := by
  intro c member
  have inside : Symbol.char c ∈ cs.map Symbol.char := List.mem_map_of_mem member
  generalize cs.map Symbol.char = w at whole inside
  cases whole with
  | zero s value => simp [List.mem_singleton.1 inside, value]
  | digits s rest d value positive more =>
    rcases List.mem_cons.1 inside with first | later
    · simp [first, value]
    · exact more _ later

end Digits

/-- The integers of a word: those of a signed one, and those of an unsigned one. -/
def InWord (i : Int) : Prop := -(Nat.pow 2 63 : Int) ≤ i ∧ i < Nat.pow 2 64

instance (i : Int) : Decidable (InWord i) := inferInstanceAs (Decidable (_ ∧ _))

theorem inWord_iff (i : Int) : InWord i ↔ -9223372036854775808 ≤ i ∧ i < 18446744073709551616 :=
  Iff.rfl

/-- Decimal digits, perhaps after a minus sign, without a superfluous zero. -/
structure IntegerLiteral where
  negative : Bool
  digits : List Char
  isWhole : Whole (digits.map .char)

namespace IntegerLiteral

def numeral (n : IntegerLiteral) : Numeral := ⟨n.digits.map .char, [], [], n.isWhole, .none, .none⟩

def text (n : IntegerLiteral) : String :=
  String.ofList (if n.negative then '-' :: n.digits else n.digits)

def magnitude (n : IntegerLiteral) : Nat := Nat.ofDigitChars 10 n.digits 0

def toInt (n : IntegerLiteral) : Int := if n.negative then -(n.magnitude : Int) else n.magnitude

def Fits (n : IntegerLiteral) : Prop := InWord n.toInt ∧ ¬ (n.negative = true ∧ n.magnitude = 0)

instance (n : IntegerLiteral) : Decidable n.Fits := inferInstanceAs (Decidable (_ ∧ _))

theorem leading_eq (n : IntegerLiteral) :
    (n.numeral.leading.rest = [] ↔ n.magnitude < significandLimit) ∧
      (n.magnitude < significandLimit → n.numeral.significand = n.magnitude) :=
  gather_all (whole_digits n.isWhole) (by decide) 0

theorem fits_iff (n : IntegerLiteral) : n.Fits ↔
    n.numeral.exponent = [] ∧ n.numeral.fraction = [] ∧ n.numeral.leading.rest = [] ∧
      ¬ (n.negative = true ∧
        (n.numeral.significand = 0 ∨ Nat.pow 2 63 < n.numeral.significand)) := by
  obtain ⟨rest, significand⟩ := n.leading_eq
  have half : Nat.pow 2 63 = 9223372036854775808 := rfl
  have whole : significandLimit = 18446744073709551616 := rfl
  have plain : n.numeral.exponent = [] ∧ n.numeral.fraction = [] := ⟨rfl, rfl⟩
  rw [rest, ← and_assoc, and_iff_right plain, Fits, inWord_iff, toInt, half]
  rw [whole] at significand ⊢
  cases n.negative with
  | false =>
    simp only [Bool.false_eq_true, if_false, false_and, not_false_eq_true, and_true]
    omega
  | true =>
    simp only [if_true, true_and]
    by_cases small : n.magnitude < 18446744073709551616
    · rw [significand small]
      omega
    · omega

theorem value?_integer {n : IntegerLiteral} (fits : n.Fits) :
    n.numeral.value? n.negative = some (.integer n.toInt) := by
  have held := n.fits_iff.1 fits
  rw [Numeral.value?, if_pos held, n.leading_eq.2 (n.leading_eq.1.1 held.2.2.1)]
  rfl

theorem value?_real {n : IntegerLiteral} (wide : ¬ n.Fits) :
    n.numeral.value? n.negative = n.numeral.double?.map (.real n.negative) := by
  rw [Numeral.value?, if_neg (n.fits_iff.not.1 wide)]

theorem write_eq {n : IntegerLiteral} (fits : n.Fits) :
    (Number.integer n.toInt).write = n.text := by
  have digits : n.magnitude.repr.toList = n.digits := by
    rw [Nat.toList_repr]
    exact whole_toDigits n.isWhole
  apply String.toList_injective
  cases sign : n.negative with
  | false =>
    have written : (Number.integer n.toInt).write = n.magnitude.repr := by
      rw [toInt, sign]
      rfl
    rw [written, digits]
    simp [text, sign]
  | true =>
    have positive : n.magnitude ≠ 0 := fun zero => fits.2 ⟨sign, zero⟩
    obtain ⟨k, succ⟩ : ∃ k, n.magnitude = k + 1 := Nat.exists_eq_succ_of_ne_zero positive
    have written : (Number.integer n.toInt).write = "-" ++ n.magnitude.repr := by
      rw [toInt, sign, succ]
      rfl
    rw [written, String.toList_append, digits]
    simp [text, sign]

end IntegerLiteral

/-- Digits alone are never written for a double. -/
theorem real_marked (negative : Bool) (d : Double) :
    '.' ∈ (Number.real negative d).write.toList ∨ 'e' ∈ (Number.real negative d).write.toList := by
  have layout (n : Layout) (s : Scientific) : '.' ∈ n.write s ∨ 'e' ∈ n.write s := by
    unfold Layout.write
    simp only
    split
    · split
      · simp
      · split <;> simp
    · simp
  have marked : '.' ∈ (if d.mantissa = 0 then ['0', '.', '0'] else realLayout.write (shortest d)) ∨
      'e' ∈ (if d.mantissa = 0 then ['0', '.', '0'] else realLayout.write (shortest d)) := by
    split
    · simp
    · exact layout _ _
  simp only [Number.write, String.toList_ofList, List.mem_append]
  rcases marked with point | mark
  · exact .inl (.inr point)
  · exact .inr (.inr mark)

namespace IntegerLiteral

theorem text_unmarked (n : IntegerLiteral) : '.' ∉ n.text.toList ∧ 'e' ∉ n.text.toList := by
  have outside {c : Char} (other : digit? (.char c) = none) (minus : c ≠ '-') :
      c ∉ n.text.toList := by
    have absent : c ∉ n.digits := by
      intro member
      simpa [other] using whole_digits n.isWhole c member
    unfold text
    split <;> simp [minus, absent]
  exact ⟨outside (by decide) (by decide), outside (by decide) (by decide)⟩

theorem written_iff (n : IntegerLiteral) :
    (n.numeral.value? n.negative).map Number.write = some n.text ↔ n.Fits := by
  by_cases fits : n.Fits
  · rw [value?_integer fits, Option.map_some, write_eq fits]
    exact iff_of_true rfl fits
  · refine iff_of_false ?_ fits
    rw [value?_real fits, Option.map_map]
    intro same
    obtain ⟨d, -, text⟩ := Option.map_eq_some_iff.1 same
    have written : (Number.real n.negative d).write = n.text := text
    rcases real_marked n.negative d with point | mark
    · exact n.text_unmarked.1 (written ▸ point)
    · exact n.text_unmarked.2 (written ▸ mark)

theorem signed_eq (n : IntegerLiteral) : signed n.negative n.numeral = ofString n.text := by
  unfold signed text ofString
  split <;> simp [numeral, Numeral.symbols]

def ofInt (i : Int) : IntegerLiteral where
  negative := decide (i < 0)
  digits := Nat.toDigits 10 i.natAbs
  isWhole := toDigits_whole i.natAbs

theorem magnitude_ofInt (i : Int) : (ofInt i).magnitude = i.natAbs :=
  Nat.ofDigitChars_ten_toDigits

theorem toInt_ofInt (i : Int) : (ofInt i).toInt = i := by
  have sign : (ofInt i).negative = decide (i < 0) := rfl
  rw [toInt, magnitude_ofInt, sign]
  simp only [decide_eq_true_eq]
  split <;> omega

theorem fits_ofInt {i : Int} (word : InWord i) : (ofInt i).Fits := by
  refine ⟨(toInt_ofInt i).symm ▸ word, ?_⟩
  rintro ⟨sign, zero⟩
  have below : i < 0 := of_decide_eq_true sign
  rw [magnitude_ofInt] at zero
  omega

end IntegerLiteral

theorem signed_value {a b : Bool} {m n : Numeral} (same : signed a m = signed b n) :
    m.value? a = n.value? b := by
  have noSign (k : Numeral) (rest : List Symbol) : k.symbols ≠ .char '-' :: rest := by
    intro minus
    obtain ⟨s, tail, split, digit⟩ := number_starts ((unsigned_iff _).2 ⟨k, rfl⟩)
    rw [minus] at split
    rw [← (List.cons.inj split).1] at digit
    exact absurd digit (by decide)
  have read (sign : Bool) (symbols : m.symbols = n.symbols) : m.value? sign = n.value? sign := by
    have ends : EndsNumber [] := ⟨rfl, rfl, by simp⟩
    have left := readNumber_numeral sign m ends
    rw [symbols, readNumber_numeral sign n ends] at left
    exact (Option.map_injective (fun v w same => (Prod.mk.inj same).1) left).symm
  cases a with
  | false =>
    cases b with
    | false => exact read false same
    | true => exact absurd same (noSign m _)
  | true =>
    cases b with
    | false => exact absurd same.symm (noSign n _)
    | true => exact read true (List.cons.inj same).2

/-- An integer of a word is read back from its text. -/
theorem integer_read {i : Int} (word : InWord i) {negative : Bool} {numeral : Numeral}
    (written : ofString (Number.integer i).write = signed negative numeral) :
    numeral.value? negative = some (.integer i) := by
  have fits := IntegerLiteral.fits_ofInt word
  have text := IntegerLiteral.write_eq fits
  rw [IntegerLiteral.toInt_ofInt] at text
  rw [text, ← IntegerLiteral.signed_eq] at written
  rw [← signed_value written, IntegerLiteral.value?_integer fits, IntegerLiteral.toInt_ofInt]

end RegoPolicy.Json
