import RegoPolicy.Json.Value
import RegoPolicy.Proofs.Numerals

/-!
Written numbers are numbers of the grammar. The digits of a double are those of a coefficient that
is not zero, so no superfluous zero stands in front of them.
-/
namespace RegoPolicy.Json

open Text Decimal

theorem digit?_digitChar {d : Nat} (least : d < 10) : digit? (.char d.digitChar) = some d := by
  have each : ∀ d < 10, digit? (.char (Nat.digitChar d)) = some d := by decide
  exact each d least

theorem toDigits_digits (n : Nat) :
    ∀ s ∈ (Nat.toDigits 10 n).map Symbol.char, (digit? s).isSome = true := by
  induction n using Nat.strongRecOn with
  | ind n ih =>
    rw [Nat.toDigits_eq_if (by decide)]
    split
    · rename_i least
      simp [digit?_digitChar least]
    · have last := digit?_digitChar (Nat.mod_lt n (by decide : 0 < 10))
      have smaller : n / 10 < n := Nat.div_lt_self (by omega) (by decide)
      intro s member
      rw [List.map_append, List.mem_append] at member
      rcases member with front | back
      · exact ih (n / 10) smaller s front
      · obtain rfl := List.mem_singleton.1 back
        simp [last]

theorem toDigits_leading {n : Nat} (positive : n ≠ 0) :
    ∃ c cs d, Nat.toDigits 10 n = c :: cs ∧ digit? (.char c) = some d ∧ d ≠ 0 := by
  induction n using Nat.strongRecOn with
  | ind n ih =>
    rw [Nat.toDigits_eq_if (by decide)]
    split
    · rename_i least
      exact ⟨_, [], n, rfl, digit?_digitChar least, positive⟩
    · have smaller : n / 10 < n := Nat.div_lt_self (by omega) (by decide)
      obtain ⟨c, cs, d, digits, known, nonzero⟩ := ih (n / 10) smaller (by omega)
      exact ⟨c, cs ++ [(n % 10).digitChar], d, by rw [digits]; rfl, known, nonzero⟩

theorem toDigits_are_digits (n : Nat) : Digits ((Nat.toDigits 10 n).map .char) :=
  ⟨by simp [Nat.toDigits_ne_nil], toDigits_digits n⟩

theorem toDigits_whole (n : Nat) : Whole ((Nat.toDigits 10 n).map .char) := by
  by_cases zero : n = 0
  · subst zero
    exact .zero _ rfl
  · obtain ⟨c, cs, d, digits, known, nonzero⟩ := toDigits_leading zero
    have all := toDigits_digits n
    rw [digits] at all ⊢
    exact .digits _ _ d known nonzero fun s member => all s (List.mem_cons_of_mem _ member)

theorem zeros_digits (n : Nat) : ∀ s ∈ (zeros n).map Symbol.char, (digit? s).isSome = true := by
  intro s member
  simp only [zeros, List.map_replicate, List.mem_replicate] at member
  obtain ⟨-, rfl⟩ := member
  decide

theorem whole_append {n : Nat} (positive : n ≠ 0) {k : Nat} (some : k ≠ 0) {more : List Symbol}
    (digits : ∀ s ∈ more, (digit? s).isSome = true) :
    Whole (((Nat.toDigits 10 n).take k).map .char ++ more) := by
  obtain ⟨c, cs, d, split, known, nonzero⟩ := toDigits_leading positive
  have all := toDigits_digits n
  obtain ⟨j, rfl⟩ : ∃ j, k = j + 1 := ⟨k - 1, by omega⟩
  rw [split] at all ⊢
  refine .digits _ _ d known nonzero ?_
  intro s member
  rcases List.mem_append.1 member with front | back
  · obtain ⟨x, inside, rfl⟩ := List.mem_map.1 front
    exact all _ (List.mem_map_of_mem (List.mem_cons_of_mem _ (List.mem_of_mem_take inside)))
  · exact digits s back

theorem drop_digits (n k : Nat) :
    ∀ s ∈ ((Nat.toDigits 10 n).drop k).map Symbol.char, (digit? s).isSome = true := by
  intro s member
  obtain ⟨x, inside, rfl⟩ := List.mem_map.1 member
  exact toDigits_digits n _ (List.mem_map_of_mem (List.mem_of_mem_drop inside))

/-- Every layout of a coefficient that is not zero is a number. -/
theorem layout_unsigned (layout : Layout) {s : Scientific} (positive : s.coefficient ≠ 0) :
    Unsigned ((layout.write s).map .char) := by
  have none : ∀ s ∈ ([] : List Symbol), (digit? s).isSome = true := by simp
  have length : (Nat.toDigits 10 s.coefficient).length ≠ 0 := by simp [Nat.toDigits_ne_nil]
  simp only [Layout.write]
  generalize s.exponent + (Nat.toDigits 10 s.coefficient).length - 1 = place
  split
  · split
    · have digits : Digits ((zeros ((-place).toNat - 1)).map .char ++
          (Nat.toDigits 10 s.coefficient).map .char) := by
        refine ⟨by simp [Nat.toDigits_ne_nil], ?_⟩
        intro x member
        rcases List.mem_append.1 member with front | back
        · exact zeros_digits _ x front
        · exact toDigits_digits _ x back
      simpa using Unsigned.parts (.zero (.char '0') rfl) (.some digits) .none
    · split
      · have whole := whole_append positive length (zeros_digits
          (place.toNat + 1 - (Nat.toDigits 10 s.coefficient).length))
        have zero : Digits [.char '0'] := ⟨by simp, by simp [digit?]⟩
        simpa using Unsigned.parts whole (.some zero) .none
      · rename_i more
        have whole := whole_append positive (Nat.succ_ne_zero place.toNat) none
        have digits :
            Digits (((Nat.toDigits 10 s.coefficient).drop (place.toNat + 1)).map .char) := by
          refine ⟨?_, drop_digits _ _⟩
          simp only [ne_eq, List.map_eq_nil_iff, List.drop_eq_nil_iff]
          omega
        simpa using Unsigned.parts whole (.some digits) .none
  · have whole := whole_append positive Nat.one_ne_zero none
    have exponent : Exponent (.char 'e' :: ([.char (if place < 0 then '-' else '+')] ++
        (Nat.toDigits 10 place.natAbs).map .char)) := by
      refine .some (.inl rfl) ?_ (toDigits_are_digits _)
      split
      · exact .minus
      · exact .plus
    have fraction : Fraction ((if (Nat.toDigits 10 s.coefficient).length = 1 then []
        else '.' :: (Nat.toDigits 10 s.coefficient).drop 1).map .char) := by
      split
      · exact .none
      · refine .some ⟨?_, drop_digits _ 1⟩
        simp only [ne_eq, List.map_eq_nil_iff, List.drop_eq_nil_iff]
        omega
    simpa using Unsigned.parts whole fraction exponent

theorem ratio_positive {base : Nat} (positive : 0 < base) (e : Int) :
    0 < (Double.ratio base e).1 ∧ 0 < (Double.ratio base e).2 :=
  ⟨Nat.pow_pos positive, Nat.pow_pos positive⟩

theorem interval_excludes_zero {d : Double} (positive : d.mantissa ≠ 0) {unit : Nat}
    (scaled : 0 < unit) (step : Nat) : d.interval.holds unit step 0 = false := by
  have low : 0 < d.interval.low := by
    simp only [Double.interval]
    split <;> omega
  have above : 0 < d.interval.low * unit := Nat.mul_pos low scaled
  simp only [Interval.holds, Nat.zero_mul]
  split
  · simp only [Bool.and_eq_false_iff, decide_eq_false_iff_not]
    omega
  · simp

theorem hit_positive {d : Double} (positive : d.mantissa ≠ 0) {unit step c : Nat}
    (scaled : 0 < unit) (hit : d.interval.hit? unit step = some c) : c ≠ 0 := by
  have zero := interval_excludes_zero positive scaled step
  intro none
  subst none
  simp only [Interval.hit?] at hit
  generalize d.interval.value * unit / step = below at hit
  have held : below = 0 → d.interval.holds unit step below = false := by
    intro empty
    rw [empty, zero]
  split at hit
  · cases hit
  · simp_all
  · simp_all
  · split at hit
    · simp_all
    · split at hit
      · simp_all
      · split at hit <;> simp_all

theorem shortestFrom_positive {d : Double} (positive : d.mantissa ≠ 0) (leading : Int)
    (tries digits : Nat) : (shortestFrom d leading tries digits).coefficient ≠ 0 := by
  induction tries generalizing digits with
  | zero => exact positive
  | succ tries ih =>
    have two := ratio_positive (by decide : 0 < 2) (d.exponent - 2)
    have ten := ratio_positive (by decide : 0 < 10) (leading - digits + 1)
    simp only [shortestFrom]
    split
    · rename_i hit
      exact hit_positive positive (Nat.mul_pos two.1 ten.2) hit
    · exact ih (digits + 1)

theorem dropZeros_positive {n : Nat} {s : Scientific} (positive : s.coefficient ≠ 0) :
    (dropZeros n s).coefficient ≠ 0 := by
  induction n generalizing s with
  | zero => exact positive
  | succ n ih =>
    simp only [dropZeros]
    split
    · rename_i tenfold
      apply ih
      show s.coefficient / 10 ≠ 0
      omega
    · exact positive

theorem shortest_positive {d : Double} (positive : d.mantissa ≠ 0) :
    (shortest d).coefficient ≠ 0 :=
  dropZeros_positive (shortestFrom_positive positive _ _ _)

def signed (negative : Bool) (n : Numeral) : List Symbol :=
  if negative then .char '-' :: n.symbols else n.symbols

theorem write_numeral (n : Number) :
    ∃ negative numeral, ofString n.write = signed negative numeral := by
  cases n with
  | integer i =>
    have digits (k : Nat) : ∃ numeral : Numeral, (Nat.toDigits 10 k).map .char = numeral.symbols :=
      (unsigned_iff _).1 (by simpa using Unsigned.parts (toDigits_whole k) .none .none)
    cases i with
    | ofNat k =>
      obtain ⟨numeral, text⟩ := digits k
      have written : (Number.integer (.ofNat k)).write = k.repr := rfl
      exact ⟨false, numeral, by rw [ofString, written, Nat.toList_repr, text]; rfl⟩
    | negSucc k =>
      obtain ⟨numeral, text⟩ := digits (k + 1)
      have written : (Number.integer (.negSucc k)).write = "-" ++ (k + 1).repr := rfl
      refine ⟨true, numeral, ?_⟩
      rw [ofString, written, String.toList_append, Nat.toList_repr, List.map_append, text]
      rfl
  | real negative d =>
    have digits : ∃ numeral : Numeral, (if d.mantissa = 0 then ['0', '.', '0']
        else realLayout.write (shortest d)).map .char = numeral.symbols := by
      apply (unsigned_iff _).1
      split
      · have zero : Digits [.char '0'] := ⟨by simp, by simp [digit?]⟩
        simpa using Unsigned.parts (.zero (.char '0') rfl) (.some zero) .none
      · rename_i positive
        exact layout_unsigned realLayout (shortest_positive positive)
    obtain ⟨numeral, text⟩ := digits
    refine ⟨negative, numeral, ?_⟩
    cases negative <;> simp [Number.write, ofString, signed, ← text]

end RegoPolicy.Json
