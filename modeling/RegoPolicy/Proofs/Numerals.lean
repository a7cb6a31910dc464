import Mathlib.Tactic.ByContra
import RegoPolicy.Proofs.Lexemes

/-!
What a number stands for, told from its parts and apart from any reader: the significand is what a
word of 64 bits takes of its digits, the power of ten counts the digits that were left out and those
behind the point. Reading a number gives this value wherever the number stands, and whatever is read
as a number is one.
-/
namespace RegoPolicy.Json

open Text Decimal

structure Numeral where
  whole : List Symbol
  fraction : List Symbol
  exponent : List Symbol
  isWhole : Whole whole
  isFraction : Fraction fraction
  isExponent : Exponent exponent

namespace Numeral

def symbols (n : Numeral) : List Symbol := n.whole ++ (n.fraction ++ n.exponent)

def leading (n : Numeral) : Gathered := gather significandLimit 0 0 n.whole

def gathered (n : Numeral) : Gathered :=
  gather significandLimit n.leading.value 0 (n.fraction.drop 1)

def significand (n : Numeral) : Nat := n.gathered.value

def power (n : Numeral) : Int := n.leading.rest.length - n.gathered.count

end Numeral

def exponentParts (marked : List Symbol) : Bool × List Symbol :=
  match marked with
  | .char '+' :: rest => (false, rest)
  | .char '-' :: rest => (true, rest)
  | rest => (false, rest)

/-- The double with a significand and a power of ten, after an exponent is added to the power. An
    exponent that does not fit its word leaves nothing of a number or makes it too large. -/
def scaled? (significand : Nat) (power : Int) (marked : List Symbol) : Option Double :=
  let (shrinks, ds) := exponentParts marked
  let g := gather exponentLimit 0 0 ds
  if g.rest = [] then
    Double.scale? significand (if shrinks then power - g.value else power + g.value)
  else if significand ≠ 0 ∧ ¬ shrinks then none
  else some .zero

def Numeral.double? (n : Numeral) : Option Double :=
  if n.exponent = [] then Double.scale? n.significand n.power
  else scaled? n.significand n.power (n.exponent.drop 1)

/-- Digits alone that fit a word stay an integer, everything else is a double. -/
def Numeral.value? (n : Numeral) (negative : Bool) : Option Number :=
  if n.exponent = [] ∧ n.fraction = [] ∧ n.leading.rest = [] ∧
      ¬ (negative = true ∧ (n.significand = 0 ∨ Nat.pow 2 63 < n.significand)) then
    some (.integer (if negative then -(n.significand : Int) else n.significand))
  else n.double?.map (.real negative)

theorem unsigned_iff (s : List Symbol) : Unsigned s ↔ ∃ n : Numeral, s = n.symbols := by
  constructor
  · rintro ⟨whole, fraction, exponent⟩
    exact ⟨⟨_, _, _, whole, fraction, exponent⟩, rfl⟩
  · rintro ⟨n, rfl⟩
    exact .parts n.isWhole n.isFraction n.isExponent

section Gathering

variable {limit value count : Nat} {ds : List Symbol}

theorem gather_append (digits : ∀ s ∈ ds, (digit? s).isSome = true) {rest : List Symbol}
    (stop : startsWithDigit rest = false) :
    gather limit value count (ds ++ rest) =
      ⟨(gather limit value count ds).value, (gather limit value count ds).count,
        (gather limit value count ds).rest ++ rest⟩ := by
  induction ds generalizing value count with
  | nil =>
    cases rest with
    | nil => rfl
    | cons s rest =>
      have other : digit? s = none := by simpa [startsWithDigit] using stop
      simp [gather, other]
  | cons s ds ih =>
    obtain ⟨d, known⟩ := Option.isSome_iff_exists.1 (digits s List.mem_cons_self)
    have more := fun t member => digits t (List.mem_cons_of_mem s member)
    simp only [List.cons_append, gather, known]
    split
    · exact ih more
    · rfl

theorem gather_rest_digits (limit value count : Nat)
    (digits : ∀ s ∈ ds, (digit? s).isSome = true) :
    ∀ s ∈ (gather limit value count ds).rest, (digit? s).isSome = true := by
  induction ds generalizing value count with
  | nil => simp [gather]
  | cons s ds ih =>
    obtain ⟨d, known⟩ := Option.isSome_iff_exists.1 (digits s List.mem_cons_self)
    have more := fun t member => digits t (List.mem_cons_of_mem s member)
    simp only [gather, known]
    split
    · exact ih _ _ more
    · exact digits

theorem gather_count (other : Nat) :
    (gather limit value count ds).value = (gather limit value other ds).value ∧
      (gather limit value count ds).rest = (gather limit value other ds).rest := by
  induction ds generalizing value count other with
  | nil => simp [gather]
  | cons s ds ih =>
    cases known : digit? s with
    | none => simp [gather, known]
    | some d =>
      simp only [gather, known]
      split
      · exact ih (other + 1)
      · simp

theorem gather_first {s : Symbol} {d : Nat} (known : digit? s = some d) (fits : d < limit)
    (ds : List Symbol) :
    (gather limit 0 0 (s :: ds)).value = (gather limit d 0 ds).value ∧
      (gather limit 0 0 (s :: ds)).rest = (gather limit d 0 ds).rest := by
  have start : gather limit 0 0 (s :: ds) = gather limit d 1 ds := by
    simp [gather, known, fits]
  rw [start]
  exact gather_count 0

theorem digit_lt {s : Symbol} {d : Nat} (known : digit? s = some d) : d < 10 := by
  cases s with
  | stray b => simp [digit?] at known
  | char c =>
    simp only [digit?] at known
    split at known
    · rename_i bounds
      have upper : c.toNat ≤ '9'.toNat := bounds.2
      have nine : '9'.toNat = 57 := rfl
      have zero : '0'.toNat = 48 := rfl
      have same := Option.some.inj known
      omega
    · cases known

theorem gather_progress (digits : Digits ds) (stop : (gather limit value 0 ds).count = 0) :
    startsWithDigit (gather limit value 0 ds).rest = true := by
  have monotone : ∀ (ds : List Symbol) (value count : Nat),
      count ≤ (gather limit value count ds).count := by
    intro ds
    induction ds with
    | nil => simp [gather]
    | cons s ds ih =>
      intro value count
      cases known : digit? s with
      | none => simp [gather, known]
      | some d =>
        simp only [gather, known]
        split
        · exact Nat.le_trans (Nat.le_succ count) (ih _ _)
        · exact Nat.le_refl count
  obtain ⟨nonempty, all⟩ := digits
  cases ds with
  | nil => exact absurd rfl nonempty
  | cons s ds =>
    obtain ⟨d, known⟩ := Option.isSome_iff_exists.1 (all s List.mem_cons_self)
    simp only [gather, known] at stop ⊢
    split at stop
    · have more := monotone ds (value * 10 + d) (0 + 1)
      omega
    · rename_i full
      simp [full, startsWithDigit, known]

theorem skipDigits_gather (input : List Symbol) :
    skipDigits (gather limit value count input).rest = skipDigits input := by
  induction input generalizing value count with
  | nil => rfl
  | cons s input ih =>
    cases known : digit? s with
    | none => simp [gather, known]
    | some d =>
      simp only [gather, known]
      split
      · rw [ih]
        simp [skipDigits, known]
      · rfl

theorem countDigits_append (digits : ∀ s ∈ ds, (digit? s).isSome = true) {rest : List Symbol}
    (stop : startsWithDigit rest = false) : countDigits (ds ++ rest) = ds.length := by
  induction ds with
  | nil =>
    cases rest with
    | nil => rfl
    | cons s rest =>
      have other : (digit? s).isSome = false := stop
      simp [countDigits, other]
  | cons s ds ih =>
    have here := digits s List.mem_cons_self
    have there := ih fun t member => digits t (List.mem_cons_of_mem s member)
    simp only [countDigits, List.cons_append] at there ⊢
    simp [here, there]

end Gathering

section Reading

variable {negative : Bool} {significand : Nat} {e : Int} {rest : List Symbol}

theorem finishReal_toOption :
    (finishReal negative significand e rest).toOption =
      (Double.scale? significand e).map fun d => (.real negative d, rest) := by
  unfold finishReal
  cases Double.scale? significand e <;> rfl

theorem exponentParts_append {sign ds : List Symbol} (signed : Sign sign) (digits : Digits ds)
    (rest : List Symbol) :
    exponentParts (sign ++ (ds ++ rest)) =
      ((exponentParts (sign ++ ds)).1, (exponentParts (sign ++ ds)).2 ++ rest) ∧
    (exponentParts (sign ++ ds)).2 = ds := by
  have unsigned (tail : List Symbol) : exponentParts (ds ++ tail) = (false, ds ++ tail) := by
    have starts := starts_of_digits digits tail
    unfold exponentParts
    split
    · rename_i equal
      rw [equal] at starts
      simp [startsWithDigit, digit?] at starts
    · rename_i equal
      rw [equal] at starts
      simp [startsWithDigit, digit?] at starts
    · rfl
  cases signed with
  | plus => simp [exponentParts]
  | minus => simp [exponentParts]
  | none =>
    have alone := unsigned []
    rw [List.append_nil] at alone
    simp [unsigned, alone]

theorem readExponent_parts {input ds : List Symbol} {s : Symbol} {d : Nat} {shrinks : Bool}
    (parts : exponentParts input = (shrinks, s :: ds)) (known : digit? s = some d) :
    readExponent negative significand e input =
      if startsWithDigit (gather exponentLimit d 0 ds).rest then
        if significand ≠ 0 ∧ ¬ shrinks then
          .error (.next .numberOutOfRange (gather exponentLimit d 0 ds).rest)
        else .ok (.real negative .zero, skipDigits (gather exponentLimit d 0 ds).rest)
      else
        finishReal negative significand
          (if shrinks then e - (gather exponentLimit d 0 ds).value
            else e + (gather exponentLimit d 0 ds).value) (gather exponentLimit d 0 ds).rest := by
  unfold exponentParts at parts
  unfold readExponent
  split at parts <;> cases parts
  · simp [known]
  · simp [known]
  · simp [known]

theorem readExponent_scaled (negative : Bool) (significand : Nat) (e : Int)
    {sign ds : List Symbol} (signed : Sign sign) (digits : Digits ds)
    (stop : startsWithDigit rest = false) :
    (readExponent negative significand e (sign ++ (ds ++ rest))).toOption =
      (scaled? significand e (sign ++ ds)).map fun d => (.real negative d, rest) := by
  obtain ⟨parts, alone⟩ := exponentParts_append signed digits rest
  rw [alone] at parts
  obtain ⟨nonempty, all⟩ := digits
  cases ds with
  | nil => exact absurd rfl nonempty
  | cons s ds =>
    obtain ⟨d, known⟩ := Option.isSome_iff_exists.1 (all s List.mem_cons_self)
    have more := fun t member => all t (List.mem_cons_of_mem s member)
    have fits : d < exponentLimit := Nat.lt_trans (digit_lt known) (by decide)
    have first := gather_first known fits ds
    have left := gather_rest_digits exponentLimit d 0 more
    rw [List.cons_append] at parts ⊢
    rw [readExponent_parts parts known, gather_append more stop]
    simp only [scaled?, alone, first]
    cases dropped : (gather exponentLimit d 0 ds).rest with
    | nil => simp [stop, finishReal_toOption]
    | cons t tail =>
      rw [dropped] at left
      have starts : startsWithDigit (t :: tail ++ rest) = true := left t List.mem_cons_self
      have passed := skipDigits_append left stop
      rw [if_pos starts, passed, if_neg (by simp : ¬ (t :: tail = []))]
      split <;> rfl

theorem readScale_exponent {x : List Symbol} (exponent : Exponent x) (ends : EndsNumber rest) :
    (readScale negative significand e (x ++ rest)).toOption =
      (if x = [] then Double.scale? significand e
        else scaled? significand e (x.drop 1)).map fun d => (.real negative d, rest) := by
  cases exponent with
  | none => simp [readScale, ends.2.1, finishReal_toOption]
  | @some s sign ds mark signed digits =>
    have marked : startsExponent (s :: (sign ++ ds) ++ rest) = true := by
      simpa [startsExponent] using mark
    have read := readExponent_scaled negative significand e signed digits ends.1
    rw [readScale, if_pos marked]
    simpa using read

theorem readFraction_scaled (negative : Bool) (significand : Nat) (dropped : Int)
    {ds x : List Symbol} (digits : Digits ds) (exponent : Exponent x) (ends : EndsNumber rest) :
    (readFraction negative significand dropped (ds ++ (x ++ rest))).toOption =
      (readScale negative (gather significandLimit significand 0 ds).value
        (dropped - (gather significandLimit significand 0 ds).count) (x ++ rest)).toOption := by
  have stop := exponent_stops_digits exponent ends
  have left := gather_rest_digits significandLimit significand 0 digits.2
  have passed := skipDigits_append left stop
  have some : ¬ ((gather significandLimit significand 0 ds).count = 0 ∧
      ¬ startsWithDigit ((gather significandLimit significand 0 ds).rest ++ (x ++ rest))) := by
    rintro ⟨none, unmarked⟩
    have starts := gather_progress digits none
    cases front : (gather significandLimit significand 0 ds).rest with
    | nil => simp [front, startsWithDigit] at starts
    | cons s tail =>
      rw [front] at unmarked starts
      exact unmarked starts
  simp only [readFraction]
  rw [gather_append digits.2 stop, if_neg some, passed]

theorem readNumber_whole {w : List Symbol} (whole : Whole w) (stop : startsWithDigit rest = false) :
    readNumber negative (w ++ rest) =
      readTail negative (gather significandLimit 0 0 w).value
        (gather significandLimit 0 0 w).rest.length rest := by
  cases whole with
  | zero s value => simp [readNumber, value, stop, gather, significandLimit]
  | digits s more d value positive all =>
    have fits : d < significandLimit := Nat.lt_trans (digit_lt value) (by decide)
    have first := gather_first value fits more
    have left := gather_rest_digits significandLimit d 0 all
    rw [first.1, first.2]
    simp only [List.cons_append, readNumber, value]
    rw [gather_append all stop, countDigits_append left stop, skipDigits_append left stop]

theorem finishInteger_toOption :
    (finishInteger negative significand rest).toOption =
      (if ¬ (negative = true ∧ (significand = 0 ∨ Nat.pow 2 63 < significand)) then
        some (.integer (if negative then -(significand : Int) else significand))
      else (Double.scale? significand 0).map (.real negative)).map fun n => (n, rest) := by
  cases negative with
  | false => simp [finishInteger, Except.toOption]
  | true =>
    by_cases wide : significand = 0 ∨ Nat.pow 2 63 < significand
    · simp [finishInteger, wide, finishReal_toOption, Option.map_map]
      rfl
    · simp [finishInteger, wide, Except.toOption]

theorem readTail_pointless {x : List Symbol} (exponent : Exponent x) (ends : EndsNumber rest)
    (dropped : Nat) :
    readTail negative significand dropped (x ++ rest) =
      if x = [] ∧ dropped = 0 then finishInteger negative significand rest
      else readScale negative significand dropped (x ++ rest) := by
  have pointless : (x ++ rest).head? ≠ some (.char '.') := by
    cases exponent with
    | none => exact ends.2.2
    | some mark signed digits => rcases mark with rfl | rfl <;> simp
  unfold readTail
  split
  · simp_all
  · cases exponent with
    | none =>
      by_cases fits : dropped = 0
      · simp [ends.2.1, fits]
      · simp [ends.2.1, fits, readScale]
    | @some s sign ds mark signed digits =>
      have marked : startsExponent (s :: (sign ++ ds) ++ rest) = true := by
        simpa [startsExponent] using mark
      rw [if_pos marked, if_neg (by simp), readScale, if_pos marked]

/-- A number is read as what it stands for, whatever follows that does not go on with it. -/
theorem readNumber_numeral (negative : Bool) (n : Numeral) (ends : EndsNumber rest) :
    (readNumber negative (n.symbols ++ rest)).toOption =
      (n.value? negative).map fun v => (v, rest) := by
  have stop := tail_stops_digits n.isFraction n.isExponent ends
  have whole : readNumber negative (n.symbols ++ rest) =
      readTail negative n.leading.value n.leading.rest.length
        (n.fraction ++ (n.exponent ++ rest)) := by
    simpa [Numeral.symbols, Numeral.leading] using readNumber_whole n.isWhole stop
  rw [whole]
  have point := n.isFraction
  cases split : n.fraction with
  | nil =>
    have alone : n.gathered = ⟨n.leading.value, 0, []⟩ := by simp [Numeral.gathered, split, gather]
    rw [List.nil_append, readTail_pointless n.isExponent ends]
    by_cases integer : n.exponent = [] ∧ n.leading.rest.length = 0
    · obtain ⟨plain, fits⟩ := integer
      rw [if_pos ⟨plain, fits⟩, finishInteger_toOption]
      simp [Numeral.value?, split, plain, Numeral.double?, Numeral.significand, Numeral.power,
        alone, List.length_eq_zero_iff.1 fits]
    · have real : ¬ (n.exponent = [] ∧ n.leading.rest = [] ∧
          ¬ (negative = true ∧ (n.significand = 0 ∨ Nat.pow 2 63 < n.significand))) := by
        rintro ⟨plain, fits, -⟩
        exact integer ⟨plain, by rw [fits]; rfl⟩
      rw [if_neg integer, readScale_exponent n.isExponent ends]
      simp only [Numeral.value?, split, true_and, if_neg real]
      simp [Numeral.double?, Numeral.significand, Numeral.power, alone, Option.map_map]
      rfl
  | cons s ds =>
    rw [split] at point
    cases point with
    | some digits =>
      have read := readFraction_scaled negative n.leading.value n.leading.rest.length digits
        n.isExponent ends
      rw [readScale_exponent n.isExponent ends] at read
      simp [readTail, read, Numeral.value?, split, Numeral.double?, Numeral.significand,
        Numeral.gathered, Numeral.power, Option.map_map]
      rfl

end Reading

section Scanning

variable {negative : Bool} {significand : Nat} {e : Int} {v : Number} {input rest : List Symbol}

theorem skipDigits_stop (stop : startsWithDigit input = false) : skipDigits input = input := by
  simpa using @skipDigits_append [] input (by simp) stop

theorem finishReal_rest (read : finishReal negative significand e input = .ok (v, rest)) :
    rest = input := by
  unfold finishReal at read
  split at read
  · cases read
    rfl
  · cases read

theorem scanExponent_parts :
    scanExponent input =
      if startsWithDigit (exponentParts input).2 then .ok (skipDigits (exponentParts input).2)
      else .error (.next .invalidNumber (exponentParts input).2) := by
  unfold scanExponent exponentParts
  split <;> simp

theorem readExponent_starts (read : readExponent negative significand e input = .ok (v, rest)) :
    ∃ s ds d, (exponentParts input).2 = s :: ds ∧ digit? s = some d := by
  cases front : (exponentParts input).2 with
  | nil =>
    unfold exponentParts at front
    unfold readExponent at read
    split at front <;> simp_all
  | cons s ds =>
    cases known : digit? s with
    | none =>
      unfold exponentParts at front
      unfold readExponent at read
      split at front <;> simp_all
    | some d => exact ⟨s, ds, d, rfl, known⟩

theorem readExponent_scans (read : readExponent negative significand e input = .ok (v, rest)) :
    scanExponent input = .ok rest := by
  obtain ⟨s, ds, d, parts, known⟩ := readExponent_starts read
  have pair : exponentParts input = ((exponentParts input).1, s :: ds) := Prod.ext rfl parts
  have starts : startsWithDigit (s :: ds) = true := by simp [startsWithDigit, known]
  have passed : skipDigits (s :: ds) = skipDigits (gather exponentLimit d 0 ds).rest := by
    rw [skipDigits_gather]
    simp [skipDigits, known]
  rw [readExponent_parts pair known] at read
  rw [scanExponent_parts, parts, if_pos starts, passed]
  split at read
  · split at read
    · cases read
    · cases read
      rfl
  · rename_i stop
    rw [finishReal_rest read, skipDigits_stop (by simpa using stop)]

theorem readScale_scans (read : readScale negative significand e input = .ok (v, rest)) :
    (if startsExponent input then scanExponent (input.drop 1) else .ok input) =
      (.ok rest : Except Fault (List Symbol)) := by
  unfold readScale at read
  by_cases marked : startsExponent input = true
  · rw [if_pos marked] at read ⊢
    exact readExponent_scans read
  · rw [if_neg marked] at read ⊢
    rw [finishReal_rest read]

theorem readFraction_scans (read : readFraction negative significand e input = .ok (v, rest)) :
    scanTail (.char '.' :: input) = .ok rest := by
  simp only [readFraction] at read
  split at read
  · split at read <;> cases read
  · rename_i some
    have starts : startsWithDigit input = true := by
      by_contra none
      have stop : startsWithDigit input = false := by simpa using none
      have empty := @gather_append significandLimit significand 0 [] (by simp) input stop
      rw [List.nil_append] at empty
      rw [empty] at some
      exact some ⟨rfl, by simpa [gather] using stop⟩
    have scans := readScale_scans read
    rw [skipDigits_gather] at scans
    simpa [scanTail, starts] using scans

theorem finishInteger_rest (read : finishInteger negative significand input = .ok (v, rest)) :
    rest = input := by
  unfold finishInteger at read
  split at read
  · cases read
    rfl
  · split at read
    · exact finishReal_rest read
    · cases read
      rfl

theorem readTail_scans {dropped : Nat}
    (read : readTail negative significand dropped input = .ok (v, rest)) :
    scanTail input = .ok rest := by
  unfold readTail at read
  split at read
  · exact readFraction_scans read
  · rename_i pointless
    have scans : (if startsExponent input then scanExponent (input.drop 1) else .ok input) =
        (.ok rest : Except Fault (List Symbol)) := by
      by_cases marked : startsExponent input = true
      · rw [if_pos marked] at read ⊢
        exact readExponent_scans read
      · rw [if_neg marked] at read ⊢
        split at read
        · rw [finishInteger_rest read]
        · rw [finishReal_rest read]
    unfold scanTail
    split
    · exact absurd rfl (pointless _)
    · exact scans

theorem readNumber_scans (read : readNumber negative input = .ok (v, rest)) :
    scanNumber input = .ok rest := by
  cases input with
  | nil => cases read
  | cons s tail =>
    cases known : digit? s with
    | none => simp [readNumber, known] at read
    | some d =>
      by_cases zero : d = 0
      · subst zero
        simp only [readNumber, known] at read
        simp only [scanNumber, known]
        split at read
        · cases read
        · rename_i stop
          rw [if_neg stop]
          exact readTail_scans read
      · simp only [readNumber, known] at read
        have scans := readTail_scans read
        rw [skipDigits_gather] at scans
        simpa [scanNumber, known] using scans

theorem readNumber_sound (read : readNumber negative input = .ok (v, rest)) :
    ∃ n : Numeral, input = n.symbols ++ rest := by
  obtain ⟨s, number, split⟩ := scanNumber_sound (readNumber_scans read)
  obtain ⟨n, rfl⟩ := (unsigned_iff s).1 number
  exact ⟨n, split⟩

end Scanning

end RegoPolicy.Json
