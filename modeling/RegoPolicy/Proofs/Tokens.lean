import RegoPolicy.Json.Value
import RegoPolicy.Proofs.Grammar

/-!
JSON texts as runs of tokens. A line feed stands between tokens and never inside one, no token
starts as `default` does, none ends as the word `if` does, and an equals sign stands in quotes.
-/
namespace RegoPolicy.Json

open Text

def chars (input : List Symbol) : List Char := input.filterMap Symbol.char?

@[simp] theorem chars_nil : chars [] = [] := rfl

@[simp] theorem chars_char (c : Char) (rest : List Symbol) :
    chars (.char c :: rest) = c :: chars rest := rfl

@[simp] theorem chars_stray (b : UInt8) (rest : List Symbol) :
    chars (.stray b :: rest) = chars rest := rfl

@[simp] theorem chars_append (a b : List Symbol) : chars (a ++ b) = chars a ++ chars b :=
  List.filterMap_append

@[simp] theorem chars_ofString (s : String) : chars (ofString s) = s.toList := by
  rw [chars, ofString, List.filterMap_map]
  exact List.filterMap_some

structure Token (t : List Char) : Prop where
  start : ∃ c rest, t = c :: rest ∧ c ≠ 'd'
  stop : ∃ front c, t = front ++ [c] ∧ c ≠ 'f' ∧ (c = ' ' ∨ c = '{' → front = [])
  line : t = ['\n'] ∨ '\n' ∉ t
  equals : '=' ∈ t → ∃ rest, t = '"' :: rest

inductive Run : List Char → Prop where
  | nil : Run []
  | cons {t rest : List Char} (token : Token t) (tail : Run rest) : Run (t ++ rest)

theorem Run.append {a b : List Char} (left : Run a) (right : Run b) : Run (a ++ b) := by
  induction left with
  | nil => exact right
  | cons token tail ih =>
    rw [List.append_assoc]
    exact .cons token ih

theorem Run.token {t : List Char} (token : Token t) : Run t := by
  simpa using Run.cons token .nil

def isSingle (c : Char) : Bool := c ≠ 'd' && c ≠ 'f' && c ≠ '='

theorem token_single {c : Char} (single : isSingle c = true) : Token [c] := by
  simp only [isSingle, Bool.and_eq_true, decide_eq_true_eq] at single
  obtain ⟨⟨notD, notF⟩, notEquals⟩ := single
  refine ⟨⟨c, [], rfl, notD⟩, ⟨[], c, rfl, notF, fun _ => rfl⟩, ?_, ?_⟩
  · by_cases feed : c = '\n'
    · exact .inl (by rw [feed])
    · exact .inr (by simpa using Ne.symm feed)
  · intro member
    exact absurd (List.mem_singleton.1 member).symm notEquals

theorem run_of_singles {cs : List Char} (each : cs.all isSingle = true) : Run cs := by
  induction cs with
  | nil => exact .nil
  | cons c cs ih =>
    rw [List.all_cons, Bool.and_eq_true] at each
    exact .cons (token_single each.1) (ih each.2)

theorem run_of_kind {kind : Symbol → Bool} {input : List Symbol}
    (each : ∀ s ∈ input, kind s = true) (notD : kind (.char 'd') = false)
    (notF : kind (.char 'f') = false) (notEquals : kind (.char '=') = false) :
    Run (chars input) := by
  refine run_of_singles (List.all_eq_true.2 fun c member => ?_)
  obtain ⟨s, inside, found⟩ := List.mem_filterMap.1 member
  have here := each s inside
  cases s with
  | stray b => cases found
  | char d =>
    cases found
    simp only [isSingle, Bool.and_eq_true, decide_eq_true_eq]
    refine ⟨⟨?_, ?_⟩, ?_⟩
    · rintro rfl
      rw [notD] at here
      cases here
    · rintro rfl
      rw [notF] at here
      cases here
    · rintro rfl
      rw [notEquals] at here
      cases here

theorem token_quoted {cs : List Char} (flat : '\n' ∉ cs) : Token ('"' :: (cs ++ ['"'])) := by
  refine ⟨⟨_, _, rfl, by decide⟩, ⟨'"' :: cs, '"', rfl, by decide, by simp⟩, .inr ?_, ?_⟩
  · simp [flat]
  · exact fun _ => ⟨_, rfl⟩

theorem space_run {space : List Symbol} (blank : Blank space) : Run (chars space) :=
  run_of_kind blank (by decide) (by decide) (by decide)

theorem digits_run {ds : List Symbol} (digits : ∀ s ∈ ds, (digit? s).isSome = true) :
    Run (chars ds) :=
  run_of_kind digits (by decide) (by decide) (by decide)

theorem whole_run {w : List Symbol} (whole : Whole w) : Run (chars w) := by
  refine digits_run fun s member => ?_
  cases whole with
  | zero t value => simp_all
  | digits t rest d value positive more =>
    rcases List.mem_cons.1 member with rfl | later
    · simp [value]
    · exact more s later

theorem fraction_run {f : List Symbol} (fraction : Fraction f) : Run (chars f) := by
  cases fraction with
  | none => exact .nil
  | some digits => exact .cons (token_single (by decide)) (digits_run digits.2)

theorem sign_run {sign : List Symbol} (signed : Sign sign) : Run (chars sign) := by
  cases signed with
  | none => exact .nil
  | plus => exact run_of_singles (by decide)
  | minus => exact run_of_singles (by decide)

theorem exponent_run {e : List Symbol} (exponent : Exponent e) : Run (chars e) := by
  cases exponent with
  | none => exact .nil
  | some mark signed digits =>
    have tail := (sign_run signed).append (digits_run digits.2)
    rcases mark with rfl | rfl
    · simpa using Run.cons (token_single (by decide)) tail
    · simpa using Run.cons (token_single (by decide)) tail

theorem unsigned_run {n : List Symbol} (number : Unsigned n) : Run (chars n) := by
  cases number with
  | parts whole fraction exponent =>
    simpa using (whole_run whole).append ((fraction_run fraction).append (exponent_run exponent))

theorem escape_flat {e : List Symbol} (escape : Escape e) : '\n' ∉ chars e := by
  cases escape with
  | letter c known =>
    simp only [chars_char, chars_nil, List.mem_singleton]
    rintro rfl
    exact absurd known (by decide)
  | code digits four hex =>
    simp only [chars_char, List.mem_cons, not_or]
    refine ⟨by decide, fun member => ?_⟩
    obtain ⟨s, inside, found⟩ := List.mem_filterMap.1 member
    have here := hex s inside
    cases s with
    | stray b => cases found
    | char d =>
      cases found
      exact absurd here (by decide)

/-- A string stays on its line, since it holds no control character. -/
theorem content_flat {c : List Symbol} (content : Content c) : '\n' ∉ chars c := by
  induction content with
  | nil => simp
  | @plain s rest inside bare printable tail ih =>
    cases s with
    | stray b => exact ih
    | char d =>
      simp only [chars_char, List.mem_cons, not_or]
      refine ⟨?_, ih⟩
      rintro rfl
      exact absurd printable (by decide)
  | escaped escape tail ih => simp [escape_flat escape, ih]

theorem scalar_run {v : List Symbol} (scalar : Scalar v) : Run (chars v) := by
  cases scalar with
  | null => exact run_of_singles (by decide)
  | true => exact run_of_singles (by decide)
  | false =>
    refine .token ⟨⟨'f', _, rfl, by decide⟩, ⟨"fals".toList, 'e', rfl, by decide, ?_⟩, ?_, ?_⟩
    · simp
    · exact .inr (by decide)
    · exact fun member => absurd member (by decide)
  | string content => simpa using Run.token (token_quoted (content_flat content))
  | positive number => exact unsigned_run number
  | negative number => exact .cons (token_single (by decide)) (unsigned_run number)

theorem opening_run (b : Bracket) : Run (chars [b.opening]) := by
  cases b <;> exact run_of_singles (by decide)

theorem closing_run (b : Bracket) : Run (chars [b.closing]) := by
  cases b <;> exact run_of_singles (by decide)

theorem derives_run {part : Part} {input : List Symbol} (derived : Derives part input) :
    Run (chars input) := by
  induction derived with
  | scalar scalar => exact scalar_run scalar
  | empty b blank =>
    have inner := (space_run blank).append (closing_run b)
    rw [← chars_append] at inner
    simpa [← chars_append] using (opening_run b).append inner
  | filled b first rest entry more =>
    have inner := entry.append (more.append (closing_run b))
    simp only [← chars_append] at inner
    simpa [← chars_append] using (opening_run b).append inner
  | item blank value run =>
    rw [chars_append]
    exact (space_run blank).append run
  | member blank name apart value run =>
    have colon : Run (':' :: chars _) := .cons (token_single (by decide)) run
    have key := Run.cons (token_quoted (content_flat name)) ((space_run apart).append colon)
    simpa using (space_run blank).append key
  | last b blank => exact space_run blank
  | next b blank entry rest one more =>
    have comma : Run (',' :: _) := .cons (token_single (by decide)) (one.append more)
    simpa using (space_run blank).append comma

theorem isText_run {s : String} (text : IsText (ofString s)) : Run s.toList := by
  obtain ⟨e, space, value, blank, split⟩ := text
  have run := (derives_run value).append (space_run blank)
  rwa [← chars_append, ← split, chars_ofString] at run

end RegoPolicy.Json
