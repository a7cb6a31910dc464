import RegoPolicy.Proofs.Lexemes

/-!
The scanner accepts exactly the texts of the grammar. One step of the scanner is told once for each
stage; from it follows that a scanned text has a derivation. The other way, every derivation is
followed by the scanner under whatever brackets are open.
-/
namespace RegoPolicy.Json

open Text

theorem opens?_eq_some {s : Symbol} {b : Bracket} (opens : opens? s = some b) : s = b.opening := by
  unfold opens? at opens
  split at opens <;> cases opens <;> rfl

theorem scanWithin_before_cases {x : Symbol} {bound input rest : List Symbol}
    {outer : List Bracket} (scanned : scanWithin (x :: bound) .before outer input = .ok rest) :
    ∃ space, Blank space ∧
      ((∃ v after, Scalar v ∧ input = space ++ (v ++ after) ∧
          scanWithin bound .after outer after = .ok rest) ∨
        (∃ (b : Bracket) (gap after : List Symbol), Blank gap ∧
          input = space ++ (b.opening :: (gap ++ [b.closing]) ++ after) ∧
          scanWithin bound .after outer after = .ok rest) ∨
        ∃ (b : Bracket) (gap inner start : List Symbol), Blank gap ∧
          input = space ++ b.opening :: (gap ++ inner) ∧
          b.scanToValue inner = .ok start ∧
          scanWithin bound .before (b :: outer) start = .ok rest) := by
  obtain ⟨space, blank, front⟩ := skipSpace_split input
  refine ⟨space, blank, ?_⟩
  simp only [scanWithin] at scanned
  split at scanned
  · cases scanned
  · rename_i s tail found
    split at scanned
    · cases scalar : scanScalar s tail with
      | error f => simp [scalar, bind, Except.bind] at scanned
      | ok after =>
        obtain ⟨v, isScalar, split⟩ := scanScalar_sound scalar
        refine .inl ⟨v, after, isScalar, ?_, by simpa [scalar, bind, Except.bind] using scanned⟩
        rw [front, found, split]
    · rename_i b opens
      have opening := opens?_eq_some opens
      obtain ⟨gap, apart, inner⟩ := skipSpace_split tail
      split at scanned
      · cases scanned
      · rename_i t after next
        split at scanned
        · rename_i closes
          refine .inr (.inl ⟨b, gap, after, apart, ?_, scanned⟩)
          rw [front, found, opening, inner, next, closes]
          simp
        · cases reached : b.scanToValue (t :: after) with
          | error f => simp [reached, bind, Except.bind] at scanned
          | ok start =>
            refine .inr (.inr ⟨b, gap, t :: after, start, apart, ?_, reached, ?_⟩)
            · rw [front, found, opening, inner, next]
            · simpa [reached, bind, Except.bind] using scanned

theorem scanWithin_after_cases {x : Symbol} {bound input rest : List Symbol} {b : Bracket}
    {outer : List Bracket}
    (scanned : scanWithin (x :: bound) .after (b :: outer) input = .ok rest) :
    ∃ space, Blank space ∧
      ((∃ after, input = space ++ b.closing :: after ∧
          scanWithin bound .after outer after = .ok rest) ∨
        ∃ after start, input = space ++ .char ',' :: after ∧ b.scanToValue after = .ok start ∧
          scanWithin bound .before (b :: outer) start = .ok rest) := by
  obtain ⟨space, blank, front⟩ := skipSpace_split input
  refine ⟨space, blank, ?_⟩
  simp only [scanWithin] at scanned
  split at scanned
  · cases scanned
  · rename_i s tail found
    split at scanned
    · rename_i closes
      exact .inl ⟨tail, by rw [front, found, closes], scanned⟩
    · split at scanned
      · rename_i comma
        cases reached : b.scanToValue tail with
        | error f => simp [reached, bind, Except.bind] at scanned
        | ok start =>
          refine .inr ⟨tail, start, by rw [front, found, comma], reached, ?_⟩
          simpa [reached, bind, Except.bind] using scanned
      · cases scanned

def Closes : List Bracket → List Symbol → Prop
  | [], taken => taken = []
  | b :: outer, taken => ∃ m tail, Derives (.more b) m ∧ Closes outer tail ∧
      taken = m ++ b.closing :: tail

def Finishes (outer : List Bracket) (taken : List Symbol) : Stage → Prop
  | .after => Closes outer taken
  | .before => ∃ e tail, Derives (.entry .list) e ∧ Closes outer tail ∧ taken = e ++ tail

theorem blank_append {a b : List Symbol} (left : Blank a) (right : Blank b) : Blank (a ++ b) := by
  intro s member
  rcases List.mem_append.1 member with first | second
  · exact left s first
  · exact right s second

theorem entry_after_blank {b : Bracket} {gap e : List Symbol} (apart : Blank gap)
    (entry : Derives (.entry b) e) : Derives (.entry b) (gap ++ e) := by
  cases entry with
  | item blank value =>
    rw [← List.append_assoc]
    exact .item (blank_append apart blank) value
  | member blank name colon value =>
    rw [← List.append_assoc]
    exact .member (blank_append apart blank) name colon value

theorem entry_of_value {b : Bracket} {input e rest : List Symbol}
    (reached : b.scanToValue input = .ok (e ++ rest)) (value : Derives (.entry .list) e) :
    ∃ e, Derives (.entry b) e ∧ input = e ++ rest := by
  cases b with
  | list =>
    have same : input = e ++ rest := by simpa [Bracket.scanToValue] using reached
    exact ⟨e, value, same⟩
  | object =>
    obtain ⟨space, c, gap, blank, content, apart, whole⟩ := scanKey_sound reached
    refine ⟨_, .member blank content apart value, ?_⟩
    simp [whole]

theorem scanWithin_sound {bound input rest : List Symbol} {stage : Stage} {outer : List Bracket}
    (scanned : scanWithin bound stage outer input = .ok rest) :
    ∃ taken, Finishes outer taken stage ∧ input = taken ++ rest := by
  induction bound generalizing stage outer input with
  | nil =>
    cases stage with
    | before => simp [scanWithin] at scanned
    | after =>
      cases outer with
      | nil => exact ⟨[], rfl, by simpa [scanWithin] using scanned⟩
      | cons b outer => simp [scanWithin] at scanned
  | cons x bound ih =>
    cases stage with
    | before =>
      obtain ⟨space, blank, scalar | empty | filled⟩ := scanWithin_before_cases scanned
      · obtain ⟨v, after, scalar, rfl, later⟩ := scalar
        obtain ⟨tail, closes, rfl⟩ := ih later
        exact ⟨_, ⟨_, tail, .item blank (.scalar scalar), closes, rfl⟩, by simp⟩
      · obtain ⟨b, gap, after, apart, rfl, later⟩ := empty
        obtain ⟨tail, closes, rfl⟩ := ih later
        exact ⟨_, ⟨_, tail, .item blank (.empty b apart), closes, rfl⟩, by simp⟩
      · obtain ⟨b, gap, inner, start, apart, rfl, reached, later⟩ := filled
        obtain ⟨_, ⟨e, _, value, ⟨m, tail, more, closes, rfl⟩, rfl⟩, rfl⟩ := ih later
        rw [List.append_assoc] at reached
        obtain ⟨first, entry, rfl⟩ := entry_of_value reached value
        have whole := Derives.filled b (entry_after_blank apart entry) more
        exact ⟨_, ⟨_, tail, .item blank whole, closes, rfl⟩, by simp⟩
    | after =>
      cases outer with
      | nil => exact ⟨[], rfl, by simpa [scanWithin] using scanned⟩
      | cons b outer =>
        obtain ⟨space, blank, ends | goesOn⟩ := scanWithin_after_cases scanned
        · obtain ⟨after, rfl, later⟩ := ends
          obtain ⟨tail, closes, rfl⟩ := ih later
          exact ⟨_, ⟨space, tail, .last b blank, closes, rfl⟩, by simp⟩
        · obtain ⟨after, start, rfl, reached, later⟩ := goesOn
          obtain ⟨_, ⟨e, _, value, ⟨m, tail, more, closes, rfl⟩, rfl⟩, rfl⟩ := ih later
          rw [List.append_assoc] at reached
          obtain ⟨entry, isEntry, rfl⟩ := entry_of_value reached value
          exact ⟨_, ⟨_, tail, .next b blank isEntry more, closes, rfl⟩, by simp⟩

/-- Scanning ends with `rest` under every bound of at least `least` symbols. -/
def Scans (least : Nat) (stage : Stage) (outer : List Bracket) (input rest : List Symbol) : Prop :=
  ∀ bound : List Symbol, least ≤ bound.length → scanWithin bound stage outer input = .ok rest

theorem scans_done (least : Nat) (rest : List Symbol) : Scans least .after [] rest rest := by
  intro bound _
  cases bound <;> simp [scanWithin]

theorem scans_of_skipSpace {least : Nat} {outer : List Bracket} {input other rest : List Symbol}
    (scans : Scans least .before outer input rest) (same : skipSpace other = skipSpace input) :
    Scans least .before outer other rest := by
  intro bound enough
  have known := scans bound enough
  cases bound with
  | nil => simp [scanWithin] at known
  | cons x bound =>
    simp only [scanWithin] at known ⊢
    rw [same]
    exact known

theorem skipSpace_skipSpace (input : List Symbol) :
    skipSpace (skipSpace input) = skipSpace input := by
  obtain ⟨space, blank, split⟩ := skipSpace_split input
  have skipped := skipSpace_append blank (skipSpace input)
  rw [← split] at skipped
  exact skipped.symm

theorem reaches_skipSpace {b : Bracket} {least : Nat} {outer : List Bracket}
    {input start rest : List Symbol} (reached : b.scanToValue input = .ok start)
    (scans : Scans least .before outer start rest) :
    ∃ start, b.scanToValue (skipSpace input) = .ok start ∧
      Scans least .before outer start rest := by
  cases b with
  | list =>
    have same : input = start := by simpa [Bracket.scanToValue] using reached
    refine ⟨skipSpace input, rfl, scans_of_skipSpace scans ?_⟩
    rw [skipSpace_skipSpace, same]
  | object =>
    refine ⟨start, ?_, scans⟩
    have key : scanKey (skipSpace input) = scanKey input := by
      unfold scanKey
      rw [skipSpace_skipSpace]
    exact key.trans reached

theorem value_starts {v : List Symbol} (value : Derives .value v) :
    ∃ s tail, v = s :: tail ∧ isSpace s = false ∧ s ≠ .char ']' := by
  cases value with
  | scalar scalar =>
    cases scalar with
    | null => exact ⟨_, _, rfl, rfl, by decide⟩
    | true => exact ⟨_, _, rfl, rfl, by decide⟩
    | false => exact ⟨_, _, rfl, rfl, by decide⟩
    | string content => exact ⟨_, _, rfl, rfl, by decide⟩
    | negative number => exact ⟨_, _, rfl, rfl, by decide⟩
    | positive number =>
      obtain ⟨s, tail, split, digit⟩ := number_starts number
      refine ⟨s, tail, split, digit_is_solid digit, ?_⟩
      rintro rfl
      exact absurd digit (by decide)
  | empty b blank => cases b <;> exact ⟨_, _, rfl, rfl, by decide⟩
  | filled b first rest => cases b <;> exact ⟨_, _, rfl, rfl, by decide⟩

theorem entry_starts {b : Bracket} {e : List Symbol} (entry : Derives (.entry b) e)
    (rest : List Symbol) : ∃ s tail, skipSpace (e ++ rest) = s :: tail ∧ s ≠ b.closing := by
  cases entry with
  | item blank value =>
    obtain ⟨s, tail, rfl, solid, other⟩ := value_starts value
    refine ⟨s, tail ++ rest, ?_, other⟩
    rw [List.append_assoc, skipSpace_append blank]
    exact skipSpace_of_solid solid _
  | member blank name apart value =>
    rw [List.append_assoc, skipSpace_append blank]
    exact ⟨_, _, rfl, by decide⟩

theorem space_is_no_digit {s : Symbol} (space : isSpace s = true) : (digit? s).isSome = false := by
  rw [Bool.eq_false_iff]
  intro digit
  rw [digit_is_solid digit] at space
  cases space

theorem endsNumber_of_blank {space rest : List Symbol} (blank : Blank space)
    (ends : EndsNumber rest) : EndsNumber (space ++ rest) := by
  cases space with
  | nil => exact ends
  | cons s space =>
    have here : isSpace s = true := blank s List.mem_cons_self
    refine ⟨space_is_no_digit here, ?_, ?_⟩
    · simp only [List.cons_append, startsExponent, Bool.or_eq_false_iff, decide_eq_false_iff_not]
      constructor <;> (rintro rfl; exact absurd here (by decide))
    · simp only [List.cons_append, List.head?_cons, ne_eq, Option.some.injEq]
      rintro rfl
      exact absurd here (by decide)

theorem endsNumber_of_more {b : Bracket} {m : List Symbol} (more : Derives (.more b) m)
    (tail : List Symbol) : EndsNumber (m ++ b.closing :: tail) := by
  cases more with
  | last _ blank =>
    refine endsNumber_of_blank blank ?_
    cases b <;> exact ⟨rfl, rfl, by simp [Bracket.closing]⟩
  | next _ blank entry rest =>
    rw [List.append_assoc]
    exact endsNumber_of_blank blank ⟨rfl, rfl, by simp⟩

def Completes : Part → List Symbol → Prop
  | .value, v => ∀ {least outer tail rest}, EndsNumber tail → Scans least .after outer tail rest →
      Scans (least + v.length) .before outer (v ++ tail) rest
  | .entry b, e => ∀ {least outer tail rest}, EndsNumber tail → Scans least .after outer tail rest →
      ∃ start, b.scanToValue (e ++ tail) = .ok start ∧
        Scans (least + e.length) .before outer start rest
  | .more b, m => ∀ {least outer tail rest}, Scans least .after outer tail rest →
      Scans (least + m.length + 1) .after (b :: outer) (m ++ b.closing :: tail) rest

theorem opens?_opening (b : Bracket) : opens? b.opening = some b := by
  cases b <;> rfl

theorem opening_is_solid (b : Bracket) : isSpace b.opening = false := by
  cases b <;> rfl

theorem closing_is_solid (b : Bracket) : isSpace b.closing = false := by
  cases b <;> rfl

theorem scalar_completes {v : List Symbol} (scalar : Scalar v) : Completes .value v := by
  intro least outer tail rest ends after bound enough
  obtain ⟨s, inner, split, opens, solid, scanned⟩ := scanScalar_complete scalar ends
  have nonempty : 1 ≤ v.length := by
    obtain ⟨s, inner, rfl, _⟩ := value_starts (.scalar scalar)
    simp
  cases bound with
  | nil =>
    simp only [List.length_nil] at enough
    omega
  | cons x bound =>
    rw [split]
    simp only [scanWithin, skipSpace_of_solid solid, opens, scanned, bind, Except.bind]
    exact after bound (by simp only [List.length_cons] at enough; omega)

theorem empty_completes (b : Bracket) {space : List Symbol} (blank : Blank space) :
    Completes .value (b.opening :: (space ++ [b.closing])) := by
  intro least outer tail rest _ after bound enough
  have next : skipSpace (space ++ b.closing :: tail) = b.closing :: tail := by
    rw [skipSpace_append blank, skipSpace_of_solid (closing_is_solid b)]
  cases bound with
  | nil => simp at enough
  | cons x bound =>
    simp only [List.cons_append, List.append_assoc, List.nil_append, scanWithin,
      skipSpace_of_solid (opening_is_solid b), opens?_opening, next, ↓reduceIte]
    refine after bound ?_
    simp only [List.length_cons, List.length_append] at enough
    omega

theorem filled_completes (b : Bracket) {e m : List Symbol} (first : Derives (.entry b) e)
    (more : Derives (.more b) m) (entry : Completes (.entry b) e)
    (others : Completes (.more b) m) :
    Completes .value (b.opening :: (e ++ (m ++ [b.closing]))) := by
  intro least outer tail rest _ after bound enough
  obtain ⟨start, reached, scans⟩ := entry (endsNumber_of_more more tail) (others after)
  obtain ⟨t, inner, next, other⟩ := entry_starts first (m ++ b.closing :: tail)
  obtain ⟨start, reached, scans⟩ := reaches_skipSpace reached scans
  rw [next] at reached
  cases bound with
  | nil => simp at enough
  | cons x bound =>
    simp only [List.cons_append, List.append_assoc, List.nil_append, scanWithin,
      skipSpace_of_solid (opening_is_solid b), opens?_opening, next, if_neg other, reached, bind,
      Except.bind]
    refine scans bound ?_
    simp only [List.length_cons, List.length_append, List.length_nil] at enough
    omega

theorem last_completes (b : Bracket) {space : List Symbol} (blank : Blank space) :
    Completes (.more b) space := by
  intro least outer tail rest after bound enough
  have next : skipSpace (space ++ b.closing :: tail) = b.closing :: tail := by
    rw [skipSpace_append blank, skipSpace_of_solid (closing_is_solid b)]
  cases bound with
  | nil => simp at enough
  | cons x bound =>
    simp only [scanWithin, next, ↓reduceIte]
    exact after bound (by simp only [List.length_cons] at enough; omega)

theorem next_completes (b : Bracket) {space e m : List Symbol} (blank : Blank space)
    (more : Derives (.more b) m) (entry : Completes (.entry b) e)
    (others : Completes (.more b) m) : Completes (.more b) (space ++ .char ',' :: (e ++ m)) := by
  intro least outer tail rest after bound enough
  obtain ⟨start, reached, scans⟩ := entry (endsNumber_of_more more tail) (others after)
  have comma (input : List Symbol) :
      skipSpace (space ++ .char ',' :: input) = .char ',' :: input := by
    rw [skipSpace_append blank, skipSpace_of_solid (by decide)]
  have notClosed : Symbol.char ',' ≠ b.closing := by cases b <;> decide
  cases bound with
  | nil => simp at enough
  | cons x bound =>
    simp only [List.cons_append, List.append_assoc, scanWithin, comma, if_neg notClosed, ↓reduceIte,
      reached, bind, Except.bind]
    refine scans bound ?_
    simp only [List.length_cons, List.length_append] at enough
    omega

/-- The scanner follows every derivation. -/
theorem derives_completes {part : Part} {input : List Symbol} (derived : Derives part input) :
    Completes part input := by
  induction derived with
  | scalar scalar => exact scalar_completes scalar
  | empty b blank => exact empty_completes b blank
  | filled b first more entry others => exact filled_completes b first more entry others
  | @item space v blank _ value =>
    intro least outer tail rest ends after
    refine ⟨_, rfl, ?_⟩
    have scans : Scans (least + v.length) .before outer (space ++ v ++ tail) rest :=
      scans_of_skipSpace (value ends after) (by rw [List.append_assoc, skipSpace_append blank])
    intro bound enough
    exact scans bound (by simp only [List.length_append] at enough; omega)
  | @member space c gap e blank content apart _ value =>
    intro least outer tail rest ends after
    obtain ⟨start, reached, scans⟩ := value ends after
    have same : e ++ tail = start := by simpa [Bracket.scanToValue] using reached
    refine ⟨e ++ tail, ?_, ?_⟩
    · simpa [Bracket.scanToValue] using scanKey_complete blank content apart (e ++ tail)
    · intro bound enough
      rw [same]
      refine scans bound ?_
      simp only [List.length_append, List.length_cons] at enough
      omega
  | last b blank => exact last_completes b blank
  | next b blank _ more entry others => exact next_completes b blank more entry others

theorem expectEnd_isOk (rest : List Symbol) : (expectEnd rest).isOk = true ↔ Blank rest := by
  constructor
  · intro ok
    obtain ⟨space, blank, split⟩ := skipSpace_split rest
    unfold expectEnd at ok
    split at ok
    · rename_i ends
      rw [split, ends, List.append_nil]
      exact blank
    · cases ok
  · intro blank
    simp [expectEnd, blank_skipped blank, Except.isOk, Except.toBool]

/-- The scanner accepts a text if and only if the grammar derives it. -/
theorem isLiteral_iff_isText (s : String) : isLiteral s = true ↔ IsText (ofString s) := by
  unfold isLiteral
  constructor
  · intro accepted
    split at accepted
    · cases accepted
    · rename_i rest scanned
      obtain ⟨_, ⟨e, tail, value, closes, rfl⟩, split⟩ := scanWithin_sound scanned
      have nothing : tail = [] := closes
      exact ⟨e, rest, value, (expectEnd_isOk rest).1 accepted, by simpa [nothing] using split⟩
  · rintro ⟨e, space, value, blank, split⟩
    have nothing : EndsNumber [] := ⟨rfl, rfl, by simp⟩
    have ends : EndsNumber space := by simpa using endsNumber_of_blank blank nothing
    obtain ⟨start, reached, scans⟩ := derives_completes value ends (scans_done 0 space)
    have same : e ++ space = start := by simpa [Bracket.scanToValue] using reached
    have scanned : scanValue (ofString s) = .ok space := by
      unfold scanValue
      rw [split, same]
      exact scans _ (by simp [← same])
    rw [scanned]
    exact (expectEnd_isOk space).2 blank

end RegoPolicy.Json
