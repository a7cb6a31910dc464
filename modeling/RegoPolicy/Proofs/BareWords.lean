import RegoPolicy.Proofs.BodyLines

/-!
The words of a Rego text that stand for themselves: outside strings and comments, and not after a
dot. Keywords are used as such words. Strings and comments end on the line they start on, so that a
text has the bare words of its lines.
-/
namespace RegoPolicy.Rego

open Policy Json Text

/-- Where a reader of a line stands: in a word, perhaps one after a dot, in a string, after a
    backslash in a string, or in a comment. The word read so far stands in reverse. -/
inductive Mode where
  | code (word : List Char) (dotted : Bool)
  | quoted
  | escaped
  | comment
  deriving DecidableEq

def Mode.fresh : Mode := .code [] false

def Mode.next (m : Mode) (c : Char) : Mode :=
  if c = '\n' then .fresh
  else match m with
    | .code word dotted =>
      if isNameChar c then .code (c :: word) dotted
      else if c = '"' then .quoted
      else if c = '#' then .comment
      else .code [] (c = '.')
    | .quoted => if c = '"' then .fresh else if c = '\\' then .escaped else .quoted
    | .escaped => .quoted
    | .comment => .comment

def Mode.ended (m : Mode) (c : Char) : List String :=
  match m with
  | .code word dotted =>
    if isNameChar c || dotted || word.isEmpty then [] else [String.ofList word.reverse]
  | _ => []

def Mode.after (m : Mode) (cs : List Char) : Mode := cs.foldl Mode.next m

def wordsFrom (m : Mode) : List Char → List String
  | [] => []
  | c :: rest => m.ended c ++ wordsFrom (m.next c) rest

def bareWords (text : List Char) : List String := wordsFrom .fresh (text ++ ['\n'])

example : bareWords "not input.in in [\"if\", _x] # every".toList =
    ["not", "input", "in", "_x"] := by
  decide

theorem after_append (m : Mode) (a b : List Char) : m.after (a ++ b) = (m.after a).after b := by
  simp [Mode.after]

theorem wordsFrom_append (m : Mode) (a b : List Char) :
    wordsFrom m (a ++ b) = wordsFrom m a ++ wordsFrom (m.after a) b := by
  induction a generalizing m with
  | nil => rfl
  | cons c a ih => simp [wordsFrom, ih, Mode.after]

theorem next_feed (m : Mode) : m.next '\n' = .fresh := by
  simp [Mode.next]

theorem bareWords_eq (text : List Char) :
    bareWords text = wordsFrom .fresh text ++ (Mode.fresh.after text).ended '\n' := by
  simp [bareWords, wordsFrom_append, wordsFrom]

theorem bareWords_feed (a b : List Char) :
    bareWords (a ++ '\n' :: b) = bareWords a ++ bareWords b := by
  have split : a ++ '\n' :: b ++ ['\n'] = a ++ ['\n'] ++ (b ++ ['\n']) := by simp
  rw [bareWords, split, wordsFrom_append, after_append]
  simp only [Mode.after, List.foldl_cons, List.foldl_nil, next_feed]
  rfl

theorem bareWords_lines (text : List Char) :
    bareWords text = (text.splitOn '\n').flatMap bareWords := by
  have joined (line : List Char) (lines : List (List Char)) :
      bareWords (['\n'].intercalate (line :: lines)) = (line :: lines).flatMap bareWords := by
    induction lines generalizing line with
    | nil => simp
    | cons next lines ih =>
      rw [List.intercalate_cons_cons, List.append_assoc, List.singleton_append, bareWords_feed, ih]
      rfl
  obtain ⟨line, lines, split⟩ := List.exists_cons_of_ne_nil (List.splitOn_ne_nil '\n' text)
  have whole := joined line lines
  rw [← split, List.intercalate_splitOn] at whole
  exact whole

def Parted (a b : List Char) : Prop :=
  Mode.fresh.after a = .fresh ∨ ∀ c, b.head? = some c → isNameChar c = false

theorem next_boundary {c : Char} (outside : isNameChar c = false) (word : List Char)
    (dotted : Bool) : (Mode.code word dotted).next c = Mode.fresh.next c := by
  simp [Mode.next, Mode.fresh, outside]

theorem ended_fresh (c : Char) : Mode.fresh.ended c = [] := by
  simp [Mode.fresh, Mode.ended]

theorem read_boundary {c : Char} (outside : isNameChar c = false) (rest word : List Char)
    (dotted : Bool) :
    (Mode.code word dotted).after (c :: rest) = Mode.fresh.after (c :: rest) ∧
      wordsFrom (.code word dotted) (c :: rest) =
        (Mode.code word dotted).ended '\n' ++ wordsFrom .fresh (c :: rest) := by
  have step := next_boundary outside word dotted
  have feed : isNameChar '\n' = false := by decide
  have ended : (Mode.code word dotted).ended c = (Mode.code word dotted).ended '\n' := by
    simp [Mode.ended, outside, feed]
  constructor
  · simp [Mode.after, step]
  · simp [wordsFrom, step, ended, ended_fresh]

/-- The words that modules are searched for: the keywords that have to be imported, and the word
    that imports them. -/
def watched : List String := ["if", "in", "every", "import"]

theorem watched_reserved : ∀ w ∈ watched, w ∈ reservedNames := by decide

/-- A text that leaves no string and no comment open, with the watched words it holds. -/
structure Utters (text : List Char) (said : String → Prop) : Prop where
  unquoted : ∃ word dotted, Mode.fresh.after text = .code word dotted
  words : ∀ w ∈ watched, (w ∈ bareWords text ↔ said w)

abbrev Mute (text : List Char) : Prop := Utters text fun _ => False

theorem Utters.congr {text : List Char} {p q : String → Prop} (utters : Utters text p)
    (same : ∀ w ∈ watched, (p w ↔ q w)) : Utters text q :=
  ⟨utters.unquoted, fun w member => (utters.words w member).trans (same w member)⟩

theorem bareWords_append {a b word : List Char} {dotted : Bool}
    (reached : Mode.fresh.after a = .code word dotted) (parted : Parted a b) :
    bareWords (a ++ b) = bareWords a ++ bareWords b := by
  have split : bareWords (a ++ b) =
      wordsFrom .fresh a ++ wordsFrom (.code word dotted) (b ++ ['\n']) := by
    rw [bareWords, List.append_assoc, wordsFrom_append, reached]
  rw [split, bareWords_eq a, reached, List.append_assoc, List.append_cancel_left_eq]
  rcases parted with fresh | boundary
  · rw [← reached, fresh, ended_fresh]
    rfl
  · cases b with
    | nil => exact (read_boundary (by decide) [] word dotted).2
    | cons c rest => exact (read_boundary (boundary c rfl) (rest ++ ['\n']) word dotted).2

theorem Utters.append {a b : List Char} {p q : String → Prop} (left : Utters a p)
    (right : Utters b q) (parted : Parted a b) : Utters (a ++ b) fun w => p w ∨ q w := by
  obtain ⟨word, dotted, reached⟩ := left.unquoted
  refine ⟨?_, fun w member => ?_⟩
  · rw [after_append, reached]
    rcases parted with fresh | boundary
    · rw [← reached, fresh]
      exact right.unquoted
    · cases b with
      | nil => exact ⟨word, dotted, rfl⟩
      | cons c rest =>
        rw [(read_boundary (boundary c rfl) rest word dotted).1]
        exact right.unquoted
  · rw [bareWords_append reached parted, List.mem_append, left.words w member,
      right.words w member]

theorem mute_append {a b : List Char} (left : Mute a) (right : Mute b) (parted : Parted a b) :
    Mute (a ++ b) :=
  (left.append right parted).congr (by simp)

structure Speaks (text : List Char) (said : String → Prop) : Prop where
  whole : Mode.fresh.after text = .fresh
  words : ∀ w ∈ watched, (w ∈ bareWords text ↔ said w)

theorem Speaks.utters {text : List Char} {said : String → Prop} (speaks : Speaks text said) :
    Utters text said :=
  ⟨⟨[], false, speaks.whole⟩, speaks.words⟩

theorem Speaks.congr {text : List Char} {p q : String → Prop} (speaks : Speaks text p)
    (same : ∀ w ∈ watched, (p w ↔ q w)) : Speaks text q :=
  ⟨speaks.whole, (speaks.utters.congr same).words⟩

theorem Speaks.append {a b : List Char} {p q : String → Prop} (left : Speaks a p)
    (right : Speaks b q) : Speaks (a ++ b) fun w => p w ∨ q w := by
  refine ⟨?_, (left.utters.append right.utters (.inl left.whole)).words⟩
  rw [after_append, left.whole, right.whole]

theorem speaks_nil : Speaks [] fun _ => False := by
  exact ⟨rfl, by decide⟩

theorem speaks_line {line : List Char} {said : String → Prop} (utters : Utters line said) :
    Speaks (line ++ ['\n']) said := by
  refine ⟨?_, fun w member => ?_⟩
  · rw [after_append]
    simp [Mode.after, next_feed]
  · have blank : bareWords [] = [] := by decide
    rw [bareWords_feed, blank, List.append_nil]
    exact utters.words w member

theorem speaks_blank : Speaks ['\n'] fun _ => False := by
  exact ⟨by decide, by decide⟩

theorem speaks_flatMap {α : Type} {l : List α} {write : α → List Char} {said : α → String → Prop}
    (each : ∀ a ∈ l, Speaks (write a) (said a)) :
    Speaks (l.flatMap write) fun w => ∃ a ∈ l, said a w := by
  induction l with
  | nil => simpa using speaks_nil
  | cons a l ih =>
    have others := ih fun b member => each b (List.mem_cons_of_mem a member)
    exact ((each a List.mem_cons_self).append others).congr (by simp)

structure Enclosed (cs : List Char) : Prop where
  stays : Mode.quoted.after cs = .quoted
  silent : wordsFrom .quoted cs = []

theorem enclosed_nil : Enclosed [] := ⟨rfl, rfl⟩

theorem Enclosed.append {a b : List Char} (left : Enclosed a) (right : Enclosed b) :
    Enclosed (a ++ b) := by
  refine ⟨?_, ?_⟩
  · rw [after_append, left.stays, right.stays]
  · rw [wordsFrom_append, left.silent, left.stays, right.silent, List.append_nil]

theorem enclosed_plain {c : Char} (inside : c ≠ '"') (bare : c ≠ '\\') (flat : c ≠ '\n') :
    Enclosed [c] := by
  refine ⟨?_, rfl⟩
  simp [Mode.after, Mode.next, inside, bare, flat]

theorem enclosed_pair {c : Char} (flat : c ≠ '\n') : Enclosed ['\\', c] := by
  refine ⟨?_, rfl⟩
  simp [Mode.after, Mode.next, flat]

theorem escape_enclosed (c : Char) : Enclosed (escape c) := by
  have pairs : ∀ n < 0x20, Mode.quoted.after ("\\u00".toList ++ hexPair n) = .quoted ∧
      wordsFrom .quoted ("\\u00".toList ++ hexPair n) = [] := by decide
  unfold escape
  iterate 7 (split; · exact enclosed_pair (by decide))
  split
  · rename_i low
    obtain ⟨stays, silent⟩ := pairs c.toNat low
    exact ⟨stays, silent⟩
  · rename_i inside bare _ _ flat _ _ _
    exact enclosed_plain inside bare flat

theorem escapes_enclosed (cs : List Char) : Enclosed (cs.flatMap escape) := by
  induction cs with
  | nil => exact enclosed_nil
  | cons c cs ih => exact (escape_enclosed c).append ih

theorem content_enclosed {c : List Symbol} (content : Content c) : Enclosed (chars c) := by
  have digits {ds : List Symbol} (hex : ∀ s ∈ ds, (hexDigit? s).isSome = true) :
      Enclosed (chars ds) := by
    induction ds with
    | nil => exact enclosed_nil
    | cons s ds ih =>
      have here := hex s List.mem_cons_self
      have others := ih fun t member => hex t (List.mem_cons_of_mem s member)
      cases s with
      | stray b => exact others
      | char d =>
        have plain : Enclosed [d] := by
          refine enclosed_plain ?_ ?_ ?_ <;> rintro rfl <;> exact absurd here (by decide)
        exact plain.append others
  induction content with
  | nil => exact enclosed_nil
  | @plain s rest inside bare printable tail ih =>
    cases s with
    | stray b => exact ih
    | char d =>
      have plain : Enclosed [d] := by
        refine enclosed_plain ?_ ?_ ?_ <;> rintro rfl
        · exact inside rfl
        · exact bare rfl
        · exact absurd printable (by decide)
      exact plain.append ih
  | @escaped e rest escape tail ih =>
    rw [chars_char, chars_append]
    cases escape with
    | letter c known =>
      have flat : c ≠ '\n' := by
        rintro rfl
        exact absurd known (by decide)
      exact (enclosed_pair flat).append ih
    | code ds four hex =>
      have pair : Enclosed ['\\', 'u'] := enclosed_pair (by decide)
      exact pair.append ((digits hex).append ih)

def isInert (c : Char) : Bool := c ∉ ['"', '#', 'i', 'v']

inductive Inert : List Char → Prop where
  | nil : Inert []
  | bare {c : Char} {rest : List Char} (inert : isInert c = true) (tail : Inert rest) :
      Inert (c :: rest)
  | string {content rest : List Char} (inside : Enclosed content) (tail : Inert rest) :
      Inert ('"' :: (content ++ '"' :: rest))

theorem Inert.append {a b : List Char} (left : Inert a) (right : Inert b) : Inert (a ++ b) := by
  induction left with
  | nil => exact right
  | bare inert tail ih => exact .bare inert ih
  | string inside tail ih => simpa using Inert.string inside ih

theorem inert_of_all {cs : List Char} (each : cs.all isInert = true) : Inert cs := by
  induction cs with
  | nil => exact .nil
  | cons c cs ih =>
    rw [List.all_cons, Bool.and_eq_true] at each
    exact .bare each.1 (ih each.2)

theorem inert_string {content : List Char} (inside : Enclosed content) :
    Inert ('"' :: (content ++ ['"'])) :=
  .string inside .nil

theorem quote_inert (s : String) : Inert (quote s).toList := by
  simpa [quote] using inert_string (escapes_enclosed s.toList)

theorem ended_inert {word : List Char} (front : word.all isInert = true) (dotted : Bool)
    (c : Char) : ∀ found ∈ (Mode.code word dotted).ended c, found.toList.all isInert = true := by
  intro found member
  simp only [Mode.ended] at member
  split at member
  · simp at member
  · rw [List.mem_singleton.1 member]
    simpa using front

theorem next_inert {c : Char} (inert : isInert c = true) {word : List Char}
    (front : word.all isInert = true) (dotted : Bool) :
    ∃ w d, (Mode.code word dotted).next c = .code w d ∧ w.all isInert = true := by
  have noQuote : c ≠ '"' := by
    rintro rfl
    exact absurd inert (by decide)
  have noHash : c ≠ '#' := by
    rintro rfl
    exact absurd inert (by decide)
  by_cases feed : c = '\n'
  · exact ⟨[], false, by rw [feed, next_feed]; rfl, rfl⟩
  · by_cases inside : isNameChar c = true
    · exact ⟨c :: word, dotted, by simp [Mode.next, feed, inside], by simp_all⟩
    · exact ⟨[], decide (c = '.'), by simp [Mode.next, feed, inside, noQuote, noHash], rfl⟩

theorem Inert.read {text : List Char} (inert : Inert text) {word : List Char}
    (front : word.all isInert = true) (dotted : Bool) :
    (∃ w d, (Mode.code word dotted).after text = .code w d ∧ w.all isInert = true) ∧
      ∀ found ∈ wordsFrom (.code word dotted) text, found.toList.all isInert = true := by
  induction inert generalizing word dotted with
  | nil => exact ⟨⟨word, dotted, rfl, front⟩, by simp [wordsFrom]⟩
  | @bare c rest inert tail ih =>
    obtain ⟨w, d, reached, kept⟩ := next_inert inert front dotted
    obtain ⟨last, words⟩ := ih kept d
    constructor
    · simpa [Mode.after, reached] using last
    · intro found member
      rw [wordsFrom, List.mem_append, reached] at member
      rcases member with here | later
      · exact ended_inert front dotted c found here
      · exact words found later
  | @string content rest inside tail ih =>
    have opened : (Mode.code word dotted).next '"' = .quoted := by
      rw [next_boundary (by decide)]
      rfl
    have closed : Mode.quoted.after (content ++ '"' :: rest) = Mode.fresh.after rest := by
      rw [after_append, inside.stays]
      rfl
    have silent : wordsFrom .quoted (content ++ '"' :: rest) = wordsFrom .fresh rest := by
      rw [wordsFrom_append, inside.silent, inside.stays]
      rfl
    obtain ⟨last, words⟩ := ih (List.all_nil : [].all isInert = true) false
    constructor
    · rw [← Mode.fresh, ← closed, ← opened] at last
      exact last
    · intro found member
      rw [wordsFrom, List.mem_append, opened, silent] at member
      rcases member with here | later
      · exact ended_inert front dotted '"' found here
      · exact words found later

theorem Inert.mute {text : List Char} (inert : Inert text) : Mute text := by
  have letters : ∀ w ∈ watched, w.toList.all isInert = false := by decide
  obtain ⟨⟨word, dotted, reached, kept⟩, words⟩ :=
    inert.read (List.all_nil : [].all isInert = true) false
  refine ⟨⟨word, dotted, reached⟩, fun w member => iff_of_false ?_ id⟩
  intro found
  rw [bareWords_eq, List.mem_append] at found
  have clean : w.toList.all isInert = true := by
    rcases found with inside | last
    · exact words w inside
    · rw [Mode.fresh, reached] at last
      exact ended_inert kept dotted '\n' w last
  rw [letters w member] at clean
  cases clean

section Grammar

theorem inert_of_kind {kind : Symbol → Bool} {input : List Symbol}
    (each : ∀ s ∈ input, kind s = true)
    (others : (['"', '#', 'i', 'v'].all fun c => !kind (.char c)) = true) :
    Inert (chars input) := by
  refine inert_of_all (List.all_eq_true.2 fun c member => ?_)
  obtain ⟨s, inside, found⟩ := List.mem_filterMap.1 member
  have here := each s inside
  cases s with
  | stray b => cases found
  | char d =>
    cases found
    rw [isInert, decide_eq_true_iff]
    intro listed
    have outside := List.all_eq_true.1 others c listed
    rw [here] at outside
    cases outside

theorem space_inert {space : List Symbol} (blank : Blank space) : Inert (chars space) :=
  inert_of_kind blank (by decide)

theorem digits_inert {ds : List Symbol} (digits : ∀ s ∈ ds, (digit? s).isSome = true) :
    Inert (chars ds) :=
  inert_of_kind digits (by decide)

theorem unsigned_inert {n : List Symbol} (number : Unsigned n) : Inert (chars n) := by
  have mark (c : Char) (known : isInert c = true) {rest : List Char} (tail : Inert rest) :
      Inert (c :: rest) := .bare known tail
  cases number with
  | parts whole fraction exponent =>
    rw [chars_append, chars_append]
    refine Inert.append ?_ (Inert.append ?_ ?_)
    · cases whole with
      | zero s value => exact digits_inert (by simp [value])
      | digits s rest d value positive more => exact digits_inert (by simpa [value] using more)
    · cases fraction with
      | none => exact .nil
      | some digits => exact mark '.' (by decide) (digits_inert digits.2)
    · cases exponent with
      | none => exact .nil
      | @some s sign ds letter signed digits =>
        have tail := digits_inert digits.2
        have signs : Inert (chars (sign ++ ds)) := by
          cases signed with
          | none => exact tail
          | plus => exact mark '+' (by decide) tail
          | minus => exact mark '-' (by decide) tail
        rcases letter with rfl | rfl
        · exact mark 'e' (by decide) signs
        · exact mark 'E' (by decide) signs

theorem scalar_inert {v : List Symbol} (scalar : Scalar v) : Inert (chars v) := by
  cases scalar with
  | null => exact inert_of_all (by decide)
  | true => exact inert_of_all (by decide)
  | false => exact inert_of_all (by decide)
  | string content => simpa using inert_string (content_enclosed content)
  | positive number => exact unsigned_inert number
  | negative number => exact .bare (by decide) (unsigned_inert number)

theorem derives_inert {part : Json.Part} {input : List Symbol} (derived : Derives part input) :
    Inert (chars input) := by
  have closing (b : Bracket) : Inert (chars [b.closing]) := by
    cases b <;> exact inert_of_all (by decide)
  have opening (b : Bracket) {rest : List Symbol} (tail : Inert (chars rest)) :
      Inert (chars (b.opening :: rest)) := by
    cases b <;> exact .bare (by decide) tail
  induction derived with
  | scalar scalar => exact scalar_inert scalar
  | empty b blank =>
    refine opening b ?_
    rw [chars_append]
    exact (space_inert blank).append (closing b)
  | filled b first rest entry more =>
    refine opening b ?_
    rw [chars_append, chars_append]
    exact entry.append (more.append (closing b))
  | item blank value inert =>
    rw [chars_append]
    exact (space_inert blank).append inert
  | member blank name apart value inert =>
    have colon : Inert (':' :: chars _) := .bare (by decide) inert
    have key := Inert.string (content_enclosed name) ((space_inert apart).append colon)
    simpa using (space_inert blank).append key
  | last b blank => exact space_inert blank
  | next b blank entry rest one more =>
    have comma : Inert (',' :: _) := .bare (by decide) (one.append more)
    simpa using (space_inert blank).append comma

theorem isText_inert {s : String} (text : IsText (ofString s)) : Inert s.toList := by
  obtain ⟨e, space, value, blank, split⟩ := text
  have inert := (derives_inert value).append (space_inert blank)
  rwa [← chars_append, ← split, chars_ofString] at inert

end Grammar

section Words

theorem after_word {cs : List Char} (inside : ∀ c ∈ cs, isNameChar c = true) (word : List Char)
    (dotted : Bool) : (Mode.code word dotted).after cs = .code (cs.reverse ++ word) dotted ∧
      wordsFrom (.code word dotted) cs = [] := by
  induction cs generalizing word with
  | nil => exact ⟨rfl, rfl⟩
  | cons c cs ih =>
    have here := inside c List.mem_cons_self
    have flat : c ≠ '\n' := by
      rintro rfl
      exact absurd here (by decide)
    have step : (Mode.code word dotted).next c = .code (c :: word) dotted := by
      simp [Mode.next, flat, here]
    obtain ⟨reached, none⟩ :=
      ih (fun d member => inside d (List.mem_cons_of_mem c member)) (c :: word)
    constructor
    · simpa [Mode.after, step] using reached
    · simp [wordsFrom, step, none, Mode.ended, here]

theorem bareWords_name {name : String} (identifier : isIdentifier name = true) :
    bareWords name.toList = [name] := by
  obtain ⟨c, rest, chars, -⟩ := identifier_starts identifier
  obtain ⟨reached, none⟩ := after_word (identifier_nameChars identifier) [] false
  have feed : isNameChar '\n' = false := by decide
  have filled : name.toList.reverse.isEmpty = false := by simp [chars]
  rw [bareWords_eq, Mode.fresh, none, reached, List.nil_append, List.append_nil, Mode.ended, feed,
    filled]
  simp

theorem name_mute {name : String} (named : IsName name) : Mute name.toList := by
  obtain ⟨reached, -⟩ := after_word (identifier_nameChars named.1) [] false
  refine ⟨⟨_, false, reached⟩, fun w member => iff_of_false ?_ id⟩
  rw [bareWords_name named.1, List.mem_singleton]
  rintro rfl
  exact named.2 (watched_reserved w member)

theorem after_dotted {cs : List Char} (inside : ∀ c ∈ cs, c = '.' ∨ isNameChar c = true)
    (word : List Char) : (∃ w, (Mode.code word true).after cs = .code w true) ∧
      wordsFrom (.code word true) cs = [] := by
  induction cs generalizing word with
  | nil => exact ⟨⟨word, rfl⟩, rfl⟩
  | cons c cs ih =>
    have step : ∃ w, (Mode.code word true).next c = .code w true := by
      rcases inside c List.mem_cons_self with rfl | here
      · exact ⟨[], rfl⟩
      · have flat : c ≠ '\n' := by
          rintro rfl
          exact absurd here (by decide)
        exact ⟨c :: word, by simp [Mode.next, flat, here]⟩
    obtain ⟨w, reached⟩ := step
    obtain ⟨last, none⟩ := ih (fun d member => inside d (List.mem_cons_of_mem c member)) w
    constructor
    · simpa [Mode.after, reached] using last
    · simp [wordsFrom, reached, none, Mode.ended]

theorem dotted_mute {path : String} (dotted : IsDotted path) : Mute ("input." ++ path).toList := by
  have chars := isPathFrom_chars ((isPath_iff_isDotted path).2 dotted)
  obtain ⟨⟨word, reached⟩, none⟩ := after_dotted chars []
  have front : Mode.fresh.after "input.".toList = .code [] true := by decide
  have words : wordsFrom .fresh "input.".toList = ["input"] := by decide
  rw [String.toList_append]
  refine ⟨⟨word, true, by rw [after_append, front, reached]⟩, fun w member => iff_of_false ?_ id⟩
  intro found
  rw [bareWords_eq, after_append, wordsFrom_append, front, words, none, reached] at found
  have other : ∀ w ∈ watched, w ≠ "input" := by decide
  exact other w member (by simpa [Mode.ended] using found)

theorem after_comment {rest : List Char} (flat : '\n' ∉ rest) :
    Mode.comment.after rest = .comment ∧ wordsFrom .comment rest = [] := by
  induction rest with
  | nil => exact ⟨rfl, rfl⟩
  | cons c rest ih =>
    rw [List.mem_cons, not_or] at flat
    have stays : Mode.comment.next c = .comment := by simp [Mode.next, Ne.symm flat.1]
    obtain ⟨reached, none⟩ := ih flat.2
    constructor
    · simpa [Mode.after, stays] using reached
    · simp [wordsFrom, stays, none, Mode.ended]

theorem comment_speaks {rest : List Char} (flat : '\n' ∉ rest) :
    Speaks ('#' :: rest ++ ['\n']) fun _ => False := by
  obtain ⟨reached, none⟩ := after_comment flat
  have mark : Mode.fresh.next '#' = .comment := by decide
  have blank : bareWords [] = [] := by decide
  have silent : bareWords ('#' :: rest) = [] := by
    rw [bareWords, List.cons_append, wordsFrom, mark, wordsFrom_append, none, reached]
    rfl
  refine ⟨?_, fun w _ => ?_⟩
  · rw [after_append]
    simp [Mode.after, next_feed]
  · rw [bareWords_feed, silent, blank]
    simp

end Words

end RegoPolicy.Rego
