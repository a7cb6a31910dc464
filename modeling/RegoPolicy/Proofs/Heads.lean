import RegoPolicy.Proofs.Names
import RegoPolicy.Proofs.Tokens

/-!
Lines of a Rego module that open a definition, and texts by the number of such lines they show. A
text that is pasted between tokens of its own, as a JSON text is, shows none.
-/
namespace RegoPolicy.Rego

open Policy Json

/-- How a definition may open: as a predicate, as an assignment, as a conditional rule, which is an
    assignment with a body, or as a default rule. -/
inductive Head where
  | predicate
  | assignment
  | conditional
  | fallback
  deriving DecidableEq

def Head.opens (h : Head) (name : String) (line : List Char) : Bool :=
  match h with
  | .predicate => line = (name ++ " if \x7b").toList
  | .assignment => (name ++ " := ").toList.isPrefixOf line
  | .conditional => (name ++ " := ").toList.isPrefixOf line && " if \x7b".toList.isSuffixOf line
  | .fallback => ("default " ++ name ++ " := ").toList.isPrefixOf line

theorem opens_predicate_iff (name : String) (line : List Char) :
    Head.predicate.opens name line = true ↔ line = name.toList ++ ' ' :: "if \x7b".toList := by
  simp [Head.opens]

theorem opens_assignment_iff (name : String) (line : List Char) :
    Head.assignment.opens name line = true ↔ name.toList ++ ' ' :: ":= ".toList <+: line := by
  simp [Head.opens]

theorem opens_conditional_iff (name : String) (line : List Char) :
    Head.conditional.opens name line = true ↔
      Head.assignment.opens name line = true ∧ " if \x7b".toList <:+ line := by
  simp [Head.opens]

theorem opens_fallback_iff (name : String) (line : List Char) :
    Head.fallback.opens name line = true ↔
      "default".toList ++ ' ' :: (name.toList ++ ' ' :: ":= ".toList) <+: line := by
  simp [Head.opens]

def Quiet (line : List Char) : Prop := ∀ h name, IsName name → Head.opens h name line = false

/-- A line in which a quote stands before every equals sign. -/
def Guarded (line : List Char) : Prop := ∀ front rest, line = front ++ '=' :: rest → '"' ∈ front

theorem Guarded.no_assignment {line : List Char} (guarded : Guarded line) {name : String}
    (named : IsName name) : ¬ name.toList ++ ' ' :: ":= ".toList <+: line := by
  rintro ⟨rest, whole⟩
  have quoted := guarded (name.toList ++ [' ', ':']) (' ' :: rest) (by simp [← whole])
  have bare : '"' ∉ name.toList := not_mem_identifier named.1 (by decide)
  simp [bare] at quoted

theorem quiet_of_ends {line : List Char} (noBody : ¬ " if \x7b".toList <:+ line)
    (noDefault : ¬ "default ".toList <+: line) (guarded : Guarded line) : Quiet line := by
  intro h name named
  rw [Bool.eq_false_iff]
  intro opened
  cases h with
  | predicate =>
    rw [opens_predicate_iff] at opened
    exact noBody ⟨name.toList, opened.symm⟩
  | assignment => exact guarded.no_assignment named ((opens_assignment_iff name line).1 opened)
  | conditional => exact noBody ((opens_conditional_iff name line).1 opened).2
  | fallback =>
    rw [opens_fallback_iff] at opened
    have start : "default ".toList <+:
        "default".toList ++ ' ' :: (name.toList ++ ' ' :: ":= ".toList) :=
      ⟨name.toList ++ ' ' :: ":= ".toList, rfl⟩
    exact noDefault (start.trans opened)

theorem quiet_of_start {c : Char} (noLetter : isLetter c = false) (rest : List Char) :
    Quiet (c :: rest) := by
  intro h name named
  obtain ⟨d, others, start, letter⟩ := identifier_starts named.1
  have apart : d ≠ c := by
    rintro rfl
    rw [letter] at noLetter
    cases noLetter
  have notD : 'd' ≠ c := by
    rintro rfl
    exact absurd noLetter (by decide)
  rw [Bool.eq_false_iff]
  cases h with
  | predicate => simp [opens_predicate_iff, start, apart.symm]
  | assignment => simp [opens_assignment_iff, start, List.cons_prefix_cons, apart]
  | conditional =>
    simp [opens_conditional_iff, opens_assignment_iff, start, List.cons_prefix_cons, apart]
  | fallback => simp [opens_fallback_iff, List.cons_prefix_cons, notD]

theorem guarded_of_not_mem {line : List Char} (none : '=' ∉ line) : Guarded line := by
  rintro front rest rfl
  exact absurd (by simp) none

theorem quiet_nil : Quiet [] :=
  quiet_of_ends (by decide) (by decide) (guarded_of_not_mem (by simp))

theorem prefix_separator {a b x y : List Char} (left : ' ' ∉ a) (right : ' ' ∉ b) :
    a ++ ' ' :: x <+: b ++ ' ' :: y ↔ a = b ∧ x <+: y := by
  constructor
  · rintro ⟨rest, whole⟩
    rw [List.append_assoc, List.cons_append] at whole
    obtain ⟨same, others⟩ := eq_of_append_separator left right whole
    exact ⟨same, rest, others⟩
  · rintro ⟨rfl, others⟩
    exact (List.prefix_append_right_inj a).2 (List.cons_prefix_cons.2 ⟨rfl, others⟩)

theorem name_no_space {name : String} (named : IsName name) : ' ' ∉ name.toList :=
  not_mem_identifier named.1 (by decide)

theorem name_not_default {name : String} (named : IsName name) :
    name.toList ≠ "default".toList := by
  intro same
  have word : name = "default" := String.toList_injective same
  exact named.2 (by rw [word]; decide)

section Openings

variable {name own : String} (named : IsName name) (owned : IsName own)

include named owned

theorem predicate_opens (h : Head) :
    h.opens name (own.toList ++ ' ' :: "if \x7b".toList) =
      decide (h = .predicate ∧ own = name) := by
  have spaceless := name_no_space owned
  have unassigned : Head.assignment.opens name (own.toList ++ ' ' :: "if \x7b".toList) ≠ true := by
    rw [Ne, opens_assignment_iff, prefix_separator (name_no_space named) spaceless]
    simp
  rw [Bool.eq_iff_iff, decide_eq_true_iff]
  cases h with
  | predicate => simp [opens_predicate_iff, String.toList_inj]
  | assignment => simp only [unassigned, reduceCtorEq, false_and]
  | conditional => simp only [opens_conditional_iff, unassigned, reduceCtorEq, false_and]
  | fallback =>
    rw [opens_fallback_iff, prefix_separator (by decide) spaceless]
    simpa using fun same => absurd same.symm (name_not_default owned)

theorem assignment_opens (h : Head) (value : List Char) :
    h.opens name (own.toList ++ ' ' :: (":= ".toList ++ value)) =
      decide ((h = .assignment ∨ (h = .conditional ∧
        " if \x7b".toList <:+ own.toList ++ ' ' :: (":= ".toList ++ value))) ∧ own = name) := by
  have spaceless := name_no_space owned
  have assigned : Head.assignment.opens name (own.toList ++ ' ' :: (":= ".toList ++ value)) = true ↔
      own = name := by
    rw [opens_assignment_iff, prefix_separator (name_no_space named) spaceless, String.toList_inj,
      eq_comm]
    simp only [List.prefix_append, and_true]
  rw [Bool.eq_iff_iff, decide_eq_true_iff]
  cases h with
  | predicate =>
    have differs : own.toList ++ ' ' :: (":= ".toList ++ value) ≠
        name.toList ++ ' ' :: "if \x7b".toList := by
      intro same
      have tails := (eq_of_append_separator spaceless (name_no_space named) same).2
      simp at tails
    simp only [opens_predicate_iff, differs, reduceCtorEq, false_and, or_false]
  | assignment => simp only [assigned, reduceCtorEq, true_or, true_and]
  | conditional =>
    simp only [opens_conditional_iff, assigned, reduceCtorEq, false_or, true_and]
    exact and_comm
  | fallback =>
    rw [opens_fallback_iff, prefix_separator (by decide) spaceless]
    simp only [reduceCtorEq, false_and, or_false, iff_false]
    exact fun same => name_not_default owned same.1.symm

theorem fallback_opens (h : Head) (value : List Char) :
    h.opens name ("default".toList ++ ' ' :: (own.toList ++ ' ' :: (":= ".toList ++ value))) =
      decide (h = .fallback ∧ own = name) := by
  have spaceless := name_no_space named
  have other := name_not_default named
  have unassigned (rest : List Char) :
      Head.assignment.opens name ("default".toList ++ ' ' :: rest) ≠ true := by
    rw [Ne, opens_assignment_iff, prefix_separator spaceless (by decide)]
    exact fun same => other same.1
  rw [Bool.eq_iff_iff, decide_eq_true_iff]
  cases h with
  | predicate =>
    have differs : "default".toList ++ ' ' :: (own.toList ++ ' ' :: (":= ".toList ++ value)) ≠
        name.toList ++ ' ' :: "if \x7b".toList := by
      intro same
      exact other (eq_of_append_separator (by decide) spaceless same).1.symm
    simp only [opens_predicate_iff, differs, reduceCtorEq, false_and]
  | assignment => simp only [unassigned, reduceCtorEq, false_and]
  | conditional => simp only [opens_conditional_iff, unassigned, reduceCtorEq, false_and]
  | fallback =>
    rw [opens_fallback_iff, prefix_separator (by decide) (by decide),
      prefix_separator spaceless (name_no_space owned)]
    simp only [List.prefix_append, and_true, true_and]
    rw [String.toList_inj, eq_comm]

end Openings

def Ended (text : List Char) : Prop := text = [] ∨ ∃ front, text = front ++ ['\n']

theorem Ended.append {a b : List Char} (left : Ended a) (right : Ended b) : Ended (a ++ b) := by
  rcases right with rfl | ⟨front, rfl⟩
  · simpa using left
  · exact .inr ⟨a ++ front, by simp⟩

theorem splitOn_ended (texts : List (List Char)) (rest : List Char) :
    ((texts.flatMap fun text => text ++ ['\n']) ++ rest).splitOn '\n' =
      texts.flatMap (·.splitOn '\n') ++ rest.splitOn '\n' := by
  induction texts with
  | nil => rfl
  | cons text texts ih =>
    rw [List.flatMap_cons, List.append_assoc, List.append_assoc, List.singleton_append,
      List.splitOn_append_cons_self, ih, List.flatMap_cons, List.append_assoc]

theorem flatMap_splitOn_flat {texts : List (List Char)} (flat : ∀ text ∈ texts, '\n' ∉ text) :
    texts.flatMap (·.splitOn '\n') = texts := by
  induction texts with
  | nil => rfl
  | cons text texts ih =>
    have here := List.splitOn_eq_singleton (flat text List.mem_cons_self)
    have others := ih fun other member => flat other (List.mem_cons_of_mem text member)
    rw [List.flatMap_cons, here, others, List.singleton_append]

theorem splitOn_flat (cs : List Char) : ∀ line ∈ cs.splitOn '\n', '\n' ∉ line := by
  induction cs with
  | nil => simp
  | cons c cs ih =>
    obtain ⟨first, others, split⟩ := List.exists_cons_of_ne_nil (List.splitOn_ne_nil '\n' cs)
    rw [List.splitOn_cons_eq_if_modifyHead]
    rw [split] at ih ⊢
    by_cases feed : c = '\n'
    · simpa [feed] using ih
    · simpa [feed, Ne.symm feed] using ih

theorem flatMap_splitOn_iff (texts : List (List Char)) :
    texts.flatMap (·.splitOn '\n') = texts ↔ ∀ text ∈ texts, '\n' ∉ text := by
  constructor
  · intro same text member
    rw [← same] at member
    obtain ⟨whole, -, line⟩ := List.mem_flatMap.1 member
    exact splitOn_flat whole text line
  · exact flatMap_splitOn_flat

/-- A text of whole lines, with the number of its lines that open a definition. -/
structure Shows (text : List Char) (count : Head → String → Nat) : Prop where
  ended : text = [] ∨ ∃ front, text = front ++ ['\n']
  counted : ∀ h name, IsName name → (text.splitOn '\n').countP (h.opens name) = count h name

theorem Shows.recount {text : List Char} {m n : Head → String → Nat} (shown : Shows text m)
    (same : ∀ h name, IsName name → m h name = n h name) : Shows text n :=
  ⟨shown.ended, fun h name named => (shown.counted h name named).trans (same h name named)⟩

theorem shows_nil : Shows [] fun _ _ => 0 := by
  refine ⟨.inl rfl, fun h name named => ?_⟩
  simp [quiet_nil h name named]

theorem countP_feed (p : List Char → Bool) (a b : List Char) :
    ((a ++ '\n' :: b).splitOn '\n').countP p =
      (a.splitOn '\n').countP p + (b.splitOn '\n').countP p := by
  rw [List.splitOn_append_cons_self, List.countP_append]

theorem Shows.append {a b : List Char} {m n : Head → String → Nat} (left : Shows a m)
    (right : Shows b n) : Shows (a ++ b) fun h name => m h name + n h name := by
  refine ⟨Ended.append left.ended right.ended, fun h name named => ?_⟩
  rw [← left.counted h name named, ← right.counted h name named]
  rcases left.ended with rfl | ⟨front, rfl⟩
  · simp [quiet_nil h name named]
  · have closed := countP_feed (h.opens name) front []
    rw [List.append_assoc, List.singleton_append, countP_feed, closed]
    simp [quiet_nil h name named]

theorem shows_flatMap {α : Type} {l : List α} {write : α → List Char}
    (opened : Head → String → α → Bool)
    (each : ∀ a ∈ l, Shows (write a) fun h name => (opened h name a).toNat) :
    Shows (l.flatMap write) fun h name => l.countP (opened h name) := by
  induction l with
  | nil => exact shows_nil
  | cons a l ih =>
    have others := ih fun b member => each b (List.mem_cons_of_mem a member)
    refine ((each a List.mem_cons_self).append others).recount fun h name _ => ?_
    rw [List.countP_cons, Nat.add_comm]
    cases opened h name a <;> rfl

theorem shows_lines {text first : List Char} {rest : List (List Char)}
    (split : text.splitOn '\n' = first :: rest) (quiet : ∀ line ∈ rest, Quiet line) :
    Shows (text ++ ['\n']) fun h name => (h.opens name first).toNat := by
  refine ⟨.inr ⟨text, rfl⟩, fun h name named => ?_⟩
  have none : rest.countP (h.opens name) = 0 := by
    rw [List.countP_eq_zero]
    intro line member
    simp [quiet line member h name named]
  rw [countP_feed, split, List.countP_cons, none]
  cases h.opens name first <;> simp [quiet_nil h name named]

theorem shows_line {line : List Char} (flat : '\n' ∉ line) :
    Shows (line ++ ['\n']) fun h name => (h.opens name line).toNat :=
  shows_lines (List.splitOn_eq_singleton flat) (by simp)

def Hushed (text : List Char) : Prop := Shows text fun _ _ => 0

theorem Hushed.append {a b : List Char} (left : Hushed a) (right : Hushed b) : Hushed (a ++ b) :=
  Shows.append left right

theorem Shows.hushed {text first : List Char} (quiet : Quiet first)
    (shown : Shows text fun h name => (h.opens name first).toNat) : Hushed text :=
  shown.recount fun h name named => by rw [quiet h name named]; rfl

theorem hushed_line {line : List Char} (flat : '\n' ∉ line) (quiet : Quiet line) :
    Hushed (line ++ ['\n']) :=
  (shows_line flat).hushed quiet

theorem hushed_blank : Hushed ['\n'] := by
  have line : Hushed ([] ++ ['\n']) := hushed_line (by simp) quiet_nil
  exact line

theorem hushed_flatMap {α : Type} {l : List α} {write : α → List Char}
    (each : ∀ a ∈ l, Hushed (write a)) : Hushed (l.flatMap write) := by
  induction l with
  | nil => exact shows_nil
  | cons a l ih =>
    have others := ih fun b member => each b (List.mem_cons_of_mem a member)
    simpa using (each a List.mem_cons_self).append others

/-- A text in front of a token with which no `if` and its brace have begun. -/
structure Settled (pre : List Char) : Prop where
  word : ¬ ['f'] <:+ pre
  space : ¬ ['f', ' '] <:+ pre
  brace : ¬ ['f', ' ', '{'] <:+ pre

theorem settled_nil : Settled [] := ⟨by simp, by simp, by simp⟩

theorem concat_suffix_concat {a b : List Char} {c d : Char} :
    a ++ [c] <:+ b ++ [d] ↔ c = d ∧ a <:+ b := by
  rw [← List.reverse_prefix]
  simp [List.cons_prefix_cons, List.reverse_prefix]

theorem Settled.no_body {pre : List Char} (settled : Settled pre) :
    ¬ " if \x7b".toList <:+ pre := by
  intro ends
  have brace : ['f', ' ', '{'] <:+ " if \x7b".toList := ⟨[' ', 'i'], rfl⟩
  exact settled.brace (brace.trans ends)

theorem Settled.token {pre t : List Char} (settled : Settled pre) (token : Token t) :
    Settled (pre ++ t) := by
  obtain ⟨front, c, rfl, notF, alone⟩ := token.stop
  rw [← List.append_assoc]
  refine ⟨?_, ?_, ?_⟩
  · intro ends
    have last := concat_suffix_concat (a := []) |>.1 ends
    exact notF last.1.symm
  · intro ends
    obtain ⟨rfl, before⟩ := concat_suffix_concat (a := ['f']) |>.1 ends
    rw [alone (.inl rfl), List.append_nil] at before
    exact settled.word before
  · intro ends
    obtain ⟨rfl, before⟩ := concat_suffix_concat (a := ['f', ' ']) |>.1 ends
    rw [alone (.inr rfl), List.append_nil] at before
    exact settled.space before

def Calm (tail : List Char) : Prop :=
  ∃ a b, [a, b] <:+ tail ∧ a ≠ 'f' ∧ b ≠ 'f' ∧ b ≠ '{'

theorem Calm.settled {tail : List Char} (calm : Calm tail) (front : List Char) :
    Settled (front ++ tail) := by
  obtain ⟨a, b, ⟨body, rfl⟩, notF, lastF, lastBrace⟩ := calm
  have split : front ++ (body ++ [a, b]) = ((front ++ body) ++ [a]) ++ [b] := by simp
  rw [split]
  refine ⟨?_, ?_, ?_⟩
  · intro ends
    exact lastF ((concat_suffix_concat (a := [])).1 ends).1.symm
  · intro ends
    have before := ((concat_suffix_concat (a := ['f'])).1 ends).2
    exact notF ((concat_suffix_concat (a := [])).1 before).1.symm
  · intro ends
    exact lastBrace ((concat_suffix_concat (a := ['f', ' '])).1 ends).1.symm

def Apart (pre : List Char) : Prop := ∀ rest, ¬ "default ".toList <+: pre ++ rest

theorem apart_cons {c : Char} (notD : c ≠ 'd') (rest : List Char) : Apart (c :: rest) := by
  intro more start
  exact notD (List.cons_prefix_cons.1 start).1.symm

theorem Apart.append {pre : List Char} (apart : Apart pre) (rest : List Char) :
    Apart (pre ++ rest) := by
  intro more
  rw [List.append_assoc]
  exact apart (rest ++ more)

theorem apart_token {t : List Char} (token : Token t) : Apart t := by
  obtain ⟨c, rest, rfl, notD⟩ := token.start
  exact apart_cons notD rest

theorem Guarded.token {pre t : List Char} (guarded : Guarded pre) (token : Token t) :
    Guarded (pre ++ t) := by
  intro front rest whole
  rcases List.append_eq_append_iff.1 whole with ⟨more, before, after⟩ | ⟨more, before, after⟩
  · -- the equals sign stands in the token, so the token is a string
    obtain ⟨quoted, shape⟩ := token.equals (by simp [after])
    rw [shape] at after
    cases more with
    | nil => cases after
    | cons c more =>
      obtain ⟨rfl, -⟩ := List.cons.inj after
      simp [before]
  · cases more with
    | nil =>
      rw [List.nil_append] at after
      obtain ⟨quoted, shape⟩ := token.equals (after ▸ List.mem_cons_self)
      rw [shape] at after
      cases after
    | cons c more =>
      obtain ⟨rfl, -⟩ := List.cons.inj after
      exact guarded front more before

structure Closing (post : List Char) : Prop where
  flat : '\n' ∉ post
  start : post.head? ≠ some 'd'
  stop : post.getLast? ≠ some '{'
  equals : '=' ∉ post

theorem closing_nil : Closing [] := ⟨by simp, by simp, by simp, by simp⟩

theorem Closing.no_body {pre post : List Char} (settled : Settled pre) (closing : Closing post) :
    ¬ " if \x7b".toList <:+ pre ++ post := by
  intro ends
  rcases List.eq_nil_or_concat post with rfl | ⟨front, c, rfl⟩
  · rw [List.append_nil] at ends
    exact settled.no_body ends
  · have same : [' ', 'i', 'f', ' '] ++ ['{'] <:+ (pre ++ front) ++ [c] := by simpa using ends
    rw [concat_suffix_concat] at same
    exact closing.stop (by simp [← same.1])

theorem Closing.no_default {post : List Char} (closing : Closing post) :
    ¬ "default ".toList <+: post := by
  rintro ⟨rest, rfl⟩
  exact closing.start rfl

theorem Closing.guarded {pre post : List Char} (guarded : Guarded pre) (closing : Closing post) :
    Guarded (pre ++ post) := by
  intro front rest whole
  rcases List.append_eq_append_iff.1 whole with ⟨more, before, after⟩ | ⟨more, before, after⟩
  · exact absurd (by simp [after]) closing.equals
  · cases more with
    | nil =>
      rw [List.nil_append] at after
      exact absurd (after ▸ List.mem_cons_self) closing.equals
    | cons c more =>
      obtain ⟨rfl, -⟩ := List.cons.inj after
      exact guarded front more before

/-- No line of a run of tokens opens a definition. The induction goes along the tokens with the open
    line in front of them, which is either empty or bound to start no default rule. -/
theorem run_lines_quiet {body pre post : List Char} (run : Run body) (flat : '\n' ∉ pre)
    (settled : Settled pre) (apart : pre = [] ∨ Apart pre) (guarded : Guarded pre)
    (closing : Closing post) :
    ∀ line ∈ (pre ++ (body ++ post)).splitOn '\n', Quiet line := by
  induction run generalizing pre with
  | nil =>
    rw [List.nil_append, List.splitOn_eq_singleton (by simp [flat, closing.flat])]
    intro line member
    rw [List.mem_singleton.1 member]
    refine quiet_of_ends (closing.no_body settled) ?_ (closing.guarded guarded)
    rcases apart with rfl | apart
    · exact closing.no_default
    · exact apart post
  | @cons t rest token tail ih =>
    rcases token.line with rfl | inside
    · -- a line feed closes the open line, and the rest starts with an empty one
      rw [List.append_assoc, List.singleton_append, List.splitOn_append_cons_self,
        List.splitOn_eq_singleton flat, List.singleton_append]
      intro line member
      rcases List.mem_cons.1 member with rfl | later
      · refine quiet_of_ends settled.no_body ?_ guarded
        rcases apart with rfl | apart
        · decide
        · simpa using apart []
      · exact ih (by simp) settled_nil (.inl rfl) (guarded_of_not_mem (by simp)) line later
    · have starts : Apart (pre ++ t) := by
        rcases apart with rfl | apart
        · exact apart_token token
        · exact apart.append t
      have lines := ih (by simp [flat, inside]) (settled.token token) (.inr starts)
        (guarded.token token)
      simpa using lines

/-- A run of tokens after the start of a line ends that line without a body and goes on with lines
    that open nothing. -/
theorem run_first_line {body pre post : List Char} (run : Run body) (flat : '\n' ∉ pre)
    (settled : Settled pre) (closing : Closing post) :
    ∃ first rest, (pre ++ (body ++ post)).splitOn '\n' = (pre ++ first) :: rest ∧
      ¬ " if \x7b".toList <:+ pre ++ first ∧ ∀ line ∈ rest, Quiet line := by
  induction run generalizing pre with
  | nil =>
    refine ⟨post, [], ?_, closing.no_body settled, by simp⟩
    rw [List.nil_append, List.splitOn_eq_singleton (by simp [flat, closing.flat])]
  | @cons t rest token tail ih =>
    rcases token.line with rfl | inside
    · refine ⟨[], (rest ++ post).splitOn '\n', ?_, ?_, ?_⟩
      · rw [List.append_assoc, List.singleton_append, List.splitOn_append_cons_self,
          List.splitOn_eq_singleton flat, List.append_nil, List.singleton_append]
      · simpa using settled.no_body
      · exact run_lines_quiet tail (by simp) settled_nil (.inl rfl)
          (guarded_of_not_mem (by simp)) closing
    · obtain ⟨first, lines, split, noBody, quiet⟩ :=
        ih (by simp [flat, inside]) (settled.token token)
      exact ⟨t ++ first, lines, by simpa using split, by simpa using noBody, quiet⟩

end RegoPolicy.Rego
