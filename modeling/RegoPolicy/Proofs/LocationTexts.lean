import RegoPolicy.Proofs.ReportLines

/-!
Locations by their texts. A quoted name ends where its closing quote stands and can be read back
from what is shown, so that a location is known from its text. Every condition of a document is told
under a location of its own, whatever the names of the predicates are.
-/
namespace RegoPolicy.Text

open Policy (eq_of_append_separator)

theorem toDigits_last {base : Nat} (least : 1 < base) (n : Nat) :
    Nat.toDigits base n =
      (if n < base then [] else Nat.toDigits base (n / base)) ++ [Nat.digitChar (n % base)] := by
  rw [Nat.toDigits_eq_if least]
  split
  · rename_i small
    rw [Nat.mod_eq_of_lt small, List.nil_append]
  · rfl

theorem toDigits_inj {base : Nat} (least : 1 < base) (most : base ≤ 16) {m n : Nat}
    (same : Nat.toDigits base m = Nat.toDigits base n) : m = n := by
  have digits : ∀ a < 16, ∀ b < 16, Nat.digitChar a = Nat.digitChar b → a = b := by decide
  induction m using Nat.strongRecOn generalizing n with
  | ind m ih =>
    have leftDigit : m % base < base := Nat.mod_lt m (by omega)
    have rightDigit : n % base < base := Nat.mod_lt n (by omega)
    rw [toDigits_last least m, toDigits_last least n] at same
    obtain ⟨fronts, lasts⟩ := List.append_inj' same rfl
    have last : m % base = n % base :=
      digits _ (by omega) _ (by omega) (List.cons.inj lasts).1
    have front : m / base = n / base := by
      by_cases leftSmall : m < base
      · by_cases rightSmall : n < base
        · rw [Nat.div_eq_of_lt leftSmall, Nat.div_eq_of_lt rightSmall]
        · rw [if_pos leftSmall, if_neg rightSmall] at fronts
          exact absurd fronts.symm Nat.toDigits_ne_nil
      · by_cases rightSmall : n < base
        · rw [if_neg leftSmall, if_pos rightSmall] at fronts
          exact absurd fronts Nat.toDigits_ne_nil
        · rw [if_neg leftSmall, if_neg rightSmall] at fronts
          exact ih (m / base) (Nat.div_lt_self (by omega) least) fronts
    rw [← Nat.div_add_mod m base, ← Nat.div_add_mod n base, last, front]

def shortForms : List (Char × Char) :=
  [('"', '"'), ('\\', '\\'), ('\n', 'n'), ('\r', 'r'), ('\t', 't'), ('\x00', '0')]

inductive ShownAs (c : Char) : List Char → Prop where
  | letter {l : Char} (listed : (c, l) ∈ shortForms) : ShownAs c ['\\', l]
  | number : ShownAs c ('\\' :: 'u' :: '{' :: (hexDigits c.toNat ++ ['}']))
  | plain (quote : c ≠ '"') (slash : c ≠ '\\') : ShownAs c [c]

theorem shown_shownAs (c : Char) : ShownAs c (shown c) := by
  unfold shown
  iterate 6 (split; · rename_i same; subst same; exact .letter (by decide))
  split
  · exact .number
  · rename_i quote slash _ _ _ _ _
    exact .plain quote slash

theorem shortForms_inj {c d l : Char} (left : (c, l) ∈ shortForms) (right : (d, l) ∈ shortForms) :
    c = d := by
  simp only [shortForms, List.mem_cons, List.not_mem_nil, or_false, Prod.mk.injEq] at left right
  rcases left with ⟨rfl, rfl⟩ | ⟨rfl, rfl⟩ | ⟨rfl, rfl⟩ | ⟨rfl, rfl⟩ | ⟨rfl, rfl⟩ | ⟨rfl, rfl⟩ <;>
    simpa [eq_comm] using right

theorem shortForms_no_number (c : Char) : (c, 'u') ∉ shortForms := by
  simp [shortForms]

theorem hexDigits_no_brace (n : Nat) : '}' ∉ hexDigits n :=
  not_mem_toDigits (by decide) (by decide) (by decide) n

/-- What shows a character is no front part of what shows another one. -/
theorem ShownAs.append_inj {c d : Char} {s t x y : List Char} (left : ShownAs c s)
    (right : ShownAs d t) (same : s ++ x = t ++ y) : c = d ∧ x = y := by
  cases left with
  | letter listed =>
    cases right with
    | letter other =>
      simp only [List.cons_append, List.nil_append, List.cons.injEq, true_and] at same
      obtain ⟨rfl, tails⟩ := same
      exact ⟨shortForms_inj listed other, tails⟩
    | number =>
      simp only [List.cons_append, List.nil_append, List.cons.injEq, true_and] at same
      exact absurd (same.1 ▸ listed) (shortForms_no_number c)
    | plain quote slash => exact absurd (List.cons.inj same).1.symm slash
  | number =>
    cases right with
    | letter other =>
      simp only [List.cons_append, List.nil_append, List.cons.injEq, true_and] at same
      exact absurd (same.1 ▸ other) (shortForms_no_number d)
    | number =>
      simp only [List.cons_append, List.append_assoc, List.nil_append, List.cons.injEq,
        true_and] at same
      obtain ⟨digits, tails⟩ :=
        eq_of_append_separator (hexDigits_no_brace _) (hexDigits_no_brace _) same
      exact ⟨Char.toNat_inj.1 (toDigits_inj (by decide) (by decide) digits), tails⟩
    | plain quote slash => exact absurd (List.cons.inj same).1.symm slash
  | plain quote slash =>
    cases right with
    | letter other => exact absurd (List.cons.inj same).1 slash
    | number => exact absurd (List.cons.inj same).1 slash
    | plain _ _ => exact List.cons.inj same

theorem ShownAs.no_quote {c : Char} {s x y : List Char} (shows : ShownAs c s) :
    s ++ x ≠ '"' :: y := by
  cases shows with
  | letter listed => simp
  | number => simp
  | plain quote slash => simp [quote]

/-- The quote that ends a name is not shown inside it. -/
theorem content_append_inj {a b x y : List Char}
    (same : a.flatMap shown ++ '"' :: x = b.flatMap shown ++ '"' :: y) : a = b ∧ x = y := by
  induction a generalizing b with
  | nil =>
    cases b with
    | nil => exact ⟨rfl, (List.cons.inj same).2⟩
    | cons d b =>
      rw [List.flatMap_cons, List.append_assoc] at same
      exact absurd same.symm (shown_shownAs d).no_quote
  | cons c a ih =>
    cases b with
    | nil =>
      rw [List.flatMap_cons, List.append_assoc] at same
      exact absurd same (shown_shownAs c).no_quote
    | cons d b =>
      rw [List.flatMap_cons, List.flatMap_cons, List.append_assoc, List.append_assoc] at same
      obtain ⟨first, others⟩ := (shown_shownAs c).append_inj (shown_shownAs d) same
      obtain ⟨rest, tails⟩ := ih others
      exact ⟨by rw [first, rest], tails⟩

theorem quoted_append_inj {a b : String} {x y : List Char}
    (same : (quoted a).toList ++ x = (quoted b).toList ++ y) : a = b ∧ x = y := by
  simp only [quoted, String.toList_ofList, List.append_assoc, List.cons_append, List.nil_append,
    List.cons.injEq, true_and] at same
  obtain ⟨names, tails⟩ := content_append_inj same
  exact ⟨String.toList_inj.1 names, tails⟩

end RegoPolicy.Text

namespace RegoPolicy.Policy

open Text

theorem bracketed_chars (n : Nat) :
    (bracketed n).toList = '[' :: (Nat.toDigits 10 n ++ [']']) := by
  simp [bracketed]

theorem bracketed_append_inj {m n : Nat} {x y : List Char}
    (same : (bracketed m).toList ++ x = (bracketed n).toList ++ y) : m = n ∧ x = y := by
  have noBracket (k : Nat) : ']' ∉ Nat.toDigits 10 k :=
    not_mem_toDigits (by decide) (by decide) (by decide) k
  simp only [bracketed_chars, List.cons_append, List.append_assoc, List.nil_append,
    List.cons.injEq, true_and] at same
  obtain ⟨digits, tails⟩ := eq_of_append_separator (noBracket m) (noBracket n) same
  exact ⟨toDigits_inj (by decide) (by decide) digits, tails⟩

theorem titled_inj {title : String} {m n : Nat} {a b : String}
    (same : title ++ bracketed m ++ " " ++ quoted a = title ++ bracketed n ++ " " ++ quoted b) :
    m = n ∧ a = b := by
  have chars := congrArg String.toList same
  simp only [String.toList_append, List.append_assoc] at chars
  obtain ⟨places, names⟩ := bracketed_append_inj (List.append_cancel_left chars)
  have inner := List.append_cancel_left names
  exact ⟨places, (quoted_append_inj (x := []) (y := []) (by simpa using inner)).1⟩

def blockText (block : Option Nat) : List Char := (block.map fun n => (bracketed n).toList).getD []

theorem blockText_append_inj {a b : Option Nat} {x y : List Char}
    (same : blockText a ++ ' ' :: x = blockText b ++ ' ' :: y) : a = b ∧ x = y := by
  cases a with
  | none =>
    cases b with
    | none => exact ⟨rfl, (List.cons.inj same).2⟩
    | some n => simp [blockText, bracketed_chars] at same
  | some m =>
    cases b with
    | none => simp [blockText, bracketed_chars] at same
    | some n =>
      obtain ⟨blocks, tails⟩ := bracketed_append_inj same
      exact ⟨congrArg some blocks, (List.cons.inj tails).2⟩

theorem condition_chars (owner : String) (block : Option Nat) (index : Nat) :
    (Location.condition owner block index).text.toList =
      "predicate ".toList ++ ((quoted owner).toList ++
        (blockText block ++ (' ' :: ("condition".toList ++ (bracketed index).toList)))) := by
  cases block <;> simp [Location.text, blockText]

theorem condition_text_ne {title : String} (listed : title ∈ ["constant", "predicate", "rule"])
    (owner : String) (block : Option Nat) (index place : Nat) (name : String) :
    (Location.condition owner block index).text ≠
      title ++ bracketed place ++ " " ++ quoted name := by
  intro same
  have chars := congrArg String.toList same
  rw [condition_chars] at chars
  simp only [List.mem_cons, List.not_mem_nil, or_false] at listed
  rcases listed with rfl | rfl | rfl <;> simp [bracketed_chars] at chars

/-- A location is known from its text. -/
theorem location_text_injective : Function.Injective Location.text := by
  intro l m same
  have chars := congrArg String.toList same
  cases l with
  | constant i a =>
    cases m with
    | constant j b =>
      obtain ⟨rfl, rfl⟩ := titled_inj same
      rfl
    | condition owner block j =>
      exact absurd same.symm (condition_text_ne (by decide) owner block j i a)
    | predicate | rule => simp [Location.text] at chars
  | predicate i a =>
    cases m with
    | predicate j b =>
      obtain ⟨rfl, rfl⟩ := titled_inj same
      rfl
    | condition owner block j =>
      exact absurd same.symm (condition_text_ne (by decide) owner block j i a)
    | constant | rule => simp [Location.text] at chars
  | rule i a =>
    cases m with
    | rule j b =>
      obtain ⟨rfl, rfl⟩ := titled_inj same
      rfl
    | condition owner block j =>
      exact absurd same.symm (condition_text_ne (by decide) owner block j i a)
    | constant | predicate => simp [Location.text] at chars
  | condition owner block i =>
    cases m with
    | condition owner' block' j =>
      rw [condition_chars, condition_chars] at chars
      obtain ⟨rfl, rest⟩ := quoted_append_inj (List.append_cancel_left chars)
      obtain ⟨rfl, words⟩ := blockText_append_inj rest
      have places := List.append_cancel_left words
      obtain ⟨rfl, _⟩ := bracketed_append_inj (x := []) (y := []) (by simpa using places)
      rfl
    | constant j b | predicate j b | rule j b =>
      exact absurd same (condition_text_ne (by decide) owner block i j b)

/-- The place of a condition: the declaration that it stands in, and its place there. -/
structure Document.Spot (doc : Document) where
  declaration : Fin doc.predicates.length
  place : Fin (doc.predicates.get declaration).conditions.length

namespace Document.Spot

variable {doc : Document}

def predicate (s : doc.Spot) : Predicate := doc.predicates.get s.declaration

def condition (s : doc.Spot) : Condition := s.predicate.conditions.get s.place

def rank (s : doc.Spot) : Nat :=
  (doc.predicates.take s.declaration).countP fun p => p.name = s.predicate.name

def blocks (s : doc.Spot) : Nat := doc.predicates.countP fun p => p.name = s.predicate.name

def location (s : doc.Spot) : Location :=
  .condition s.predicate.name (if 1 < s.blocks then some s.rank else none) s.place

end Document.Spot

/-- An element that is kept has as many kept ones before it as its new place says. -/
theorem getElem?_filter_countP {α : Type} (kept : α → Bool) {l : List α} {k : Nat} {a : α}
    (stands : l[k]? = some a) (keeps : kept a = true) :
    (l.filter kept)[(l.take k).countP kept]? = some a := by
  obtain ⟨inside, rfl⟩ := List.getElem?_eq_some_iff.1 stands
  have split : l.filter kept =
      (l.take k).filter kept ++ l[k] :: (l.drop (k + 1)).filter kept := by
    conv => lhs; rw [← List.take_append_drop k l, List.drop_eq_getElem_cons inside]
    rw [List.filter_append, List.filter_cons_of_pos keeps]
  rw [split, List.countP_eq_length_filter]
  simp

theorem countP_take_lt {α : Type} (kept : α → Bool) {l : List α} {j k : Nat} {a : α}
    (stands : l[j]? = some a) (keeps : kept a = true) (before : j < k) :
    (l.take j).countP kept < (l.take k).countP kept := by
  obtain ⟨inside, rfl⟩ := List.getElem?_eq_some_iff.1 stands
  have one : (l.take (j + 1)).countP kept = (l.take j).countP kept + 1 := by
    rw [List.take_succ_eq_append_getElem inside, List.countP_append,
      List.countP_singleton, if_pos keeps]
  have front : (l.take (j + 1)).Sublist (l.take k) := (List.take_prefix_take_left before).sublist
  have more : (l.take (j + 1)).countP kept ≤ (l.take k).countP kept := front.countP_le
  omega

namespace Document.Spot

variable {doc : Document}

theorem stands (s : doc.Spot) : doc.predicates[s.declaration.val]? = some s.predicate :=
  List.getElem?_eq_getElem s.declaration.isLt

theorem rank_lt_blocks (s : doc.Spot) : s.rank < s.blocks := by
  have all := countP_take_lt (fun p => p.name = s.predicate.name) s.stands (by simp)
    s.declaration.isLt
  rwa [List.take_length] at all

theorem rank_lt_rank {s t : doc.Spot} (same : s.predicate.name = t.predicate.name)
    (before : s.declaration.val < t.declaration.val) : s.rank < t.rank := by
  have lt := countP_take_lt (fun p => p.name = t.predicate.name) s.stands (by simp [same]) before
  rw [rank, same]
  exact lt

/-- Declarations of one predicate are numbered as soon as there are two of them. -/
theorem not_before_of_location_eq {s t : doc.Spot} (same : s.location = t.location) :
    ¬ s.declaration.val < t.declaration.val := by
  intro before
  obtain ⟨names, numbers, _⟩ := Location.condition.inj same
  have rises := rank_lt_rank names before
  have bounded := t.rank_lt_blocks
  have blocks : s.blocks = t.blocks := by rw [Spot.blocks, names, Spot.blocks]
  rw [if_pos (by omega), if_pos (by omega)] at numbers
  have ranks := Option.some.inj numbers
  omega

theorem location_injective : Function.Injective (location : doc.Spot → Location) := by
  intro s t same
  have declarations : s.declaration = t.declaration := by
    apply Fin.ext
    have left := not_before_of_location_eq same
    have right := not_before_of_location_eq same.symm
    omega
  obtain ⟨_, _, places⟩ := Location.condition.inj same
  obtain ⟨declaration, place⟩ := s
  obtain ⟨declaration', place'⟩ := t
  obtain rfl : declaration = declaration' := declarations
  obtain rfl : place = place' := Fin.ext places
  rfl

end Document.Spot

theorem filter_findingsAt (l m : Location) (issues : List Issue) :
    ((findingsAt l issues).filter fun f => f.location = m) =
      if l = m then findingsAt l issues else [] := by
  unfold findingsAt
  by_cases same : l = m
  · simp [same]
  · simp [same]

theorem flatMap_single {α β : Type} {l : List α} {f : α → List β} {a : α} (distinct : l.Nodup)
    (member : a ∈ l) (others : ∀ b ∈ l, b ≠ a → f b = []) : l.flatMap f = f a := by
  induction l with
  | nil => cases member
  | cons b l ih =>
    obtain ⟨absent, rest⟩ := List.nodup_cons.1 distinct
    rw [List.flatMap_cons]
    rcases List.mem_cons.1 member with rfl | later
    · have none : l.flatMap f = [] := List.flatMap_eq_nil_iff.2 fun c inside =>
        others c (List.mem_cons_of_mem _ inside) fun same => absent (same ▸ inside)
      rw [none, List.append_nil]
    · have silent : f b = [] :=
        others b List.mem_cons_self fun same => absent (same ▸ later)
      rw [silent, List.nil_append]
      exact ih rest later fun c inside => others c (List.mem_cons_of_mem _ inside)

theorem zipIdx_flatMap_single {α β : Type} {l : List α} {f : α × Nat → List β} {a : α} {k : Nat}
    (stands : l[k]? = some a) (others : ∀ b j, l[j]? = some b → j ≠ k → f (b, j) = []) :
    l.zipIdx.flatMap f = f (a, k) := by
  have distinct : l.zipIdx.Nodup := by
    apply List.Nodup.of_map Prod.snd
    rw [List.zipIdx_map_snd]
    exact List.nodup_range'
  refine flatMap_single distinct (List.mk_mem_zipIdx_iff_getElem?.2 stands) ?_
  rintro ⟨b, j⟩ member different
  have placed := List.mk_mem_zipIdx_iff_getElem?.1 member
  apply others b j placed
  rintro rfl
  rw [stands] at placed
  exact different (by rw [Option.some.inj placed])

theorem filter_elsewhere {α : Type} {l : List α} {f : α → List Finding} {m : Location}
    (elsewhere : ∀ a, ∀ g ∈ f a, g.location ≠ m) :
    ((l.flatMap f).filter fun g => g.location = m) = [] := by
  rw [List.filter_eq_nil_iff]
  intro g member
  obtain ⟨a, _, inside⟩ := List.mem_flatMap.1 member
  simpa using elsewhere a g inside

theorem location_of_mem {g : Finding} {l : Location} {issues : List Issue}
    (member : g ∈ findingsAt l issues) : g.location = l := by
  obtain ⟨_, _, rfl⟩ := List.mem_map.1 member
  rfl

theorem conditionFindings_owned {doc : Document} {name : String} {g : Finding}
    (member : g ∈ doc.conditionFindings name) :
    ∃ block place, g.location = .condition name block place := by
  simp only [Document.conditionFindings, List.mem_flatMap] at member
  obtain ⟨_, _, _, _, inside⟩ := member
  exact ⟨_, _, location_of_mem inside⟩

theorem conditionFindings_at {doc : Document} (s : doc.Spot) :
    ((doc.conditionFindings s.predicate.name).filter fun g => g.location = s.location) =
      findingsAt s.location (doc.conditionIssues s.condition) := by
  have stands := getElem?_filter_countP (fun p => p.name = s.predicate.name) s.stands (by simp)
  have count : s.blocks = (doc.predicates.filter fun p => p.name = s.predicate.name).length :=
    List.countP_eq_length_filter
  have bounded := s.rank_lt_blocks
  have place : s.predicate.conditions[s.place.val]? = some s.condition :=
    List.getElem?_eq_getElem s.place.isLt
  simp only [Document.conditionFindings, ← count, List.filter_flatMap, filter_findingsAt]
  rw [zipIdx_flatMap_single stands]
  · change List.flatMap _ _ = _
    rw [zipIdx_flatMap_single place]
    · exact if_pos rfl
    · intro c j _ different
      apply if_neg
      intro same
      exact different (Location.condition.inj same).2.2
  · intro p j inside different
    -- two blocks of the name are numbered, and by different numbers
    have within := (List.getElem?_eq_some_iff.1 inside).1
    rw [List.flatMap_eq_nil_iff]
    intro c _
    apply if_neg
    intro same
    have numbers := (Location.condition.inj same).2.1
    have several : 1 < s.blocks := by
      have apart : j ≠ s.rank := different
      omega
    rw [if_pos several, if_pos several] at numbers
    exact different (Option.some.inj numbers)

theorem findings_at {doc : Document} (s : doc.Spot) :
    ((Draft.ofDocument doc).checkReferences.findings.filter fun g => g.location = s.location) =
      findingsAt s.location (doc.conditionIssues s.condition) := by
  have declared : (Draft.ofDocument doc).findings = declarationFindings doc := by
    rw [ofDocument_eq]
  have listed : s.predicate.name ∈ sortedNames doc.predicateNames :=
    mem_sortedNames.2 (List.mem_map.2 ⟨_, List.mem_of_getElem? s.stands, rfl⟩)
  have conditions :
      (((sortedNames doc.predicateNames).flatMap doc.conditionFindings).filter
        fun g => g.location = s.location) =
        findingsAt s.location (doc.conditionIssues s.condition) := by
    rw [List.filter_flatMap, flatMap_single (sortedNames_nodup _) listed, conditionFindings_at]
    intro name _ different
    rw [List.filter_eq_nil_iff]
    intro g member told
    obtain ⟨block, place, owned⟩ := conditionFindings_owned member
    rw [decide_eq_true_eq, owned] at told
    exact different (Location.condition.inj told).1
  simp only [Draft.checkReferences, Draft.report, Draft.referenceFindings, declared,
    declarationFindings, constants_diagnosed, predicates_diagnosed, rules_diagnosed,
    conditions_diagnosed, references_diagnosed, List.filter_append, conditions]
  rw [filter_elsewhere, filter_elsewhere, filter_elsewhere, filter_elsewhere]
  · simp
  all_goals
    intro a g member same
    rw [location_of_mem member] at same
    cases same

/-- Every condition of a document is told under a text of its own: the findings with this text are
    those on the condition, and no other condition and no declaration has it. -/
theorem conditions_told_apart (doc : Document) :
    (∀ s : doc.Spot,
      ((Draft.ofDocument doc).checkReferences.findings.filter
        fun g => g.location.text = s.location.text) =
        findingsAt s.location ((Draft.ofDocument doc).conditionIssues s.condition)) ∧
    (Function.Injective fun s : doc.Spot => s.location.text) ∧
    ∀ (s : doc.Spot) (index : Nat) (name : String),
      s.location.text ≠ (Location.constant index name).text ∧
      s.location.text ≠ (Location.predicate index name).text ∧
      s.location.text ≠ (Location.rule index name).text := by
  refine ⟨?_, ?_, ?_⟩
  · intro s
    simp only [location_text_injective.eq_iff, conditionIssues_diagnosed]
    exact findings_at s
  · exact location_text_injective.comp Document.Spot.location_injective
  · intro s index name
    exact ⟨condition_text_ne (by decide) _ _ _ index name,
      condition_text_ne (by decide) _ _ _ index name,
      condition_text_ne (by decide) _ _ _ index name⟩

end RegoPolicy.Policy
