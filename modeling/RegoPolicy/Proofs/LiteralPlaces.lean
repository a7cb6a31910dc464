import RegoPolicy.Proofs.ConstantSpellings
import RegoPolicy.Proofs.IntegerLiterals
import RegoPolicy.Proofs.Operands

/-!
The places of a document at which any value may stand: the value of a constant, and an item among
the values of a condition. What is stored for a place depends on the tree at the place alone,
wherever it stands and however the objects around it are spelled. An integer is stored as it is
written exactly if it fits a word.
-/
namespace RegoPolicy.Policy

open Json

/-- A place of a document at which any value may stand, by the levels that are left there, by the
    document around it and by where the text for it is stored. -/
inductive LiteralAt : Nat → (Tree → Tree) → (Document → Option String) → Prop where
  | constant {outer inner : Tree → Tree} (constants : FieldAt .document 2 outer)
      (before after : List Tree) (value : FieldAt .constant 1 inner) :
      LiteralAt 124 (fun t => outer (.list (before ++ inner t :: after)))
        fun doc => doc.constants[before.length]?.map (·.value)
  | condition {outer middle inner : Tree → Tree} (predicates : FieldAt .document 3 outer)
      (before after : List Tree) (conditions : FieldAt .predicate 1 middle)
      (front back : List Tree) (values : FieldAt .condition 2 inner) (left right : List Tree) :
      LiteralAt 121
        (fun t => outer (.list (before ++
          middle (.list (front ++ inner (.list (left ++ t :: right)) :: back)) :: after)))
        fun doc => doc.predicates[before.length]?.bind fun p =>
          p.conditions[front.length]?.bind fun c => c.values[left.length]?

theorem LiteralAt.fills {levels : Nat} {hole : Tree → Tree} {view : Document → Option String}
    (place : LiteralAt levels hole view) :
    ∃ (ι : Type) (put : ι → String → Document),
      Fills (fun t => Document.shape.decode levelLimit (hole t)) (Shape.literal.decode levels) put ∧
      ∀ around text, view (put around text) = some text := by
  cases place with
  | constant constants before after value =>
    exact ⟨_, _, constant_fills constants before after value 124, fun _ _ => by simp⟩
  | condition predicates before after conditions front back values left right =>
    exact ⟨_, _,
      condition_fills predicates before after conditions front back values left right 121,
      fun _ _ => by simp⟩

/-- A place of a document the rest of which can be read. -/
structure Place where
  levels : Nat
  hole : Tree → Tree
  view : Document → Option String
  located : LiteralAt levels hole view
  readable : ∃ s doc, TextOf s (hole .null) ∧ fromText Document.shape s = .ok doc

/-- A document is read if what stands at a place of it can be, and the text of that is stored. -/
theorem Place.stored_iff (place : Place) {s : String} {t : Tree} (text : TextOf s (place.hole t))
    (stored : String) :
    (∃ doc, fromText Document.shape s = .ok doc ∧ place.view doc = some stored) ↔
      Shape.literal.decode place.levels t = some stored := by
  simp only [fromText_tree _ text]
  obtain ⟨ι, put, fills, seen⟩ := place.located.fills
  rcases fills with nothing | ⟨around, filled⟩
  · obtain ⟨around, doc, sound, read⟩ := place.readable
    have none : Document.shape.decode levelLimit (place.hole .null) = none := nothing .null
    rw [fromText_tree _ sound, none] at read
    cases read
  · have decoded : Document.shape.decode levelLimit (place.hole t) =
        (Shape.literal.decode place.levels t).map (put around) := filled t
    rw [decoded]
    cases Shape.literal.decode place.levels t with
    | none => simp
    | some other => simp [seen]

/-- An integer is stored with its own digits exactly if it fits a word. Whatever is stored for it,
    this is what is written. -/
theorem integer_kept_iff (place : Place) (n : IntegerLiteral) {s : String}
    (text : TextOf s (place.hole (.number n.negative n.numeral))) :
    ((∃ doc, fromText Document.shape s = .ok doc ∧ place.view doc = some n.text) ↔ n.Fits) ∧
      ∀ doc stored, fromText Document.shape s = .ok doc → place.view doc = some stored →
        Rego.operand stored = stored := by
  constructor
  · rw [place.stored_iff text, Shape.decode, Tree.value?, Option.map_map]
    exact n.written_iff
  · intro doc stored read seen
    have other (q : Quotation) : Tree.number n.negative n.numeral ≠ .string q := nofun
    have decoded := (place.stored_iff text stored).1 ⟨doc, read, seen⟩
    exact Rego.operand_literal (direct_isLiteral other decoded)

def thresholdText (value : String) : String :=
  "\x7b\"predicates\":[\x7b\"name\":\"p\",\"conditions\":[\x7b\"operator\":\"equals\"," ++
    "\"variable\":\"x\",\"values\":[" ++ value ++ "]\x7d]\x7d]\x7d"

def thresholdTree (t : Tree) : Tree :=
  .object [keyed "predicates" (.list [.object [keyed "name" (.string (.ofText "p")),
    keyed "conditions" (.list [.object [keyed "operator" (.string (.ofText "equals")),
      keyed "variable" (.string (.ofText "x")), keyed "values" (.list [t])]])]])]

def firstValue (doc : Document) : Option String :=
  doc.predicates[0]?.bind fun p => p.conditions[0]?.bind fun c => c.values[0]?

def threshold : Place where
  levels := 121
  hole := thresholdTree
  view := firstValue
  located := .condition (.object rfl (takes_name "predicates" (by decide)) [] []) [] []
    (.object rfl (takes_name "conditions" (by decide)) [keyed "name" (.string (.ofText "p"))] [])
    [] []
    (.object rfl (takes_name "values" (by decide))
      [keyed "operator" (.string (.ofText "equals")), keyed "variable" (.string (.ofText "x"))] [])
    [] []
  readable := ⟨thresholdText "null", ⟨none, [], [], [⟨"p", [⟨.equals, some "x", ["null"], none⟩]⟩],
    [], none⟩, textOf_symbols (by decide +kernel), by decide +kernel⟩

def ThresholdKeeps (value : String) : Prop :=
  ∃ doc, fromText Document.shape (thresholdText value) = .ok doc ∧ threshold.view doc = some value

/-- The greatest integer of a word is kept, the next one and minus zero are not. -/
theorem threshold_keeps_words :
    ThresholdKeeps "18446744073709551615" ∧ ¬ ThresholdKeeps "18446744073709551616" ∧
      ¬ ThresholdKeeps "-0" := by
  have kept {value : String} (n : IntegerLiteral) (text : n.text = value)
      (spelled : Text.ofString (thresholdText n.text) =
        (thresholdTree (.number n.negative n.numeral)).symbols) :
      ThresholdKeeps value ↔ n.Fits := by
    subst text
    exact (integer_kept_iff threshold n (textOf_symbols spelled)).1
  refine ⟨(kept (.ofInt 18446744073709551615) ?_ ?_).2 ?_,
    (kept (.ofInt 18446744073709551616) ?_ ?_).not.2 ?_,
    (kept ⟨true, ['0'], .zero _ rfl⟩ ?_ ?_).not.2 ?_⟩
  all_goals decide +kernel

end RegoPolicy.Policy
