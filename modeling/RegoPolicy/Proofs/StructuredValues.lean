import RegoPolicy.Proofs.FailureReports
import RegoPolicy.Proofs.LiteralPlaces

/-!
Values that stand in a document itself. Whatever has no number with a fraction or an exponent is
stored as a text from which it is had back, however it is spelled and however deep it goes, and this
text is written as it is.
-/
namespace RegoPolicy.Json

open Text

/-- A value without doubles, of at most so many levels. Its integers are those of a word, and the
    members of its objects stand in the order of their names, each once. -/
inductive Value.Exact : Nat → Value → Prop where
  | null (levels : Nat) : Exact levels .null
  | bool (levels : Nat) (b : Bool) : Exact levels (.bool b)
  | integer (levels : Nat) {i : Int} (word : InWord i) : Exact levels (.number (.integer i))
  | string (levels : Nat) (s : String) : Exact levels (.string s)
  | array {levels : Nat} {items : List Value} (each : ∀ v ∈ items, Exact levels v) :
      Exact (levels + 1) (.array items)
  | object {levels : Nat} {members : List (String × Value)} (ordered : Ordered members)
      (each : ∀ m ∈ members, Exact levels m.2) : Exact (levels + 1) (.object members)

theorem Value.Exact.mono {levels more : Nat} {v : Value} (exact : v.Exact levels)
    (le : levels ≤ more) : v.Exact more := by
  induction exact generalizing more with
  | null => exact .null more
  | bool _ b => exact .bool more b
  | integer _ word => exact .integer more word
  | string _ s => exact .string more s
  | array each ih =>
    obtain ⟨k, rfl⟩ : ∃ k, more = k + 1 := ⟨more - 1, by omega⟩
    exact .array fun v member => ih v member (by omega)
  | object ordered each ih =>
    obtain ⟨k, rfl⟩ : ∃ k, more = k + 1 := ⟨more - 1, by omega⟩
    exact .object ordered fun m member => ih m member (by omega)

theorem Value.Exact.kept {levels : Nat} {v : Value} (exact : v.Exact levels) : v.Kept levels := by
  induction exact with
  | null => simp [Value.Kept]
  | bool => simp [Value.Kept]
  | integer _ word =>
    rw [Value.Kept]
    intro negative numeral written
    exact integer_read word written
  | string => simp [Value.Kept]
  | array each ih =>
    rw [Value.Kept]
    exact ih
  | object ordered each ih =>
    rw [Value.Kept]
    exact ⟨ordered, ih⟩

theorem toLiteral_eq {v : Value} (other : ∀ u, v ≠ .string u) : v.toLiteral = v.compact := by
  cases v with
  | string u => exact absurd rfl (other u)
  | _ => rfl

theorem readsAsValue_unique {s : String} {v w : Value} (left : ReadsAsValue s v)
    (right : ReadsAsValue s w) : v = w := by
  obtain ⟨_, first, -⟩ := left
  obtain ⟨_, second, -⟩ := right
  rw [first] at second
  cases second
  rfl

theorem Value.Exact.read {v : Value} (exact : v.Exact levelLimit) : ReadsAsValue v.compact v := by
  have nothing : Blank (ofString "") := blank_nil
  have reads := readsAsValue_spaced exact.kept nothing
  rwa [String.append_empty] at reads

theorem Value.Exact.quoted {v : Value} (exact : v.Exact levelLimit) {u : String}
    (same : v.compact = quote u) : v = .string u := by
  have text : (Value.string u).compact = quote u := by rw [Value.compact]
  have string := (Value.Exact.string levelLimit u).read
  rw [text, ← same] at string
  exact readsAsValue_unique exact.read string

end RegoPolicy.Json

namespace RegoPolicy.Policy

open Json

theorem LiteralAt.levels_le {levels : Nat} {hole : Tree → Tree} {view : Document → Option String}
    (place : LiteralAt levels hole view) : levels ≤ levelLimit := by
  cases place with
  | constant => decide
  | condition => decide

theorem literal_never_invalid {stored : String} (literal : isLiteral stored = true)
    (name : String) : Issue.literalInvalid ∉ (⟨name, stored⟩ : Constant).issues := by
  simp [Constant.issues, checkName_no_literal, mem_only, literal]

/-- A value without doubles that is no string can stand at every place, and however it is spelled
    there, it is had back from the text that is stored for it. This text is a literal, so it is
    never found invalid and is written as it is, not as a string. -/
theorem structured_value_survives (place : Place) {v : Value} (exact : v.Exact place.levels)
    (other : ∀ u, v ≠ .string u) :
    (∃ t, TextOf v.compact t ∧ t.value? place.levels = some v) ∧
      ∀ (t : Tree) (s : String), t.value? place.levels = some v → TextOf s (place.hole t) →
        ∃ doc stored, fromText Document.shape s = .ok doc ∧ place.view doc = some stored ∧
          isLiteral stored = true ∧ ReadsAsValue stored v ∧
          (∀ name, Issue.literalInvalid ∉ (⟨name, stored⟩ : Constant).issues) ∧
          Rego.operand stored = stored ∧ ∀ u, Rego.operand stored ≠ quote u := by
  constructor
  · obtain ⟨t, tree, value⟩ := (compact_spells v).tree
    exact ⟨t, ⟨[], _, [], blank_nil, tree, blank_nil, by simp⟩, value place.levels exact.kept⟩
  · intro t s value text
    have literal := compact_isLiteral v
    have verbatim := Rego.operand_literal literal
    have whole := exact.mono place.located.levels_le
    have stored : Shape.literal.decode place.levels t = some v.compact := by
      rw [Shape.decode, value, Option.map_some, toLiteral_eq other]
    obtain ⟨doc, parsed, seen⟩ := (place.stored_iff text v.compact).2 stored
    refine ⟨doc, v.compact, parsed, seen, literal, whole.read, literal_never_invalid literal,
      verbatim, fun u same => ?_⟩
    rw [verbatim] at same
    exact other u (whole.quoted same)

def limits : Value :=
  .object [("a", .array [.number (.integer (-9223372036854775808)),
    .number (.integer 18446744073709551615), .string "x\n"]), ("b", .object [])]

theorem limits_exact : limits.Exact 121 := by
  refine .object (by decide) ?_
  simp only [List.forall_mem_cons, List.not_mem_nil, false_implies, implies_true, and_true]
  refine ⟨.array ?_, .object (by decide) (by simp)⟩
  simp only [List.forall_mem_cons, List.not_mem_nil, false_implies, implies_true, and_true]
  exact ⟨.integer _ (by decide), .integer _ (by decide), .string _ _⟩

def limitsTree : Tree :=
  .object [keyed "b" (.object []), keyed "a" (.list
    [.number true (IntegerLiteral.ofInt (-9223372036854775808)).numeral,
      .number false (IntegerLiteral.ofInt 18446744073709551615).numeral, .string (.ofText "x\n")])]

theorem limits_survive :
    limits.Exact 121 ∧ (∀ u, limits ≠ .string u) ∧ ∃ doc stored,
      fromText Document.shape (thresholdText
        "\x7b\"b\":\x7b\x7d,\"a\":[-9223372036854775808,18446744073709551615,\"x\\n\"]\x7d") =
          .ok doc ∧
      threshold.view doc = some stored ∧ isLiteral stored = true ∧ ReadsAsValue stored limits ∧
      (∀ name, Issue.literalInvalid ∉ (⟨name, stored⟩ : Constant).issues) ∧
      Rego.operand stored = stored ∧ ∀ u, Rego.operand stored ≠ quote u := by
  have other (u : String) : limits ≠ .string u := fun same => nomatch same
  have value : limitsTree.value? 121 = some limits := by
    have least : (IntegerLiteral.ofInt (-9223372036854775808)).numeral.value? true =
        some (.integer (-9223372036854775808)) := by decide +kernel
    have most : (IntegerLiteral.ofInt 18446744073709551615).numeral.value? false =
        some (.integer 18446744073709551615) := by decide +kernel
    have before : "a" < "b" := by decide
    simp only [limitsTree, limits, Tree.value?, keyed, decodeEntry, Quotation.text?_ofText, least,
      most, putEntry, if_pos before, List.foldlM_cons, List.foldlM_nil, List.mapM_cons,
      List.mapM_nil, Option.map_some, Option.pure_def, Option.bind_eq_bind, Option.bind_some]
  refine ⟨limits_exact, other, ?_⟩
  exact (structured_value_survives threshold limits_exact other).2 limitsTree _ value
    (textOf_symbols (by decide +kernel))

end RegoPolicy.Policy
