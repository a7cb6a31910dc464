import RegoPolicy.Proofs.KeywordImports
import RegoPolicy.Proofs.RoundTrip
import RegoPolicy.Proofs.Trees

/-!
The objects that effects are written as. Apart from its columns, which are no JSON, such an object
is a JSON object of strings: its members are the texts that the effect sets, in a fixed order, and
whatever these texts hold they are had back from it.
-/
namespace RegoPolicy.Json

open Text

def memberTexts? : Quotation × Tree → Option (String × String)
  | (q, .string r) => do return (← q.text?, ← r.text?)
  | _ => none

def Tree.texts? : Tree → Option (List (String × String))
  | .object members => members.mapM memberTexts?
  | _ => none

def Tree.ofTexts (texts : List (String × String)) : Tree :=
  .object (texts.map fun m => (.ofText m.1, .string (.ofText m.2)))

def Value.ofTexts (texts : List (String × String)) : Value :=
  .object (texts.map fun m => (m.1, .string m.2))

theorem Tree.texts?_ofTexts (texts : List (String × String)) :
    (Tree.ofTexts texts).texts? = some texts := by
  rw [Tree.ofTexts, Tree.texts?]
  induction texts with
  | nil => rfl
  | cons m texts ih =>
    rw [List.map_cons, List.mapM_cons, ih]
    simp [memberTexts?, Quotation.text?_ofText]

theorem SpellMembers.haveTexts {texts : List (String × String)}
    {entries : List (String × List Symbol)}
    (each : SpellMembers (texts.map fun m => (m.1, .string m.2)) entries) :
    HaveMembers (entries.map fun entry => (content entry.1, entry.2))
      (texts.map fun m => (.ofText m.1, .string (.ofText m.2))) := by
  induction texts generalizing entries with
  | nil =>
    cases each
    exact .nil
  | cons m texts ih =>
    cases each with
    | cons apart blank first rest =>
      cases first
      exact .cons (q := .ofText m.1) apart blank (.string (.ofText m.2)) (ih rest)

theorem Spells.tree_ofTexts {texts : List (String × String)} {text : List Symbol}
    (spelled : Spells (.ofTexts texts) text) : HasTree text (.ofTexts texts) := by
  cases spelled with
  | object each joined =>
    rw [map_memberText] at joined
    exact .object each.haveTexts joined

theorem spells_ofTexts (m : String × String) (texts : List (String × String)) :
    Spells (.ofTexts (m :: texts)) (ofString ("\x7b " ++
      String.intercalate ", " ((m :: texts).map fun m => quote m.1 ++ ": " ++ quote m.2) ++
        " \x7d")) := by
  -- A string is written alike at every level, so that these are indented members, too.
  have lines (level : Nat) (texts : List (String × String)) :
      (texts.map fun m => quote m.1 ++ ": " ++ quote m.2) =
        prettyMembers level (texts.map fun m => (m.1, .string m.2)) := by
    induction texts with
    | nil => rfl
    | cons m texts ih => rw [List.map_cons, List.map_cons, prettyMembers, ih, Value.prettyAt]
  have space : Blank (ofString " ") := by simp [Blank, ofString, isSpace]
  have joined := intercalate_joined space space (quote m.1 ++ ": " ++ quote m.2)
    (texts.map fun m => quote m.1 ++ ": " ++ quote m.2)
  obtain ⟨entries, each, written⟩ :=
    prettyMembers_spell 0 ((m :: texts).map fun m => (m.1, .string m.2))
  rw [← lines, List.map_cons] at written
  rw [written] at joined
  have spelled := Spells.object each joined
  have opening : ofString "\x7b " = .char '{' :: ofString " " := by decide
  have closing : ofString " \x7d" = ofString " " ++ [.char '}'] := by decide
  rw [ofString_append, ofString_append, opening, closing]
  simpa [Value.ofTexts] using spelled

end RegoPolicy.Json

namespace RegoPolicy.Policy

open Json

def Effect.fields (e : Effect) : List (String × Option String) :=
  [("type", e.kind), ("sub_type", e.subKind), ("typesafe", e.typesafe), ("message", e.message),
    ("reason", e.reason)]

def Effect.metadata (e : Effect) : List (String × String) :=
  ("action", e.action.name) :: e.fields.filterMap fun field => (filled field.2).map (field.1, ·)

/-- An effect without its target, in which an empty text is not set. -/
def Effect.untargeted (e : Effect) : Effect where
  action := e.action
  kind := filled e.kind
  subKind := filled e.subKind
  typesafe := filled e.typesafe
  message := filled e.message
  reason := filled e.reason
  dataLabel := none
  columnName := none
  allColumns := false

theorem optionalText_write {τ σ : Type} (name : String) (rest : Fields τ σ) (text : Option String)
    (values : τ) : (optionalText name rest).write (text, values) =
      (text.map fun s => (name, Value.string s)).toList ++ rest.write values := by
  cases text <;> rfl

theorem set_texts {α : Type} (write : String × String → α)
    (fields : List (String × Option String)) :
    (fields.filterMap fun field => (filled field.2).map (field.1, ·)).map write =
      fields.flatMap fun field => ((filled field.2).map fun s => write (field.1, s)).toList := by
  rw [List.map_filterMap, List.filterMap_eq_flatMap_toList]
  simp [Function.comp_def]

theorem Effect.write_untargeted (e : Effect) :
    Effect.shape.write e.untargeted = .ofTexts e.metadata := by
  rw [Value.ofTexts, Effect.metadata, List.map_cons, set_texts]
  simp [Effect.shape, Shape.write, required, Fields.write, optionalText_write, Effect.untargeted,
    Effect.fields, Action.shape]

theorem Effect.untargeted_read {s : String} (e : Effect)
    (spelled : Spells (.ofTexts e.metadata) (Text.ofString s)) :
    Effect.shape.parseText s = .ok e.untargeted := by
  rw [← Effect.write_untargeted] at spelled
  exact Effect.shape.parseText_spelled (Effect.shape_keeps _) (by decide) spelled blank_nil
    (List.append_nil _).symm

theorem Effect.target_allColumns (e : Effect) :
    e.target = some .allColumns ↔ e.allColumns = true := by
  cases whole : e.allColumns with
  | true => simp [Effect.target, Effect.targets, whole]
  | false => simp [Effect.target, Effect.targets, whole]

end RegoPolicy.Policy

namespace RegoPolicy.Rego

open Policy Json

def effectTexts (e : Effect) : String :=
  String.intercalate ", " (e.metadata.map fun m => entry m.1 (quote m.2))

theorem effectEntries_eq (e : Effect) :
    effectEntries e = (e.metadata.map fun m => entry m.1 (quote m.2)) ++ columnsEntry e := by
  rw [Effect.metadata, List.map_cons, set_texts]
  simp [effectEntries, Effect.fields, textEntry, Option.toList_map]

theorem columnsEntry_eq (e : Effect) :
    columnsEntry e = if e.target.isNone then [] else
      [entry "columns" (if e.allColumns then "input.columns" else "columns")] := by
  unfold columnsEntry
  simp only [← e.target_allColumns]
  cases e.target with
  | none => rfl
  | some target => cases target <;> rfl

theorem effect_eq (e : Effect) :
    effect e = "\x7b " ++ effectTexts e ++ (if e.target.isNone then "" else
      ", \"columns\": " ++ (if e.allColumns then "input.columns" else "columns")) ++ " \x7d" := by
  have some : (e.metadata.map fun m => entry m.1 (quote m.2)) ≠ [] := by simp [Effect.metadata]
  rw [effect, effectEntries_eq, columnsEntry_eq]
  split
  · simp [effectTexts]
  · rw [String.intercalate_append_of_ne_nil some (by simp), String.intercalate_singleton]
    have key (value : String) : ", " ++ entry "columns" value = ", \"columns\": " ++ value := by
      rw [entry, ← String.append_assoc]
      rfl
    rw [← effectTexts, ← key]
    simp only [String.append_assoc]

theorem metadata_keys (e : Effect) {m : String × String} (member : m ∈ e.metadata) :
    m.1 ∈ effectKeys := by
  rcases List.mem_cons.1 member with rfl | set
  · exact List.mem_cons_self
  · obtain ⟨field, inside, given⟩ := List.mem_filterMap.1 set
    obtain ⟨text, -, rfl⟩ := Option.map_eq_some_iff.1 given
    have known : field.1 ∈ e.fields.map (·.1) := List.mem_map_of_mem inside
    exact List.mem_cons_of_mem _ known

theorem quote_key {key : String} (known : key ∈ effectKeys) : quote key = "\"" ++ key ++ "\"" := by
  have plain : ∀ key ∈ effectKeys, quote key = "\"" ++ key ++ "\"" := by decide
  exact plain key known

theorem effectTexts_spell (e : Effect) :
    Spells (.ofTexts e.metadata) (Text.ofString ("\x7b " ++ effectTexts e ++ " \x7d")) := by
  have lines : (e.metadata.map fun m => entry m.1 (quote m.2)) =
      e.metadata.map fun m => quote m.1 ++ ": " ++ quote m.2 := by
    apply List.map_congr_left
    intro m member
    rw [quote_key (metadata_keys e member), entry]
    simp [String.append_assoc]
  rw [effectTexts, lines]
  exact spells_ofTexts _ _

/-- An effect is written as an object of its texts, which is read back as the effect without its
    target, and with a target the columns stand behind the texts. -/
theorem effect_carries_metadata (e : Effect) :
    ∃ body t, TextOf ("\x7b " ++ body ++ " \x7d") t ∧ t.texts? = some e.metadata ∧
      Effect.shape.parseText ("\x7b " ++ body ++ " \x7d") = .ok e.untargeted ∧
      effect e = "\x7b " ++ body ++ (if e.target.isNone then "" else
        ", \"columns\": " ++ (if e.allColumns then "input.columns" else "columns")) ++ " \x7d" := by
  have spelled := effectTexts_spell e
  refine ⟨effectTexts e, .ofTexts e.metadata, ?_, Tree.texts?_ofTexts e.metadata,
    e.untargeted_read spelled, effect_eq e⟩
  exact ⟨[], _, [], blank_nil, spelled.tree_ofTexts, blank_nil, by simp⟩

end RegoPolicy.Rego
