import RegoPolicy.Proofs.BareWords
import RegoPolicy.Proofs.ModuleHeads
import RegoPolicy.Proofs.SortedNames

/-!
The keywords that a module imports beside those that it uses. Which keywords a module uses is told
by its document; all of them but `every` are imported before their first use.
-/
namespace RegoPolicy.Rego

open Policy Json Text

inductive Keyword where
  | conditional
  | membership
  | universal
  deriving DecidableEq

def Keyword.word : Keyword → String
  | .conditional => "if"
  | .membership => "in"
  | .universal => "every"

def Keyword.importLine (k : Keyword) : List Char := ("import future.keywords." ++ k.word).toList

def ImportedBeforeUse (k : Keyword) (text : String) : Prop :=
  ∀ front line back, text.toList.splitOn '\n' = front ++ line :: back →
    k.word ∈ bareWords line → k.importLine ∈ front

def Keyword.NeededBy (doc : Document) : Keyword → Prop
  | .conditional => doc.predicates ≠ [] ∨ ∃ r ∈ doc.rules, r.isDefault = false
  | .membership => ∃ p ∈ doc.predicates, ∃ c ∈ p.conditions, c.operator.isMembership = true
  | .universal => ∃ p ∈ doc.predicates, ∃ c ∈ p.conditions, c.operator = .allMember

instance (doc : Document) : (k : Keyword) → Decidable (k.NeededBy doc)
  | .conditional => inferInstanceAs (Decidable (_ ∨ _))
  | .membership =>
    inferInstanceAs (Decidable (∃ p ∈ doc.predicates, ∃ c ∈ p.conditions, _ = true))
  | .universal => inferInstanceAs (Decidable (∃ p ∈ doc.predicates, ∃ c ∈ p.conditions, _ = _))

section Conditions

def Piece.tells (w : String) : Piece → Bool
  | .fixed text => w ∈ bareWords text.toList
  | _ => false

/-- No word goes on from a piece to those after it: fixed texts end outside words, and the others
    stand at the end or in front of a fixed text that starts outside words. -/
def meets : Piece → List Piece → Bool
  | .fixed text, _ => Mode.fresh.after text.toList = .fresh
  | _, [] => true
  | _, .fixed text :: _ => text.toList.head?.any fun c => !isNameChar c
  | _, _ => false

def spaced : List Piece → Bool
  | [] => true
  | p :: rest => meets p rest && spaced rest

theorem pieces_spaced (o : Operator) : spaced (pieces o) = true := by
  cases o <;> decide

def operatorTells (o : Operator) (w : String) : Prop :=
  (w = "in" ∧ o.isMembership = true) ∨ (w = "every" ∧ o = .allMember)

instance (o : Operator) (w : String) : Decidable (operatorTells o w) :=
  inferInstanceAs (Decidable (_ ∨ _))

theorem pieces_tell (o : Operator) :
    ∀ w ∈ watched, ((∃ p ∈ pieces o, p.tells w = true) ↔ operatorTells o w) := by
  cases o <;> decide

theorem meets_parted {p : Piece} {ps : List Piece} (path value : String)
    (fits : meets p ps = true) :
    Parted (p.fill path value) (ps.flatMap (Piece.fill path value)) := by
  have before (ps : List Piece) (fits : meets .path ps = true) (a : List Char) :
      Parted a (ps.flatMap (Piece.fill path value)) := by
    refine .inr fun c first => ?_
    match ps with
    | [] => simp at first
    | .fixed text :: ps =>
      cases chars : text.toList with
      | nil => simp [meets, chars] at fits
      | cons d rest =>
        have same : d = c := by simpa [Piece.fill, chars] using first
        simpa [meets, chars, same] using fits
  cases p with
  | fixed text => exact .inl (by simpa [meets, Piece.fill] using fits)
  | path => exact before ps fits _
  | value => exact before ps (by rw [← fits]; rcases ps with _ | ⟨_ | _ | _, _⟩ <;> rfl) _

theorem pieces_utter {path value : String} (quietPath : Mute path.toList)
    (quietValue : Mute value.toList) {ps : List Piece} (apart : spaced ps = true) :
    Utters (ps.flatMap (Piece.fill path value)) fun w => ∃ p ∈ ps, p.tells w = true := by
  induction ps with
  | nil => simpa using speaks_nil.utters
  | cons p ps ih =>
    simp only [spaced, Bool.and_eq_true] at apart
    have here : Utters (p.fill path value) fun w => p.tells w = true := by
      cases p with
      | fixed text =>
        have closed : Mode.fresh.after text.toList = .fresh := by simpa [meets] using apart.1
        exact ⟨⟨[], false, closed⟩, fun w _ => by simp [Piece.tells, Piece.fill]⟩
      | path => exact quietPath.congr (by simp [Piece.tells])
      | value => exact quietValue.congr (by simp [Piece.tells])
    exact (here.append (ih apart.2) (meets_parted path value apart.1)).congr (by simp)

variable {constants : List String} {c : Condition}

theorem inputPath_mute (wellFormed : c.WellFormed constants) : Mute (inputPath c).toList := by
  unfold inputPath Condition.path
  split
  · rename_i path given
    exact dotted_mute (wellFormed.path path ((filled_eq_some _ _).1 given))
  · exact ⟨⟨_, _, rfl⟩, by decide⟩

theorem operand_inert (value : String) : Inert (operand value).toList := by
  unfold operand
  split
  · rename_i literal
    exact isText_inert ((isLiteral_iff_isText value).1 literal)
  · exact quote_inert value

theorem comparand_mute (named : ∀ name ∈ constants, IsName name)
    (wellFormed : c.WellFormed constants) : Mute (comparand c).toList := by
  have marks : ∀ mark ∈ ["[", ", ", "]"], mark.toList.all isInert = true := by decide
  have made := comparand_closed .nil (fun _ _ => Inert.append)
    (fun mark member => inert_of_all (marks mark member)) operand_inert c
  rcases made with ⟨name, given, same⟩ | inert
  · rw [same]
    exact name_mute (named name (wellFormed.declared name given))
  · exact inert.mute

theorem condition_utters (named : ∀ name ∈ constants, IsName name)
    (wellFormed : c.WellFormed constants) :
    Utters (condition c).toList (operatorTells c.operator) := by
  rw [condition, expression_pieces]
  exact (pieces_utter (inputPath_mute wellFormed) (comparand_mute named wellFormed)
    (pieces_spaced c.operator)).congr (pieces_tell c.operator)

end Conditions

section Definitions

theorem bodyLine_speaks {text : String} {said : String → Prop} (utters : Utters text.toList said) :
    Speaks (bodyLine text).toList said := by
  have indent : Speaks "    ".toList fun _ => False := ⟨by decide, by decide⟩
  have line := speaks_line (indent.utters.append utters (.inl indent.whole))
  simpa [bodyLine] using line.congr (by simp)

theorem definition_speaks {head : String} {body : List String} {said : String → String → Prop}
    (quiet : Mute head.toList) (each : ∀ text ∈ body, Utters text.toList (said text)) :
    Speaks (definition head body ++ "\n").toList fun w =>
      w = "if" ∨ ∃ text ∈ body, said text w := by
  have brace : Utters " if \x7b".toList fun w => w = "if" := ⟨⟨_, _, rfl⟩, by decide⟩
  have first := speaks_line (quiet.append brace (.inr (by simp; decide)))
  have lines := speaks_flatMap fun text member => bodyLine_speaks (each text member)
  have closing : Speaks ['}', '\n', '\n'] fun _ => False := ⟨by decide, by decide⟩
  have whole := (first.append (lines.append closing)).congr
    (q := fun w => w = "if" ∨ ∃ text ∈ body, said text w) (by simp)
  simpa [definition, String.toList_join, List.flatMap_map] using whole

theorem predicate_speaks {constants : List String} {p : Predicate}
    (named : ∀ name ∈ constants, IsName name) (wellFormed : p.WellFormed constants) :
    Speaks (predicate p ++ "\n").toList fun w =>
      w = "if" ∨ ∃ c ∈ p.conditions, operatorTells c.operator w := by
  have each : ∀ text ∈ p.conditions.map condition,
      Utters text.toList fun w => w ∈ bareWords text.toList := by
    intro text member
    obtain ⟨c, inside, rfl⟩ := List.mem_map.1 member
    exact ⟨(condition_utters named (wellFormed.conditions c inside)).unquoted, fun _ _ => Iff.rfl⟩
  refine (definition_speaks (name_mute wellFormed.name) each).congr fun w watching => ?_
  refine or_congr Iff.rfl ?_
  simp only [List.mem_map, exists_exists_and_eq_and]
  refine exists_congr fun c => and_congr_right fun inside => ?_
  exact (condition_utters named (wellFormed.conditions c inside)).words w watching

def Led (text : List Char) : Prop :=
  Mute text ∧ ∀ c, text.head? = some c → isNameChar c = false

theorem led_append (a b : List Char) (left : Led a) (right : Led b) : Led (a ++ b) := by
  refine ⟨mute_append left.1 right.1 (.inr right.2), ?_⟩
  cases a with
  | nil => exact right.2
  | cons c a => exact left.2

theorem mute_literal {text : List Char}
    (unquoted : ∃ word dotted, Mode.fresh.after text = .code word dotted)
    (quiet : ∀ w ∈ watched, w ∉ bareWords text) : Mute text :=
  ⟨unquoted, fun w watching => iff_of_false (quiet w watching) id⟩

theorem led_literal {text : String} (closed : Mode.fresh.after text.toList = .fresh)
    (quiet : ∀ w ∈ watched, w ∉ bareWords text.toList)
    (front : text.toList.head?.all (fun c => !isNameChar c) = true) : Led text.toList := by
  refine ⟨mute_literal ⟨[], false, closed⟩ quiet, fun c first => ?_⟩
  rw [first] at front
  simpa using front

theorem led_quote (s : String) : Led (quote s).toList := by
  refine ⟨(quote_inert s).mute, fun c first => ?_⟩
  have same : '"' = c := by simpa [quote] using first
  rw [← same]
  decide

def effectKeys : List String := ["action", "type", "sub_type", "typesafe", "message", "reason"]

theorem entry_led {key : String} (known : key ∈ effectKeys) (s : String) :
    Led (entry key (quote s)).toList := by
  have fronts : ∀ key ∈ effectKeys, Mode.fresh.after ("\"" ++ key ++ "\": ").toList = .fresh ∧
      (∀ w ∈ watched, w ∉ bareWords ("\"" ++ key ++ "\": ").toList) ∧
        ("\"" ++ key ++ "\": ").toList.head?.all (fun c => !isNameChar c) = true := by decide
  obtain ⟨closed, quiet, front⟩ := fronts key known
  rw [entry, String.toList_append]
  exact led_append _ _ (led_literal closed quiet front) (led_quote s)

theorem textEntry_led {key : String} (known : key ∈ effectKeys) (value : Option String) :
    ∀ text ∈ textEntry key value, Led text.toList := by
  intro text member
  obtain ⟨s, -, rfl⟩ := List.mem_map.1 member
  exact entry_led known s

theorem columnsEntry_led (e : Effect) : ∀ text ∈ columnsEntry e, Led text.toList := by
  have led {value : String} (unquoted : ∃ word dotted,
      Mode.fresh.after (entry "columns" value).toList = .code word dotted)
      (quiet : ∀ w ∈ watched, w ∉ bareWords (entry "columns" value).toList) :
      Led (entry "columns" value).toList := by
    refine ⟨mute_literal unquoted quiet, fun c first => ?_⟩
    have same : '"' = c := by simpa [entry] using first
    rw [← same]
    decide
  unfold columnsEntry
  split
  · exact List.forall_mem_singleton.2 (led ⟨_, _, rfl⟩ (by decide))
  · exact List.forall_mem_singleton.2 (led ⟨_, _, rfl⟩ (by decide))
  · simp

theorem effect_led (e : Effect) : Led (effect e).toList := by
  have entries : ∀ text ∈ effectEntries e, Led text.toList := by
    simp only [effectEntries, List.mem_cons, List.mem_append]
    rintro text (rfl | (((((member | member) | member) | member) | member) | member))
    · exact entry_led (by decide) _
    · exact textEntry_led (by decide) _ text member
    · exact textEntry_led (by decide) _ text member
    · exact textEntry_led (by decide) _ text member
    · exact textEntry_led (by decide) _ text member
    · exact textEntry_led (by decide) _ text member
    · exact columnsEntry_led e text member
  have nil : Led [] := ⟨speaks_nil.utters, by simp⟩
  have comma : Led ", ".toList := led_literal (by decide) (by decide) (by decide)
  have opening : Led "\x7b ".toList := led_literal (by decide) (by decide) (by decide)
  have closing : Led " \x7d".toList := led_literal (by decide) (by decide) (by decide)
  have joined := intercalate_closed nil led_append comma entries
  rw [effect, String.toList_append, String.toList_append]
  exact led_append _ _ (led_append _ _ opening joined) closing

def columnsFront (key : String) : String :=
  "columns := [col | col := input.columns[_]; col[\"" ++ key ++ "\"] == "

theorem columnsBinding_mute {key : String} (known : key ∈ ["data_label", "name"])
    (value : String) : Mute (columnsBinding key value).toList := by
  have closed : ∀ key ∈ ["data_label", "name"],
      Mode.fresh.after (columnsFront key).toList = .fresh := by decide +kernel
  have quiet : ∀ key ∈ ["data_label", "name"], ∀ w ∈ watched,
      w ∉ bareWords (columnsFront key).toList := by decide +kernel
  have front : Mute (columnsFront key).toList :=
    mute_literal ⟨[], false, closed key known⟩ (quiet key known)
  have bracket : Led "]".toList := led_literal (by decide) (by decide) (by decide)
  have filled := mute_append front (led_quote value).1 (.inl (closed key known))
  have text : columnsBinding key value = columnsFront key ++ quote value ++ "]" := rfl
  rw [text, String.toList_append, String.toList_append]
  exact mute_append filled bracket.1 (.inr bracket.2)

theorem targetLine_mute (e : Effect) : ∀ text ∈ targetLine e, Mute text.toList := by
  unfold targetLine
  split
  · exact List.forall_mem_singleton.2 (columnsBinding_mute (by decide) _)
  · exact List.forall_mem_singleton.2 (columnsBinding_mute (by decide) _)
  · simp

theorem reference_mute {ref : Reference} (named : IsName ref.name) :
    Mute (reference ref).toList := by
  have negation : Speaks "not ".toList fun _ => False := ⟨by decide, by decide⟩
  unfold reference
  split
  · rw [String.toList_append]
    exact mute_append negation.utters (name_mute named) (.inl negation.whole)
  · exact name_mute named

theorem ruleBody_mute {r : Rule} (references : ∀ ref ∈ r.whenAllOf, IsName ref.name) :
    ∀ text ∈ ruleBody r, Mute text.toList := by
  unfold ruleBody
  simp only
  split
  · exact List.forall_mem_singleton.2 ⟨⟨_, _, rfl⟩, by decide⟩
  · intro text member
    rcases List.mem_append.1 member with early | late
    · obtain ⟨ref, inside, rfl⟩ := List.mem_map.1 early
      exact reference_mute (references ref inside)
    · exact targetLine_mute r.effect text late

theorem assigned_mute {name : String} (named : IsName name) {value : List Char}
    (quiet : Mute value) : Mute (name.toList ++ (" := ".toList ++ value)) := by
  have sign : Led " := ".toList := led_literal (by decide) (by decide) (by decide)
  have signed : Mute (" := ".toList ++ value) := mute_append sign.1 quiet (.inl (by decide))
  exact mute_append (name_mute named) signed (.inr fun c first => sign.2 c first)

theorem rule_speaks {r : Rule} (named : IsName r.name)
    (references : ∀ ref ∈ r.whenAllOf, IsName ref.name) :
    Speaks (rule r ++ "\n").toList fun w => w = "if" ∧ r.isDefault = false := by
  have assigned := assigned_mute named (effect_led r.effect).1
  unfold rule
  split
  · rename_i fallback
    have word : Speaks "default ".toList fun _ => False := ⟨by decide, by decide⟩
    have line := speaks_line (word.utters.append assigned (.inl word.whole))
    have lines := (line.append speaks_blank).congr
      (q := fun w => w = "if" ∧ r.isDefault = false) (by simp [fallback])
    simpa [String.append_assoc] using lines
  · rename_i conditional
    have head : Mute (r.name ++ " := " ++ effect r.effect).toList := by
      simpa using assigned
    refine (definition_speaks head (ruleBody_mute references)).congr fun w _ => ?_
    simp [conditional]

end Definitions

section Sections

theorem description_speaks (description : Option String) :
    Speaks (descriptionSection description).toList fun _ => False := by
  have comment {line : List Char} (flat : '\n' ∉ line) :
      Speaks (commentLine line).toList fun _ => False := by
    obtain ⟨rest, straight, text⟩ := commentLine_eq flat
    rw [text]
    exact comment_speaks straight
  unfold descriptionSection
  split
  · rename_i s _
    have comments : Speaks ((Text.lines s).flatMap fun line => (commentLine line).toList) _ :=
      speaks_flatMap fun line member => comment (linesFrom_flat (by simp) line member)
    have whole := (comments.append speaks_blank).congr (q := fun _ => False) (by simp)
    simpa [String.toList_join, List.flatMap_map] using whole
  · exact speaks_nil

theorem constantLine_speaks {name value : String} (named : IsName name)
    (inert : Inert value.toList) : Speaks (constantLine name value).toList fun _ => False := by
  have line := speaks_line (assigned_mute named inert.mute)
  simpa [constantLine] using line

theorem connectors_speak (connectors : List String) :
    Speaks (connectorSection connectors).toList fun _ => False := by
  unfold connectorSection
  split
  · exact speaks_nil
  · have inert : Inert (Value.array (connectors.map .string)).compact.toList := by
      rw [Value.compact, compactItems_strings]
      refine list_closed .nil (fun _ _ => Inert.append) (inert_of_all (by decide))
        (inert_of_all (by decide)) (inert_of_all (by decide)) fun part member => ?_
      obtain ⟨s, -, rfl⟩ := List.mem_map.1 member
      exact quote_inert s
    generalize (Value.array (connectors.map .string)).compact = value at inert
    have named : IsName "included_connectors" := by decide
    have lines := ((constantLine_speaks named inert).append speaks_blank).congr
      (q := fun _ => False) (by simp)
    have text : ("included_connectors := " ++ value ++ "\n\n").toList =
        (constantLine "included_connectors" value).toList ++ ['\n'] := by
      simp [constantLine]
    rw [text]
    exact lines

theorem constants_speak {constants : List Constant}
    (wellFormed : ∀ c ∈ constants, c.WellFormed) (distinct : (constants.map (·.name)).Nodup) :
    Speaks (constantSection (constantTable constants)).toList fun _ => False := by
  have perm := constantTable_perm distinct
  unfold constantSection
  split
  · exact speaks_nil
  · have each : ∀ entry ∈ (constantTable constants).entries,
        Speaks (constantLine entry.1 entry.2).toList fun _ => False := by
      intro entry member
      obtain ⟨c, declared, rfl⟩ := List.mem_map.1 (perm.mem_iff.1 member)
      exact constantLine_speaks (wellFormed c declared).name
        (isText_inert (wellFormed c declared).value)
    have lines := speaks_flatMap each
    have whole := (lines.append speaks_blank).congr (q := fun _ => False) (by simp)
    simpa [String.toList_join, List.flatMap_map] using whole

def bodyText (d : Draft) : List Char :=
  (descriptionSection d.description).toList ++ ((Part.connectors.text d).toList ++
    ((Part.constants.text d).toList ++
      ((Part.predicates.text d).toList ++ (Part.rules.text d).toList)))

variable {doc : Document}

theorem predicates_speak (wellFormed : doc.WellFormed) :
    Speaks (String.join (predicateSections (predicateTable doc.predicates))).toList fun w =>
      ∃ p ∈ doc.predicates, w = "if" ∨ ∃ c ∈ p.conditions, operatorTells c.operator w := by
  have blocks := predicateTable_blocks doc.predicates
  rw [predicateSections_text]
  refine (speaks_flatMap fun p member => predicate_speaks wellFormed.constant_named
    (wellFormed.predicates p (blocks.mem_iff.1 member))).congr fun w _ => ?_
  exact exists_congr fun p => and_congr_left fun _ => blocks.mem_iff

theorem rules_speak (wellFormed : doc.WellFormed) :
    Speaks (String.join (ruleSections (placed doc.rules))).toList fun w =>
      w = "if" ∧ ∃ r ∈ doc.rules, r.isDefault = false := by
  have each : ∀ r ∈ placed doc.rules,
      Speaks (rule r ++ "\n").toList fun w => w = "if" ∧ r.isDefault = false :=
    (forall_placed _ doc.rules fun r index => rfl).2 fun r member =>
      rule_speaks (wellFormed.rules r member).name (wellFormed.reference_named member)
  have order := orderRules_perm (placed doc.rules)
  have views : (∃ r ∈ placed doc.rules, r.isDefault = false) ↔
      ∃ r ∈ doc.rules, r.isDefault = false := by
    have same := map_placed (·.isDefault) doc.rules fun _ _ => rfl
    simpa using iff_of_eq (congrArg (false ∈ ·) same)
  rw [ruleSections_text]
  refine (speaks_flatMap fun r member => each r (order.mem_iff.1 member)).congr fun w _ => ?_
  rw [← views]
  simp only [order.mem_iff]
  constructor
  · rintro ⟨r, member, same, conditional⟩
    exact ⟨same, r, member, conditional⟩
  · rintro ⟨same, r, member, conditional⟩
    exact ⟨r, member, same, conditional⟩

theorem body_speaks (wellFormed : doc.WellFormed) :
    Speaks (bodyText (Draft.ofDocument doc).checkReferences) fun w =>
      (∃ p ∈ doc.predicates, w = "if" ∨ ∃ c ∈ p.conditions, operatorTells c.operator w) ∨
        (w = "if" ∧ ∃ r ∈ doc.rules, r.isDefault = false) := by
  rw [ofDocument_eq]
  have constants := constants_speak wellFormed.constants wellFormed.distinct
  have definitions := (predicates_speak wellFormed).append (rules_speak wellFormed)
  exact ((description_speaks doc.description).append ((connectors_speak doc.connectors).append
    (constants.append definitions))).congr (by simp)

theorem body_uses (wellFormed : doc.WellFormed) (k : Keyword) :
    k.word ∈ bareWords (bodyText (Draft.ofDocument doc).checkReferences) ↔ k.NeededBy doc := by
  rw [(body_speaks wellFormed).words k.word (by cases k <;> decide)]
  cases k with
  | conditional =>
    simp only [Keyword.word, Keyword.NeededBy, true_or, and_true, true_and, Ne,
      ← List.isEmpty_iff, List.isEmpty_eq_false_iff_exists_mem, Bool.not_eq_true]
  | membership => simp [Keyword.word, Keyword.NeededBy, operatorTells]
  | universal => simp [Keyword.word, Keyword.NeededBy, operatorTells]

theorem body_imports_nothing (wellFormed : doc.WellFormed) :
    "import" ∉ bareWords (bodyText (Draft.ofDocument doc).checkReferences) := by
  rw [(body_speaks wellFormed).words "import" (by decide)]
  simp [operatorTells]

end Sections

section Modules

def headLines (needIf needIn : Bool) : List (List Char) :=
  ["package formal.v2".toList, []] ++ (if needIf then [Keyword.conditional.importLine] else []) ++
    (if needIn then [Keyword.membership.importLine] else []) ++
    (if needIf || needIn then [[]] else [])

theorem headLines_flat : ∀ needIf needIn, ∀ line ∈ headLines needIf needIn, '\n' ∉ line := by
  decide

/-- Naming a keyword after a dot is no use of it. -/
theorem headLines_use_nothing : ∀ needIf needIn, ∀ line ∈ headLines needIf needIn,
    ∀ k : Keyword, k.word ∉ bareWords line := by
  intro needIf needIn line member k
  revert needIf needIn line
  cases k <;> decide

theorem head_text (d : Draft) :
    packageSection.toList ++ (importSection d).toList =
      (headLines (needsIf d) (needsIn d)).flatMap fun line => line ++ ['\n'] := by
  unfold importSection
  cases needsIf d <;> cases needsIn d <;> decide

theorem sections_lines {d : Draft} (noRaw : filled d.rawRego = none) :
    (String.join (sections d)).toList.splitOn '\n' =
      headLines (needsIf d) (needsIn d) ++ (bodyText d).splitOn '\n' := by
  have text : (String.join (sections d)).toList =
      packageSection.toList ++ (importSection d).toList ++ bodyText d := by
    rw [sections_text noRaw]
    simp only [bodyText, List.append_assoc]
  rw [text, head_text, splitOn_ended, flatMap_splitOn_flat (headLines_flat _ _)]

theorem needsIf_eq (doc : Document) :
    needsIf (Draft.ofDocument doc).checkReferences =
      (!doc.predicates.isEmpty || !doc.rules.isEmpty) := by
  have blocks : (predicateTable doc.predicates).entries.isEmpty = doc.predicates.isEmpty := by
    rw [Bool.eq_iff_iff, List.isEmpty_iff, List.isEmpty_iff, predicateTable_entries]
    simp [List.eq_nil_iff_forall_not_mem, mem_sortedNames]
  have rules : (placed doc.rules).isEmpty = doc.rules.isEmpty := by
    rw [Bool.eq_iff_iff]
    simp [placed]
  rw [← blocks, ← rules, ofDocument_eq]
  rfl

theorem needsIn_eq (doc : Document) :
    needsIn (Draft.ofDocument doc).checkReferences =
      doc.predicates.any fun p => p.conditions.any fun c => c.operator.isMembership := by
  rw [← (predicateTable_blocks doc.predicates).any_eq, List.any_flatMap, ofDocument_eq]
  rfl

theorem needsIf_of_needed {doc : Document} (needed : Keyword.conditional.NeededBy doc) :
    needsIf (Draft.ofDocument doc).checkReferences = true := by
  rw [needsIf_eq]
  rcases needed with predicates | ⟨r, member, -⟩
  · simp [predicates]
  · simp [List.ne_nil_of_mem member]

theorem needsIn_of_needed {doc : Document} (needed : Keyword.membership.NeededBy doc) :
    needsIn (Draft.ofDocument doc).checkReferences = true := by
  simp only [needsIn_eq, List.any_eq_true]
  exact needed

variable {doc : Document}

theorem sections_use (wellFormed : doc.WellFormed)
    (unset : filled (Draft.ofDocument doc).checkReferences.rawRego = none) (k : Keyword) :
    (∃ line ∈ (String.join (sections (Draft.ofDocument doc).checkReferences)).toList.splitOn '\n',
      k.word ∈ bareWords line) ↔ k.NeededBy doc := by
  rw [← body_uses wellFormed k, bareWords_lines, List.mem_flatMap, sections_lines unset]
  simp only [List.mem_append, or_and_right, exists_or]
  refine or_iff_right ?_
  rintro ⟨line, inside, used⟩
  exact headLines_use_nothing _ _ line inside k used

theorem module_uses (wellFormed : doc.WellFormed)
    (unset : filled (Draft.ofDocument doc).checkReferences.rawRego = none) (k : Keyword) :
    (∃ line ∈ (moduleText (Draft.ofDocument doc).checkReferences).toList.splitOn '\n',
      k.word ∈ bareWords line) ↔ k.NeededBy doc := by
  have blank : decide (k.word ∈ bareWords []) = false := by cases k <;> decide
  have counts := countP_moduleText (fun line => k.word ∈ bareWords line) blank
    (Draft.ofDocument doc).checkReferences
  rw [← sections_use wellFormed unset k]
  have positive := congrArg (0 < ·) counts
  simpa [List.countP_pos_iff] using positive

/-- The import of a keyword stands in front of the body if the keyword is needed, except that of
    `every`, which no module has. -/
theorem imported_iff (k : Keyword) (needed : k.NeededBy doc) :
    k.importLine ∈ headLines (needsIf (Draft.ofDocument doc).checkReferences)
      (needsIn (Draft.ofDocument doc).checkReferences) ↔ k ≠ .universal := by
  cases k with
  | conditional => simp [headLines, needsIf_of_needed needed]
  | membership => simp [headLines, needsIn_of_needed needed]
  | universal =>
    have never : ∀ needIf needIn, Keyword.universal.importLine ∉ headLines needIf needIn := by
      decide
    simpa using never _ _

theorem universal_not_imported (wellFormed : doc.WellFormed)
    (unset : filled (Draft.ofDocument doc).checkReferences.rawRego = none)
    (needed : Keyword.universal.NeededBy doc) : Keyword.universal.importLine ∉
      (moduleText (Draft.ofDocument doc).checkReferences).toList.splitOn '\n' := by
  intro member
  obtain ⟨front, back, split⟩ := List.append_of_mem member
  obtain ⟨rest, whole⟩ := moduleText_front split (by decide)
  rw [sections_lines unset] at whole
  have inside : Keyword.universal.importLine ∈ headLines _ _ ++ List.splitOn '\n' _ :=
    whole ▸ List.mem_append_right front List.mem_cons_self
  rcases List.mem_append.1 inside with head | body
  · exact (imported_iff .universal needed).1 head rfl
  · refine body_imports_nothing wellFormed ?_
    rw [bareWords_lines]
    exact List.mem_flatMap.2 ⟨_, body, by decide⟩

theorem head_before_use
    (unset : filled (Draft.ofDocument doc).checkReferences.rawRego = none) {k : Keyword}
    {front back : List (List Char)} {line : List Char}
    (split : (moduleText (Draft.ofDocument doc).checkReferences).toList.splitOn '\n' =
      front ++ line :: back) (used : k.word ∈ bareWords line) :
    headLines (needsIf (Draft.ofDocument doc).checkReferences)
      (needsIn (Draft.ofDocument doc).checkReferences) ⊆ front := by
  have filled : line ≠ [] := by
    rintro rfl
    revert used
    cases k <;> decide
  obtain ⟨rest, whole⟩ := moduleText_front split filled
  rw [sections_lines unset] at whole
  rcases List.append_eq_append_iff.1 whole with ⟨between, early, -⟩ | ⟨between, late, tail⟩
  · rw [early]
    exact List.subset_append_left _ _
  · cases between with
    | nil =>
      rw [List.append_nil] at late
      exact late ▸ List.Subset.refl _
    | cons other between =>
      have same := (List.cons.inj tail).1
      have inside : line ∈ front ++ other :: between := by simp [same]
      rw [← late] at inside
      exact absurd used (headLines_use_nothing _ _ line inside k)

/-- A module uses the keywords that its document needs, and imports each of them before its first
    use, except `every`: a document with a test on all members compiles to a module that uses this
    keyword and does not import it. -/
theorem keywords_imported_before_use {policy : Compiled} (compiled : doc.compile = .ok policy)
    (noRaw : doc.rawRego = none ∨ doc.rawRego = some "") (k : Keyword) :
    ((∃ line ∈ policy.rego.toList.splitOn '\n', k.word ∈ bareWords line) ↔ k.NeededBy doc) ∧
      (ImportedBeforeUse k policy.rego ↔ ¬ (k = .universal ∧ k.NeededBy doc)) := by
  obtain ⟨wellFormed, rfl⟩ := (compile_eq_ok doc policy).1 compiled
  have unset : filled (Draft.ofDocument doc).checkReferences.rawRego = none := by
    rw [ofDocument_eq]
    change filled doc.rawRego = none
    rcases noRaw with none | blank
    · rw [none]; rfl
    · rw [blank]; rfl
  have uses := module_uses wellFormed unset k
  refine ⟨uses, ?_, ?_⟩
  · rintro imported ⟨rfl, needed⟩
    obtain ⟨line, member, used⟩ := uses.2 needed
    obtain ⟨front, back, split⟩ := List.append_of_mem member
    have found := imported front line back split used
    refine universal_not_imported wellFormed unset needed ?_
    rw [split]
    exact List.mem_append_left _ found
  · intro other front line back split used
    have inside : line ∈ front ++ line :: back := by simp
    have needed := uses.1 ⟨line, split ▸ inside, used⟩
    have head := (imported_iff k needed).2 fun same => other ⟨same, needed⟩
    exact head_before_use unset split used head

def testing (o : Operator) : Document where
  description := some "every word in here"
  connectors := ["if"]
  constants := []
  predicates := [⟨"p", [⟨o, some "every.in", ["[\"if\"]", "in"], none⟩]⟩]
  rules := []
  rawRego := none

/-- A test on all members lacks the import of its keyword; a test on some member lacks none. -/
theorem testing_keywords_imported :
    (∃ policy, (testing .allMember).compile = .ok policy ∧
      ImportedBeforeUse .conditional policy.rego ∧ ImportedBeforeUse .membership policy.rego ∧
      ¬ ImportedBeforeUse .universal policy.rego) ∧
    (∃ policy, (testing .anyMember).compile = .ok policy ∧
      ∀ k : Keyword, ImportedBeforeUse k policy.rego) := by
  have first := compile_of_clean (testing .allMember) (by decide +kernel)
  have second := compile_of_clean (testing .anyMember) (by decide +kernel)
  have all : Keyword.universal.NeededBy (testing .allMember) := by decide
  have any : ¬ Keyword.universal.NeededBy (testing .anyMember) := by decide
  refine ⟨⟨_, first, ?_, ?_, ?_⟩, ⟨_, second, fun k => ?_⟩⟩
  · exact (keywords_imported_before_use first (.inl rfl) .conditional).2.2 (by simp)
  · exact (keywords_imported_before_use first (.inl rfl) .membership).2.2 (by simp)
  · intro imported
    exact (keywords_imported_before_use first (.inl rfl) .universal).2.1 imported ⟨rfl, all⟩
  · refine (keywords_imported_before_use second (.inl rfl) k).2.2 ?_
    rintro ⟨rfl, needed⟩
    exact any needed

end Modules

end RegoPolicy.Rego
