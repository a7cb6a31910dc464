import RegoPolicy.Proofs.Bodies
import RegoPolicy.Proofs.Numerals
import RegoPolicy.Proofs.Quotations

/-!
Trees of JSON texts. A tree keeps everything of a text but the space between its lexemes: how
strings are escaped, how numbers are written and in which order members stand. The texts of trees
are the texts of the grammar.
-/
namespace RegoPolicy.Json

open Text

inductive Tree where
  | null
  | bool (b : Bool)
  | number (negative : Bool) (numeral : Numeral)
  | string (quotation : Quotation)
  | list (items : List Tree)
  | object (members : List (Quotation × Tree))

mutual

inductive HasTree : List Symbol → Tree → Prop where
  | null : HasTree (ofString "null") .null
  | true : HasTree (ofString "true") (.bool true)
  | false : HasTree (ofString "false") (.bool false)
  | positive (n : Numeral) : HasTree n.symbols (.number Bool.false n)
  | negative (n : Numeral) : HasTree (.char '-' :: n.symbols) (.number Bool.true n)
  | string (q : Quotation) : HasTree (.char '"' :: (q.symbols ++ [.char '"'])) (.string q)
  | list {parts : List (List Symbol)} {items : List Tree} {body : List Symbol}
      (each : HaveTrees parts items) (joined : Joined parts body) :
      HasTree (.char '[' :: (body ++ [.char ']'])) (.list items)
  | object {entries : List (List Symbol × List Symbol)} {members : List (Quotation × Tree)}
      {body : List Symbol} (each : HaveMembers entries members)
      (joined : Joined (entries.map entryText) body) :
      HasTree (.char '{' :: (body ++ [.char '}'])) (.object members)

inductive HaveTrees : List (List Symbol) → List Tree → Prop where
  | nil : HaveTrees [] []
  | cons {text : List Symbol} {t : Tree} {parts : List (List Symbol)} {items : List Tree}
      (first : HasTree text t) (rest : HaveTrees parts items) :
      HaveTrees (text :: parts) (t :: items)

inductive HaveMembers : List (List Symbol × List Symbol) → List (Quotation × Tree) → Prop where
  | nil : HaveMembers [] []
  | cons {q : Quotation} {t : Tree} {gap space text : List Symbol}
      {entries : List (List Symbol × List Symbol)} {members : List (Quotation × Tree)}
      (apart : Blank gap) (blank : Blank space) (first : HasTree text t)
      (rest : HaveMembers entries members) :
      HaveMembers ((q.symbols, gap ++ .char ':' :: (space ++ text)) :: entries)
        ((q, t) :: members)

end

/-- A text with a tree, and any space around it. -/
def TextOf (s : String) (t : Tree) : Prop :=
  ∃ before text after, Blank before ∧ HasTree text t ∧ Blank after ∧
    ofString s = before ++ (text ++ after)

theorem derives_joined (b : Bracket) {parts : List (List Symbol)} {body : List Symbol}
    (joined : Joined parts body)
    (each : ∀ part ∈ parts, ∀ space, Blank space → Derives (.entry b) (space ++ part)) :
    (parts = [] ∧ Blank body) ∨
      ∃ e m, body = e ++ m ∧ Derives (.entry b) e ∧ Derives (.more b) m := by
  induction joined with
  | none blank => exact .inl ⟨rfl, blank⟩
  | @last space part gap blank after =>
    exact .inr ⟨space ++ part, gap, by simp, each part (by simp) space blank, .last b after⟩
  | @more space part gap next body parts blank after rest ih =>
    rcases ih fun p member => each p (List.mem_cons_of_mem part member) with ⟨none, -⟩ | some
    · cases none
    · obtain ⟨e, m, rfl, entry, more⟩ := some
      exact .inr ⟨space ++ part, _, by simp, each part (by simp) space blank,
        .next b after entry more⟩

theorem derives_bracket (b : Bracket) {parts : List (List Symbol)} {body : List Symbol}
    (joined : Joined parts body)
    (each : ∀ part ∈ parts, ∀ space, Blank space → Derives (.entry b) (space ++ part)) :
    Derives .value (b.opening :: (body ++ [b.closing])) := by
  rcases derives_joined b joined each with ⟨-, blank⟩ | ⟨e, m, rfl, entry, more⟩
  · exact .empty b blank
  · rw [List.append_assoc]
    exact .filled b entry more

mutual

theorem HasTree.derives : {text : List Symbol} → {t : Tree} → HasTree text t →
    Derives .value text
  | _, _, .null => .scalar .null
  | _, _, .true => .scalar .true
  | _, _, .false => .scalar .false
  | _, _, .positive n => .scalar (.positive ((unsigned_iff _).2 ⟨n, rfl⟩))
  | _, _, .negative n => .scalar (.negative ((unsigned_iff _).2 ⟨n, rfl⟩))
  | _, _, .string q => .scalar (.string q.content)
  | _, _, .list each joined => derives_bracket .list joined fun part member _ blank =>
      .item blank (each.derives part member)
  | _, _, .object each joined => derives_bracket .object joined each.derives

theorem HaveTrees.derives : {parts : List (List Symbol)} → {items : List Tree} →
    HaveTrees parts items → ∀ part ∈ parts, Derives .value part
  | _, _, .nil => by simp
  | _, _, .cons first rest => by
    intro part member
    rcases List.mem_cons.1 member with rfl | later
    · exact first.derives
    · exact rest.derives part later

theorem HaveMembers.derives : {entries : List (List Symbol × List Symbol)} →
    {members : List (Quotation × Tree)} → HaveMembers entries members →
      ∀ part ∈ entries.map entryText, ∀ space, Blank space →
        Derives (.entry .object) (space ++ part)
  | _, _, .nil => by simp
  | _, _, @HaveMembers.cons q _ _ _ _ _ _ apart blank first rest => by
    intro part member space before
    rcases List.mem_cons.1 member with rfl | later
    · exact .member before q.content apart (.item blank first.derives)
    · exact rest.derives part later space before

end

/-- What a part of a text tells about trees. What follows an entry goes on with joined parts. -/
def Treed : Part → List Symbol → Prop
  | .value, v => ∃ t, HasTree v t
  | .entry .list, e => ∃ space text t, Blank space ∧ HasTree text t ∧ e = space ++ text
  | .entry .object, e => ∃ space entry m, Blank space ∧ HaveMembers [entry] [m] ∧
      e = space ++ entryText entry
  | .more .list, m => ∃ parts items, HaveTrees parts items ∧
      ∀ space part, Blank space → Joined (part :: parts) (space ++ (part ++ m))
  | .more .object, m => ∃ entries members, HaveMembers entries members ∧
      ∀ space part, Blank space →
        Joined (part :: entries.map entryText) (space ++ (part ++ m))

theorem scalar_treed {v : List Symbol} (scalar : Scalar v) : ∃ t, HasTree v t := by
  cases scalar with
  | null => exact ⟨_, .null⟩
  | true => exact ⟨_, .true⟩
  | false => exact ⟨_, .false⟩
  | string content => exact ⟨_, .string ⟨_, content⟩⟩
  | positive number =>
    obtain ⟨n, rfl⟩ := (unsigned_iff _).1 number
    exact ⟨_, .positive n⟩
  | negative number =>
    obtain ⟨n, rfl⟩ := (unsigned_iff _).1 number
    exact ⟨_, .negative n⟩

theorem derives_treed {part : Part} {input : List Symbol} (derived : Derives part input) :
    Treed part input := by
  induction derived with
  | scalar scalar => exact scalar_treed scalar
  | empty b blank =>
    cases b with
    | list => exact ⟨_, .list .nil (.none blank)⟩
    | object => exact ⟨_, .object .nil (.none blank)⟩
  | @filled b e m _ _ first rest =>
    cases b with
    | list =>
      obtain ⟨space, text, t, blank, tree, rfl⟩ := first
      obtain ⟨parts, items, trees, joined⟩ := rest
      refine ⟨.list (t :: items), ?_⟩
      simpa [Bracket.opening, Bracket.closing] using
        HasTree.list (.cons tree trees) (joined space text blank)
    | object =>
      obtain ⟨space, entry, m, blank, tree, rfl⟩ := first
      obtain ⟨entries, members, trees, joined⟩ := rest
      cases tree with
      | @cons q t gap _ text _ _ apart before tree none =>
        refine ⟨.object ((q, t) :: members), ?_⟩
        simpa [Bracket.opening, Bracket.closing] using
          HasTree.object (.cons apart before tree trees) (joined space _ blank)
  | item blank _ value =>
    obtain ⟨t, tree⟩ := value
    exact ⟨_, _, t, blank, tree, rfl⟩
  | @member space c gap e blank name apart _ value =>
    obtain ⟨before, text, t, spaced, tree, rfl⟩ := value
    exact ⟨space, _, (⟨c, name⟩, t), blank, .cons apart spaced tree .nil, rfl⟩
  | last b blank =>
    cases b with
    | list => exact ⟨[], [], .nil, fun _ _ before => .last before blank⟩
    | object => exact ⟨[], [], .nil, fun _ _ before => .last before blank⟩
  | @next b gap e m blank _ _ entry rest =>
    cases b with
    | list =>
      obtain ⟨space, text, t, spaced, tree, rfl⟩ := entry
      obtain ⟨parts, items, trees, joined⟩ := rest
      refine ⟨text :: parts, t :: items, .cons tree trees, ?_⟩
      intro before part outer
      simpa using Joined.more outer blank (joined space text spaced)
    | object =>
      obtain ⟨space, entry, m, spaced, tree, rfl⟩ := entry
      obtain ⟨entries, members, trees, joined⟩ := rest
      cases tree with
      | @cons q t _ _ text _ _ apart before tree none =>
        refine ⟨_ :: entries, (q, t) :: members, .cons apart before tree trees, ?_⟩
        intro first part outer
        simpa using Joined.more outer blank (joined space _ spaced)

theorem isLiteral_iff_textOf (s : String) : isLiteral s = true ↔ ∃ t, TextOf s t := by
  rw [isLiteral_iff_isText]
  constructor
  · rintro ⟨e, after, entry, blank, split⟩
    obtain ⟨before, text, t, spaced, tree, rfl⟩ := derives_treed entry
    exact ⟨t, before, text, after, spaced, tree, blank, by simp [split]⟩
  · rintro ⟨t, before, text, after, spaced, tree, blank, split⟩
    exact ⟨before ++ text, after, .item spaced tree.derives, blank, by simp [split]⟩

def commas : List (List Symbol) → List Symbol
  | [] => []
  | [part] => part
  | part :: next :: parts => part ++ .char ',' :: commas (next :: parts)

theorem joined_commas : (parts : List (List Symbol)) → Joined parts (commas parts)
  | [] => .none blank_nil
  | [part] => by
    have alone : Joined [part] ([] ++ (part ++ [])) := .last blank_nil blank_nil
    simpa [commas] using alone
  | part :: next :: parts => by
    have joined : Joined (part :: next :: parts) _ :=
      .more blank_nil blank_nil (joined_commas (next :: parts))
    simpa [commas] using joined

mutual

def Tree.symbols : Tree → List Symbol
  | .null => ofString "null"
  | .bool true => ofString "true"
  | .bool false => ofString "false"
  | .number false n => n.symbols
  | .number true n => .char '-' :: n.symbols
  | .string q => .char '"' :: (q.symbols ++ [.char '"'])
  | .list items => .char '[' :: (commas (itemTexts items) ++ [.char ']'])
  | .object members =>
    .char '{' :: (commas ((memberEntries members).map entryText) ++ [.char '}'])

def itemTexts : List Tree → List (List Symbol)
  | [] => []
  | t :: items => t.symbols :: itemTexts items

def memberEntries : List (Quotation × Tree) → List (List Symbol × List Symbol)
  | [] => []
  | (q, t) :: members => (q.symbols, .char ':' :: t.symbols) :: memberEntries members

end

mutual

theorem hasTree_symbols : (t : Tree) → HasTree t.symbols t
  | .null => .null
  | .bool true => .true
  | .bool false => .false
  | .number false n => .positive n
  | .number true n => .negative n
  | .string q => .string q
  | .list items => .list (haveTrees_itemTexts items) (joined_commas _)
  | .object members => .object (haveMembers_memberEntries members) (joined_commas _)

theorem haveTrees_itemTexts : (items : List Tree) → HaveTrees (itemTexts items) items
  | [] => .nil
  | t :: items => .cons (hasTree_symbols t) (haveTrees_itemTexts items)

theorem haveMembers_memberEntries :
    (members : List (Quotation × Tree)) → HaveMembers (memberEntries members) members
  | [] => .nil
  | (_, t) :: members =>
    .cons blank_nil blank_nil (hasTree_symbols t) (haveMembers_memberEntries members)

end

theorem textOf_symbols {s : String} {t : Tree} (spelled : ofString s = t.symbols) : TextOf s t :=
  ⟨[], t.symbols, [], blank_nil, hasTree_symbols t, blank_nil, by simp [spelled]⟩

end RegoPolicy.Json
