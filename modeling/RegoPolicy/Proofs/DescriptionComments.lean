import RegoPolicy.Proofs.ModuleHeads

/-!
A description reaches the module as comments and in no other way. The lines of a module that are not
empty are those of the document without its description, with one comment for each line of the
description put in between; checks do not look at the description at all.
-/
namespace RegoPolicy.Policy

def Document.described (doc : Document) (description : Option String) : Document :=
  { doc with description := description }

theorem draft_described (doc : Document) (description : Option String) :
    (Draft.ofDocument (doc.described description)).checkReferences =
      { (Draft.ofDocument doc).checkReferences with description := description } := by
  rw [ofDocument_eq, ofDocument_eq]
  rfl

theorem findings_described (doc : Document) (description : Option String) :
    (Draft.ofDocument (doc.described description)).checkReferences.findings =
      (Draft.ofDocument doc).checkReferences.findings := by
  rw [draft_described]

theorem validate_described (doc : Document) (description : Option String) :
    (doc.described description).validate = doc.validate := by
  rw [validate_eq, validate_eq, findings_described]

end RegoPolicy.Policy

namespace RegoPolicy.Rego

open Policy Text

def filledLines (text : List Char) : List (List Char) := (text.splitOn '\n').filter (· ≠ [])

def isComment (line : List Char) : Bool := line.head? = some '#'

/-- What is left of a module without its empty lines and its comments. -/
def codeLines (rego : String) : List (List Char) :=
  (filledLines rego.toList).filter fun line => !isComment line

def comments (description : Option String) : List (List Char) :=
  match filled description with
  | some s => (Text.lines s).map fun line => trimEnd ('#' :: ' ' :: line)
  | none => []

theorem filledLines_feed (a b : List Char) :
    filledLines (a ++ '\n' :: b) = filledLines a ++ filledLines b := by
  simp only [filledLines, List.splitOn_append_cons_self, List.filter_append]

theorem filledLines_append {a : List Char} (ended : Ended a) (b : List Char) :
    filledLines (a ++ b) = filledLines a ++ filledLines b := by
  rcases ended with rfl | ⟨front, rfl⟩
  · simp [filledLines]
  · have nothing : filledLines [] = [] := by simp [filledLines]
    rw [List.append_assoc, List.singleton_append, filledLines_feed, filledLines_feed, nothing,
      List.append_nil]

theorem filledLines_moduleText (d : Draft) :
    filledLines (moduleText d).toList = filledLines (String.join (sections d)).toList := by
  obtain ⟨n, whole⟩ := splitOn_dropFeeds (String.join (sections d)).toList
  rw [moduleText_toList, filledLines_feed, filledLines, filledLines, filledLines, whole]
  simp

theorem mem_comments {description : Option String} {line : List Char}
    (member : line ∈ comments description) : isComment line = true ∧ '\n' ∉ line := by
  unfold comments at member
  split at member
  · obtain ⟨told, inside, rfl⟩ := List.mem_map.1 member
    obtain ⟨rest, flat, text⟩ := commentLine_eq (linesFrom_flat (by simp) told inside)
    have shape : trimEnd ('#' :: ' ' :: told) = '#' :: rest := by
      have closed : trimEnd ('#' :: ' ' :: told) ++ ['\n'] = '#' :: rest ++ ['\n'] := by
        simpa [commentLine] using text
      exact List.append_cancel_right closed
    rw [shape]
    exact ⟨rfl, by simp [flat]⟩
  · cases member

theorem filledLines_description (description : Option String) :
    filledLines (descriptionSection description).toList = comments description := by
  have flat : ∀ line ∈ comments description, '\n' ∉ line := fun line member =>
    (mem_comments member).2
  have kept : ∀ line ∈ comments description, decide (line ≠ []) = true := by
    intro line member
    have starts := (mem_comments member).1
    rw [decide_eq_true_iff]
    rintro rfl
    cases starts
  have text : ∃ rest, (descriptionSection description).toList =
      ((comments description).flatMap fun line => line ++ ['\n']) ++ rest ∧
        filledLines rest = [] := by
    cases set : filled description with
    | some s =>
      refine ⟨['\n'], ?_, rfl⟩
      simp [descriptionSection, comments, set, String.toList_join, List.flatMap_map, commentLine]
    | none => exact ⟨[], by simp [descriptionSection, comments, set], rfl⟩
  obtain ⟨rest, text, nothing⟩ := text
  rw [filledLines] at nothing
  rw [text, filledLines, splitOn_ended, flatMap_splitOn_flat flat, List.filter_append,
    List.filter_eq_self.2 kept, nothing, List.append_nil]

theorem packageSection_ended : Ended packageSection.toList := packageSection_hushed.ended

theorem importSection_ended (d : Draft) : Ended (importSection d).toList :=
  (importSection_hushed d).ended

theorem descriptionSection_ended (description : Option String) :
    Ended (descriptionSection description).toList := (descriptionSection_hushed description).ended

theorem moduleText_described (d : Draft) :
    ∃ front back, ∀ description,
      filledLines (moduleText { d with description := description }).toList =
        front ++ comments description ++ back := by
  refine ⟨filledLines packageSection.toList ++ filledLines (importSection d).toList,
    filledLines ((Part.connectors.text d).toList ++ ((Part.constants.text d).toList ++
      ((Part.predicates.text d).toList ++ ((Part.raw.text d).toList ++
        (Part.rules.text d).toList)))), fun description => ?_⟩
  have same : importSection { d with description := description } = importSection d := rfl
  have first := Ended.append packageSection_ended
    (Ended.append (importSection_ended d) (descriptionSection_ended description))
  rw [filledLines_moduleText, sections_parts, same, filledLines_append first,
    filledLines_append packageSection_ended, filledLines_append (importSection_ended d),
    filledLines_description, List.append_assoc]
  rfl

theorem filter_comments (description : Option String) (front back : List (List Char)) :
    (front ++ comments description ++ back).filter (fun line => !isComment line) =
      front.filter (fun line => !isComment line) ++ back.filter fun line => !isComment line := by
  have none : (comments description).filter (fun line => !isComment line) = [] := by
    rw [List.filter_eq_nil_iff]
    intro line member
    simp [(mem_comments member).1]
  simp [none]

/-- Two documents that differ in their descriptions alone get the same result from all checks, and
    if they compile, their modules have the same code. In each of the two the description has given
    rise to comments only, between lines that do not depend on it. -/
theorem description_only_adds_comments (doc : Document) (a b : Option String) :
    (doc.described a).validate = (doc.described b).validate ∧
      ((∃ error, (doc.described a).compile = .error error ∧
          (doc.described b).compile = .error error) ∨
        ∃ m n, (doc.described a).compile = .ok (.ofText m) ∧
          (doc.described b).compile = .ok (.ofText n) ∧ codeLines m = codeLines n ∧
          ∃ front back, filledLines m.toList = front ++ comments a ++ back ∧
            filledLines n.toList = front ++ comments b ++ back ∧
            ∀ line ∈ comments a ++ comments b, isComment line = true) := by
  refine ⟨(validate_described doc a).trans (validate_described doc b).symm, ?_⟩
  by_cases clean : (Draft.ofDocument doc).checkReferences.findings = []
  · obtain ⟨front, back, lines⟩ := moduleText_described (Draft.ofDocument doc).checkReferences
    have compiled (description : Option String) : (doc.described description).compile =
        .ok (.ofText (moduleText
          { (Draft.ofDocument doc).checkReferences with description := description })) := by
      rw [compile_of_clean _ ((findings_described doc description).trans clean), draft_described]
    refine .inr ⟨_, _, compiled a, compiled b, ?_, front, back, lines a, lines b, ?_⟩
    · rw [codeLines, codeLines, lines a, lines b, filter_comments, filter_comments]
    · intro line member
      rcases List.mem_append.1 member with first | second
      · exact (mem_comments first).1
      · exact (mem_comments second).1
  · have refused (description : Option String) : (doc.described description).compile =
        .error (.invalid (Draft.ofDocument doc).checkReferences.findings) := by
      have same := findings_described doc description
      rw [compile_of_findings (by rw [same]; exact clean), same]
    exact .inl ⟨_, refused a, refused b⟩

end RegoPolicy.Rego
