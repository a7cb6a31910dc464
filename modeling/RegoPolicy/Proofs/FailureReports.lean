import RegoPolicy.Proofs.Outputs
import RegoPolicy.Proofs.ReportLines
import RegoPolicy.Proofs.Utf8
import RegoPolicy.Proofs.WrittenValues

/-!
What a run that fails tells. Its report in JSON is one line, and the messages are had back from it
whatever the names in them are. Its exit code tells a document with findings from an input that is
no document, whichever layer refused it.
-/
namespace RegoPolicy.Json

open Text

def ReadsAsValue (s : String) (v : Value) : Prop :=
  ∃ space, readValue levelLimit (ofString s) = .ok (v, space) ∧ Blank space

/-- The compact text of a value that it keeps is read as the value, with or without space behind. -/
theorem readsAsValue_spaced {v : Value} (kept : v.Kept levelLimit) {gap : String}
    (blank : Blank (ofString gap)) : ReadsAsValue (v.compact ++ gap) v := by
  obtain ⟨t, tree, value⟩ := (compact_spells v).tree
  have nothing : EndsNumber [] := ⟨rfl, rfl, by simp⟩
  have ends : EndsNumber (ofString gap) := by simpa using endsNumber_of_blank blank nothing
  have read := readValue_tree levelLimit tree [] (ofString gap) blank_nil ends
  rw [value levelLimit kept, List.nil_append, ← ofString_append] at read
  exact ⟨ofString gap, toOption_eq_some.1 read, blank⟩

theorem readsAsValue_compact {v : Value} (kept : v.Kept levelLimit) :
    ReadsAsValue (v.compact ++ "\n") v :=
  readsAsValue_spaced kept (by simp [Blank, ofString, isSpace])

theorem report_kept (messages : List String) :
    (Value.object [("errors", .array (messages.map .string))]).Kept levelLimit := by
  exact ⟨by simp, by simp [Value.Kept]⟩

end RegoPolicy.Json

namespace RegoPolicy.Policy

/-- A text is refused because it is no document, or because its document has findings. -/
theorem compileText_eq_error {text : String} {error : CompileError}
    (failed : compileText text = .error error) :
    (∃ e, fromText Document.shape text = .error e ∧ error = .document e) ∨
      ∃ doc findings, fromText Document.shape text = .ok doc ∧
        doc.validate = .error (.invalid findings) ∧ error = .invalid findings := by
  cases parsed : fromText Document.shape text with
  | error e =>
    refine .inl ⟨e, rfl, ?_⟩
    simpa [compileText, parsed, bind, Except.bind, Except.mapError, eq_comm] using failed
  | ok doc =>
    have refused : doc.compile = .error error := by
      simpa [compileText, parsed, bind, Except.bind, Except.mapError] using failed
    by_cases clean : (Draft.ofDocument doc).checkReferences.findings = []
    · rw [compile_of_clean doc clean] at refused
      cases refused
    · refine .inr ⟨doc, _, rfl, (validate_eq_error doc _).2 ⟨rfl, clean⟩, ?_⟩
      rw [compile_of_findings clean, Except.error.injEq] at refused
      exact refused.symm

end RegoPolicy.Policy

namespace RegoPolicy.Command

open Policy Json

/-- The input is the encoding of a text that is a document, and that document has findings. -/
def Refused (source : Except ReadFailure (List UInt8)) (findings : List Finding) : Prop :=
  ∃ text doc, source = .ok (Text.encode text) ∧ fromText Document.shape text = .ok doc ∧
    doc.validate = .error (.invalid findings)

theorem run_eq_error {s : Settings} {source : Except ReadFailure (List UInt8)} {error : RunError}
    (failed : run s source = .error error) :
    (∃ failure, error = .unreadable s.input failure ∧ ∀ text, source ≠ .ok (Text.encode text)) ∨
      ∃ text e, source = .ok (Text.encode text) ∧ compileText text = .error e ∧
        error = .compile e := by
  cases source with
  | error failure => exact .inl ⟨failure, by cases failed; rfl, by simp⟩
  | ok bytes =>
    cases decoded : Text.toString? (Text.decode bytes) with
    | none =>
      have known : error = .unreadable s.input .notUtf8 := by
        simpa [run, decoded, bind, Except.bind, eq_comm] using failed
      refine .inl ⟨.notUtf8, known, fun text encoded => ?_⟩
      rw [(Text.toString?_decode bytes text).2 (Except.ok.inj encoded)] at decoded
      cases decoded
    | some text =>
      obtain rfl := (Text.toString?_decode bytes text).1 decoded
      cases compiled : compileText text with
      | error e =>
        refine .inr ⟨text, e, rfl, compiled, ?_⟩
        simpa [run, decoded, compiled, bind, Except.bind, Except.mapError, eq_comm] using failed
      | ok c =>
        simp [run, decoded, compiled, bind, Except.bind, Except.mapError, pure, Except.pure]
          at failed

theorem encode_inj {a b : String} (same : Text.encode a = Text.encode b) : a = b := by
  have back := (Text.toString?_decode (Text.encode a) b).2 same
  rw [(Text.toString?_decode (Text.encode a) a).2 rfl] at back
  exact Option.some.inj back

/-- The exit code tells whether the input is a document with findings, and then the messages are
    those of the findings. -/
theorem exitCode_of_error {s : Settings} {source : Except ReadFailure (List UInt8)}
    {error : RunError} (failed : run s source = .error error) :
    error.messages ≠ [] ∧
      ((error.exitCode = 2 ∧ ∃ findings, Refused source findings ∧
          error.messages = findings.map Finding.message) ∨
        (error.exitCode = 1 ∧ ∀ findings, ¬ Refused source findings)) := by
  rcases run_eq_error failed with ⟨failure, rfl, unread⟩ | ⟨text, e, rfl, refused, rfl⟩
  · refine ⟨by simp [RunError.messages], .inr ⟨rfl, ?_⟩⟩
    rintro findings ⟨text, doc, encoded, -⟩
    exact unread text encoded
  · rcases compileText_eq_error refused with ⟨e, parsed, rfl⟩ | ⟨doc, findings, parsed, found, rfl⟩
    · refine ⟨by simp [RunError.messages], .inr ⟨rfl, ?_⟩⟩
      rintro findings ⟨other, doc, encoded, known, -⟩
      obtain rfl := encode_inj (Except.ok.inj encoded)
      rw [parsed] at known
      cases known
    · have some := ((validate_eq_error doc findings).1 found).2
      refine ⟨by simpa [RunError.messages] using some, .inl ⟨rfl, findings, ?_, rfl⟩⟩
      exact ⟨text, doc, rfl, parsed, found⟩

/-- A run that fails is reported: in JSON by one line that is read as an object whose only key holds
    the messages, on standard output; in text with nothing on standard output. There is always a
    message. The exit code is two exactly if the input is a document with findings, whose messages
    are then the ones that are reported, and one otherwise. -/
theorem failure_reported (s : Settings) (source : Except ReadFailure (List UInt8))
    (error : RunError) (failed : run s source = .error error) :
    OneLine (errorText error .json) ∧
    ReadsAsValue (errorText error .json)
      (.object [("errors", .array (error.messages.map .string))]) ∧
    error.messages ≠ [] ∧
    ((error.exitCode = 2 ∧ ∃ findings, Refused source findings ∧
        error.messages = findings.map Finding.message) ∨
      (error.exitCode = 1 ∧ ∀ findings, ¬ Refused source findings)) ∧
    (s.format = .json → outcome s source = ⟨error.exitCode, errorText error .json, ""⟩) ∧
    (s.format = .text → outcome s source = ⟨error.exitCode, "", errorText error .text⟩) := by
  obtain ⟨some, code⟩ := exitCode_of_error failed
  have printed := outcome_of_error failed
  refine ⟨oneLine_feed (report_flat error.messages), readsAsValue_compact (report_kept _), some,
    code, ?_, ?_⟩
  · intro json
    rw [printed, json]
  · intro text
    rw [printed, text]

def crooked : String :=
  "\x7b\"constants\": [\x7b\"name\": \"a\\\"\\nb\", \"value\": \"[\"\x7d]\x7d"

/-- Both findings of the document are reported and had back from one line; bytes that are no text
    are reported as another failure, with nothing on standard output. -/
theorem crooked_reported :
    (∃ error, run ⟨"-", .json, false⟩ (.ok (Text.encode crooked)) = .error error ∧
      error.exitCode = 2 ∧ error.messages.length = 2 ∧ OneLine (errorText error .json) ∧
      ReadsAsValue (errorText error .json)
        (.object [("errors", .array (error.messages.map .string))]) ∧
      outcome ⟨"-", .json, false⟩ (.ok (Text.encode crooked)) =
        ⟨2, errorText error .json, ""⟩) ∧
    ∃ error, run ⟨"-", .text, false⟩ (.ok [0x7b, 0xff]) = .error error ∧ error.exitCode = 1 ∧
      (∀ findings, ¬ Refused (.ok [0x7b, 0xff]) findings) ∧
      (outcome ⟨"-", .text, false⟩ (.ok [0x7b, 0xff])).stdout = "" := by
  have findings : run ⟨"-", .json, false⟩ (.ok (Text.encode crooked)) =
      .error (.compile (.invalid [⟨.constant 0 "a\"\nb", .nameInvalid "a\"\nb"⟩,
        ⟨.constant 0 "a\"\nb", .literalInvalid⟩])) := by decide +kernel
  have stray : run ⟨"-", .text, false⟩ (.ok [0x7b, 0xff]) = .error (.unreadable "-" .notUtf8) := by
    decide +kernel
  obtain ⟨line, read, -, -, json, -⟩ := failure_reported _ _ _ findings
  obtain ⟨-, -, -, code, -, text⟩ := failure_reported _ _ _ stray
  refine ⟨⟨_, findings, rfl, rfl, line, read, json rfl⟩, _, stray, rfl, ?_, by rw [text rfl]⟩
  rcases code with ⟨two, -⟩ | ⟨-, none⟩
  · cases two
  · exact none

end RegoPolicy.Command
