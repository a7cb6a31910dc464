import RegoPolicy.Command.Report
import RegoPolicy.Proofs.ModuleHeads
import RegoPolicy.Proofs.RoundTrip

/-!
What the command prints does not depend on how it is asked for. The module, the line of JSON and the
identity tell of one policy, and an input that gives none fails with one error under all settings.
-/
namespace RegoPolicy.Json

def OneLine (s : String) : Prop := ∃ body, s.toList = body ++ ['\n'] ∧ '\n' ∉ body

theorem oneLine_feed {s : String} (flat : '\n' ∉ s.toList) : OneLine (s ++ "\n") :=
  ⟨s.toList, String.toList_append, flat⟩

theorem compactMembers_eq (members : List (String × Value)) :
    compactMembers members = members.map fun m => quote m.1 ++ ":" ++ m.2.compact := by
  induction members with
  | nil => rfl
  | cons m members ih => rw [compactMembers, ih, List.map_cons]

theorem object_flat {members : List (String × Value)}
    (each : ∀ m ∈ members, '\n' ∉ m.2.compact.toList) :
    '\n' ∉ (Value.object members).compact.toList := by
  have inner : '\n' ∉ (String.intercalate "," (compactMembers members)).toList := by
    apply Rego.intercalate_closed (by simp) Rego.flat_append (by decide)
    intro part member
    rw [compactMembers_eq] at member
    obtain ⟨m, inside, rfl⟩ := List.mem_map.1 member
    simp [Rego.quote_flat, each m inside]
  rw [Value.compact]
  generalize String.intercalate "," (compactMembers members) = body at inner ⊢
  simp [inner]

theorem strings_flat (texts : List String) :
    '\n' ∉ (Value.array (texts.map .string)).compact.toList := by
  rw [Value.compact, Rego.compactItems_strings]
  apply Rego.list_closed (by simp) Rego.flat_append (by decide) (by decide) (by decide)
  intro part member
  obtain ⟨s, -, rfl⟩ := List.mem_map.1 member
  exact Rego.quote_flat s

end RegoPolicy.Json

namespace RegoPolicy.Policy

open Json

theorem Compiled.shape_keeps (c : Compiled) : Compiled.shape.Keeps c :=
  ⟨rfl, required_keeps trivial (by decide) (required_keeps trivial (by decide) trivial)⟩

theorem Compiled.line_flat (c : Compiled) : '\n' ∉ (Compiled.shape.write c).compact.toList := by
  have written : Compiled.shape.write c =
      .object [("id", .string c.id), ("rego", .string c.rego)] := rfl
  rw [written]
  apply object_flat
  intro m member
  rcases List.mem_pair.1 member with rfl | rfl
  · exact Rego.quote_flat c.id
  · exact Rego.quote_flat c.rego

theorem compileText_ofText {s : String} {c : Compiled} (compiled : compileText s = .ok c) :
    ∃ rego, c = .ofText rego := by
  obtain ⟨doc, -, result⟩ := bind_eq_ok compiled
  obtain ⟨-, text⟩ := (compile_eq_ok doc c).1 result
  exact ⟨_, text⟩

end RegoPolicy.Policy

namespace RegoPolicy.Command

open Policy Json

def reportShape : Shape (List String) :=
  .record "Report" (required "errors" (.sequence .text) .done)
    (fun (messages, ()) => messages)
    (fun messages => (messages, ()))

theorem reportShape_keeps (messages : List String) : reportShape.Keeps messages :=
  ⟨rfl, required_keeps (fun _ _ => trivial) (by decide) trivial⟩

theorem report_flat (messages : List String) :
    '\n' ∉ (reportShape.write messages).compact.toList := by
  have written : reportShape.write messages =
      .object [("errors", .array (messages.map .string))] := rfl
  rw [written]
  apply object_flat
  intro m member
  obtain rfl := List.mem_singleton.1 member
  exact strings_flat messages

def CompilesTo (source : Except ReadFailure (List UInt8)) (policy : Compiled) : Prop :=
  ∃ bytes text, source = .ok bytes ∧ Text.toString? (Text.decode bytes) = some text ∧
    compileText text = .ok policy

theorem run_cases (input : String) (source : Except ReadFailure (List UInt8)) :
    (∃ c, CompilesTo source c ∧
      ∀ format idOnly, run ⟨input, format, idOnly⟩ source = .ok (policyText c format idOnly)) ∨
    (∀ c, ¬ CompilesTo source c) ∧
      ∃ error, ∀ format idOnly, run ⟨input, format, idOnly⟩ source = .error error := by
  cases source with
  | error failure =>
    refine .inr ⟨?_, .unreadable input failure, fun _ _ => rfl⟩
    rintro c ⟨bytes, text, read, -⟩
    cases read
  | ok bytes =>
    cases decoded : Text.toString? (Text.decode bytes) with
    | none =>
      refine .inr ⟨?_, .unreadable input .notUtf8, fun format idOnly => ?_⟩
      · rintro c ⟨_, text, ⟨⟩, known, -⟩
        rw [decoded] at known
        cases known
      · simp [run, decoded, bind, Except.bind]
    | some text =>
      cases compiled : compileText text with
      | error e =>
        refine .inr ⟨?_, .compile e, fun format idOnly => ?_⟩
        · rintro c ⟨_, other, ⟨⟩, known, result⟩
          obtain rfl : text = other := Option.some.inj (decoded.symm.trans known)
          rw [compiled] at result
          cases result
        · simp [run, decoded, compiled, bind, Except.bind, Except.mapError]
      | ok c =>
        refine .inl ⟨c, ⟨bytes, text, rfl, decoded, compiled⟩, fun format idOnly => ?_⟩
        simp [run, decoded, compiled, bind, Except.bind, Except.mapError, pure, Except.pure]

theorem outcome_of_error {s : Settings} {source : Except ReadFailure (List UInt8)}
    {error : RunError} (failed : run s source = .error error) :
    outcome s source =
      match s.format with
      | .text => ⟨error.exitCode, "", errorText error .text⟩
      | .json => ⟨error.exitCode, errorText error .json, ""⟩ := by
  unfold outcome
  rw [failed]
  cases s.format <;> rfl

/-- An input that compiles gives one policy: its module is the text, one line of JSON reads as the
    module with its identity, and both formats print that identity alone. Every other input gives
    one error: it has one exit code, and its messages are what the text lists and what the line of
    JSON reads as. -/
theorem outputs_agree (input : String) (source : Except ReadFailure (List UInt8)) :
    (∃ rego json, CompilesTo source ⟨Digest.identity rego, rego⟩ ∧
      run ⟨input, .text, false⟩ source = .ok rego ∧ run ⟨input, .json, false⟩ source = .ok json ∧
      OneLine json ∧ fromText Compiled.shape json = .ok ⟨Digest.identity rego, rego⟩ ∧
      ∀ format, run ⟨input, format, true⟩ source = .ok (Digest.identity rego ++ "\n")) ∨
    (∀ policy, ¬ CompilesTo source policy) ∧ ∃ error report,
      (∀ format idOnly, run ⟨input, format, idOnly⟩ source = .error error) ∧
      OneLine report ∧ fromText reportShape report = .ok error.messages ∧
      ∀ idOnly,
        outcome ⟨input, .text, idOnly⟩ source =
          ⟨error.exitCode, "", String.join (error.messages.map (· ++ "\n"))⟩ ∧
        outcome ⟨input, .json, idOnly⟩ source = ⟨error.exitCode, report, ""⟩ := by
  rcases run_cases input source with ⟨c, compiles, printed⟩ | ⟨refused, error, failed⟩
  · have own : ∃ rego, c = .ofText rego := by
      obtain ⟨bytes, text, -, -, compiled⟩ := compiles
      exact compileText_ofText compiled
    obtain ⟨rego, rfl⟩ := own
    have json := fromText_eq_ok.2
      (Compiled.shape.parseText_compact (Compiled.shape_keeps (.ofText rego)) (by decide))
    exact .inl ⟨rego, _, compiles, printed .text false, printed .json false,
      oneLine_feed (Compiled.line_flat _), json, fun format => printed format true⟩
  · refine .inr ⟨refused, error, errorText error .json, failed, ?_, ?_, ?_⟩
    · exact oneLine_feed (report_flat error.messages)
    · exact fromText_eq_ok.2 (reportShape.parseText_compact (reportShape_keeps _) (by decide))
    · intro idOnly
      exact ⟨outcome_of_error (failed .text idOnly), outcome_of_error (failed .json idOnly)⟩

end RegoPolicy.Command
