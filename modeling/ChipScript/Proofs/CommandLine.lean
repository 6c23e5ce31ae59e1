import ChipScript.CommandLine
import ChipScript.Proofs.Chip.Assembly

/-!
# What a run of the compiler writes

A run goes through the stages of `compile` on its own and writes its assembly line by line, so that
an instruction that cannot be written would leave the lines before it on the output
(`Outcome.ofCode`).  No generated code holds such an instruction: a run writes its whole result, or
one line about what went wrong and nothing else.

Main result: `run_agrees_with_compile`.
-/

namespace ChipScript.CommandLine

/-! ## Code -/

/-- Code that can be assembled is written whole. -/
theorem Outcome.ofCode_of_assemble {code : List Instruction} {text : String}
    (hassembled : assemble code = .ok text) : Outcome.ofCode code = .success text := by
  induction code generalizing text with
  | nil =>
    cases hassembled
    rfl
  | cons instruction rest ih =>
    obtain ⟨first, later, hwritten, hothers, rfl⟩ := assemble_cons_eq_ok.1 hassembled
    simp only [Outcome.ofCode, hwritten, ih hothers]
    rfl

/-- What is written for a script is what it is assembled to. -/
theorem ofCode_eq_assembly (program : Program) :
    (match program.code with
      | .ok code => Outcome.ofCode code
      | .error error => .failure error.message) =
    match program.assembly with
      | .ok text => .success text
      | .error error => .failure error.message := by
  unfold Program.assembly
  cases hgenerated : program.code with
  | error e => rfl
  | ok code =>
    -- Generation has refused whatever could not be written, so that no line is missing.
    obtain ⟨text, hassembled⟩ := Program.exists_assemble hgenerated
    simp only [hassembled, Outcome.ofCode_of_assemble hassembled, Except.mapError]

/-! ## Files -/

theorem fromUTF8?_toUTF8 (source : String) : String.fromUTF8? source.toUTF8 = some source := by
  have hvalid : source.toUTF8.IsValidUTF8 := source.isValidUTF8
  simp only [String.fromUTF8?, hvalid, ↓reduceDIte]
  rfl

namespace Request

/-- A run on a file that holds a text. -/
theorem run_toUTF8 (request : Request) (source : String) :
    request.run (some source.toUTF8) = request.runSource source := by
  rw [run, fromUTF8?_toUTF8]

/-- A run that does not list the tokens reads the script from them. -/
theorem runSource_eq {request : Request} (hnoLex : request.lex = false) (source : String) :
    request.runSource source =
      match Program.ofSource source with
      | .ok program => request.runScript program
      | .error error => .failure error.message := by
  unfold runSource Program.ofSource
  cases tokenize source with
  | error e => rfl
  | ok tokens =>
    cases hparsed : Program.ofTokens tokens with
    | ok program => simp [hnoLex, hparsed, Except.mapError]
    | error e => simp [hnoLex, hparsed, Except.mapError, CompileError.message]

theorem prepare_options (request : Request) (program : Program) :
    request.options.prepare program =
      if request.noSimplify then program else program.simplify := by
  unfold options CompileOptions.prepare
  cases request.noSimplify with
  | true => rfl
  | false => rfl

end Request

/-! ## Runs -/

/-- **A run agrees with `compile` and never writes a part of its output.**  When the assembly is
    asked for, the run ends well with exactly the text that `compile` gives, or it writes the one
    line with the message of the same error.  When the script is asked for instead, its text is
    written whether or not there is code for it. -/
theorem run_agrees_with_compile (request : Request) (source : String)
    (hnoLex : request.lex = false) (hnoParse : request.parse = false) :
    (request.simplify = false →
      request.run (some source.toUTF8) =
        match compile source { simplify := !request.noSimplify } with
        | .ok text => ⟨0, text, ""⟩
        | .error error => ⟨1, "", "ic10c: " ++ error.message ++ "\n"⟩) ∧
    (request.simplify = true →
      request.run (some source.toUTF8) =
        match Program.ofSource source with
        | .ok program => ⟨0, (if request.noSimplify then program else program.simplify).text, ""⟩
        | .error error => ⟨1, "", "ic10c: " ++ error.message ++ "\n"⟩) := by
  rw [request.run_toUTF8, Request.runSource_eq hnoLex]
  unfold compile
  cases Program.ofSource source with
  | error e => exact ⟨fun _ => rfl, fun _ => rfl⟩
  | ok program =>
    refine ⟨fun hassembly => ?_, fun hscript => ?_⟩
    · simp only [Request.runScript, hnoParse, hassembly]
      exact ofCode_eq_assembly _
    · simp only [Request.runScript, hnoParse, hscript, request.prepare_options]
      rfl

/-- A script that is refused when a part of its code is there, and that is printed all the same. -/
theorem run_agrees_with_compile_probe :
    ({ path := "probe", noSimplify := true } : Request).run (some probeSource.toUTF8) =
      ⟨1, "", "ic10c: missing logic type on device `p`\n"⟩ ∧
    ({ path := "probe", noSimplify := true, simplify := true } : Request).run
      (some probeSource.toUTF8) = ⟨0, probeScript.text, ""⟩ := by
  have hrefused : probeScript.code = .error (.missingProperty "p") := by
    cbv
  have hfailed : compile probeSource { simplify := false } =
      .error (.code (.missingProperty "p")) := by
    simp only [compile, ofSource_probeSource, CompileOptions.prepare, Program.assembly]
    simp [hrefused]
  refine ⟨?_, ?_⟩
  · rw [(run_agrees_with_compile _ probeSource rfl rfl).1 rfl]
    simp only [Bool.not_true, hfailed]
    rfl
  · rw [(run_agrees_with_compile _ probeSource rfl rfl).2 rfl]
    simp only [ofSource_probeSource]
    rfl

end ChipScript.CommandLine
