import ChipScript.Proofs.Grammar.Completeness
import ChipScript.Proofs.Refinement.Statement
import ChipScript.Proofs.Semantics.Behaviour

/-!
# Generated code does what its script does

`code_refines_script`: a script that has been read and its code have the same behaviour, in every
setting, as long as the script does not read a name that has no meaning.

Two things are needed beside the simulation of statements.  What has been read calls commands as
statements only (`Grammar.Forms.wellPlaced`), since the grammar has no commands among expressions.
And the run of a whole script has to be put together from runs that are cut off: if the script is
cut off under every bound, then the chip takes any number of steps and shows nothing else.
-/

namespace ChipScript

/-! ## Commands in scripts -/

namespace Grammar

/-- A function is no command. -/
theorem not_isCommand_of_functionArity? {name : String} {arity : Nat}
    (h : Vocabulary.functionArity? name = some arity) : Vocabulary.isCommand name = false := by
  have hnames : ∀ entry ∈ Vocabulary.functions, Vocabulary.isCommand entry.1 = false := by
    decide
  exact hnames (name, arity) (mem_of_lookup h)

/-- No command is called inside a phrase. -/
def Phrase.NoCommand : Phrase → Prop
  | .value _ node => node.hasCommand = false
  | .list nodes => Node.anyHasCommand nodes = false
  | .arguments nodes => Node.anyHasCommand nodes = false
  | .suffix index _ => Node.indexHasCommand index = false

theorem hasCommand_negated (text : String) : (Parser.negated text).hasCommand = false :=
  Parser.negated_cases text (fun _ => rfl) (fun _ => rfl)

theorem Derives.noCommand {declared : List String} {phrase : Phrase} {ts : List Token}
    (h : Derives declared phrase ts) : phrase.NoCommand := by
  -- A call in a value is one of a function, since its name has an arity as such.
  induction h with
  | lift _ _ ih => exact ih
  | join _ hjoins _ _ hleft hright =>
    cases hjoins <;> simp_all [Phrase.NoCommand, Node.hasCommand]
  | choice _ _ _ hfirst hsecond hthird =>
    simp_all [Phrase.NoCommand, Node.hasCommand]
  | not _ ih => exact ih
  | negative text => exact hasCommand_negated text
  | group _ ih => exact ih
  | call harity _ ih =>
    simp_all [Phrase.NoCommand, Node.hasCommand, not_isCommand_of_functionArity? harity]
  | read _ _ _ ih => exact ih
  | one _ ih => simp_all [Phrase.NoCommand, Node.anyHasCommand]
  | more _ _ hfirst hrest => simp_all [Phrase.NoCommand, Node.anyHasCommand]
  | someArguments _ ih => exact ih
  | indexed _ _ ih => exact ih
  | number | constant | hash | device | noArguments | bare | property => rfl

/-- Commands are called as statements only. -/
def Sentence.WellPlaced : Sentence → Prop
  | .statement node => node.wellPlaced = true
  | .sequence nodes => Node.allWellPlaced nodes = true

theorem Forms.wellPlaced {declared after : List String} {inLoop : Bool} {sentence : Sentence}
    {ts : List Token} (h : Forms declared inLoop sentence ts after) : sentence.WellPlaced := by
  -- Commands are formed as statements only, and the values of a statement contain none.
  induction h with
  | declare _ _ _ hvalue =>
    have hpure := hvalue.noCommand
    simp_all [Sentence.WellPlaced, Node.wellPlaced, Phrase.NoCommand]
  | assign _ _ hsuffix hvalue =>
    have hpure := hvalue.noCommand
    have hpureIndex := hsuffix.noCommand
    simp_all [Sentence.WellPlaced, Node.wellPlaced, Phrase.NoCommand]
  | loop _ ih => exact ih
  | whileLoop hcondition _ ih =>
    have hpure := hcondition.noCommand
    simp_all [Sentence.WellPlaced, Node.wellPlaced, Phrase.NoCommand]
  | branch hcondition _ ih =>
    have hpure := hcondition.noCommand
    simp_all [Sentence.WellPlaced, Node.wellPlaced, Node.elseWellPlaced, Phrase.NoCommand]
  | branchElse hcondition _ _ _ hfirst hsecond =>
    have hpure := hcondition.noCommand
    simp_all [Sentence.WellPlaced, Node.wellPlaced, Node.elseWellPlaced, Phrase.NoCommand]
  | branchElseIf hcondition _ _ _ hfirst hsecond =>
    have hpure := hcondition.noCommand
    simp_all [Sentence.WellPlaced, Node.wellPlaced, Node.elseWellPlaced, Phrase.NoCommand]
  | command _ harguments =>
    have hpure := harguments.noCommand
    simp_all [Sentence.WellPlaced, Node.wellPlaced, Phrase.NoCommand]
  | block _ ih => exact ih
  | next _ _ hfirst hrest => simp_all [Sentence.WellPlaced, Node.allWellPlaced]
  | leave | again | device | done => rfl

end Grammar

section Execution

variable {V : Type} [LinearOrder V]

/-! ## One run -/

/-- What the chip does for a run of a whole script, which leaves no loop that it is not in. -/
def Realizes (chip : Chip V) (registers : Register → V) (rounds : Nat) :
    EStateM.Result Exit (Situation V) Unit → Prop
  | .ok _ s => chip.Behaves registers (.ends s.trace)
  | .error .halted s => chip.Behaves registers (.halts s.trace)
  | .error .unfinished s => ∃ steps, rounds ≤ steps ∧
    (chip.after steps (.initial registers)).status = .running ∧
    (chip.after steps (.initial registers)).trace = s.trace
  | .error (.fault (.undefined _)) s =>
    ∃ steps, (chip.after steps (.initial registers)).trace = s.trace
  | .error _ _ => False

/-- A chip that has come behind its code has ended. -/
theorem Chip.ends_of_leads {chip : Chip V} {registers : Register → V} {m : Machine V}
    (hleads : chip.Leads (.initial registers) m) (hindex : m.index = chip.code.length)
    (hrunning : m.status = .running) : chip.Behaves registers (.ends m.trace) := by
  obtain ⟨steps, -, rfl⟩ := hleads
  have hlast : chip.after (steps + 1) (.initial registers) =
      { chip.after steps (.initial registers) with status := .ended } := by
    rw [Chip.after_succ, Chip.step, hrunning]
    simp [hindex]
  exact ⟨steps + 1, by rw [hlast], by rw [hlast]⟩

/-- **Every run of a script is realized by its code.** -/
theorem execute_realized {program : Program} {code : List Instruction}
    (hwellPlaced : Node.allWellPlaced program = true) (hgenerated : program.code = .ok code)
    (S : Setting V) (registers : Register → V) (rounds : Nat) :
    Realizes ⟨S, code⟩ registers rounds (program.execute S rounds) := by
  obtain ⟨scratch, g, hplaced, rfl⟩ :
      ∃ scratch g, Gen.statements program scratch (Generator.empty.hold [scratch]) = .ok () g ∧
        code = g.code.toList := by
    unfold Program.code at hgenerated
    split at hgenerated
    · next hresult =>
      cases hgenerated
      obtain ⟨scratch, g, -, hplaced, hsame⟩ := Gen.program_cases hresult
      exact ⟨scratch, g, hplaced, by rw [hsame]⟩
    · cases hgenerated
  have hready : (Generator.empty.hold [scratch]).Ready scratch :=
    ⟨⟨List.nodup_singleton _, List.nil_sublist _⟩, List.mem_singleton_self _, List.not_mem_nil⟩
  have hadds := Gen.statements_extends scratch (fun n _ => Gen.statement_extends n scratch) _ g
    hready.disciplined.nodup hplaced
  have hdistinct : (labelsIn g.code.toList).Nodup := by
    have hapart := hadds.labels [] (Generator.LabelsApart.empty.congr rfl rfl)
    simpa using hapart.nodup
  have htracks : Tracks (Generator.empty.hold [scratch]) (.initial : Situation V)
      (.initial registers) := ⟨rfl, rfl, fun _ => trivial⟩
  have hperformed := statements_implements
    (fun node hmem => statement_implements ⟨S, g.code.toList⟩ hdistinct rounds scratch node
      (Node.allWellPlaced_eq_true.1 hwellPlaced node hmem))
    _ g _ _ hready (fun kind label hgoal => by cases hgoal) rfl htracks hplaced List.prefix_rfl
  change Realizes _ registers rounds (executeAll S rounds program .initial)
  cases hrun : executeAll S rounds program .initial with
  | ok u s =>
    rw [hrun] at hperformed
    obtain ⟨m, hleads, hindex, htracks⟩ := hperformed
    rw [Realizes, ← htracks.trace]
    exact Chip.ends_of_leads hleads hindex htracks.running
  | error exit s =>
    rw [hrun] at hperformed
    cases exit with
    | control kind =>
      -- Outside of all loops there is nowhere to go.
      obtain ⟨m, -, -, label, hgoal, -⟩ := hperformed
      cases hgoal
    | halted =>
      obtain ⟨m, ⟨steps, -, rfl⟩, hhalted, htrace⟩ := hperformed
      exact ⟨steps, hhalted, htrace⟩
    | unfinished =>
      obtain ⟨m, ⟨steps, hleast, rfl⟩, hrunning, htrace⟩ := hperformed
      exact ⟨steps, hleast, hrunning, htrace⟩
    | fault fault =>
      obtain ⟨⟨name, rfl⟩, m, ⟨steps, -, rfl⟩, htrace⟩ := hperformed
      exact ⟨steps, htrace⟩

/-! ## Whole runs -/

/-- Every script behaves in some way, if its runs are realized and it reads no name without a
    meaning. -/
theorem Program.exists_behaves {program : Program} {S : Setting V} {chip : Chip V}
    {registers : Register → V}
    (hrealized : ∀ rounds, Realizes chip registers rounds (program.execute S rounds))
    (hdefined : ∀ trace, ¬ program.ReadsUndefined S trace) : ∃ b, program.Behaves S b := by
  -- Either every bound cuts the script off, or it comes to an end under one of them.
  by_cases hcut : ∀ rounds, ∃ s, program.execute S rounds = .error .unfinished s
  · exact ⟨.goesOn _, hcut, rfl⟩
  · push Not at hcut
    obtain ⟨rounds, hsettled⟩ := hcut
    have hreal := hrealized rounds
    cases hrun : program.execute S rounds with
    | ok u s => exact ⟨.ends s.trace, rounds, s, hrun, rfl⟩
    | error exit s =>
      rw [hrun] at hreal
      cases exit with
      | halted => exact ⟨.halts s.trace, rounds, s, hrun, rfl⟩
      | unfinished => exact absurd hrun (hsettled s)
      | control kind => cases hreal
      | fault fault =>
        cases fault with
        | undefined name => exact absurd ⟨rounds, name, s, hrun, rfl⟩ (hdefined s.trace)
        | meaningless => cases hreal

/-- What a script does its chip does, if the chip realizes its runs. -/
theorem Chip.behaves_of_realizes {program : Program} {S : Setting V} {chip : Chip V}
    {registers : Register → V}
    (hrealized : ∀ rounds, Realizes chip registers rounds (program.execute S rounds))
    {b : Behaviour V} (h : program.Behaves S b) : chip.Behaves registers b := by
  cases b with
  | ends trace =>
    obtain ⟨rounds, s, hrun, rfl⟩ := h
    have hreal := hrealized rounds
    rw [hrun] at hreal
    exact hreal
  | halts trace =>
    obtain ⟨rounds, s, hrun, rfl⟩ := h
    have hreal := hrealized rounds
    rw [hrun] at hreal
    exact hreal
  | goesOn seen =>
    obtain ⟨hcut, rfl⟩ := h
    -- Under a bound, the chip has gone at least as many steps and shows what the script shows.
    have hreached : ∀ rounds, ∃ s steps, program.execute S rounds = .error .unfinished s ∧
        rounds ≤ steps ∧ (chip.after steps (.initial registers)).status = .running ∧
        (chip.after steps (.initial registers)).trace = s.trace := by
      intro rounds
      obtain ⟨s, hrun⟩ := hcut rounds
      have hreal := hrealized rounds
      rw [hrun] at hreal
      obtain ⟨steps, hleast, hrunning, htrace⟩ := hreal
      exact ⟨s, steps, hrun, hleast, hrunning, htrace⟩
    refine ⟨?_, ?_⟩
    · intro steps
      obtain ⟨s, later, -, hleast, hrunning, -⟩ := hreached steps
      exact Chip.running_of_le hleast hrunning
    · ext trace
      constructor
      · intro hseen
        obtain ⟨rounds, s, hrun, hshown⟩ := hseen
        obtain ⟨s', steps, hrun', -, -, hsame⟩ := hreached rounds
        rw [hrun] at hrun'
        cases hrun'
        exact ⟨steps, hsame ▸ hshown⟩
      · intro hseen
        obtain ⟨steps, hshown⟩ := hseen
        obtain ⟨s, later, hrun, hleast, -, hsame⟩ := hreached steps
        obtain ⟨more, rfl⟩ := Nat.exists_eq_add_of_le hleast
        rw [Chip.after_add] at hsame
        have hgrown : (chip.after steps (.initial registers)).trace <+:
            (chip.after more (chip.after steps (.initial registers))).trace :=
          Chip.trace_prefix_after more _
        rw [hsame] at hgrown
        exact ⟨steps, s, hrun, hshown.trans hgrown⟩

/-- **Generated code does what its script does.**  In every setting, and whatever the registers hold
    at first, the chip shows all that the script shows before it reads a name that has no meaning;
    and if it reads none, the script and the chip have one behaviour each, and it is the same. -/
theorem code_refines_script {tokens : List PlacedToken} {program : Program}
    {code : List Instruction} (hparsed : Program.ofTokens tokens = .ok program)
    (hgenerated : program.code = .ok code) (S : Setting V) (registers : Register → V) :
    (∀ trace, program.ReadsUndefined S trace →
      ∃ steps, ((Chip.mk S code).after steps (.initial registers)).trace = trace) ∧
    ((∀ trace, ¬ program.ReadsUndefined S trace) →
      ∃ b, ∀ b', (program.Behaves S b' ↔ b' = b) ∧
        ((Chip.mk S code).Behaves registers b' ↔ b' = b)) := by
  obtain ⟨declared, hforms⟩ := Grammar.ofTokens_sound hparsed
  have hrealized := execute_realized hforms.wellPlaced hgenerated S registers
  refine ⟨?_, ?_⟩
  · intro trace hundefined
    obtain ⟨rounds, name, s, hrun, rfl⟩ := hundefined
    have hreal := hrealized rounds
    rw [hrun] at hreal
    exact hreal
  · intro hdefined
    obtain ⟨b, hbehaves⟩ := Program.exists_behaves hrealized hdefined
    have hfollows := Chip.behaves_of_realizes hrealized hbehaves
    -- Script and chip have that behaviour, and neither has another.
    refine ⟨b, fun b' => ⟨⟨?_, ?_⟩, ?_, ?_⟩⟩
    · exact fun hother => Program.behaves_unique hother hbehaves
    · exact fun hsame => hsame ▸ hbehaves
    · exact fun hother => Chip.behaves_unique hother hfollows
    · exact fun hsame => hsame ▸ hfollows

end Execution

/-! ## A script that watches a pump -/

/-- Every device answers with the number of events that have been seen. -/
def countingSetting : Setting Int :=
  { Interpretation.whole with world := fun trace _ => trace.length }

/-- The tokens of a script that reads a pressure and writes a setting, round after round. -/
def samplingTokens : List PlacedToken :=
  [.keyword .var, .identifier "p", .symbol .assign, .keyword .device, .symbol .leftParen,
    .identifier "Pump", .symbol .comma, .identifier "d0", .symbol .rightParen, .symbol .semicolon,
    .keyword .loop, .symbol .leftBrace,
    .keyword .var, .identifier "seen", .symbol .assign, .identifier "p", .symbol .dot,
    .identifier "Pressure", .symbol .semicolon,
    .keyword .ifThen, .symbol .leftParen, .identifier "seen", .symbol .greater, .number "5",
    .symbol .either, .identifier "seen", .symbol .equal, .number "2", .symbol .rightParen,
    .keyword .leave, .symbol .semicolon,
    .identifier "p", .symbol .dot, .identifier "Setting", .symbol .assign, .identifier "seen",
    .symbol .plus, .number "10", .symbol .semicolon,
    .identifier "yield", .symbol .leftParen, .symbol .rightParen, .symbol .semicolon,
    .symbol .rightBrace].map fun token => ⟨token, .start⟩

def samplingScript : Program :=
  [.declare "p" (.device ⟨"Pump", .pin "d0"⟩),
    .loop (.block [.declare "seen" (.read "p" none (some "Pressure")),
      .branch (.connective .or (.comparison .greater (.read "seen" none none) (.number "5"))
        (.comparison .equal (.read "seen" none none) (.number "2"))) (.control .leave) none,
      .assign "p" none (some "Setting")
        (.arithmetic .add (.read "seen" none none) (.number "10")),
      .call "yield" []])]

def samplingCode : List Instruction :=
  [.label "loop_start001",
    .load ⟨15⟩ (.pin "d0") none "Pressure",
    .compare .greater ⟨0⟩ (.register ⟨15⟩) (.immediate "5"),
    .compare .equal ⟨1⟩ (.register ⟨15⟩) (.immediate "2"),
    .branchRelative .greaterEqual (.register ⟨0⟩) (.immediate "1") 3,
    .branchRelative .greaterEqual (.register ⟨1⟩) (.immediate "1") 2,
    .jump "if001",
    .jump "loop_end001",
    .label "if001",
    .arithmetic .add ⟨0⟩ (.register ⟨15⟩) (.immediate "10"),
    .store (.pin "d0") none "Setting" (.register ⟨0⟩),
    .yield,
    .jump "loop_start001",
    .label "loop_end001"]

/-- What is seen: the pressure is above five in the third round. -/
def samplingTrace : Trace Int :=
  [.answer (.load (.pin "d0") none "Pressure") 0, .store (.pin "d0") none "Setting" 10, .yield,
    .answer (.load (.pin "d0") none "Pressure") 3, .store (.pin "d0") none "Setting" 13, .yield,
    .answer (.load (.pin "d0") none "Pressure") 6]

theorem ofTokens_samplingTokens : Program.ofTokens samplingTokens = .ok samplingScript := rfl

theorem code_samplingScript : samplingScript.code = .ok samplingCode := by
  cbv

theorem behaves_samplingScript :
    samplingScript.Behaves countingSetting (.ends samplingTrace) := by
  let seen : EStateM.Result Exit (Situation Int) Unit → Option (Trace Int)
    | .ok _ s => some s.trace
    | .error _ _ => none
  have hshown : seen (samplingScript.execute countingSetting 3) = some samplingTrace := by
    decide +kernel
  cases hrun : samplingScript.execute countingSetting 3 with
  | ok u s =>
    rw [hrun] at hshown
    exact ⟨3, s, hrun, Option.some.inj hshown⟩
  | error exit s =>
    rw [hrun] at hshown
    cases hshown

theorem code_refines_script_sampling :
    Program.ofTokens samplingTokens = .ok samplingScript ∧
    samplingScript.code = .ok samplingCode ∧
    (∀ trace, ¬ samplingScript.ReadsUndefined countingSetting trace) ∧
    (Chip.mk countingSetting samplingCode).Behaves (fun _ => 0) (.ends samplingTrace) := by
  have hdefined := behaves_samplingScript.defined
  refine ⟨ofTokens_samplingTokens, code_samplingScript, hdefined, ?_⟩
  obtain ⟨b, hsame⟩ := (code_refines_script ofTokens_samplingTokens code_samplingScript
    countingSetting fun _ => 0).2 hdefined
  exact (hsame _).2.2 ((hsame _).1.1 behaves_samplingScript)

end ChipScript
