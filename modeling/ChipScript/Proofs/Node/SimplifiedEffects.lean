import ChipScript.Proofs.Node.NormalForm
import ChipScript.Proofs.Semantics.Effects

/-!
# Effects of simplified scripts

A simplified script takes the course that the script takes, whatever gives the expressions their
values, as long as simplification keeps the value of each expression in the script and known values
are what they are known to be.  The runs of the two are the same under every bound on rounds
(`WellFormed.run_simplify`): a statement that is dropped does nothing, a loop that is dropped is
left before its first round, and a test that is dropped would not have left its loop.

Expressions are simplified without a look at what they stand for, and only the value of a
declaration may be a device.  So that a declaration does not come to declare a device where it
declared a variable, devices must stand as the whole value of a declaration and nowhere else.

Main result: `simplify_preserves_course`.
-/

namespace ChipScript

namespace Node

/-! ## What is asked of a script -/

mutual

/-- The expressions whose values a statement asks for, without the parts of these. -/
def expressions : Node → List Node
  | block body => expressionsInAll body
  | declare _ value => [value]
  | assign _ index _ value => value :: index.toList
  | loop body => body.expressions
  | whileLoop condition body => condition :: body.expressions
  | branch condition thenBranch elseBranch =>
    condition :: (thenBranch.expressions ++ expressionsInElse elseBranch)
  | call _ arguments => arguments
  | _ => []

/-- The expressions in several statements. -/
def expressionsInAll : List Node → List Node
  | [] => []
  | node :: rest => node.expressions ++ expressionsInAll rest

/-- The expressions in the other branch of a choice. -/
def expressionsInElse : Option Node → List Node
  | none => []
  | some node => node.expressions

end

/-- Trees in which a device is the whole value of a declaration and stands nowhere else. -/
inductive DevicesDeclared : Node → Prop where
  | intro {node : Node} :
      (∀ config, .device config ∈ node.parts → ∃ name, node = .declare name (.device config)) →
      (∀ part ∈ node.parts, DevicesDeclared part) → DevicesDeclared node

theorem DevicesDeclared.part {node part : Node} (h : DevicesDeclared node)
    (hmem : part ∈ node.parts) : DevicesDeclared part := by
  obtain ⟨-, hwithin⟩ := h
  exact hwithin part hmem

theorem mem_expressionsInAll {e node : Node} {body : List Node} (hmem : node ∈ body)
    (hasked : e ∈ node.expressions) : e ∈ expressionsInAll body := by
  induction body with
  | nil => cases hmem
  | cons first rest ih =>
    rw [expressionsInAll, List.mem_append]
    rcases List.mem_cons.1 hmem with rfl | hlater
    · exact .inl hasked
    · exact .inr (ih hlater)

theorem ofValue_ne_device (value : Float) (config : DeviceConfig) :
    ofValue value ≠ .device config :=
  ofValue_cases value (by simp) (by simp)

/-- No device comes out of an expression without one. -/
theorem simplify_ne_device {node : Node} (h : DevicesDeclared node)
    (hother : ∀ config, node ≠ .device config) : ∀ config, node.simplify ≠ .device config := by
  induction h with
  | @intro node hwithin _ ih =>
    intro config
    rcases simplify_cases node with ⟨v, hleft⟩ | hleft | ⟨part, hmem, hleft⟩ | hleft
    all_goals rw [hleft]
    · exact ofValue_ne_device v config
    · simp
    · apply ih part hmem
      rintro device rfl
      -- Only a declaration has a device as its part, and it is left as a whole.
      obtain ⟨name, rfl⟩ := hwithin device hmem
      cases hleft
    · intro hsame
      cases node with
      | device config => exact hother config rfl
      | _ => cases hsame

/-! ## Runs -/

section Runs

variable {ev : Evaluator} {rounds : Nat}

theorem run_bodyOf (left : Option Node) : run ev rounds (bodyOf left) = runElse ev rounds left := by
  cases left with
  | none => rw [bodyOf, Option.getD_none, run, runAll, runElse]
  | some node => rw [bodyOf, Option.getD_some, runElse]

/-- An expression that stands as a statement does nothing. -/
theorem IsExpression.run_eq {node : Node} (h : IsExpression node) :
    run ev rounds node = pure () := by
  obtain ⟨hroot, -⟩ := h
  cases node with
  | call name arguments =>
    have hfunction : Vocabulary.functionArity? name = some arguments.length := by
      simpa [hasValue] using hroot
    have hnoCommand := Grammar.not_isCommand_of_functionArity? hfunction
    rw [Vocabulary.isCommand, Option.isSome_eq_false_iff, Option.isNone_iff_eq_none] at hnoCommand
    rw [run, hnoCommand]
  | block _ | declare _ _ | assign _ _ _ _ | loop _ | whileLoop _ _ | branch _ _ _ | control _ =>
    cases hroot
  | _ => simp only [run]

theorem runTest_of_holds {condition : Node} (hholds : ∀ s, isTrue (ev s condition) = true) :
    runTest ev condition = pure () := by
  funext s
  rw [runTest, bind_apply get_apply, hholds s]
  rfl

theorem runTest_of_fails {condition : Node} (hfails : ∀ s, isTrue (ev s condition) = false) :
    runTest ev condition = throw (.control .leave) := by
  funext s
  rw [runTest, bind_apply get_apply, hfails s]
  rfl

/-- A loop whose test fails is left before its first round. -/
theorem repeated_leave (next : Run Unit) (rounds : Nat) :
    Run.repeated (do throw (.control .leave); next) rounds = pure () := by
  cases rounds with
  | zero => rfl
  | succ rounds => rfl

/-- Of several statements, those that do nothing may be left out. -/
theorem runAll_simplify {body : List Node}
    (heach : ∀ node ∈ body, runElse ev rounds node.simplifyStatement? = run ev rounds node) :
    runAll ev rounds (simplifyStatements body) = runAll ev rounds body := by
  induction body with
  | nil => rfl
  | cons node rest ih =>
    have hfirst := heach node (by simp)
    have hlater := ih fun n hmem => heach n (List.mem_cons_of_mem _ hmem)
    rw [simplifyStatements, runAll, ← hfirst, ← hlater]
    cases hsimplified : node.simplifyStatement? with
    | none => rw [runElse, pure_bind]
    | some left => rw [runAll, runElse]

theorem runDeclaration_eq {value : Node} (hother : ∀ config, value ≠ .device config)
    (name : String) :
    runDeclaration ev name value = (get >>= fun s => Run.setVariable name (ev s value)) := by
  cases value with
  | device config => exact absurd rfl (hother config)
  | _ => rfl

variable (hknown : ∀ s (node : Node) v, node.value? = some v → ev s node = v)

include hknown

/-- A condition that is known after simplification holds always or never. -/
theorem isTrue_of_truth? {condition : Node} {b : Bool}
    (hkept : ∀ s, ev s condition.simplify = ev s condition)
    (hdecided : condition.simplify.truth? = some b) (s : Scene) : isTrue (ev s condition) = b := by
  obtain ⟨v, hvalue, rfl⟩ := Option.map_eq_some_iff.1 hdecided
  rw [← hkept s, hknown s _ v hvalue]

/-- A loop whose condition comes out true has no test left, and one whose condition comes out false
    is not entered. -/
theorem run_simplify_whileLoop {condition body : Node}
    (hkept : ∀ s, ev s condition.simplify = ev s condition)
    (hbody_eq : runElse ev rounds body.simplifyStatement? = run ev rounds body) :
    runElse ev rounds (whileLoop condition body).simplifyStatement? =
      run ev rounds (whileLoop condition body) := by
  rw [simplifyStatement?]
  split
  · next hdecided =>
    rw [runElse, run, run, run_bodyOf, hbody_eq,
      runTest_of_holds (isTrue_of_truth? hknown hkept hdecided), pure_bind]
  · next hdecided =>
    rw [runElse, run, runTest_of_fails (isTrue_of_truth? hknown hkept hdecided),
      repeated_leave]
  · rw [runElse, run, run, run_bodyOf, hbody_eq]
    simp only [runTest, hkept]

/-- Of a choice whose condition is known, the branch that is taken is left. -/
theorem run_simplify_branch {condition thenBranch : Node} {elseBranch : Option Node}
    (hkept : ∀ s, ev s condition.simplify = ev s condition)
    (hthen_eq : runElse ev rounds thenBranch.simplifyStatement? = run ev rounds thenBranch)
    (helse_eq : runElse ev rounds (simplifyElse? elseBranch) = runElse ev rounds elseBranch) :
    runElse ev rounds (branch condition thenBranch elseBranch).simplifyStatement? =
      run ev rounds (branch condition thenBranch elseBranch) := by
  rw [simplifyStatement?, run]
  split
  · next hdecided =>
    funext s
    rw [hthen_eq, bind_apply get_apply, isTrue_of_truth? hknown hkept hdecided s]
    rfl
  · next hdecided =>
    funext s
    rw [helse_eq, bind_apply get_apply, isTrue_of_truth? hknown hkept hdecided s]
    rfl
  · rw [runElse, run, run_bodyOf, hthen_eq, helse_eq]
    simp only [hkept]

/-- **A simplified statement runs as the statement does**, under every bound on rounds. -/
theorem WellFormed.run_simplify {inLoop : Bool} {node : Node} (h : WellFormed inLoop node)
    (hdevices : DevicesDeclared node)
    (hkept : ∀ e ∈ node.expressions, ∀ s, ev s e.simplify = ev s e) :
    runElse ev rounds node.simplifyStatement? = run ev rounds node := by
  induction h with
  | @block inLoop body _ ih =>
    have hall : runAll ev rounds (simplifyStatements body) = runAll ev rounds body := by
      apply runAll_simplify
      intro node hmem
      exact ih node hmem (hdevices.part hmem)
        fun e hasked => hkept e (mem_expressionsInAll hmem hasked)
    rw [simplifyStatement?, run, ← hall]
    split
    · next hnothing => rw [hnothing, runElse, runAll]
    · rw [runElse, run]
  | @declare inLoop name value _ =>
    rw [simplifyStatement?, runElse, run, run]
    -- A device is declared without a value, and no value simplifies to one.
    by_cases hdevice : ∃ config, value = .device config
    · obtain ⟨config, rfl⟩ := hdevice
      rfl
    · push Not at hdevice
      have hsimplified := simplify_ne_device (hdevices.part (by simp [parts])) hdevice
      rw [runDeclaration_eq hdevice, runDeclaration_eq hsimplified]
      simp only [hkept value (by simp [expressions])]
  | @assign inLoop name index property value _ _ =>
    have hslot : ∀ s, (index.map Node.simplify).map (ev s) = index.map (ev s) := by
      intro s
      rw [Option.map_map]
      apply Option.map_congr
      intro node hmem
      exact hkept node (by simp [expressions, hmem]) s
    rw [simplifyStatement?, runElse, run, run, simplifyIndex_eq_map]
    simp only [hslot, hkept value (by simp [expressions])]
  | @loop inLoop body _ ih =>
    rw [simplifyStatement?, runElse, run, run, run_bodyOf,
      ih (hdevices.part (by simp [parts])) hkept]
  | @whileLoop inLoop condition body _ _ ih =>
    apply run_simplify_whileLoop hknown (hkept condition (by simp [expressions]))
    apply ih (hdevices.part (by simp [parts]))
    exact fun e hasked => hkept e (by simp [expressions, hasked])
  | @branch inLoop condition thenBranch elseBranch _ _ _ ih ih' =>
    have hthen_eq := ih (hdevices.part (by simp [parts])) fun e hasked =>
      hkept e (by simp [expressions, hasked])
    have helse_eq : runElse ev rounds (simplifyElse? elseBranch) =
        runElse ev rounds elseBranch := by
      cases elseBranch with
      | none => rfl
      | some node =>
        apply ih' node (by simp) (hdevices.part (by simp [parts]))
        intro e hasked
        exact hkept e (by simp [expressions, expressionsInElse, hasked])
    exact run_simplify_branch hknown (hkept condition (by simp [expressions])) hthen_eq helse_eq
  | control kind => rfl
  | @command inLoop kind arguments _ _ =>
    have hvalues : ∀ s, (arguments.map Node.simplify).map (ev s) = arguments.map (ev s) := by
      intro s
      rw [List.map_map]
      apply List.map_congr_left
      intro node hmem
      exact hkept node hmem s
    have hsimplified : (call kind.name arguments).simplifyStatement? =
        some (call kind.name (arguments.map Node.simplify)) := by
      rw [← simplifyArguments_eq_map]
      rfl
    rw [hsimplified, runElse, run, run]
    simp only [Vocabulary.Command.ofName?_name, hvalues]
  | value hvalue => rw [hvalue.simplifyStatement?, runElse, hvalue.simplify.run_eq, hvalue.run_eq]

end Runs

end Node

/-- A simplified script runs as the script does, under every bound on rounds. -/
theorem Program.run_simplify {source : String} {program : Program}
    (hread : Program.ofSource source = .ok program)
    (hdevices : (Node.block program).DevicesDeclared) {ev : Evaluator}
    (hkept : ∀ e ∈ Node.expressionsInAll program, ∀ s, ev s e.simplify = ev s e)
    (hknown : ∀ s (node : Node) v, node.value? = some v → ev s node = v) :
    program.simplify.run ev = program.run ev := by
  funext rounds start
  have hsame : Node.runAll ev rounds (Node.simplifyStatements program) =
      Node.runAll ev rounds program := by
    apply Node.runAll_simplify
    intro node hmem
    apply (Program.wellFormed_of_read hread node hmem).run_simplify hknown (hdevices.part hmem)
    exact fun e hasked => hkept e (Node.mem_expressionsInAll hmem hasked)
  exact congrFun hsame start

/-- **Simplification preserves the course of a script**: from every state the script and what is
    left of it take one and the same course and no other, with the same effects in the same
    order. -/
theorem simplify_preserves_course {source : String} {program : Program}
    (hread : Program.ofSource source = .ok program)
    (hdevices : (Node.block program).DevicesDeclared) {ev : Evaluator}
    (hkept : ∀ e ∈ Node.expressionsInAll program, ∀ s, ev s e.simplify = ev s e)
    (hknown : ∀ s (node : Node) v, node.value? = some v → ev s node = v) (start : Scene) :
    ∃ c, (program.Takes ev start c ∧ program.simplify.Takes ev start c) ∧
      ∀ c', program.Takes ev start c' ∨ program.simplify.Takes ev start c' → c' = c := by
  have hsame : program.simplify.Takes ev start = program.Takes ev start := by
    funext c
    cases c with
    | stops result => simp only [Program.Takes, Program.run_simplify hread hdevices hkept hknown]
    | goesOn effects => simp only [Program.Takes, Program.run_simplify hread hdevices hkept hknown]
  obtain ⟨c, htakes, hunique⟩ := program.exists_course ev start
  rw [hsame]
  exact ⟨c, ⟨htakes, htakes⟩, fun c' heither => hunique c' (heither.elim id id)⟩

/-! ## A script with statements to drop -/

def drainSource : String :=
  "var p = Device(\"StructureGasSensor\", d0); var x = 2 + 3; " ++
    "while (1 < 2) { { } if (x > 4) { x = x - 4; p.On = x; } else { if (0) hcf(); break; } } " ++
    "while (0) { x = 0; } sleep(x);"

def drainScript : Program :=
  [.declare "p" (.device ⟨"StructureGasSensor", .pin "d0"⟩),
    .declare "x" (.arithmetic .add (.number "2") (.number "3")),
    .whileLoop (.comparison .less (.number "1") (.number "2")) (.block [.block [],
      .branch (.comparison .greater (.read "x" none none) (.number "4"))
        (.block [.assign "x" none none (.arithmetic .sub (.read "x" none none) (.number "4")),
          .assign "p" none (some "On") (.read "x" none none)])
        (some (.block [.branch (.number "0") (.call "hcf" []) none, .control .leave]))]),
    .whileLoop (.number "0") (.block [.assign "x" none none (.number "0")]),
    .call "sleep" [.read "x" none none]]

/-- What is left of the script. -/
def drainedScript : Program :=
  [.declare "p" (.device ⟨"StructureGasSensor", .pin "d0"⟩), .declare "x" (.number "5"),
    .loop (.block [.branch (.comparison .greater (.read "x" none none) (.number "4"))
      (.block [.assign "x" none none (.arithmetic .sub (.read "x" none none) (.number "4")),
        .assign "p" none (some "On") (.read "x" none none)])
      (some (.block [.control .leave]))]),
    .call "sleep" [.read "x" none none]]

/-- What the script does. -/
def drainEffects : List Effect :=
  [.assign "x" 5.0, .assign "x" 1.0, .store (.pin "d0") none "On" 1.0, .sleep 1.0]

/-- The value of an expression that reads no device and calls no function. -/
def plainValue (s : Scene) : Node → Float
  | .read name _ _ =>
    match s.env name with
    | some (.value v) => v
    | _ => 0.0
  | .arithmetic operator left right => operator.apply (plainValue s left) (plainValue s right)
  | .comparison operator left right =>
    truthValue (operator.holds (plainValue s left) (plainValue s right))
  | node => node.value?.getD 0.0

theorem plainValue_of_value? (s : Scene) (node : Node) (v : Float) (h : node.value? = some v) :
    plainValue s node = v := by
  cases node with
  | number text | constant name | hash text => simp [plainValue, h]
  | _ => cases h

theorem plainValue_drainScript (e : Node) (hmem : e ∈ Node.expressionsInAll drainScript)
    (s : Scene) : plainValue s e.simplify = plainValue s e := by
  have hnumber : ∀ text v, Literal.read? text = some v → plainValue s (.number text) = v :=
    fun text => plainValue_of_value? s (.number text)
  have htwo := hnumber "2" 2.0 (by decide +kernel)
  -- Two expressions are folded, and the others stay as they are.
  have hall : ∀ e ∈ Node.expressionsInAll drainScript, e.simplify = e ∨
      e = .arithmetic .add (.number "2") (.number "3") ∧ e.simplify = .number "5" ∨
      e = .comparison .less (.number "1") (.number "2") ∧ e.simplify = .number "1" := by
    decide +kernel
  rcases hall e hmem with hsame | ⟨rfl, hfolded⟩ | ⟨rfl, hfolded⟩
  · rw [hsame]
  · rw [hfolded, plainValue, htwo, hnumber "3" 3.0 (by decide +kernel)]
    exact hnumber "5" _ (by decide +kernel)
  · have hone := hnumber "1" 1.0 (by decide +kernel)
    rw [hfolded, plainValue, htwo, hone]
    decide +kernel

theorem devicesDeclared_drainScript : (Node.block drainScript).DevicesDeclared := by
  -- Down to the leaves, one node after the other.
  repeat' first
    | apply And.intro
    | apply Node.DevicesDeclared.intro
    | simp [drainScript, Node.parts]

theorem simplify_preserves_course_drain :
    Program.ofSource drainSource = .ok drainScript ∧ drainScript.simplify = drainedScript ∧
    ∃ s, drainedScript.Takes plainValue ⟨fun _ => none, []⟩ (.stops (.ok () s)) ∧
      s.effects = drainEffects := by
  have hread : Program.ofSource drainSource = .ok drainScript := by decide +kernel
  have hleft : drainScript.simplify = drainedScript := by decide +kernel
  have hrun : ∃ s, drainScript.Takes plainValue ⟨fun _ => none, []⟩ (.stops (.ok () s)) ∧
      s.effects = drainEffects := by
    have hcomputed : (match drainScript.run plainValue 1 ⟨fun _ => none, []⟩ with
        | .ok _ s => some s.effects
        | .error _ _ => none) = some drainEffects := by decide +kernel
    cases hresult : drainScript.run plainValue 1 ⟨fun _ => none, []⟩ with
    | ok _ s =>
      rw [hresult] at hcomputed
      exact ⟨s, ⟨⟨1, hresult⟩, by simp⟩, Option.some.inj hcomputed⟩
    | error exit s =>
      rw [hresult] at hcomputed
      cases hcomputed
  obtain ⟨s, htakes, heffects⟩ := hrun
  obtain ⟨c, ⟨-, hsimplified⟩, hunique⟩ := simplify_preserves_course hread
    devicesDeclared_drainScript plainValue_drainScript plainValue_of_value? ⟨fun _ => none, []⟩
  rw [← hunique _ (.inl htakes), hleft] at hsimplified
  exact ⟨hread, hleft, s, hsimplified, heffects⟩

end ChipScript
