import ChipScript.Proofs.Semantics.Behaviour

/-!
# Effects of scripts

What a script does to the machine that it runs on, for any way to give expressions their values.  An
evaluator sees the state of the machine, which is what the names stand for and all that has been
done so far, and gives a number.  It leaves the state as it is: only statements change it.

* A condition holds if its number counts as true.
* All names live in one environment, and a name keeps its meaning until it gets another one.
* A loop control acts on the innermost loop.

A run is cut off where a loop takes too many rounds, and what a script does without that bound is
what all bounds together show of it.  From every state it takes exactly one course
(`Program.exists_course`): it stops, in one way, or it goes on for ever.
-/

namespace ChipScript

/-! ## States -/

/-- What a statement does to the machine. -/
inductive Effect where
  /-- A variable gets a value, its first one or another. -/
  | assign (name : String) (value : Float)
  | store (device : DeviceTarget) (slot : Option Float) (property : String) (value : Float)
  | sleep (duration : Float)
  | yield
  | halt
deriving DecidableEq

/-- What the names stand for, and what has been done, the latest last. -/
structure Scene where
  env : Environment Float
  effects : List Effect

/-- A way to give expressions their values. -/
abbrev Evaluator := Scene → Node → Float

/-- A run of a statement. -/
abbrev Run := EStateM Exit Scene

namespace Run

/-- Gives a name a meaning. -/
def define (name : String) (meaning : Meaning Float) : Run Unit :=
  modify fun s => { s with env := s.env.define name meaning }

/-- Has an effect. -/
def act (effect : Effect) : Run Unit :=
  modify fun s => { s with effects := s.effects ++ [effect] }

/-- Gives a variable a value. -/
def setVariable (name : String) (value : Float) : Run Unit := do
  define name (.value value)
  act (.assign name value)

/-- Writes a value to a place. -/
def write (name : String) (slot : Option Float) (property : Option String) (value : Float) :
    Run Unit := do
  match (← get).env name, slot, property with
  | some (.device config), slot, some property => act (.store config.target slot property value)
  | none, _, some _ => throw (.fault (.undefined name))
  | none, none, none => setVariable name value
  | some (.value _), none, none => setVariable name value
  | _, _, _ => throw (.fault .meaningless)

/-- The effect of a command. -/
def perform : Vocabulary.Command → List Float → Run Unit
  | .sleep, [duration] => act (.sleep duration)
  | .yield, [] => act .yield
  | .hcf, [] => do
    act .halt
    throw .halted
  | _, _ => throw (.fault .meaningless)

/-- Whether a loop goes on after a round: unless the round has left it. -/
def goesOn (round : Run Unit) : Run Bool := fun s =>
  match round s with
  | .ok _ s' => .ok true s'
  | .error (.control .again) s' => .ok true s'
  | .error (.control .leave) s' => .ok false s'
  | .error exit s' => .error exit s'

/-- A round of a loop and as many others as it takes, but no more than `rounds`. -/
def repeated (round : Run Unit) : (rounds : Nat) → Run Unit
  | 0 => do
    if ← goesOn round then throw .unfinished else pure ()
  | rounds + 1 => do
    if ← goesOn round then repeated round rounds else pure ()

end Run

/-! ## Statements -/

namespace Node

open Run

variable (ev : Evaluator)

/-- The effect of a declaration. -/
def runDeclaration (name : String) : Node → Run Unit
  | device config => define name (.device config)
  | value => do
    let s ← get
    setVariable name (ev s value)

/-- The test before a round of a loop: the loop is left if the condition does not hold. -/
def runTest (condition : Node) : Run Unit := do
  let s ← get
  if isTrue (ev s condition) then pure () else throw (.control .leave)

mutual

/-- The effect of a statement, in whose loops no more than `rounds` rounds follow the first. -/
def run (rounds : Nat) : Node → Run Unit
  | block body => runAll rounds body
  | declare name value => runDeclaration ev name value
  | assign name index property value => do
    let s ← get
    write name (index.map (ev s)) property (ev s value)
  | loop body => repeated (run rounds body) rounds
  | whileLoop condition body =>
    repeated (do runTest ev condition; run rounds body) rounds
  | branch condition thenBranch elseBranch => do
    let s ← get
    if isTrue (ev s condition) then run rounds thenBranch else runElse rounds elseBranch
  | control kind => throw (.control kind)
  | call name arguments =>
    match Vocabulary.Command.ofName? name with
    | some command => do
      let s ← get
      perform command (arguments.map (ev s))
    | none => pure ()
  | _ => pure ()

/-- The effect of several statements. -/
def runAll (rounds : Nat) : List Node → Run Unit
  | [] => pure ()
  | node :: rest => do
    run rounds node
    runAll rounds rest

/-- The effect of a statement that may be missing. -/
def runElse (rounds : Nat) : Option Node → Run Unit
  | none => pure ()
  | some node => run rounds node

end

end Node

/-- A run of a script from a state, in whose loops no more than `rounds` rounds follow the first. -/
def Program.run (ev : Evaluator) (program : Program) (rounds : Nat) (start : Scene) :
    EStateM.Result Exit Scene Unit :=
  Node.runAll ev rounds program start

/-! ## The bound on rounds -/

theorem Agrees.goesOn {round round' : Run Unit} (heach : Agrees round round') :
    Agrees (Run.goesOn round) (Run.goesOn round') := by
  intro s hsettled
  have hfinished : ∀ s', round s ≠ .error .unfinished s' := by
    intro s' hcut
    exact hsettled s' (by rw [Run.goesOn, hcut])
  rw [Run.goesOn, Run.goesOn, heach s hfinished]

theorem Agrees.cut {α : Type} (x : Run α) : Agrees (throw .unfinished) x :=
  fun s hsettled => absurd rfl (hsettled s)

/-- More rounds may be allowed than are taken. -/
theorem Agrees.repeated {round round' : Run Unit} (heach : Agrees round round') {n n' : Nat}
    (hle : n ≤ n') : Agrees (Run.repeated round n) (Run.repeated round' n') := by
  induction n generalizing n' with
  | zero =>
    cases n' with
    | zero =>
      rw [Run.repeated, Run.repeated]
      exact heach.goesOn.bind fun _ => .refl _
    | succ n' =>
      rw [Run.repeated, Run.repeated]
      apply heach.goesOn.bind
      intro again
      -- Where the smaller bound is used up the run is cut off, and then it may go on in any way.
      cases again with
      | true => exact .cut _
      | false => exact .refl _
  | succ n ih =>
    obtain ⟨n', rfl⟩ : ∃ k, n' = k + 1 := Nat.exists_eq_succ_of_ne_zero (by omega)
    rw [Run.repeated, Run.repeated]
    apply heach.goesOn.bind
    intro again
    cases again with
    | true => exact ih (by omega)
    | false => exact .refl _

namespace Node

variable (ev : Evaluator) {rounds rounds' : Nat}

theorem runAll_agrees {nodes : List Node}
    (heach : ∀ node ∈ nodes, Agrees (run ev rounds node) (run ev rounds' node)) :
    Agrees (runAll ev rounds nodes) (runAll ev rounds' nodes) := by
  induction nodes with
  | nil =>
    rw [runAll, runAll]
    exact .refl _
  | cons node rest ih =>
    rw [runAll, runAll]
    apply (heach node (by simp)).bind
    intro _
    exact ih fun n hmem => heach n (List.mem_cons_of_mem _ hmem)

/-- A statement does the same under a larger bound, unless it is cut off. -/
theorem run_agrees (hle : rounds ≤ rounds') (node : Node) :
    Agrees (run ev rounds node) (run ev rounds' node) := by
  -- Only loops look at the bound.
  induction node using partsInduction with
  | step node ih =>
    cases node with
    | block body =>
      rw [run, run]
      exact runAll_agrees ev ih
    | loop body =>
      rw [run, run]
      exact (ih body (by simp [parts])).repeated hle
    | whileLoop condition body =>
      rw [run, run]
      apply Agrees.repeated _ hle
      exact (Agrees.refl _).bind fun _ => ih body (by simp [parts])
    | branch condition thenBranch elseBranch =>
      have hother : Agrees (runElse ev rounds elseBranch) (runElse ev rounds' elseBranch) := by
        cases elseBranch with
        | none =>
          rw [runElse, runElse]
          exact .refl _
        | some node =>
          rw [runElse, runElse]
          exact ih node (by simp [parts])
      rw [run, run]
      apply (Agrees.refl _).bind
      intro s
      split
      · exact ih thenBranch (by simp [parts])
      · exact hother
    | _ =>
      simp only [run]
      exact .refl _

end Node

/-! ## Courses -/

/-- What can be seen of a run as a whole. -/
inductive Course where
  /-- It stops in some way, and leaves a state behind. -/
  | stops (result : EStateM.Result Exit Scene Unit)
  /-- It goes on for ever, and its beginnings have these effects. -/
  | goesOn (effects : Set (List Effect))

namespace Program

/-- The course that a script takes from a state. -/
def Takes (ev : Evaluator) (program : Program) (start : Scene) : Course → Prop
  | .stops result => (∃ rounds, program.run ev rounds start = result) ∧
    ∀ s, result ≠ .error .unfinished s
  | .goesOn effects => (∀ rounds, ∃ s, program.run ev rounds start = .error .unfinished s) ∧
    effects = {done | ∃ rounds s,
      program.run ev rounds start = .error .unfinished s ∧ done <+: s.effects}

variable {ev : Evaluator} {program : Program} {start : Scene}

/-- A larger bound on rounds changes nothing, unless the run is cut off. -/
theorem run_mono {rounds rounds' : Nat} (hle : rounds ≤ rounds')
    (hsettled : ∀ s, program.run ev rounds start ≠ .error .unfinished s) :
    program.run ev rounds' start = program.run ev rounds start :=
  Node.runAll_agrees ev (fun node _ => Node.run_agrees ev hle node) start hsettled

/-- A script takes one course at most. -/
theorem takes_unique {c c' : Course} (h : program.Takes ev start c)
    (h' : program.Takes ev start c') : c = c' := by
  -- Two courses that stop agree under the larger bound, and one that goes on is cut off under any.
  cases c with
  | stops result =>
    obtain ⟨⟨rounds, rfl⟩, hsettled⟩ := h
    cases c' with
    | stops result' =>
      obtain ⟨⟨rounds', rfl⟩, hsettled'⟩ := h'
      rcases Nat.le_total rounds rounds' with hle | hle
      · rw [run_mono hle hsettled]
      · rw [run_mono hle hsettled']
    | goesOn effects =>
      obtain ⟨s, hcut⟩ := h'.1 rounds
      exact absurd hcut (hsettled s)
  | goesOn effects =>
    cases c' with
    | stops result' =>
      obtain ⟨⟨rounds', rfl⟩, hsettled'⟩ := h'
      obtain ⟨s, hcut⟩ := h.1 rounds'
      exact absurd hcut (hsettled' s)
    | goesOn effects' => rw [h.2, h'.2]

/-- **A script takes exactly one course from every state.** -/
theorem exists_course (ev : Evaluator) (program : Program) (start : Scene) :
    ∃ c, program.Takes ev start c ∧ ∀ c', program.Takes ev start c' → c' = c := by
  by_cases hcut : ∀ rounds, ∃ s, program.run ev rounds start = .error .unfinished s
  · have htakes : program.Takes ev start (.goesOn _) := ⟨hcut, rfl⟩
    exact ⟨_, htakes, fun c' h => takes_unique h htakes⟩
  · push Not at hcut
    obtain ⟨rounds, hsettled⟩ := hcut
    have htakes : program.Takes ev start (.stops _) := ⟨⟨rounds, rfl⟩, hsettled⟩
    exact ⟨_, htakes, fun c' h => takes_unique h htakes⟩

end Program
end ChipScript
