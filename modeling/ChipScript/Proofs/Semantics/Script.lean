import ChipScript.Chip.Generator
import ChipScript.Proofs.Semantics.Setting

/-!
# Runs of scripts

What a script does, said on its syntax tree.

* All names live in one environment.  A declaration gives a name its meaning, and so does an
  assignment; whenever the start of a loop is reached, also before the test that ends it, the names
  declared inside the loop lose theirs.
* Operands are evaluated from left to right, both sides of a connective and all parts of a choice.
  Only where the condition of a choice is a number, a named constant or a hash is one part left out.
  An assignment evaluates its value, and then the index of the place that it writes to.
* A condition holds if its value is one or more.

A run is cut off where a loop has taken more than a given number of rounds.  `evaluate` and
`execute` can thus be computed, and what a script does without that bound is what all bounds
together show of it.
-/

namespace ChipScript

namespace Node

mutual

/-- The names that are declared anywhere inside a statement. -/
def declared : Node → List String
  | block body => declaredInAll body
  | declare name _ => [name]
  | loop body => body.declared
  | whileLoop _ body => body.declared
  | branch _ thenBranch elseBranch => thenBranch.declared ++ declaredInElse elseBranch
  | _ => []

/-- The names that are declared in one of several statements. -/
def declaredInAll : List Node → List String
  | [] => []
  | node :: rest => node.declared ++ declaredInAll rest

/-- The names that are declared in the other branch of a choice. -/
def declaredInElse : Option Node → List String
  | none => []
  | some node => node.declared

end

end Node

/-! ## Environments -/

/-- What a name stands for. -/
inductive Meaning (V : Type) where
  | value (value : V)
  | device (config : DeviceConfig)

/-- What the names stand for, if they have a meaning. -/
abbrev Environment (V : Type) := String → Option (Meaning V)

namespace Environment

variable {V : Type}

/-- A name is given a meaning. -/
def define (env : Environment V) (name : String) (meaning : Meaning V) : Environment V :=
  fun other => if other = name then some meaning else env other

/-- Names lose their meaning. -/
def forget (env : Environment V) (names : List String) : Environment V :=
  fun other => if other ∈ names then none else env other

end Environment

/-! ## Expressions -/

/-- Why an expression has no value. -/
inductive Fault where
  /-- A name is read that has no meaning at that time. -/
  | undefined (name : String)
  /-- What is evaluated is no value: a statement, a device, a call that does not exist. -/
  | meaningless
deriving DecidableEq

/-- An evaluation, which asks the world. -/
abbrev Eval (V : Type) := EStateM Fault (Trace V)

/-- An evaluation from what it does to the trace. -/
def Eval.ofTrace {V α : Type} (next : Trace V → α × Trace V) : Eval V α :=
  fun trace => .ok (next trace).1 (next trace).2

section Evaluation

variable {V : Type} [LinearOrder V] (S : Setting V) (env : Environment V)

/-- The value of a name, with the value of its index and with its logic type. -/
def evaluatePlace (name : String) (slot : Option V) (property : Option String) : Eval V V :=
  match env name, slot, property with
  | none, _, _ => throw (.undefined name)
  | some (.value v), none, none => return v
  | some (.device config), slot, some property =>
      .ofTrace (S.ask (.load config.target slot property))
  | _, _, _ => throw .meaningless

mutual

/-- The value of an expression. -/
def evaluate : Node → Eval V V
  | .number text => return S.word text
  | .constant name => return S.word name
  | .hash text => return S.number (Binary64.ofInt (Text.checksum text).toInt)
  | .read name index property => do
    let slot ← evaluateIndex index
    evaluatePlace S env name slot property
  | .not operand => do
    let a ← evaluate operand
    return S.truth (!S.holds a)
  | .arithmetic operator left right => do
    let a ← evaluate left
    let b ← evaluate right
    return S.arithmetic operator a b
  | .comparison operator left right => do
    let a ← evaluate left
    let b ← evaluate right
    return S.truth (operator.compares a b)
  | .connective operator left right => do
    let a ← evaluate left
    let b ← evaluate right
    return S.truth (operator.apply (S.holds a) (S.holds b))
  | .choice condition thenValue elseValue =>
    match condition.value? with
    | some x => if S.selects (S.number x) then evaluate thenValue else evaluate elseValue
    | none => do
      let c ← evaluate condition
      let a ← evaluate thenValue
      let b ← evaluate elseValue
      return if S.selects c then a else b
  | .call name arguments => do
    let values ← evaluateAll arguments
    if Vocabulary.functionArity? name = some arguments.length then .ofTrace (S.call name values)
    else throw .meaningless
  | _ => throw .meaningless

/-- The values of expressions, from left to right. -/
def evaluateAll : List Node → Eval V (List V)
  | [] => return []
  | node :: rest => do
    let value ← evaluate node
    let values ← evaluateAll rest
    return value :: values

/-- The value of an index. -/
def evaluateIndex : Option Node → Eval V (Option V)
  | none => return none
  | some node => do
    let value ← evaluate node
    return some value

end

end Evaluation

/-! ## Statements -/

/-- Where a run has come to. -/
structure Situation (V : Type) where
  env : Environment V
  trace : Trace V

/-- Why a statement does not pass on to the next one. -/
inductive Exit where
  /-- The innermost loop is left, or its next round begins. -/
  | control (kind : LoopControl)
  /-- The chip has been halted. -/
  | halted
  /-- A loop has taken more rounds than it may. -/
  | unfinished
  | fault (fault : Fault)
deriving DecidableEq

/-- A run of a statement. -/
abbrev Exec (V : Type) := EStateM Exit (Situation V)

namespace Exec

variable {V : Type}

/-- Evaluates in the present environment. -/
def ofEval {α : Type} (x : Environment V → Eval V α) : Exec V α := fun s =>
  match x s.env s.trace with
  | .ok a trace => .ok a { s with trace }
  | .error fault trace => .error (.fault fault) { s with trace }

/-- Gives a name a meaning. -/
def define (name : String) (meaning : Meaning V) : Exec V Unit :=
  modify fun s => { s with env := s.env.define name meaning }

/-- Takes their meaning from names. -/
def forget (names : List String) : Exec V Unit :=
  modify fun s => { s with env := s.env.forget names }

/-- Adds an event to the trace. -/
def record (event : Event V) : Exec V Unit :=
  modify fun s => { s with trace := s.trace ++ [event] }

/-- The effect of a command. -/
def perform : Vocabulary.Command → List V → Exec V Unit
  | .sleep, [duration] => record (.sleep duration)
  | .yield, [] => record .yield
  | .hcf, [] => throw .halted
  | _, _ => throw (.fault .meaningless)

/-- Writes a value to a place. -/
def write (name : String) (slot : Option V) (property : Option String) (value : V) :
    Exec V Unit := do
  match (← get).env name, slot, property with
  | some (.device config), slot, some property => record (.store config.target slot property value)
  | none, _, some _ => throw (.fault (.undefined name))
  | some (.value _), none, none => define name (.value value)
  | none, none, none => define name (.value value)
  | _, _, _ => throw (.fault .meaningless)

/-- Rounds of a loop, as many as it takes, but no more than `rounds`. -/
def repeatedly (rounds : Nat) (round : Exec V Unit) : Exec V Unit := fun s =>
  match rounds with
  | 0 => .error .unfinished s
  | rounds + 1 =>
    match round s with
    | .ok _ s' => repeatedly rounds round s'
    | .error (.control .again) s' => repeatedly rounds round s'
    | .error (.control .leave) s' => .ok () s'
    | .error exit s' => .error exit s'

end Exec

section Execution

open Exec

variable {V : Type} [LinearOrder V] (S : Setting V)

/-- The effect of a declaration. -/
def executeDeclaration (name : String) (value : Node) : Exec V Unit :=
  match value with
  | .device config => define name (.device config)
  | value => do
    let v ← ofEval (evaluate S · value)
    define name (.value v)

/-- The test before a round of a loop: the loop is left if the condition does not hold. -/
def executeTest (condition : Node) : Exec V Unit := do
  let v ← ofEval (evaluate S · condition)
  if S.holds v then pure () else throw (.control .leave)

mutual

/-- The effect of a statement, in whose loops no more than `rounds` rounds are taken. -/
def execute (rounds : Nat) : Node → Exec V Unit
  | .block body => executeAll rounds body
  | .branch condition thenBranch elseBranch => do
    let v ← ofEval (evaluate S · condition)
    if S.holds v then execute rounds thenBranch else executeElse rounds elseBranch
  | .whileLoop condition body =>
    repeatedly rounds do
      forget body.declared
      executeTest S condition
      execute rounds body
  | .loop body =>
    repeatedly rounds do
      forget body.declared
      execute rounds body
  | .control kind => throw (.control kind)
  | .declare name value => executeDeclaration S name value
  | .assign name index property value => do
    let v ← ofEval (evaluate S · value)
    let slot ← ofEval (evaluateIndex S · index)
    write name slot property v
  | .call name arguments =>
    match Vocabulary.Command.ofName? name with
    | some command => do
      let values ← ofEval (evaluateAll S · arguments)
      perform command values
    | none => do
      let _ ← ofEval (evaluate S · (.call name arguments))
  | node => do
    let _ ← ofEval (evaluate S · node)

/-- The effect of several statements. -/
def executeAll (rounds : Nat) : List Node → Exec V Unit
  | [] => pure ()
  | node :: rest => do
    execute rounds node
    executeAll rounds rest

/-- The effect of the other branch of a choice. -/
def executeElse (rounds : Nat) : Option Node → Exec V Unit
  | none => pure ()
  | some node => execute rounds node

end

/-- Where nothing has happened and no name has a meaning. -/
def Situation.initial : Situation V := ⟨fun _ => none, []⟩

/-- A run of a script, in whose loops no more than `rounds` rounds are taken. -/
def Program.execute (program : Program) (rounds : Nat) :
    EStateM.Result Exit (Situation V) Unit :=
  executeAll S rounds program .initial

end Execution
end ChipScript
