import ChipScript.Number.Binary64

/-!
# Vocabulary

The names that the chip gives a meaning to: constants, functions that yield a value, and commands
that stand as statements of their own.
-/

namespace ChipScript.Vocabulary

/-! ## Constants -/

/-- The named constants with their values. -/
def constants : List (String × Float) :=
  [("epsilon", Binary64.ofOrdinal false 1),
    ("ninf", Binary64.ofOrdinal true Binary64.infinity),
    ("pinf", Binary64.ofOrdinal false Binary64.infinity),
    ("nan", Binary64.ofOrdinal false Binary64.quietNaN),
    ("deg2rad", 0.0174532923847437),
    ("rad2deg", 57.2957801818848),
    ("pi", 3.14159265358979)]

/-- The value of a named constant. -/
def constant? (name : String) : Option Float :=
  constants.lookup name

/-- Whether a name is that of a constant, which cannot be declared. -/
def isConstant (name : String) : Bool :=
  (constant? name).isSome

/-! ## Functions and commands -/

/-- The functions, with the number of arguments each takes. -/
def functions : List (String × Nat) :=
  [("rand", 0),
    ("abs", 1), ("acos", 1), ("asin", 1), ("atan", 1), ("ceil", 1), ("cos", 1), ("exp", 1),
    ("floor", 1), ("log", 1), ("round", 1), ("sin", 1), ("sqrt", 1), ("tan", 1), ("trunc", 1),
    ("not", 1),
    ("atan2", 2), ("max", 2), ("min", 2), ("mod", 2), ("xor", 2), ("nor", 2), ("and", 2),
    ("or", 2), ("sll", 2), ("srl", 2), ("sra", 2), ("sla", 2),
    ("select", 3)]

/-- The number of arguments of a function. -/
def functionArity? (name : String) : Option Nat :=
  functions.lookup name

/-- A statement that acts on the chip and yields no value. -/
inductive Command where
  /-- Waits for a number of seconds. -/
  | sleep
  /-- Waits for the next tick. -/
  | yield
  /-- Halts and catches fire. -/
  | hcf
deriving DecidableEq, Repr

namespace Command

/-- The name that calls a command. -/
def name : Command → String
  | sleep => "sleep"
  | yield => "yield"
  | hcf => "hcf"

/-- The number of arguments of a command. -/
def arity : Command → Nat
  | sleep => 1
  | yield => 0
  | hcf => 0

/-- All commands. -/
def all : List Command := [sleep, yield, hcf]

/-- The command with a name. -/
def ofName? (name : String) : Option Command :=
  all.find? (·.name = name)

@[simp] theorem ofName?_name (c : Command) : ofName? c.name = some c := by
  cases c <;> decide

end Command

/-- Whether a name is that of a command, which cannot be declared. -/
def isCommand (name : String) : Bool :=
  (Command.ofName? name).isSome

end ChipScript.Vocabulary
