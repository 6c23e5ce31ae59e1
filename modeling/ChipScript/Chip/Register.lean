/-!
# Registers

The general-purpose registers of the chip, `r0` to `r15`.
-/

namespace ChipScript

/-- The number of general-purpose registers. -/
def registerCount : Nat := 16

/-- A register, by its number. -/
structure Register where
  index : Nat
deriving DecidableEq, Repr

namespace Register

/-- A register as it is written in assembly. -/
def text (r : Register) : String :=
  "r" ++ toString r.index

/-- The lowest register. -/
def first : Register := ⟨0⟩

/-- The highest register. -/
def last : Register := ⟨registerCount - 1⟩

/-- All registers, from the lowest to the highest. -/
def all : List Register :=
  (List.range registerCount).map Register.mk

end Register
end ChipScript
