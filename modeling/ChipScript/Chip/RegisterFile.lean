import ChipScript.Chip.Error

/-!
# Register files

Which of the sixteen general-purpose registers are in use.  Temporaries take the lowest free
register and variables the highest, so that the two grow towards each other.
-/

namespace ChipScript

/-- The registers in use, the latest first. -/
structure RegisterFile where
  reserved : List Register
deriving DecidableEq, Repr

namespace RegisterFile

/-- All registers are free. -/
def empty : RegisterFile := ⟨[]⟩

/-- Whether a register is free. -/
def isFree (file : RegisterFile) (r : Register) : Bool :=
  !file.reserved.contains r

/-- The first free register among the given ones, and the file in which it is in use. -/
def take (file : RegisterFile) (candidates : List Register) :
    Except CodeError (Register × RegisterFile) :=
  match candidates.find? file.isFree with
  | some r => .ok (r, ⟨r :: file.reserved⟩)
  | none => .error (.registersExhausted .first .last)

/-- Reserves the lowest free register. -/
def reserve (file : RegisterFile) : Except CodeError (Register × RegisterFile) :=
  file.take Register.all

/-- Reserves the highest free register. -/
def reserveHigh (file : RegisterFile) : Except CodeError (Register × RegisterFile) :=
  file.take Register.all.reverse

/-- Frees a register that is in use. -/
def release (file : RegisterFile) (r : Register) : Except CodeError RegisterFile :=
  if file.isFree r then .error (.registerAlreadyFree r) else .ok ⟨file.reserved.erase r⟩

/-- The number of registers in use. -/
def inUse (file : RegisterFile) : Nat :=
  file.reserved.length

end RegisterFile
end ChipScript
