/-!
# Devices

What a device variable stands for: a type of device, and which devices of that type are meant.
-/

namespace ChipScript

/-! ## Batch modes -/

/-- How the values of several devices become one. -/
inductive BatchMode where
  | average
  | minimum
  | maximum
  | sum
deriving DecidableEq, Repr

namespace BatchMode

/-- The name of a batch mode. -/
def name : BatchMode → String
  | average => "Average"
  | minimum => "Minimum"
  | maximum => "Maximum"
  | sum => "Sum"

/-- All batch modes. -/
def all : List BatchMode := [average, minimum, maximum, sum]

/-- The batch mode with a name. -/
def ofName? (name : String) : Option BatchMode :=
  all.find? (·.name = name)

@[simp] theorem ofName?_name (m : BatchMode) : ofName? m.name = some m := by
  cases m <;> decide

end BatchMode

/-! ## Addresses -/

/-- Which devices of a type are meant. -/
inductive Addressing where
  /-- The device at a pin of the chip. -/
  | pin (pin : String)
  /-- Every device of the type. -/
  | batch (mode : BatchMode)
  /-- Every device of the type with a given name. -/
  | namedBatch (name : String) (mode : BatchMode)
deriving DecidableEq, Repr

/-- What a device variable stands for. -/
structure DeviceConfig where
  deviceType : String
  addressing : Addressing
deriving DecidableEq, Repr

end ChipScript
