import ChipScript.Node.Basic

/-!
# Labels

Labels for the places that code jumps to: a stem and a number, counted for each stem on its own.
Loops remember their two labels on a stack, the innermost loop on top.
-/

namespace ChipScript

/-! ## Numbered labels -/

/-- How many labels have been made from each stem; the first entry of a stem is the latest. -/
structure LabelCounts where
  counts : List (String × Nat)
deriving DecidableEq, Repr

namespace LabelCounts

/-- No label has been made. -/
def empty : LabelCounts := ⟨[]⟩

/-- The number of labels made from a stem. -/
def count (labels : LabelCounts) (stem : String) : Nat :=
  (labels.counts.lookup stem).getD 0

/-- The digits of a number, three at least. -/
def numberText (n : Nat) : String :=
  let digits := Nat.toDigits 10 n
  String.ofList (List.replicate (3 - digits.length) '0' ++ digits)

/-- The next label of a stem. -/
def next (labels : LabelCounts) (stem : String) : String × LabelCounts :=
  let number := labels.count stem + 1
  (stem ++ numberText number, ⟨(stem, number) :: labels.counts⟩)

@[simp] theorem count_next (labels : LabelCounts) (stem other : String) :
    (labels.next stem).2.count other =
      if other = stem then labels.count stem + 1 else labels.count other := by
  by_cases h : other = stem
  · simp [next, count, h]
  · have hdiffers : (other == stem) = false := by simpa using h
    simp [next, count, List.lookup_cons, h, hdiffers]

end LabelCounts

/-! ## Loops -/

/-- The labels of a loop. -/
structure LoopLabels where
  /-- Where a loop control that ends the loop goes. -/
  leaveTo : String
  /-- Where a loop control that starts the next round goes. -/
  againTo : String
deriving DecidableEq, Repr

/-- The labels that a loop control goes to. -/
def LoopLabels.target (labels : LoopLabels) : LoopControl → String
  | .leave => labels.leaveTo
  | .again => labels.againTo

/-- The loops around a place, the innermost first. -/
abbrev LoopStack := List LoopLabels

namespace LoopStack

/-- One loop more. -/
def push (loops : LoopStack) (labels : LoopLabels) : LoopStack := labels :: loops

/-- Without the innermost loop; nothing changes outside all loops. -/
def pop (loops : LoopStack) : LoopStack := loops.tail

/-- Where a loop control goes, if there is a loop around. -/
def target? (loops : LoopStack) (kind : LoopControl) : Option String :=
  loops.head?.map (·.target kind)

end LoopStack
end ChipScript
