import ChipScript.Node.Basic

/-!
# Equality of syntax trees

Trees are compared by structure and by the texts in them: two literals with the same value and
different texts differ.  `Node.same` decides equality, and gives syntax trees decidable equality.
-/

namespace ChipScript.Node

mutual

/-- Whether two trees are equal. -/
def same : Node → Node → Bool
  | block xs, block ys => sameList xs ys
  | declare a x, declare b y => a == b && same x y
  | assign a i p x, assign b j q y => a == b && sameOption i j && p == q && same x y
  | loop x, loop y => same x y
  | whileLoop c x, whileLoop d y => same c d && same x y
  | branch c x e, branch d y f => same c d && same x y && sameOption e f
  | control a, control b => a == b
  | call a xs, call b ys => a == b && sameList xs ys
  | device a, device b => a == b
  | number a, number b => a == b
  | constant a, constant b => a == b
  | hash a, hash b => a == b
  | read a i p, read b j q => a == b && sameOption i j && p == q
  | not x, not y => same x y
  | arithmetic o x y, arithmetic p z w => o == p && same x z && same y w
  | comparison o x y, comparison p z w => o == p && same x z && same y w
  | connective o x y, connective p z w => o == p && same x z && same y w
  | choice c x y, choice d z w => same c d && same x z && same y w
  | _, _ => false

/-- Whether two lists of trees are equal. -/
def sameList : List Node → List Node → Bool
  | [], [] => true
  | x :: xs, y :: ys => same x y && sameList xs ys
  | _, _ => false

/-- Whether two optional trees are equal. -/
def sameOption : Option Node → Option Node → Bool
  | none, none => true
  | some x, some y => same x y
  | _, _ => false

end

mutual

/-- The comparison finds exactly the equal trees. -/
theorem same_iff : ∀ x y : Node, same x y = true ↔ x = y
  | block xs, y => by cases y <;> simp [same, sameList_iff xs]
  | declare a x, y => by cases y <;> simp [same, same_iff x]
  | assign a i p x, y => by
    cases y <;> simp [same, same_iff x, sameOption_iff i, and_assoc]
  | loop x, y => by cases y <;> simp [same, same_iff x]
  | whileLoop c x, y => by cases y <;> simp [same, same_iff x, same_iff c]
  | branch c x e, y => by
    cases y <;> simp [same, same_iff x, same_iff c, sameOption_iff e, and_assoc]
  | control a, y => by cases y <;> simp [same]
  | call a xs, y => by cases y <;> simp [same, sameList_iff xs]
  | device a, y => by cases y <;> simp [same]
  | number a, y => by cases y <;> simp [same]
  | constant a, y => by cases y <;> simp [same]
  | hash a, y => by cases y <;> simp [same]
  | read a i p, y => by cases y <;> simp [same, sameOption_iff i, and_assoc]
  | not x, y => by cases y <;> simp [same, same_iff x]
  | arithmetic o x z, y => by cases y <;> simp [same, same_iff x, same_iff z, and_assoc]
  | comparison o x z, y => by cases y <;> simp [same, same_iff x, same_iff z, and_assoc]
  | connective o x z, y => by cases y <;> simp [same, same_iff x, same_iff z, and_assoc]
  | choice c x z, y => by
    cases y <;> simp [same, same_iff c, same_iff x, same_iff z, and_assoc]

/-- The comparison finds exactly the equal lists. -/
theorem sameList_iff : ∀ xs ys : List Node, sameList xs ys = true ↔ xs = ys
  | [], ys => by cases ys <;> simp [sameList]
  | x :: xs, ys => by cases ys <;> simp [sameList, same_iff x, sameList_iff xs]

/-- The comparison finds exactly the equal optional trees. -/
theorem sameOption_iff : ∀ x y : Option Node, sameOption x y = true ↔ x = y
  | none, y => by cases y <;> simp [sameOption]
  | some x, y => by cases y <;> simp [sameOption, same_iff x]

end

instance : DecidableEq Node := fun x y => decidable_of_iff _ (same_iff x y)

end ChipScript.Node
