import ChipScript.Node.Basic
import Mathlib

/-!
# Parts of syntax trees

Statements and expressions hold their parts directly, in lists and in options.  `Node.parts` lists
them all alike, and `Node.partsInduction` is induction on a tree in which every part may be assumed
to have the property already.  A proof then needs one statement about a node, where recursion over
the tree needs one for each of the shapes that hold parts.
-/

namespace ChipScript.Node

/-- The trees directly below the root. -/
def parts : Node → List Node
  | block body => body
  | declare _ value => [value]
  | assign _ index _ value => value :: index.toList
  | loop body => [body]
  | whileLoop condition body => [condition, body]
  | branch condition thenBranch elseBranch => condition :: thenBranch :: elseBranch.toList
  | call _ arguments => arguments
  | read _ index _ => index.toList
  | not operand => [operand]
  | arithmetic _ left right => [left, right]
  | comparison _ left right => [left, right]
  | connective _ left right => [left, right]
  | choice condition thenValue elseValue => [condition, thenValue, elseValue]
  | _ => []

/-- A part is smaller than the tree that it belongs to. -/
theorem sizeOf_lt_of_mem_parts {node part : Node} (h : part ∈ node.parts) :
    sizeOf part < sizeOf node := by
  cases node with
  | block body =>
    have hbelow : sizeOf part < sizeOf body := List.sizeOf_lt_of_mem h
    simp only [block.sizeOf_spec]
    omega
  | call name arguments =>
    have hbelow : sizeOf part < sizeOf arguments := List.sizeOf_lt_of_mem h
    simp only [call.sizeOf_spec]
    omega
  | assign name index property value =>
    -- An index stands in an option, which has to be opened before sizes can be compared.
    cases index <;> simp only [parts, Option.toList, List.mem_cons, List.not_mem_nil, or_false] at h
    · subst h
      simp only [assign.sizeOf_spec]
      omega
    · rcases h with rfl | rfl
      all_goals
        simp only [assign.sizeOf_spec, Option.some.sizeOf_spec]
        omega
  | read name index property =>
    cases index <;> simp only [parts, Option.toList, List.mem_cons, List.not_mem_nil, or_false] at h
    subst h
    simp
    omega
  | branch condition thenBranch elseBranch =>
    cases elseBranch with
    | none =>
      rcases List.mem_pair.1 h with rfl | rfl
      all_goals
        simp only [branch.sizeOf_spec]
        omega
    | some other =>
      simp only [parts, Option.toList, List.mem_cons, List.not_mem_nil, or_false] at h
      rcases h with rfl | rfl | rfl
      all_goals
        simp only [branch.sizeOf_spec, Option.some.sizeOf_spec]
        omega
  | declare name value =>
    simp only [parts, List.mem_cons, List.not_mem_nil, or_false] at h
    subst h
    simp only [declare.sizeOf_spec]
    omega
  | loop _ | not _ =>
    simp only [parts, List.mem_cons, List.not_mem_nil, or_false] at h
    subst h
    simp
  | whileLoop _ _ | arithmetic _ _ _ | comparison _ _ _ | connective _ _ _ =>
    rcases List.mem_pair.1 h with rfl | rfl
    all_goals
      simp only [whileLoop.sizeOf_spec, arithmetic.sizeOf_spec, comparison.sizeOf_spec,
        connective.sizeOf_spec]
      omega
  | choice _ _ _ =>
    simp only [parts, List.mem_cons, List.not_mem_nil, or_false] at h
    rcases h with rfl | rfl | rfl
    all_goals
      simp only [choice.sizeOf_spec]
      omega
  | control _ | device _ | number _ | constant _ | hash _ => simp [parts] at h

/-- **Induction on parts**: what holds of a tree as soon as it holds of its parts holds of every
    tree. -/
@[elab_as_elim]
theorem partsInduction {motive : Node → Prop}
    (step : ∀ node, (∀ part ∈ node.parts, motive part) → motive node) (node : Node) :
    motive node :=
  step node fun part _ => partsInduction step part
termination_by sizeOf node
decreasing_by exact sizeOf_lt_of_mem_parts (by assumption)

end ChipScript.Node
