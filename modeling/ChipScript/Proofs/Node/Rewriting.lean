import ChipScript.Proofs.Node.NormalForm

/-!
# Simplification as rewriting

The rules of simplification, said one by one, without the pass that applies them.

* `Contracts` lists the rules at the root of an expression: operations on known values, choices with
  a known condition, and operations with a neutral or an absorbing operand.
* `Frame` is an expression with a gap in the place of one part, and `Rewrites` applies one rule at
  one place, inside any number of frames.

One pass of simplification is a finite sequence of such steps (`reaches_simplify`), by
induction on the tree: first the parts are rewritten, one after the other, and then at most one rule
is applied at the root.  Nothing else happens, and nothing is left to do.

Main result: `simplify_reaches_normal_form`.
-/

namespace ChipScript

namespace Node

/-! ## Rules -/

/-- The rules, each applied at the root.  Known values are those of numbers, named constants and
    hashes; a neutral or absorbing operand has to be a number written as such. -/
inductive Contracts : Node → Node → Prop where
  | not {operand : Node} {v : Float} :
      operand.value? = some v → Contracts (.not operand) (.ofValue (truthValue (v < 1.0)))
  | arithmetic (operator : Arithmetic) {left right : Node} {a b : Float} :
      left.value? = some a → right.value? = some b →
      Contracts (.arithmetic operator left right) (.ofValue (operator.apply a b))
  | comparison (operator : Comparison) {left right : Node} {a b : Float} :
      left.value? = some a → right.value? = some b →
      Contracts (.comparison operator left right) (.ofValue (truthValue (operator.holds a b)))
  | connective (operator : Connective) {left right : Node} {a b : Float} :
      left.value? = some a → right.value? = some b →
      Contracts (.connective operator left right)
        (.ofValue (truthValue (operator.apply (isTrue a) (isTrue b))))
  /-- Every value other than zero selects the first part of a choice, NaN too. -/
  | chooseThen {condition : Node} {v : Float} (thenValue elseValue : Node) :
      condition.value? = some v → (v != 0.0) = true →
      Contracts (.choice condition thenValue elseValue) thenValue
  | chooseElse {condition : Node} {v : Float} (thenValue elseValue : Node) :
      condition.value? = some v → (v != 0.0) = false →
      Contracts (.choice condition thenValue elseValue) elseValue
  | mulOne (left : Node) {right : Node} :
      right.isLiteral 1.0 = true → Contracts (.arithmetic .mul left right) left
  | oneMul {left : Node} (right : Node) :
      left.isLiteral 1.0 = true → Contracts (.arithmetic .mul left right) right
  | mulZero (left : Node) {right : Node} :
      right.isLiteral 0.0 = true → Contracts (.arithmetic .mul left right) (.number "0")
  | zeroMul {left : Node} (right : Node) :
      left.isLiteral 0.0 = true → Contracts (.arithmetic .mul left right) (.number "0")
  | addZero (left : Node) {right : Node} :
      right.isLiteral 0.0 = true → Contracts (.arithmetic .add left right) left
  | zeroAdd {left : Node} (right : Node) :
      left.isLiteral 0.0 = true → Contracts (.arithmetic .add left right) right
  | subZero (left : Node) {right : Node} :
      right.isLiteral 0.0 = true → Contracts (.arithmetic .sub left right) left

/-- An expression that has a gap in the place of one of its parts. -/
inductive Frame : (Node → Node) → Prop where
  | index (name : String) (property : Option String) :
      Frame fun part => .read name (some part) property
  | argument (name : String) (before after : List Node) :
      Frame fun part => .call name (before ++ part :: after)
  | operand : Frame .not
  | arithmeticLeft (operator : Arithmetic) (right : Node) :
      Frame fun part => .arithmetic operator part right
  | arithmeticRight (operator : Arithmetic) (left : Node) :
      Frame fun part => .arithmetic operator left part
  | comparisonLeft (operator : Comparison) (right : Node) :
      Frame fun part => .comparison operator part right
  | comparisonRight (operator : Comparison) (left : Node) :
      Frame fun part => .comparison operator left part
  | connectiveLeft (operator : Connective) (right : Node) :
      Frame fun part => .connective operator part right
  | connectiveRight (operator : Connective) (left : Node) :
      Frame fun part => .connective operator left part
  | condition (thenValue elseValue : Node) : Frame fun part => .choice part thenValue elseValue
  | thenValue (condition elseValue : Node) : Frame fun part => .choice condition part elseValue
  | elseValue (condition thenValue : Node) : Frame fun part => .choice condition thenValue part

/-- One rule is applied at one place. -/
inductive Rewrites : Node → Node → Prop where
  | root {node next : Node} : Contracts node next → Rewrites node next
  | inside {frame : Node → Node} {part next : Node} :
      Frame frame → Rewrites part next → Rewrites (frame part) (frame next)

/-- Finitely many rules are applied, one after the other. -/
abbrev Reaches : Node → Node → Prop :=
  Relation.ReflTransGen Rewrites

/-- The trees that stand in a tree, itself among them. -/
inductive Occurs : Node → Node → Prop where
  | here (node : Node) : Occurs node node
  | within {inner part node : Node} : part ∈ node.parts → Occurs inner part → Occurs inner node

/-! ## A pass of simplification rewrites -/

theorem Contracts.reaches {node next : Node} (h : Contracts node next) : Reaches node next :=
  .single (.root h)

/-- What happens to a part happens inside every frame. -/
theorem Frame.reaches {frame : Node → Node} (h : Frame frame) {part next : Node}
    (hsteps : Reaches part next) : Reaches (frame part) (frame next) :=
  Relation.ReflTransGen.lift frame (fun _ _ hstep => Rewrites.inside h hstep) _ _ hsteps

section Pairs

variable {left left' right right' : Node} (h : Reaches left left') (h' : Reaches right right')

include h h'

/-- The operands of an operation are rewritten one after the other. -/
theorem Reaches.arithmetic (operator : Arithmetic) :
    Reaches (.arithmetic operator left right) (.arithmetic operator left' right') :=
  ((Frame.arithmeticLeft operator right).reaches h).trans
    ((Frame.arithmeticRight operator left').reaches h')

theorem Reaches.comparison (operator : Comparison) :
    Reaches (.comparison operator left right) (.comparison operator left' right') :=
  ((Frame.comparisonLeft operator right).reaches h).trans
    ((Frame.comparisonRight operator left').reaches h')

theorem Reaches.connective (operator : Connective) :
    Reaches (.connective operator left right) (.connective operator left' right') :=
  ((Frame.connectiveLeft operator right).reaches h).trans
    ((Frame.connectiveRight operator left').reaches h')

theorem Reaches.choice {condition condition' : Node} (hcondition : Reaches condition condition') :
    Reaches (.choice condition left right) (.choice condition' left' right') :=
  ((Frame.condition left right).reaches hcondition).trans
    (((Frame.thenValue condition' right).reaches h).trans
      ((Frame.elseValue condition' left').reaches h'))

end Pairs

/-- The arguments of a call are rewritten from left to right. -/
theorem reaches_arguments (name : String) (before : List Node) {arguments : List Node}
    (heach : ∀ argument ∈ arguments, Reaches argument argument.simplify) :
    Reaches (.call name (before ++ arguments))
      (.call name (before ++ arguments.map simplify)) := by
  induction arguments generalizing before with
  | nil => exact .refl
  | cons argument rest ih =>
    have hfirst := (Frame.argument name before rest).reaches
      (heach argument (List.mem_cons_self ..))
    have hothers := ih (before ++ [argument.simplify])
      fun node hmem => heach node (List.mem_cons_of_mem _ hmem)
    simp only [List.append_assoc, List.singleton_append] at hothers
    rw [List.map_cons]
    exact hfirst.trans hothers

/-! ### At most one rule at the root -/

/-- What is left of an operation on at most one known value comes from one of the rules. -/
theorem reaches_simplifyIdentity (operator : Arithmetic) (left right : Node) :
    Reaches (.arithmetic operator left right) (simplifyIdentity operator left right) := by
  cases operator with
  | mul =>
    simp only [simplifyIdentity]
    split
    · next hone => exact (Contracts.mulOne left hone).reaches
    · split
      · next hone => exact (Contracts.oneMul right hone).reaches
      · split
        · -- Either factor may be the zero, and each has its own rule.
          next hzero =>
          rcases Bool.or_eq_true_iff.1 hzero with hzero | hzero
          · exact (Contracts.zeroMul right hzero).reaches
          · exact (Contracts.mulZero left hzero).reaches
        · exact .refl
  | add =>
    simp only [simplifyIdentity]
    split
    · next hzero => exact (Contracts.addZero left hzero).reaches
    · split
      · next hzero => exact (Contracts.zeroAdd right hzero).reaches
      · exact .refl
  | sub =>
    simp only [simplifyIdentity]
    split
    · next hzero => exact (Contracts.subZero left hzero).reaches
    · exact .refl
  | div => exact .refl

theorem reaches_foldNot (operand : Node) : Reaches (.not operand) (foldNot operand) := by
  unfold foldNot
  split
  · next hknown => exact (Contracts.not hknown).reaches
  · exact .refl

theorem reaches_foldArithmetic (operator : Arithmetic) (left right : Node) :
    Reaches (.arithmetic operator left right) (foldArithmetic operator left right) := by
  unfold foldArithmetic
  split
  · next hknown hknown' => exact (Contracts.arithmetic operator hknown hknown').reaches
  · exact reaches_simplifyIdentity operator left right

theorem reaches_foldComparison (operator : Comparison) (left right : Node) :
    Reaches (.comparison operator left right) (foldComparison operator left right) := by
  unfold foldComparison
  split
  · next hknown hknown' => exact (Contracts.comparison operator hknown hknown').reaches
  · exact .refl

theorem reaches_foldConnective (operator : Connective) (left right : Node) :
    Reaches (.connective operator left right) (foldConnective operator left right) := by
  unfold foldConnective
  split
  · next hknown hknown' => exact (Contracts.connective operator hknown hknown').reaches
  · exact .refl

theorem reaches_foldChoice (condition thenValue elseValue : Node) :
    Reaches (.choice condition thenValue elseValue) (foldChoice condition thenValue elseValue) := by
  unfold foldChoice
  split
  · next hknown =>
    split
    · next hholds => exact (Contracts.chooseThen thenValue elseValue hknown hholds).reaches
    · next hfails =>
      exact (Contracts.chooseElse thenValue elseValue hknown (Bool.not_eq_true _ ▸ hfails)).reaches
  · exact .refl

/-- **A simplified expression is reached by the rules.**  By induction on the parts. -/
theorem reaches_simplify (node : Node) : Reaches node node.simplify := by
  induction node using partsInduction with
  | step node ih =>
    -- First the parts, one after the other, and then at most one rule at the root.
    cases node with
    | read name index property =>
      rw [simplify, simplifyIndex_eq_map]
      cases index with
      | none => exact .refl
      | some index => exact (Frame.index name property).reaches (ih index (by simp [parts]))
    | call name arguments =>
      rw [simplify, simplifyArguments_eq_map]
      exact reaches_arguments name [] ih
    | not operand =>
      have hparts := Frame.operand.reaches (ih operand (by simp [parts]))
      exact hparts.trans (reaches_foldNot _)
    | arithmetic operator left right =>
      have hparts := (ih left (by simp [parts])).arithmetic (ih right (by simp [parts])) operator
      exact hparts.trans (reaches_foldArithmetic operator _ _)
    | comparison operator left right =>
      have hparts := (ih left (by simp [parts])).comparison (ih right (by simp [parts])) operator
      exact hparts.trans (reaches_foldComparison operator _ _)
    | connective operator left right =>
      have hparts := (ih left (by simp [parts])).connective (ih right (by simp [parts])) operator
      exact hparts.trans (reaches_foldConnective operator _ _)
    | choice condition thenValue elseValue =>
      have hparts := (ih thenValue (by simp [parts])).choice (ih elseValue (by simp [parts]))
        (ih condition (by simp [parts]))
      exact hparts.trans (reaches_foldChoice _ _ _)
    | _ =>
      -- Literals, devices and statements are left as they are.
      exact .refl

/-! ## Nothing is left to do -/

/-- Where a rule applies, the root is one that a normal form does not have. -/
theorem Contracts.isRedex {node next : Node} (h : Contracts node next) : node.isRedex = true := by
  cases h <;> simp_all [Node.isRedex, hasNeutral]

/-- No rule applies anywhere in a normal form. -/
theorem Normal.not_contracts {node inner next : Node} (h : Normal node)
    (hoccurs : Occurs inner node) : ¬ Contracts inner next := by
  induction hoccurs with
  | here =>
    intro hcontracts
    obtain ⟨-, hsettled, -⟩ := h
    rw [hcontracts.isRedex] at hsettled
    cases hsettled
  | within hmem _ ih =>
    obtain ⟨-, -, hwithin⟩ := h
    exact ih (hwithin _ hmem)

end Node

open Node

/-- **Simplification reaches a normal form of the rules**: the simplified expression is reached from
    the expression by finitely many applications of the rules, and no rule applies to a tree that
    occurs in it. -/
theorem simplify_reaches_normal_form {expression : Node} (hvalues : expression.HoldsValues) :
    Reaches expression expression.simplify ∧
    ∀ inner, Occurs inner expression.simplify → ∀ next, ¬ Contracts inner next :=
  ⟨reaches_simplify expression, fun _ hoccurs _ => hvalues.normal_simplify.not_contracts hoccurs⟩

/-! ## An expression with something to do on every level -/

/-- `1 * d[i + (3 - 3)].On + max(i * 0, !nan) * (2 > 1 ? 1 : pi) - 0` -/
def layeredExpression : Node :=
  .arithmetic .sub
    (.arithmetic .add
      (.arithmetic .mul (.number "1")
        (.read "d" (some (.arithmetic .add (.read "i" none none)
          (.arithmetic .sub (.number "3") (.number "3")))) (some "On")))
      (.arithmetic .mul
        (.call "max" [.arithmetic .mul (.read "i" none none) (.number "0"), .not (.constant "nan")])
        (.choice (.comparison .greater (.number "2") (.number "1")) (.number "1")
          (.constant "pi"))))
    (.number "0")

/-- `d[i].On + max(0, 0)` -/
def settledExpression : Node :=
  .arithmetic .add (.read "d" (some (.read "i" none none)) (some "On"))
    (.call "max" [.number "0", .number "0"])

theorem simplify_reaches_normal_form_layered :
    layeredExpression.HoldsValues ∧ layeredExpression.simplify = settledExpression ∧
    Reaches layeredExpression settledExpression ∧
    ∀ inner, Occurs inner settledExpression → ∀ next, ¬ Contracts inner next := by
  have hvalues : layeredExpression.HoldsValues := by
    unfold layeredExpression
    repeat' first
      | exact List.forall_mem_nil _
      | refine List.forall_mem_cons.2 ⟨?_, ?_⟩
      | refine HoldsValues.intro rfl ?_
  have hleft : layeredExpression.simplify = settledExpression := by decide +kernel
  have hreached := simplify_reaches_normal_form hvalues
  rw [hleft] at hreached
  exact ⟨hvalues, hleft, hreached⟩

end ChipScript
