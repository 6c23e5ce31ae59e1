import ChipScript.Proofs.Node.Folding
import ChipScript.Proofs.Node.Simplification
import ChipScript.Proofs.Number.Arithmetic

/-!
# What is known before a script runs

The rules of simplification ask for operands that are known before the script runs.  Which ones are
is said here on the tree as it was read, without simplifying it (`static?`), and so is which of the
identities for a zero applies to an operation (`zeroRule?`).

Main result: `shows_simplify`.  A simplified expression is a node with a value exactly where this
value is known, and a number that is zero exactly where the identities count it as one.
-/

namespace ChipScript.Node

/-- What is known of an expression before it runs. -/
structure Static where
  value : Float
  /-- The value is that of a number, written or computed, and not that of a name or of a hash. -/
  isNumber : Bool

/-- A number that has been computed. -/
def Static.computed (value : Float) : Static := ⟨value, true⟩

/-- Only a number counts as the zero of an identity. -/
def Static.isZero (known : Static) : Bool := known.isNumber && known.value == 0.0

theorem Static.isZero_value {known : Static} (h : known.isZero = true) : IsZero known.value :=
  isZero_iff.2 (Bool.and_eq_true_iff.1 h).2

/-! ## The identities for a zero -/

/-- What an operation becomes because one of its operands is zero. -/
inductive ZeroRule where
  | keepsLeft
  | keepsRight
  /-- The operation becomes zero. -/
  | vanishes
deriving DecidableEq, Repr

/-- The identities for a zero beside an operand that is not known: `x + 0`, `0 + x` and `x - 0`
    become `x`, and `x * 0` and `0 * x` become zero. -/
def zeroRule? : Arithmetic → Option Static → Option Static → Option ZeroRule
  | .add, none, some b => if b.isZero then some .keepsLeft else none
  | .add, some a, none => if a.isZero then some .keepsRight else none
  | .sub, none, some b => if b.isZero then some .keepsLeft else none
  | .mul, none, some b => if b.isZero then some .vanishes else none
  | .mul, some a, none => if a.isZero then some .vanishes else none
  | _, _, _ => none

theorem zeroRule?_eq_keepsLeft {operator : Arithmetic} {known known' : Option Static}
    (h : zeroRule? operator known known' = some .keepsLeft) :
    (operator = .add ∨ operator = .sub) ∧ ∃ b, known' = some b ∧ b.isZero = true := by
  cases operator <;> cases known <;> cases known' <;> simp_all [zeroRule?]

theorem zeroRule?_eq_keepsRight {operator : Arithmetic} {known known' : Option Static}
    (h : zeroRule? operator known known' = some .keepsRight) :
    operator = .add ∧ ∃ a, known = some a ∧ a.isZero = true := by
  cases operator <;> cases known <;> cases known' <;> simp_all [zeroRule?]

theorem zeroRule?_eq_vanishes {operator : Arithmetic} {known known' : Option Static}
    (h : zeroRule? operator known known' = some .vanishes) :
    operator = .mul ∧
      ((∃ a, known = some a ∧ a.isZero = true) ∨ ∃ b, known' = some b ∧ b.isZero = true) := by
  cases operator <;> cases known <;> cases known' <;> simp_all [zeroRule?]

/-- What is known of an operation: it is computed from known operands, and a product with zero is
    zero, whatever the other factor is. -/
def operation? (operator : Arithmetic) : Option Static → Option Static → Option Static
  | some a, some b => some (.computed (operator.apply a.value b.value))
  | known, known' =>
    if zeroRule? operator known known' = some .vanishes then some (.computed 0.0) else none

/-- What is known of an expression before it runs: an operator over known operands is computed, and
    a known condition selects a part. -/
def static? : Node → Option Static
  | not operand => do
    let a ← operand.static?
    return .computed (truthValue (a.value < 1.0))
  | arithmetic operator left right => operation? operator left.static? right.static?
  | comparison operator left right => do
    let a ← left.static?
    let b ← right.static?
    return .computed (truthValue (operator.holds a.value b.value))
  | connective operator left right => do
    let a ← left.static?
    let b ← right.static?
    return .computed (truthValue (operator.apply (isTrue a.value) (isTrue b.value)))
  | choice condition thenValue elseValue => do
    let c ← condition.static?
    if c.value != 0.0 then thenValue.static? else elseValue.static?
  | node => node.value?.map fun v => ⟨v, node.literal?.isSome⟩

/-! ## What a simplified node shows -/

/-- A node has a value where one is known, and it is the zero of an identity where the known value
    is. -/
structure Shows (node : Node) (known : Option Static) : Prop where
  value : node.value? = known.map (·.value)
  zero : node.isLiteral 0.0 = known.any Static.isZero

/-- A number for a computed value is zero exactly where the value is. -/
theorem isLiteral_ofValue (v : Float) : (ofValue v).isLiteral 0.0 = (v == 0.0) := by
  have hvalue := value?_ofValue v
  unfold ofValue at hvalue ⊢
  by_cases hnan : v.isNaN = true
  · rw [if_pos hnan, Binary64.eq_quietNaN hnan]
    decide +kernel
  · rw [if_neg hnan] at hvalue ⊢
    by_cases hinfinite : Binary64.ordinal v = Binary64.infinity
    · -- The names of the infinities are no numbers, and neither infinity is zero.
      have hback := Binary64.ofOrdinal_ordinal v
      rw [if_pos hinfinite, ← hback, hinfinite]
      cases Binary64.isNegative v <;> decide +kernel
    · rw [if_neg hinfinite] at hvalue ⊢
      have hliteral : (number (Literal.write v)).literal? = some v := hvalue
      rw [isLiteral, hliteral]
      rfl

theorem Shows.value_some {node : Node} {known : Option Static} {a : Static} (h : node.Shows known)
    (ha : known = some a) : node.value? = some a.value := by
  rw [h.value, ha, Option.map_some]

/-- A number that is one is not zero. -/
theorem isLiteral_zero_of_one {node : Node} (h : node.isLiteral 1.0 = true) :
    node.isLiteral 0.0 = false := by
  obtain ⟨v, hliteral, hone⟩ := (Option.any_eq_true ..).1 h
  rw [isLiteral, hliteral, eq_one_of_beq hone]
  decide +kernel

/-- A node without a value is no number. -/
theorem isLiteral_of_value?_eq_none {node : Node} (h : node.value? = none) (n : Float) :
    node.isLiteral n = false := by
  cases node with
  | number text =>
    have hliteral : (number text).literal? = none := h
    rw [isLiteral, hliteral]
    rfl
  | _ => rfl

theorem shows_ofValue (v : Float) : (ofValue v).Shows (some (.computed v)) where
  value := value?_ofValue v
  zero := isLiteral_ofValue v

/-- A node that keeps its operands has no value of its own. -/
theorem shows_none {node : Node} (hvalue : node.value? = none) (hliteral : node.literal? = none) :
    node.Shows none where
  value := hvalue
  zero := by rw [isLiteral, hliteral]; rfl

/-- A literal, a name or a hash shows its value, and other nodes that stay as they are show none. -/
theorem shows_leaf {node : Node}
    (h : node.static? = node.value?.map fun v => ⟨v, node.literal?.isSome⟩) :
    node.Shows node.static? := by
  rw [h]
  refine ⟨by simp [Function.comp_def], ?_⟩
  cases node with
  | number text =>
    have hsame : (number text).literal? = (number text).value? := rfl
    rw [isLiteral, hsame]
    cases (number text).value? <;> simp [Static.isZero]
  | _ => simp [isLiteral, literal?, Static.isZero, Option.any_map]

/-! ### One operation -/

theorem simplifyIdentity_add (left right : Node) :
    simplifyIdentity .add left right =
      if right.isLiteral 0.0 then left
      else if left.isLiteral 0.0 then right else arithmetic .add left right := rfl

theorem simplifyIdentity_sub (left right : Node) :
    simplifyIdentity .sub left right =
      if right.isLiteral 0.0 then left else arithmetic .sub left right := rfl

theorem simplifyIdentity_mul (left right : Node) :
    simplifyIdentity .mul left right =
      if right.isLiteral 1.0 then left
      else if left.isLiteral 1.0 then right
      else if left.isLiteral 0.0 || right.isLiteral 0.0 then number "0"
      else arithmetic .mul left right := rfl

/-- What simplification makes of an operation with an operand that is not known: what the identity
    for a zero says, or else the operation itself.  A product with one becomes the other factor. -/
inductive Simplified (operator : Arithmetic) (left right : Node) (known known' : Option Static) :
    Node → Prop where
  | keepsLeft : zeroRule? operator known known' = some .keepsLeft → known = none →
      Simplified operator left right known known' left
  | keepsRight : zeroRule? operator known known' = some .keepsRight → known' = none →
      Simplified operator left right known known' right
  | vanishes : zeroRule? operator known known' = some .vanishes →
      Simplified operator left right known known' (number "0")
  | mulOne : zeroRule? operator known known' = none → operator = .mul →
      right.isLiteral 1.0 = true → known = none → Simplified operator left right known known' left
  | oneMul : zeroRule? operator known known' = none → operator = .mul →
      left.isLiteral 1.0 = true → known' = none → Simplified operator left right known known' right
  | stays : zeroRule? operator known known' = none →
      Simplified operator left right known known' (arithmetic operator left right)

section Operands

variable {left right : Node}

theorem simplified_left_known {a : Static} (h : left.Shows (some a)) (h' : right.Shows none)
    (operator : Arithmetic) :
    Simplified operator left right (some a) none (simplifyIdentity operator left right) := by
  have hzero : left.isLiteral 0.0 = a.isZero := h.zero
  have hnone : ∀ n, right.isLiteral n = false := isLiteral_of_value?_eq_none h'.value
  -- Only a sum and a product have an identity for their left operand.
  cases operator with
  | add =>
    rw [simplifyIdentity_add, hnone, hzero]
    cases hrule : a.isZero with
    | true => exact .keepsRight (by simp [zeroRule?, hrule]) rfl
    | false => exact .stays (by simp [zeroRule?, hrule])
  | sub =>
    rw [simplifyIdentity_sub, hnone]
    exact .stays rfl
  | mul =>
    rw [simplifyIdentity_mul, hnone, hnone, hzero]
    cases hone : left.isLiteral 1.0 with
    | true =>
      have hrule : a.isZero = false := hzero.symm.trans (isLiteral_zero_of_one hone)
      exact .oneMul (by simp [zeroRule?, hrule]) rfl hone rfl
    | false =>
      cases hrule : a.isZero with
      | true => exact .vanishes (by simp [zeroRule?, hrule])
      | false => exact .stays (by simp [zeroRule?, hrule])
  | div => exact .stays rfl

theorem simplified_left_unknown {known' : Option Static} (h : left.Shows none)
    (h' : right.Shows known') (operator : Arithmetic) :
    Simplified operator left right none known' (simplifyIdentity operator left right) := by
  have hnone : ∀ n, left.isLiteral n = false := isLiteral_of_value?_eq_none h.value
  cases known' with
  | none =>
    -- Neither operand is a number, so that no rule applies.
    have hnone' : ∀ n, right.isLiteral n = false := isLiteral_of_value?_eq_none h'.value
    have hstays : simplifyIdentity operator left right = arithmetic operator left right := by
      cases operator with
      | add => rw [simplifyIdentity_add, hnone, hnone']; rfl
      | sub => rw [simplifyIdentity_sub, hnone']; rfl
      | mul => rw [simplifyIdentity_mul, hnone, hnone, hnone', hnone']; rfl
      | div => rfl
    rw [hstays]
    exact .stays (by cases operator <;> rfl)
  | some b =>
    have hzero : right.isLiteral 0.0 = b.isZero := h'.zero
    cases operator with
    | add =>
      rw [simplifyIdentity_add, hnone, hzero]
      cases hrule : b.isZero with
      | true => exact .keepsLeft (by simp [zeroRule?, hrule]) rfl
      | false => exact .stays (by simp [zeroRule?, hrule])
    | sub =>
      rw [simplifyIdentity_sub, hzero]
      cases hrule : b.isZero with
      | true => exact .keepsLeft (by simp [zeroRule?, hrule]) rfl
      | false => exact .stays (by simp [zeroRule?, hrule])
    | mul =>
      rw [simplifyIdentity_mul, hnone, hnone, hzero]
      cases hone : right.isLiteral 1.0 with
      | true =>
        have hrule : b.isZero = false := hzero.symm.trans (isLiteral_zero_of_one hone)
        exact .mulOne (by simp [zeroRule?, hrule]) rfl hone rfl
      | false =>
        cases hrule : b.isZero with
        | true => exact .vanishes (by simp [zeroRule?, hrule])
        | false => exact .stays (by simp [zeroRule?, hrule])
    | div => exact .stays rfl

/-- **Folding computes an operation on known operands**, and leaves others to the identities. -/
theorem foldArithmetic_cases {known known' : Option Static} (h : left.Shows known)
    (h' : right.Shows known') (operator : Arithmetic) :
    (∃ a b, known = some a ∧ known' = some b ∧
      foldArithmetic operator left right = ofValue (operator.apply a.value b.value)) ∨
    (known = none ∨ known' = none) ∧
      Simplified operator left right known known' (foldArithmetic operator left right) := by
  -- The operation is carried out where both values are known, and tried for an identity otherwise.
  cases known with
  | none =>
    right
    refine ⟨.inl rfl, ?_⟩
    have hfold : foldArithmetic operator left right = simplifyIdentity operator left right := by
      simp only [foldArithmetic, h.value, Option.map_none]
    rw [hfold]
    exact simplified_left_unknown h h' operator
  | some a =>
    cases known' with
    | none =>
      right
      refine ⟨.inr rfl, ?_⟩
      have hfold : foldArithmetic operator left right = simplifyIdentity operator left right := by
        simp only [foldArithmetic, h.value, h'.value, Option.map_some, Option.map_none]
      rw [hfold]
      exact simplified_left_known h h' operator
    | some b =>
      left
      refine ⟨a, b, rfl, rfl, ?_⟩
      simp only [foldArithmetic, h.value, h'.value, Option.map_some]

end Operands

theorem shows_zero : (number "0").Shows (some (.computed 0.0)) where
  value := by decide +kernel
  zero := by decide +kernel

/-- Of an operation with an unknown operand nothing is known, unless it vanishes. -/
theorem operation?_of_unknown {known known' : Option Static} (h : known = none ∨ known' = none)
    (operator : Arithmetic) :
    operation? operator known known' =
      if zeroRule? operator known known' = some .vanishes then some (.computed 0.0) else none := by
  rcases h with rfl | rfl
  · rfl
  · cases known <;> rfl

theorem Simplified.shows {operator : Arithmetic} {left right result : Node}
    {known known' : Option Static} (h : left.Shows known) (h' : right.Shows known')
    (hunknown : known = none ∨ known' = none)
    (hsimplified : Simplified operator left right known known' result) :
    result.Shows (operation? operator known known') := by
  rw [operation?_of_unknown hunknown]
  -- What an identity keeps is an operand, so it shows what the operand shows.
  cases hsimplified with
  | keepsLeft hrule hnone =>
    rw [hrule]
    exact hnone ▸ h
  | keepsRight hrule hnone =>
    rw [hrule]
    exact hnone ▸ h'
  | vanishes hrule =>
    rw [if_pos hrule]
    exact shows_zero
  | mulOne hrule _ _ hnone =>
    rw [hrule]
    exact hnone ▸ h
  | oneMul hrule _ _ hnone =>
    rw [hrule]
    exact hnone ▸ h'
  | stays hrule =>
    rw [hrule]
    exact shows_none rfl rfl

/-! ## The main result -/

/-- **A simplified expression shows what was known of it**, and nothing more. -/
theorem shows_simplify (node : Node) : node.simplify.Shows node.static? := by
  -- What is known of the parts is what their simplifications show, so folding sees the same values.
  induction node using partsInduction with
  | step node ih =>
    cases node with
    | not operand =>
      have hoperand := ih operand (by simp [parts])
      rw [simplify, foldNot, hoperand.value, static?]
      cases operand.static? with
      | none => exact shows_none rfl rfl
      | some a => exact shows_ofValue _
    | arithmetic operator left right =>
      have hleft := ih left (by simp [parts])
      have hright := ih right (by simp [parts])
      rw [simplify, static?]
      rcases foldArithmetic_cases hleft hright operator with
        ⟨a, b, hknown, hknown', hfold⟩ | ⟨hunknown, hsimplified⟩
      · rw [hfold, hknown, hknown']
        exact shows_ofValue _
      · -- With a side unknown the identities decide, and they show no more than was known.
        exact hsimplified.shows hleft hright hunknown
    | comparison operator left right =>
      have hleft := ih left (by simp [parts])
      have hright := ih right (by simp [parts])
      rw [simplify, foldComparison, hleft.value, hright.value, static?]
      cases left.static? with
      | none => exact shows_none rfl rfl
      | some a =>
        cases right.static? with
        | none => exact shows_none rfl rfl
        | some b => exact shows_ofValue _
    | connective operator left right =>
      have hleft := ih left (by simp [parts])
      have hright := ih right (by simp [parts])
      rw [simplify, foldConnective, hleft.value, hright.value, static?]
      cases left.static? with
      | none => exact shows_none rfl rfl
      | some a =>
        cases right.static? with
        | none => exact shows_none rfl rfl
        | some b => exact shows_ofValue _
    | choice condition thenValue elseValue =>
      have hcondition := ih condition (by simp [parts])
      rw [simplify, foldChoice, hcondition.value, static?]
      cases condition.static? with
      | none => exact shows_none rfl rfl
      | some c =>
        show (if c.value != 0.0 then thenValue.simplify else elseValue.simplify).Shows
          (if c.value != 0.0 then thenValue.static? else elseValue.static?)
        split
        · exact ih thenValue (by simp [parts])
        · exact ih elseValue (by simp [parts])
    | read name index property => exact shows_none rfl rfl
    | call name arguments => exact shows_none rfl rfl
    | _ => exact shows_leaf rfl

end ChipScript.Node
