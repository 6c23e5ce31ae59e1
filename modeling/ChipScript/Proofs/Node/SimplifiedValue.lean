import ChipScript.Proofs.Node.NormalForm
import ChipScript.Proofs.Node.Static

/-!
# Values of simplified expressions

The surroundings of an expression say what the variables, the devices and the functions yield, and
thereby give every expression a value (`Surroundings.value`).  Simplification keeps that value up to
the sign of a zero, unless it is lost at one of two kinds of places (`Surroundings.Loses`):

* a product with zero becomes zero, whatever the other factor is.  The product is NaN if the other
  factor is infinite or NaN;
* `x + 0` and `x - 0` become `x`, and `0 * x` becomes `0`, each of which can change the sign of a
  zero.  That is seen where the zero comes to a divisor, to an argument of a function or to an
  index.

Both are said on the tree that was read, by which of the identities apply in it (`zeroRule?`) and by
the value that it has with them (`Surroundings.valueByIdentities`).  The simplified tree has exactly
this value (`value_simplify`), so that nothing else in the simplification changes any bit.

Only places whose value is made use of matter: a choice makes use of one of its two parts
(`Surroundings.consulted`).

Main result: `simplify_keeps_value`.
-/

namespace ChipScript

open Node

/-! ## Values -/

/-- What the places, the functions and everything else without a known value yield. -/
structure Surroundings where
  /-- A variable or a slot and a logic type of a device. -/
  place : String → Option Float → Option String → Float
  function : String → List Float → Float
  /-- Literals that cannot be read, and trees that are no expressions. -/
  other : Node → Float

namespace Surroundings

variable (ρ : Surroundings)

section Evaluation

-- What an arithmetic operation gives, by its operands and by the values that they have.
variable (operate : Arithmetic → Node → Node → Float → Float → Float)

mutual

/-- The value of an expression, with arithmetic operations that are carried out in a given way. -/
def valueBy : Node → Float
  | .read name index property => ρ.place name (indexValueBy index) property
  | .call name arguments => ρ.function name (valuesBy arguments)
  | .not operand => truthValue (valueBy operand < 1.0)
  | .arithmetic operator left right => operate operator left right (valueBy left) (valueBy right)
  | .comparison operator left right => truthValue (operator.holds (valueBy left) (valueBy right))
  | .connective operator left right =>
    truthValue (operator.apply (isTrue (valueBy left)) (isTrue (valueBy right)))
  | .choice condition thenValue elseValue =>
    if valueBy condition != 0.0 then valueBy thenValue else valueBy elseValue
  | node => node.value?.getD (ρ.other node)

/-- The values of the arguments of a call. -/
def valuesBy : List Node → List Float
  | [] => []
  | node :: rest => valueBy node :: valuesBy rest

/-- The value of an index, if there is one. -/
def indexValueBy : Option Node → Option Float
  | none => none
  | some index => some (valueBy index)

end

theorem valuesBy_eq_map (nodes : List Node) :
    ρ.valuesBy operate nodes = nodes.map (ρ.valueBy operate) := by
  induction nodes with
  | nil => rfl
  | cons node rest ih => rw [valuesBy, ih, List.map_cons]

/-- A known value is the value, however operations are carried out. -/
theorem valueBy_of_value? {node : Node} {v : Float} (h : node.value? = some v) :
    ρ.valueBy operate node = v := by
  cases node with
  | number text | constant name | hash text => simp only [valueBy, h, Option.getD_some]
  | _ => cases h

end Evaluation

/-- The value of an expression. -/
def value : Node → Float :=
  ρ.valueBy fun operator _ _ => operator.apply

/-- What an operation gives where the identities for a zero are applied. -/
def operateByIdentities (operator : Arithmetic) (left right : Node) (a b : Float) : Float :=
  match zeroRule? operator left.static? right.static? with
  | some .keepsLeft => a
  | some .keepsRight => b
  | some .vanishes => 0.0
  | none => operator.apply a b

/-- The value of an expression where the identities for a zero are applied wherever they apply. -/
def valueByIdentities : Node → Float :=
  ρ.valueBy operateByIdentities

theorem value_of_value? {node : Node} {v : Float} (h : node.value? = some v) : ρ.value node = v :=
  ρ.valueBy_of_value? _ h

theorem value_arithmetic (operator : Arithmetic) (left right : Node) :
    ρ.value (.arithmetic operator left right) = operator.apply (ρ.value left) (ρ.value right) :=
  rfl

theorem valueByIdentities_arithmetic (operator : Arithmetic) (left right : Node) :
    ρ.valueByIdentities (.arithmetic operator left right) =
      operateByIdentities operator left right (ρ.valueByIdentities left)
        (ρ.valueByIdentities right) :=
  rfl

/-! ## What is lost -/

/-- The parts whose values are made use of. -/
def consulted : Node → List Node
  | .choice condition thenValue elseValue =>
    [condition, if ρ.value condition != 0.0 then thenValue else elseValue]
  | node => node.parts

/-- The trees in a tree whose values are made use of, itself among them. -/
inductive Consults : Node → Node → Prop where
  | here (node : Node) : Consults node node
  | within {inner part node : Node} :
      part ∈ ρ.consulted node → Consults inner part → Consults inner node

/-- A product with zero vanishes, although one of its factors is infinite or NaN. -/
def Drops : Node → Prop
  | .arithmetic operator left right =>
    zeroRule? operator left.static? right.static? = some .vanishes ∧
      ((ρ.value left).isFinite = false ∨ (ρ.value right).isFinite = false)
  | _ => False

/-- The identity that applies to an operation gives a zero, but not the zero that the operation
    gives. -/
def Flips : Node → Prop
  | .arithmetic operator left right =>
    OppositeZeros (operator.apply (ρ.value left) (ρ.value right))
      (operateByIdentities operator left right (ρ.value left) (ρ.value right))
  | _ => False

/-- A zero that an identity flips comes to the root of a tree: the value of the tree is a zero, and
    the other zero where the identities are applied. -/
structure Turns (node : Node) : Prop where
  flipped : ∃ inner, ρ.Consults inner node ∧ ρ.Flips inner
  zeros : OppositeZeros (ρ.value node) (ρ.valueByIdentities node)

/-- The parts in which the sign of a zero is seen: a divisor, the arguments of a call, and the index
    of a place. -/
def exposed : Node → List Node
  | .arithmetic .div _ right => [right]
  | .call _ arguments => arguments
  | .read _ index _ => index.toList
  | _ => []

/-- Simplification loses the value of a tree at its root. -/
def Loses (node : Node) : Prop :=
  ρ.Drops node ∨ ∃ part ∈ exposed node, ρ.Turns part

theorem not_loses {node : Node} (hdrops : ¬ ρ.Drops node)
    (hzeros : ∀ part ∈ exposed node,
      ¬ OppositeZeros (ρ.value part) (ρ.valueByIdentities part)) : ¬ ρ.Loses node := by
  rintro (h | ⟨part, hpart, hturns⟩)
  · exact hdrops h
  · exact hzeros part hpart hturns.zeros

/-- What holds of all that a tree consults holds of its root, and of all that its parts consult. -/
theorem forall_consults_iff {node : Node} {p : Node → Prop} :
    (∀ inner, ρ.Consults inner node → p inner) ↔
      p node ∧ ∀ part ∈ ρ.consulted node, ∀ inner, ρ.Consults inner part → p inner := by
  constructor
  · intro h
    exact ⟨h node (.here node), fun part hpart inner hinner => h inner (.within hpart hinner)⟩
  · rintro ⟨hroot, hparts⟩ inner hinner
    cases hinner with
    | here => exact hroot
    | within hpart hinner => exact hparts _ hpart inner hinner

/-! ## Simplification applies the identities, and changes nothing else -/

/-- A number that equals one is one. -/
theorem value_of_isLiteral_one {node : Node} (h : node.isLiteral 1.0 = true) :
    ρ.value node = 1.0 := by
  obtain ⟨v, hliteral, hone⟩ := (Option.any_eq_true ..).1 h
  have hvalue : node.value? = some v := by
    cases node with
    | number text => exact hliteral
    | _ => cases hliteral
  rw [ρ.value_of_value? hvalue, eq_one_of_beq hone]

/-- **The value of a simplified expression**, to the last bit: that of the expression where the
    identities for a zero are applied. -/
theorem value_simplify (node : Node) : ρ.value node.simplify = ρ.valueByIdentities node := by
  induction node using partsInduction with
  | step node ih =>
    cases node with
    | read name index property =>
      rw [simplify, simplifyIndex_eq_map]
      cases index with
      | none => rfl
      | some index =>
        exact congrArg (fun v => ρ.place name (some v) property) (ih index (by simp [parts]))
    | call name arguments =>
      have hall : arguments.map (ρ.value ∘ simplify) = arguments.map ρ.valueByIdentities :=
        List.map_congr_left ih
      rw [simplify, simplifyArguments_eq_map]
      show ρ.function name (ρ.valuesBy _ (arguments.map simplify)) =
        ρ.function name (ρ.valuesBy _ arguments)
      rw [valuesBy_eq_map, valuesBy_eq_map, List.map_map]
      exact congrArg (ρ.function name) hall
    | not operand =>
      have hoperand := ih operand (by simp [parts])
      show _ = truthValue (ρ.valueByIdentities operand < 1.0)
      rw [simplify, ← hoperand, foldNot]
      split
      · next hknown => rw [value_of_value? ρ (value?_ofValue _), ρ.value_of_value? hknown]
      · rfl
    | arithmetic operator left right =>
      have hleft := ih left (by simp [parts])
      have hright := ih right (by simp [parts])
      rw [simplify, valueByIdentities_arithmetic, operateByIdentities, ← hleft, ← hright]
      rcases foldArithmetic_cases (shows_simplify left) (shows_simplify right) operator with
        ⟨a, b, ha, hb, hfold⟩ | ⟨-, hsimplified⟩
      · -- Both operands are known, and the operation has been carried out.
        have hrule : zeroRule? operator (some a) (some b) = none := by cases operator <;> rfl
        rw [hfold, ha, hb, hrule, ρ.value_of_value? (value?_ofValue _),
          ρ.value_of_value? ((shows_simplify left).value_some ha),
          ρ.value_of_value? ((shows_simplify right).value_some hb)]
      · generalize foldArithmetic operator left.simplify right.simplify = result at hsimplified
        cases hsimplified with
        | keepsLeft hrule | keepsRight hrule => rw [hrule]
        | vanishes hrule =>
          rw [hrule]
          exact ρ.value_of_value? shows_zero.value
        | mulOne hrule hmul hone =>
          subst hmul
          rw [hrule, ρ.value_of_isLiteral_one hone]
          exact (times_one _).symm
        | oneMul hrule hmul hone =>
          subst hmul
          rw [hrule, ρ.value_of_isLiteral_one hone]
          exact (one_times _).symm
        | stays hrule => rw [hrule, value_arithmetic]
    | comparison operator left right =>
      have hleft := ih left (by simp [parts])
      have hright := ih right (by simp [parts])
      show _ = truthValue
        (operator.holds (ρ.valueByIdentities left) (ρ.valueByIdentities right))
      rw [simplify, ← hleft, ← hright, foldComparison]
      split
      · next hknown hknown' =>
        rw [value_of_value? ρ (value?_ofValue _), ρ.value_of_value? hknown,
          ρ.value_of_value? hknown']
      · rfl
    | connective operator left right =>
      have hleft := ih left (by simp [parts])
      have hright := ih right (by simp [parts])
      show _ = truthValue (operator.apply (isTrue (ρ.valueByIdentities left))
        (isTrue (ρ.valueByIdentities right)))
      rw [simplify, ← hleft, ← hright, foldConnective]
      split
      · next hknown hknown' =>
        rw [value_of_value? ρ (value?_ofValue _), ρ.value_of_value? hknown,
          ρ.value_of_value? hknown']
      · rfl
    | choice condition thenValue elseValue =>
      have hcondition := ih condition (by simp [parts])
      have hthen := ih thenValue (by simp [parts])
      have helse := ih elseValue (by simp [parts])
      show _ = if ρ.valueByIdentities condition != 0.0 then ρ.valueByIdentities thenValue
        else ρ.valueByIdentities elseValue
      rw [simplify, ← hcondition, ← hthen, ← helse, foldChoice]
      split
      · next hknown =>
        rw [ρ.value_of_value? hknown]
        split <;> rfl
      · rfl
    | _ => rfl

/-- Where an expression is known before it runs, that is its value with the identities. -/
theorem valueByIdentities_of_static? {node : Node} {known : Static}
    (h : node.static? = some known) : ρ.valueByIdentities node = known.value := by
  rw [← value_simplify]
  exact ρ.value_of_value? ((shows_simplify node).value_some h)

/-! ## One identity -/

/-- An identity keeps the value of an operation up to the sign of a zero, unless a product vanishes
    that has an infinite factor or a NaN. -/
theorem alike_operateByIdentities (operator : Arithmetic) {left right : Node} {a b : Float}
    (hleft : ∀ known, left.static? = some known → a = known.value)
    (hright : ∀ known, right.static? = some known → b = known.value)
    (hfinite : zeroRule? operator left.static? right.static? = some .vanishes →
      a.isFinite = true ∧ b.isFinite = true) :
    Alike (operateByIdentities operator left right a b) (operator.apply a b) := by
  unfold operateByIdentities
  -- One identity of the documentation a case; the last is the operation itself.
  split
  · next hrule =>
    obtain ⟨hoperator, known, hknown, hzero⟩ := zeroRule?_eq_keepsLeft hrule
    have hb : IsZero b := hright known hknown ▸ Static.isZero_value hzero
    rcases hoperator with rfl | rfl
    · exact (plus_zero _ hb).symm
    · exact (minus_zero _ hb).symm
  · next hrule =>
    obtain ⟨rfl, known, hknown, hzero⟩ := zeroRule?_eq_keepsRight hrule
    exact (zero_plus _ (hleft known hknown ▸ Static.isZero_value hzero)).symm
  · next hrule =>
    obtain ⟨ha, hb⟩ := hfinite hrule
    obtain ⟨rfl, ⟨known, hknown, hzero⟩ | ⟨known, hknown, hzero⟩⟩ := zeroRule?_eq_vanishes hrule
    · exact .of_zeros isZero_zero (zero_times hb (hleft known hknown ▸ Static.isZero_value hzero))
    · exact .of_zeros isZero_zero (times_zero ha (hright known hknown ▸ Static.isZero_value hzero))
  · exact .refl _

/-! ## Zeros that are turned -/

/-- **Only flips turn zeros**: a tree in which no identity flips a zero and no product drops a
    factor has the same value with the identities, to the last bit. -/
theorem valueByIdentities_eq_of_unflipped {node : Node}
    (h : ∀ inner, ρ.Consults inner node → ¬ ρ.Drops inner ∧ ¬ ρ.Flips inner) :
    ρ.valueByIdentities node = ρ.value node := by
  induction node using partsInduction with
  | step node ih =>
    obtain ⟨hroot, hparts⟩ := ρ.forall_consults_iff.1 h
    have hsame : ∀ part ∈ node.parts, part ∈ ρ.consulted node →
        ρ.valueByIdentities part = ρ.value part := fun part hmem hconsulted =>
      ih part hmem (hparts part hconsulted)
    cases node with
    | read name index property =>
      cases index with
      | none => rfl
      | some index =>
        exact congrArg (fun v => ρ.place name (some v) property)
          (hsame index (by simp [parts]) (by simp [consulted, parts]))
    | call name arguments =>
      have hall : arguments.map ρ.valueByIdentities = arguments.map ρ.value :=
        List.map_congr_left fun argument hmem => hsame argument hmem hmem
      show ρ.function name (ρ.valuesBy _ arguments) = ρ.function name (ρ.valuesBy _ arguments)
      rw [valuesBy_eq_map, valuesBy_eq_map]
      exact congrArg (ρ.function name) hall
    | not operand =>
      have hoperand := hsame operand (by simp [parts]) (by simp [consulted, parts])
      show truthValue (ρ.valueByIdentities operand < 1.0) = _
      rw [hoperand]
      rfl
    | arithmetic operator left right =>
      have hleft := hsame left (by simp [parts]) (by simp [consulted, parts])
      have hright := hsame right (by simp [parts]) (by simp [consulted, parts])
      rw [valueByIdentities_arithmetic, value_arithmetic, hleft, hright]
      -- The identity gives a number that is alike, and it flips no zero.
      refine ((alike_operateByIdentities operator ?_ ?_ ?_).symm.eq hroot.2).symm
      · intro known hknown
        rw [← hleft, ρ.valueByIdentities_of_static? hknown]
      · intro known hknown
        rw [← hright, ρ.valueByIdentities_of_static? hknown]
      · intro hrule
        by_contra hinfinite
        rw [not_and_or, Bool.not_eq_true, Bool.not_eq_true] at hinfinite
        exact hroot.1 ⟨hrule, hinfinite⟩
    | comparison operator left right =>
      have hleft := hsame left (by simp [parts]) (by simp [consulted, parts])
      have hright := hsame right (by simp [parts]) (by simp [consulted, parts])
      show truthValue (operator.holds (ρ.valueByIdentities left) (ρ.valueByIdentities right)) = _
      rw [hleft, hright]
      rfl
    | connective operator left right =>
      have hleft := hsame left (by simp [parts]) (by simp [consulted, parts])
      have hright := hsame right (by simp [parts]) (by simp [consulted, parts])
      show truthValue (operator.apply (isTrue (ρ.valueByIdentities left))
        (isTrue (ρ.valueByIdentities right))) = _
      rw [hleft, hright]
      rfl
    | choice condition thenValue elseValue =>
      have hcondition := hsame condition (by simp [parts]) (by simp [consulted])
      show (if ρ.valueByIdentities condition != 0.0 then ρ.valueByIdentities thenValue
        else ρ.valueByIdentities elseValue) =
          if ρ.value condition != 0.0 then ρ.value thenValue else ρ.value elseValue
      rw [hcondition]
      split
      · next hnonzero => exact hsame thenValue (by simp [parts]) (by simp [consulted, hnonzero])
      · next hzero => exact hsame elseValue (by simp [parts]) (by simp [consulted, hzero])
    | _ => rfl

/-- A zero that comes to the root of a tree as the other one has been flipped in the tree. -/
theorem not_oppositeZeros_of_not_turns {node : Node}
    (hdrops : ∀ inner, ρ.Consults inner node → ¬ ρ.Drops inner) (h : ¬ ρ.Turns node) :
    ¬ OppositeZeros (ρ.value node) (ρ.valueByIdentities node) := by
  intro hzeros
  have hunflipped : ∀ inner, ρ.Consults inner node → ¬ ρ.Flips inner := by
    intro inner hinner hflips
    exact h ⟨⟨inner, hinner, hflips⟩, hzeros⟩
  have hsame := ρ.valueByIdentities_eq_of_unflipped fun inner hinner =>
    ⟨hdrops inner hinner, hunflipped inner hinner⟩
  exact hzeros.2 hsame.symm

/-! ## All identities -/

/-- **The identities keep the value of an expression**, up to the sign of a zero, unless something
    is lost at a place whose value is made use of. -/
theorem alike_valueByIdentities {node : Node}
    (hlossless : ∀ inner, ρ.Consults inner node → ¬ ρ.Loses inner) :
    Alike (ρ.valueByIdentities node) (ρ.value node) := by
  induction node using partsInduction with
  | step node ih =>
    -- Nothing is lost at the root, and parts that matter keep their values by induction.
    obtain ⟨hroot, hparts⟩ := ρ.forall_consults_iff.1 hlossless
    have halike : ∀ part ∈ node.parts, part ∈ ρ.consulted node →
        Alike (ρ.valueByIdentities part) (ρ.value part) := fun part hmem hconsulted =>
      ih part hmem (hparts part hconsulted)
    -- Where the sign of a zero is seen, the parts keep it.
    have hexact : ∀ part ∈ exposed node, part ∈ node.parts → part ∈ ρ.consulted node →
        ρ.valueByIdentities part = ρ.value part := by
      intro part hexposed hmem hconsulted
      refine ((halike part hmem hconsulted).symm.eq ?_).symm
      refine ρ.not_oppositeZeros_of_not_turns ?_ fun hturns => hroot (.inr ⟨part, hexposed, hturns⟩)
      exact fun inner hinner hdrops => hparts part hconsulted inner hinner (.inl hdrops)
    cases node with
    | read name index property =>
      cases index with
      | none => exact .refl _
      | some index =>
        have hindex := hexact index (by simp [exposed]) (by simp [parts])
          (by simp [consulted, parts])
        exact .inl (congrArg (fun v => ρ.place name (some v) property) hindex)
    | call name arguments =>
      have hall : arguments.map ρ.valueByIdentities = arguments.map ρ.value :=
        List.map_congr_left fun argument hmem => hexact argument hmem hmem hmem
      show Alike (ρ.function name (ρ.valuesBy _ arguments))
        (ρ.function name (ρ.valuesBy _ arguments))
      rw [valuesBy_eq_map, valuesBy_eq_map]
      exact .inl (congrArg (ρ.function name) hall)
    | not operand =>
      have hbelow := (halike operand (by simp [parts]) (by simp [consulted, parts])).holds
        (.refl 1.0) .less
      exact .inl (congrArg truthValue hbelow)
    | arithmetic operator left right =>
      have hleft := halike left (by simp [parts]) (by simp [consulted, parts])
      have hright := halike right (by simp [parts]) (by simp [consulted, parts])
      rw [valueByIdentities_arithmetic, value_arithmetic]
      refine (alike_operateByIdentities operator ?_ ?_ ?_).trans (hleft.apply hright operator ?_)
      · exact fun known hknown => ρ.valueByIdentities_of_static? hknown
      · exact fun known hknown => ρ.valueByIdentities_of_static? hknown
      · -- A product that vanishes has finite factors, or the root would lose its value.
        intro hrule
        rw [hleft.isFinite, hright.isFinite]
        by_contra hinfinite
        rw [not_and_or, Bool.not_eq_true, Bool.not_eq_true] at hinfinite
        exact hroot (.inl ⟨hrule, hinfinite⟩)
      · rintro rfl
        exact hexact right (by simp [exposed]) (by simp [parts]) (by simp [consulted, parts])
    | comparison operator left right =>
      have hleft := halike left (by simp [parts]) (by simp [consulted, parts])
      have hright := halike right (by simp [parts]) (by simp [consulted, parts])
      exact .inl (congrArg truthValue (hleft.holds hright operator))
    | connective operator left right =>
      have hleft := halike left (by simp [parts]) (by simp [consulted, parts])
      have hright := halike right (by simp [parts]) (by simp [consulted, parts])
      exact .inl (congrArg truthValue (congrArg₂ operator.apply hleft.isTrue hright.isTrue))
    | choice condition thenValue elseValue =>
      have hchosen := (halike condition (by simp [parts]) (by simp [consulted])).holds
        (.refl 0.0) .notEqual
      have hsame : (ρ.valueByIdentities condition != 0.0) = (ρ.value condition != 0.0) := hchosen
      -- Both conditions select the same part, and only that part has to keep its value.
      show Alike (if ρ.valueByIdentities condition != 0.0 then ρ.valueByIdentities thenValue
          else ρ.valueByIdentities elseValue)
        (if ρ.value condition != 0.0 then ρ.value thenValue else ρ.value elseValue)
      rw [hsame]
      split
      · next hnonzero => exact halike thenValue (by simp [parts]) (by simp [consulted, hnonzero])
      · next hzero => exact halike elseValue (by simp [parts]) (by simp [consulted, hzero])
    | _ =>
      -- Literals, devices and statements have the same value.
      exact .refl _

end Surroundings

open Surroundings

/-- **Simplification keeps the value of an expression**, up to the sign of a zero, unless something
    is lost at a place whose value is made use of: a product with zero drops an infinity or a NaN,
    or a zero that an identity flips comes to a divisor, an argument or an index. -/
theorem simplify_keeps_value (ρ : Surroundings) {expression : Node}
    (hlossless : ∀ inner, ρ.Consults inner expression → ¬ ρ.Loses inner) :
    Alike (ρ.value expression.simplify) (ρ.value expression) := by
  rw [ρ.value_simplify]
  exact ρ.alike_valueByIdentities hlossless

/-! ## Kept and lost values -/

/-- `(x + 0) * 1 + (1 < x ? z * 0 : 0 * y) / (0 * x + y) + max(0 + y, !nan)` -/
def mixedExpression : Node :=
  .arithmetic .add
    (.arithmetic .add
      (.arithmetic .mul (.arithmetic .add (.read "x" none none) (.number "0")) (.number "1"))
      (.arithmetic .div
        (.choice (.comparison .less (.number "1") (.read "x" none none))
          (.arithmetic .mul (.read "z" none none) (.number "0"))
          (.arithmetic .mul (.number "0") (.read "y" none none)))
        (.arithmetic .add (.arithmetic .mul (.number "0") (.read "x" none none))
          (.read "y" none none))))
    (.call "max" [.arithmetic .add (.number "0") (.read "y" none none), .not (.constant "nan")])

/-- `x` is the negative zero, `y` is three, and all else is infinite.  A function adds up its
    arguments. -/
def mixedSurroundings : Surroundings where
  place := fun name _ _ => if name = "x" then -0.0 else if name = "y" then 3.0 else 1.0 / 0.0
  function := fun _ arguments => arguments.foldl (· + ·) 0.0
  other := fun _ => 1.0 / 0.0

/-- The infinite product is not made use of.  Two zeros are flipped, one of them in the divisor, and
    the sums around them hide their signs. -/
theorem simplify_keeps_value_mixed :
    (∀ inner, mixedSurroundings.Consults inner mixedExpression → ¬ mixedSurroundings.Loses inner) ∧
    mixedExpression.simplify ≠ mixedExpression ∧
    mixedSurroundings.value mixedExpression = 3.0 ∧
    Alike (mixedSurroundings.value mixedExpression.simplify)
      (mixedSurroundings.value mixedExpression) := by
  have hlossless : ∀ inner, mixedSurroundings.Consults inner mixedExpression →
      ¬ mixedSurroundings.Loses inner := by
    unfold mixedExpression
    repeat' first
      | exact List.forall_mem_nil _
      | refine List.forall_mem_cons.2 ⟨?_, ?_⟩
      | rw [if_neg (by decide +kernel)]
      | refine mixedSurroundings.forall_consults_iff.2 ⟨mixedSurroundings.not_loses
          (by simp only [Drops]; decide +kernel) (by decide +kernel), ?_⟩
  exact ⟨hlossless, by decide +kernel, by decide +kernel, simplify_keeps_value _ hlossless⟩

/-- Variables have one value.  Functions and devices give the reciprocal of what they are given, so
    that they tell the zeros apart. -/
def reciprocalSurroundings (v : Float) : Surroundings where
  place := fun _ index _ => index.elim v (1.0 / ·)
  function := fun _ arguments => 1.0 / arguments.headD v
  other := fun _ => v

/-- `x * 0` -/
def productWithZero : Node :=
  .arithmetic .mul (.read "x" none none) (.number "0")

/-- `x + 0` -/
def sumWithZero : Node :=
  .arithmetic .add (.read "x" none none) (.number "0")

/-- **Simplification does not keep all values**: a product of zero with NaN or an infinity becomes
    zero, and the sign of a zero is lost to a divisor, an argument and an index. -/
theorem simplify_changes_value :
    Program.ofSource "var x = nan; var y = x * 0;" =
      .ok [.declare "x" (.constant "nan"), .declare "y" productWithZero] ∧
    ¬ Alike ((reciprocalSurroundings (0.0 / 0.0)).value productWithZero.simplify)
      ((reciprocalSurroundings (0.0 / 0.0)).value productWithZero) ∧
    ¬ Alike ((reciprocalSurroundings (1.0 / 0.0)).value productWithZero.simplify)
      ((reciprocalSurroundings (1.0 / 0.0)).value productWithZero) ∧
    ∀ expression ∈ [.arithmetic .div (.number "1") sumWithZero,
        .arithmetic .div (.number "1") (.arithmetic .mul sumWithZero (.number "3")),
        .call "sqrt" [sumWithZero], .read "d" (some sumWithZero) (some "On")],
      ¬ Alike ((reciprocalSurroundings (-0.0)).value expression.simplify)
        ((reciprocalSurroundings (-0.0)).value expression) := by
  refine ⟨by decide +kernel, by decide +kernel, by decide +kernel, by decide +kernel⟩

end ChipScript
