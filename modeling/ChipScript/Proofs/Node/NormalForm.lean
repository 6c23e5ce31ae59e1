import ChipScript.Proofs.Chip.Refusals

/-!
# Normal forms

Simplification is one pass, bottom up.  What it leaves is a normal form: no rule applies at the root
of any expression in it, no condition in it is known, and no block in it is empty but the body of a
loop or of a choice.  These are conditions on trees alone (`Normal`, `Settled`), which do not
mention the pass.

* `HoldsValues.normal_simplify`, `Sorted.settled`: what the pass leaves is in normal form.
* `Normal.simplify_eq`, `Settled.simplifyStatement?_eq`: the pass leaves a normal form as it is.

A tree may be anything that keeps statements and values apart (`Sorted`).  A statement in the place
of a value is copied by the pass, and could come to stand in the place of a statement in the end,
where the next pass would find something to do.

Main result: `simplify_idempotent`.
-/

namespace ChipScript

namespace Node

/-! ## Statements and values in their places -/

/-- Trees without a statement anywhere in them. -/
inductive HoldsValues : Node → Prop where
  | intro {node : Node} :
      node.isStatement = false → (∀ part ∈ node.parts, HoldsValues part) → HoldsValues node

/-- Statements that hold no statement in the place of a value.  A value in the place of a statement
    is one, since calls stand there. -/
inductive Sorted : Node → Prop where
  | block {body : List Node} : (∀ node ∈ body, Sorted node) → Sorted (.block body)
  | declare {name : String} {value : Node} : HoldsValues value → Sorted (.declare name value)
  | assign {name : String} {index : Option Node} {property : Option String} {value : Node} :
      (∀ node ∈ index.toList, HoldsValues node) → HoldsValues value →
      Sorted (.assign name index property value)
  | loop {body : Node} : Sorted body → Sorted (.loop body)
  | whileLoop {condition body : Node} :
      HoldsValues condition → Sorted body → Sorted (.whileLoop condition body)
  | branch {condition thenBranch : Node} {elseBranch : Option Node} :
      HoldsValues condition → Sorted thenBranch → (∀ node ∈ elseBranch.toList, Sorted node) →
      Sorted (.branch condition thenBranch elseBranch)
  | control (kind : LoopControl) : Sorted (.control kind)
  | value {node : Node} : HoldsValues node → Sorted node

theorem IsExpression.holdsValues {node : Node} (h : IsExpression node) : HoldsValues node := by
  induction h with
  | intro hroot hwithin ih => exact .intro (IsExpression.intro hroot hwithin).isStatement ih

/-- Well-formed statements keep statements and values apart. -/
theorem WellFormed.sorted {inLoop : Bool} {node : Node} (h : WellFormed inLoop node) :
    Sorted node := by
  induction h with
  | block _ ih => exact .block ih
  | declare hvalue => exact .declare hvalue.holdsValues
  | assign hindex hvalue =>
    exact .assign (fun node hmem => (hindex node hmem).holdsValues) hvalue.holdsValues
  | loop _ ih => exact .loop ih
  | whileLoop hcondition _ ih => exact .whileLoop hcondition.holdsValues ih
  | branch hcondition _ _ ih ih' => exact .branch hcondition.holdsValues ih ih'
  | control kind => exact .control kind
  | command kind _ harguments =>
    -- A command is a call, which is a value by its form.
    apply Sorted.value
    exact .intro rfl fun part hmem => (harguments part hmem).holdsValues
  | value hvalue => exact .value hvalue.holdsValues

/-! ## Expressions in normal form -/

/-- Whether a rule of simplification applies at the root of an expression. -/
def isRedex : Node → Bool
  | not operand => operand.value?.isSome
  | arithmetic operator left right =>
    left.value?.isSome && right.value?.isSome || hasNeutral operator left right
  | comparison _ left right => left.value?.isSome && right.value?.isSome
  | connective _ left right => left.value?.isSome && right.value?.isSome
  | choice condition _ _ => condition.value?.isSome
  | _ => false

/-- Expressions in which no rule applies anywhere. -/
inductive Normal : Node → Prop where
  | intro {node : Node} :
      node.isStatement = false → node.isRedex = false → (∀ part ∈ node.parts, Normal part) →
      Normal node

namespace Normal

theorem number (text : String) : Normal (.number text) :=
  .intro rfl rfl (by simp [parts])

theorem constant (name : String) : Normal (.constant name) :=
  .intro rfl rfl (by simp [parts])

theorem ofValue (value : Float) : Normal (.ofValue value) :=
  ofValue_cases value .constant .number

/-- Two operands that are in normal form make a normal form if no rule applies to them. -/
theorem pair {node left right : Node} (h : Normal left) (h' : Normal right)
    (hparts : node.parts = [left, right]) (hvalue : node.isStatement = false)
    (hsettled : node.isRedex = false) : Normal node := by
  apply Normal.intro hvalue hsettled
  rw [hparts]
  simp [h, h']

end Normal

theorem simplifyIdentity_of_not_hasNeutral {operator : Arithmetic} {left right : Node}
    (h : hasNeutral operator left right = false) :
    simplifyIdentity operator left right = .arithmetic operator left right := by
  cases operator <;> simp_all [simplifyIdentity, hasNeutral, isLiteral]

namespace Normal

/-! ### The rules keep normal forms -/

theorem foldNot {operand : Node} (h : Normal operand) : Normal (foldNot operand) := by
  unfold Node.foldNot
  split
  · exact .ofValue _
  · next hunknown =>
    refine .intro rfl (by simp [isRedex, hunknown]) fun part hmem => ?_
    exact List.mem_singleton.1 hmem ▸ h

theorem foldArithmetic (operator : Arithmetic) {left right : Node} (h : Normal left)
    (h' : Normal right) : Normal (foldArithmetic operator left right) := by
  unfold Node.foldArithmetic
  split
  · exact .ofValue _
  · next hunknown =>
    rcases simplifyIdentity_cases operator left right with hsame | hsame | hsame | ⟨hsame, hkept⟩
    all_goals rw [hsame]
    · exact h
    · exact h'
    · exact .number _
    · -- Neither are both operands known, nor is one of them neutral.
      apply Normal.pair h h' rfl rfl
      cases hknown : left.value? <;> cases hknown' : right.value? <;>
        simp_all [isRedex]

theorem foldComparison (operator : Comparison) {left right : Node} (h : Normal left)
    (h' : Normal right) : Normal (foldComparison operator left right) := by
  unfold Node.foldComparison
  split
  · exact .ofValue _
  · next hunknown =>
    apply Normal.pair h h' rfl rfl
    cases hknown : left.value? <;> cases hknown' : right.value? <;> simp_all [isRedex]

theorem foldConnective (operator : Connective) {left right : Node} (h : Normal left)
    (h' : Normal right) : Normal (foldConnective operator left right) := by
  unfold Node.foldConnective
  split
  · exact .ofValue _
  · next hunknown =>
    apply Normal.pair h h' rfl rfl
    cases hknown : left.value? <;> cases hknown' : right.value? <;> simp_all [isRedex]

theorem foldChoice {condition thenValue elseValue : Node} (h : Normal condition)
    (h' : Normal thenValue) (h'' : Normal elseValue) :
    Normal (foldChoice condition thenValue elseValue) := by
  unfold Node.foldChoice
  split
  · split
    · exact h'
    · exact h''
  · next hunknown => exact .intro rfl (by simp [isRedex, hunknown]) (by simp [parts, h, h', h''])

end Normal

/-- **A simplified expression is in normal form.** -/
theorem HoldsValues.normal_simplify {node : Node} (h : HoldsValues node) :
    Normal node.simplify := by
  induction h with
  | @intro node hvalue hwithin ih =>
    cases node with
    | read name index property =>
      rw [simplify]
      refine .intro rfl rfl fun part hmem => ?_
      obtain ⟨node, hamong, rfl⟩ := mem_simplifyIndex.1 hmem
      exact ih node hamong
    | call name arguments =>
      rw [simplify, simplifyArguments_eq_map]
      refine .intro rfl rfl fun part hmem => ?_
      obtain ⟨argument, hgiven, rfl⟩ := List.mem_map.1 hmem
      exact ih argument hgiven
    | not operand => exact (ih operand (by simp [parts])).foldNot
    | arithmetic operator left right =>
      exact (ih left (by simp [parts])).foldArithmetic operator (ih right (by simp [parts]))
    | comparison operator left right =>
      exact (ih left (by simp [parts])).foldComparison operator (ih right (by simp [parts]))
    | connective operator left right =>
      exact (ih left (by simp [parts])).foldConnective operator (ih right (by simp [parts]))
    | choice condition thenValue elseValue =>
      exact (ih condition (by simp [parts])).foldChoice (ih thenValue (by simp [parts]))
        (ih elseValue (by simp [parts]))
    | device config | number text | constant name | hash text =>
      -- Leaves are simplified to themselves.
      exact .intro rfl rfl (by simp [simplify, parts])
    | block _ | declare _ _ | assign _ _ _ _ | loop _ | whileLoop _ _ | branch _ _ _ | control _ =>
      cases hvalue

/-- **An expression in normal form is left as it is.** -/
theorem Normal.simplify_eq {node : Node} (h : Normal node) : node.simplify = node := by
  induction h with
  | @intro node hvalue hsettled hwithin ih =>
    cases node with
    | read name index property =>
      rw [simplify, simplifyIndex_eq_map]
      cases index with
      | none => rfl
      | some index => simp [ih index (by simp [parts])]
    | call name arguments =>
      have hsame : arguments.map simplify = arguments :=
        (List.map_congr_left (g := id) ih).trans (List.map_id arguments)
      rw [simplify, simplifyArguments_eq_map, hsame]
    | not operand =>
      -- Nothing folds: a known operand would be a redex.
      have hunknown : operand.value? = none := by simpa [isRedex] using hsettled
      rw [simplify, ih operand (by simp [parts]), Node.foldNot, hunknown]
    | arithmetic operator left right =>
      simp only [isRedex, Bool.or_eq_false_iff] at hsettled
      obtain ⟨hunknown, hkept⟩ := hsettled
      rw [simplify, ih left (by simp [parts]), ih right (by simp [parts]), Node.foldArithmetic]
      cases hknown : left.value? <;> cases hknown' : right.value? <;>
        simp_all [simplifyIdentity_of_not_hasNeutral]
    | comparison operator left right =>
      rw [simplify, ih left (by simp [parts]), ih right (by simp [parts]), Node.foldComparison]
      cases hknown : left.value? <;> cases hknown' : right.value? <;> simp_all [isRedex]
    | connective operator left right =>
      rw [simplify, ih left (by simp [parts]), ih right (by simp [parts]), Node.foldConnective]
      cases hknown : left.value? <;> cases hknown' : right.value? <;> simp_all [isRedex]
    | choice condition thenValue elseValue =>
      have hunknown : condition.value? = none := by simpa [isRedex] using hsettled
      rw [simplify, ih condition (by simp [parts]), ih thenValue (by simp [parts]),
        ih elseValue (by simp [parts]), Node.foldChoice, hunknown]
    | device config | number text | constant name | hash text => rfl
    | block _ | declare _ _ | assign _ _ _ _ | loop _ | whileLoop _ _ | branch _ _ _ | control _ =>
      cases hvalue

/-! ## Statements in normal form -/

/-- Statements that nothing is left to do in.  The body of a loop or of a choice may be the empty
    block, which would be dropped elsewhere. -/
inductive Settled : Node → Prop where
  | block {body : List Node} :
      body ≠ [] → (∀ node ∈ body, Settled node) → Settled (.block body)
  | declare {name : String} {value : Node} : Normal value → Settled (.declare name value)
  | assign {name : String} {index : Option Node} {property : Option String} {value : Node} :
      (∀ node ∈ index.toList, Normal node) → Normal value →
      Settled (.assign name index property value)
  | loop {body : Node} : (body ≠ .block [] → Settled body) → Settled (.loop body)
  | whileLoop {condition body : Node} :
      Normal condition → condition.value? = none → (body ≠ .block [] → Settled body) →
      Settled (.whileLoop condition body)
  | branch {condition thenBranch : Node} {elseBranch : Option Node} :
      Normal condition → condition.value? = none → (thenBranch ≠ .block [] → Settled thenBranch) →
      (∀ node ∈ elseBranch.toList, Settled node) →
      Settled (.branch condition thenBranch elseBranch)
  | control (kind : LoopControl) : Settled (.control kind)
  | value {node : Node} : Normal node → Settled node

theorem truth?_eq_none {node : Node} : node.truth? = none ↔ node.value? = none := by
  simp [truth?]

/-- What is left of a body is settled, or it is the empty block. -/
theorem Settled.bodyOf {left : Option Node} (h : ∀ node, left = some node → Settled node) :
    bodyOf left ≠ .block [] → Settled (bodyOf left) := by
  intro hkept
  cases left with
  | none => exact absurd rfl hkept
  | some node => exact h node rfl

theorem HoldsValues.simplifyStatement?_eq {node : Node} (h : HoldsValues node) :
    node.simplifyStatement? = some node.simplify := by
  obtain ⟨hvalue, -⟩ := h
  cases node <;> first | rfl | cases hvalue

/-- **What is left of a statement is settled.** -/
theorem Sorted.settled {node : Node} (h : Sorted node) :
    ∀ left, node.simplifyStatement? = some left → Settled left := by
  -- What is left of the parts is settled by induction, and the statement around them has been
  -- decided.
  induction h with
  | @block body _ ih =>
    intro left hsimplified
    obtain ⟨hkept, rfl⟩ := simplifyStatement?_block_cases hsimplified
    refine .block hkept fun node hmem => ?_
    obtain ⟨statement, hmem, hsimplified⟩ := mem_simplifyStatements.1 hmem
    exact ih statement hmem node hsimplified
  | declare hvalue =>
    intro left hsimplified
    obtain rfl := Option.some.inj hsimplified
    exact .declare hvalue.normal_simplify
  | @assign name index property value hindices hvalue =>
    intro left hsimplified
    obtain rfl := Option.some.inj hsimplified
    refine .assign (fun node hmem => ?_) hvalue.normal_simplify
    obtain ⟨part, hamong, rfl⟩ := mem_simplifyIndex.1 hmem
    exact (hindices part hamong).normal_simplify
  | loop _ ih =>
    intro left hsimplified
    obtain rfl := Option.some.inj hsimplified
    exact .loop (.bodyOf ih)
  | whileLoop hcondition _ ih =>
    intro left hsimplified
    rcases simplifyStatement?_whileLoop_cases hsimplified with ⟨-, rfl⟩ | ⟨hunknown, rfl⟩
    · exact .loop (.bodyOf ih)
    · exact .whileLoop hcondition.normal_simplify (truth?_eq_none.1 hunknown) (.bodyOf ih)
  | @branch condition thenBranch elseBranch hcondition _ _ ih ih' =>
    have hother : ∀ left, simplifyElse? elseBranch = some left → Settled left := by
      intro left hsimplified
      obtain ⟨node, hamong, hsimplified⟩ := simplifyElse?_eq_some.1 hsimplified
      exact ih' node hamong left hsimplified
    intro left hsimplified
    rcases simplifyStatement?_branch_cases hsimplified with
      ⟨-, hsimplified⟩ | ⟨-, hsimplified⟩ | ⟨hunknown, rfl⟩
    · exact ih left hsimplified
    · exact hother left hsimplified
    · refine .branch hcondition.normal_simplify (truth?_eq_none.1 hunknown) (.bodyOf ih) ?_
      exact fun node hmem => hother node (Option.mem_toList.1 hmem)
  | control kind =>
    intro left hsimplified
    obtain rfl := Option.some.inj hsimplified
    exact .control kind
  | value hvalue =>
    intro left hsimplified
    rw [hvalue.simplifyStatement?_eq] at hsimplified
    obtain rfl := Option.some.inj hsimplified
    exact .value hvalue.normal_simplify

/-- A settled body is what is left of it. -/
theorem bodyOf_settled {body : Node}
    (h : body ≠ .block [] → body.simplifyStatement? = some body) :
    bodyOf body.simplifyStatement? = body := by
  by_cases hempty : body = .block []
  · rw [hempty]
    rfl
  · rw [h hempty]
    rfl

/-- **A settled statement is left as it is.** -/
theorem Settled.simplifyStatement?_eq {node : Node} (h : Settled node) :
    node.simplifyStatement? = some node := by
  induction h with
  | @block body hnonempty _ ih =>
    -- No statement is dropped, so the block is empty only if it was.
    have hsame : body.filterMap simplifyStatement? = body := by
      rw [List.filterMap_congr ih, List.filterMap_some]
    rw [simplifyStatement?, simplifyStatements_eq_filterMap, hsame]
    cases body with
    | nil => exact absurd rfl hnonempty
    | cons first rest => rfl
  | declare hvalue => rw [simplifyStatement?, hvalue.simplify_eq]
  | @assign name index property value hindices hvalue =>
    rw [simplifyStatement?, hvalue.simplify_eq, simplifyIndex_eq_map]
    cases index with
    | none => rfl
    | some index => simp [(hindices index (by simp)).simplify_eq]
  | loop _ ih => rw [simplifyStatement?, bodyOf_settled ih]
  | whileLoop hcondition hunknown _ ih =>
    rw [simplifyStatement?, hcondition.simplify_eq, truth?_eq_none.2 hunknown, bodyOf_settled ih]
  | @branch condition thenBranch elseBranch hcondition hunknown _ _ ih ih' =>
    have hother : simplifyElse? elseBranch = elseBranch := by
      cases elseBranch with
      | none => rfl
      | some other => exact ih' other (by simp)
    rw [simplifyStatement?, hcondition.simplify_eq, truth?_eq_none.2 hunknown, bodyOf_settled ih,
      hother]
  | control kind => rfl
  | @value node hvalue =>
    -- A value is no statement, and is simplified where it stands.
    have hsame := hvalue.simplify_eq
    obtain ⟨hnoStatement, -, -⟩ := hvalue
    cases node <;> first | exact congrArg some hsame | cases hnoStatement

end Node

/-! ## Scripts -/

/-- Statements that have been read keep statements and values apart. -/
theorem Program.sorted_of_read {source : String} {program : Program}
    (hread : Program.ofSource source = .ok program) : ∀ node ∈ program, node.Sorted := by
  exact fun node hmem => (Program.wellFormed_of_read hread node hmem).sorted

/-- What is left of a script is left as it is. -/
theorem Program.simplify_simplify {program : Program} (hsorted : ∀ node ∈ program, node.Sorted) :
    program.simplify.simplify = program.simplify := by
  simp only [Program.simplify, Node.simplifyStatements_eq_filterMap]
  rw [List.filterMap_filterMap]
  refine List.filterMap_congr fun node hmem => ?_
  cases hsimplified : node.simplifyStatement? with
  | none => rfl
  | some left => exact ((hsorted node hmem).settled left hsimplified).simplifyStatement?_eq

/-- **Simplification is idempotent**: on scripts that have been read, on all scripts that keep
    statements and values apart, and on every single statement that does, of which it leaves one
    that nothing is left to do in. -/
theorem simplify_idempotent :
    (∀ (source : String) (program : Program), Program.ofSource source = .ok program →
      program.simplify.simplify = program.simplify) ∧
    (∀ program : Program, (∀ node ∈ program, node.Sorted) →
      program.simplify.simplify = program.simplify) ∧
    (∀ node left : Node, node.Sorted → node.simplifyStatement? = some left →
      left.Settled ∧ left.simplifyStatement? = some left) := by
  refine ⟨fun source program hread => ?_, fun program => Program.simplify_simplify, ?_⟩
  · exact Program.simplify_simplify (Program.sorted_of_read hread)
  · intro node left hsorted hsimplified
    have hsettled := hsorted.settled left hsimplified
    exact ⟨hsettled, hsettled.simplifyStatement?_eq⟩

/-! ## A script with something to do on every level -/

def layeredSource : String :=
  "var x = 2 + 3 * 4; " ++
    "while (1 < 2) { { } if (x > 3 - 3) { if (0) yield(); } else { x = x - 0; break; } }"

def layeredScript : Program :=
  [.declare "x" (.arithmetic .add (.number "2") (.arithmetic .mul (.number "3") (.number "4"))),
    .whileLoop (.comparison .less (.number "1") (.number "2")) (.block [.block [],
      .branch (.comparison .greater (.read "x" none none)
          (.arithmetic .sub (.number "3") (.number "3")))
        (.block [.branch (.number "0") (.call "yield" []) none])
        (some (.block [.assign "x" none none
          (.arithmetic .sub (.read "x" none none) (.number "0")), .control .leave]))])]

/-- What is left of the script. -/
def settledScript : Program :=
  [.declare "x" (.number "14"),
    .loop (.block [.branch (.comparison .greater (.read "x" none none) (.number "0")) (.block [])
      (some (.block [.assign "x" none none (.read "x" none none), .control .leave]))])]

theorem simplify_idempotent_layered :
    Program.ofSource layeredSource = .ok layeredScript ∧ layeredScript.simplify = settledScript ∧
    settledScript.simplify = settledScript := by
  have hread : Program.ofSource layeredSource = .ok layeredScript := by decide +kernel
  have hleft : layeredScript.simplify = settledScript := by decide +kernel
  have hagain := simplify_idempotent.1 layeredSource layeredScript hread
  rw [hleft] at hagain
  exact ⟨hread, hleft, hagain⟩

end ChipScript
