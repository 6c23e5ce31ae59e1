import ChipScript.Proofs.Node.Simplification
import ChipScript.Proofs.Refinement.Program

/-!
# Well-formed trees

A tree given from outside may hold a statement where a value is expected, a call with too many
arguments or a loop control outside of all loops.  Trees that have been read hold none of these, and
declare no name twice (`Grammar.Forms.wellFormed`, `Grammar.Forms.declares`).  Simplification keeps
it so: it drops statements and puts parts in the place of whole expressions, and both leave the rest
well-formed (`WellFormed.simplify`, `WellFormed.declared_simplify`).
-/

namespace ChipScript

namespace Node

/-! ## Expressions -/

/-- Whether the root of a tree stands for a value.  A call does if it names a function and has as
    many arguments as the function takes. -/
def hasValue : Node → Bool
  | call name arguments => Vocabulary.functionArity? name = some arguments.length
  | node => !node.isStatement

/-- Trees that stand for values throughout. -/
inductive IsExpression : Node → Prop where
  | intro {node : Node} :
      node.hasValue = true → (∀ part ∈ node.parts, IsExpression part) → IsExpression node

/-- Statements in which values stand where values are expected, calls have the right number of
    arguments, and loop controls stand in loops. -/
inductive WellFormed : (inLoop : Bool) → Node → Prop where
  | block {inLoop : Bool} {body : List Node} :
      (∀ node ∈ body, WellFormed inLoop node) → WellFormed inLoop (.block body)
  | declare {inLoop : Bool} {name : String} {value : Node} :
      IsExpression value → WellFormed inLoop (.declare name value)
  | assign {inLoop : Bool} {name : String} {index : Option Node} {property : Option String}
      {value : Node} :
      (∀ node ∈ index.toList, IsExpression node) → IsExpression value →
      WellFormed inLoop (.assign name index property value)
  | loop {inLoop : Bool} {body : Node} : WellFormed true body → WellFormed inLoop (.loop body)
  | whileLoop {inLoop : Bool} {condition body : Node} :
      IsExpression condition → WellFormed true body →
      WellFormed inLoop (.whileLoop condition body)
  | branch {inLoop : Bool} {condition thenBranch : Node} {elseBranch : Option Node} :
      IsExpression condition → WellFormed inLoop thenBranch →
      (∀ node ∈ elseBranch.toList, WellFormed inLoop node) →
      WellFormed inLoop (.branch condition thenBranch elseBranch)
  | control (kind : LoopControl) : WellFormed true (.control kind)
  /-- A command is called as a statement only. -/
  | command {inLoop : Bool} (kind : Vocabulary.Command) {arguments : List Node} :
      kind.arity = arguments.length → (∀ node ∈ arguments, IsExpression node) →
      WellFormed inLoop (.call kind.name arguments)
  | value {inLoop : Bool} {node : Node} : IsExpression node → WellFormed inLoop node

/-! ### Small expressions -/

theorem IsExpression.number (text : String) : IsExpression (.number text) :=
  .intro rfl (by simp [parts])

theorem IsExpression.constant (name : String) : IsExpression (.constant name) :=
  .intro rfl (by simp [parts])

theorem IsExpression.ofValue (value : Float) : IsExpression (.ofValue value) :=
  ofValue_cases value .constant .number

/-- An expression is no statement, so that nothing is declared in it. -/
theorem IsExpression.isStatement {node : Node} (h : IsExpression node) :
    node.isStatement = false := by
  obtain ⟨hroot, -⟩ := h
  cases node <;> first | rfl | cases hroot

theorem IsExpression.declared {node : Node} (h : IsExpression node) : node.declared = [] := by
  have hnoStatement := h.isStatement
  cases node <;> first | rfl | cases hnoStatement

end Node

/-! ## Trees that have been read -/

namespace Grammar

/-- What a phrase stands for are expressions. -/
def Phrase.Expresses : Phrase → Prop
  | .value _ node => node.IsExpression
  | .list nodes => ∀ node ∈ nodes, node.IsExpression
  | .arguments nodes => ∀ node ∈ nodes, node.IsExpression
  | .suffix index _ => ∀ node ∈ index.toList, node.IsExpression

theorem isExpression_negated (text : String) : (Parser.negated text).IsExpression := by
  unfold Parser.negated
  split
  · exact .ofValue _
  · exact .ofValue _
  · exact .number _

theorem Derives.expresses {declared : List String} {phrase : Phrase} {ts : List Token}
    (h : Derives declared phrase ts) : phrase.Expresses := by
  -- Every rule puts a value together from values, so that there is one case for each.
  induction h with
  | lift _ _ ih => exact ih
  | join _ hjoins _ _ hleft hright =>
    cases hjoins <;> exact .intro rfl (by simpa [Node.parts] using ⟨hleft, hright⟩)
  | choice _ _ _ hfirst hsecond hthird =>
    exact .intro rfl (by simpa [Node.parts] using ⟨hfirst, hsecond, hthird⟩)
  | not _ ih =>
    refine .intro rfl fun part hmem => ?_
    exact List.mem_singleton.1 hmem ▸ ih
  | number text => exact .number text
  | negative text => exact isExpression_negated text
  | constant => exact .constant _
  | hash | device => exact .intro rfl (by simp [Node.parts])
  | group _ ih => exact ih
  | call harity _ ih => exact .intro (by simpa [Node.hasValue] using harity) ih
  | read _ _ _ ih => exact .intro rfl ih
  | one _ ih =>
    intro node hmem
    exact List.mem_singleton.1 hmem ▸ ih
  | more _ _ hfirst hrest =>
    intro node hmem
    rcases List.mem_cons.1 hmem with rfl | hmem
    · exact hfirst
    · exact hrest node hmem
  | someArguments _ ih => exact ih
  | indexed _ _ ih =>
    intro node hmem
    exact List.mem_singleton.1 hmem ▸ ih
  | noArguments | bare | property => exact fun node hmem => by simp at hmem

/-- The statements of a sentence are well-formed. -/
def Sentence.WellFormed (inLoop : Bool) : Sentence → Prop
  | .statement node => node.WellFormed inLoop
  | .sequence nodes => ∀ node ∈ nodes, node.WellFormed inLoop

theorem Forms.wellFormed {declared after : List String} {inLoop : Bool} {sentence : Sentence}
    {ts : List Token} (h : Forms declared inLoop sentence ts after) :
    sentence.WellFormed inLoop := by
  induction h with
  | declare _ _ _ hvalue => exact .declare hvalue.expresses
  | assign _ _ hsuffix hvalue => exact .assign hsuffix.expresses hvalue.expresses
  | loop _ ih => exact .loop ih
  | whileLoop hcondition _ ih => exact .whileLoop hcondition.expresses ih
  | branch hcondition _ ih => exact .branch hcondition.expresses ih (by simp)
  -- The statement behind the else is the only one in its list.
  | branchElse hcondition _ _ _ hfirst hsecond | branchElseIf hcondition _ _ _ hfirst hsecond =>
    refine .branch hcondition.expresses hfirst fun node hmem => ?_
    exact List.mem_singleton.1 hmem ▸ hsecond
  | leave | again => exact .control _
  | device => exact .value (.intro rfl (by simp [Node.parts]))
  | command harity harguments => exact .command _ harity harguments.expresses
  | block _ ih => exact .block ih
  | done => exact fun node hmem => by simp at hmem
  | next _ _ hfirst hrest =>
    intro node hmem
    rcases List.mem_cons.1 hmem with rfl | hmem
    · exact hfirst
    · exact hrest node hmem

/-- The names that a sentence declares. -/
def Sentence.declared : Sentence → List String
  | .statement node => node.declared
  | .sequence nodes => Node.declaredInAll nodes

/-- **A sentence adds the names that it declares**, each of them new. -/
theorem Forms.declares {declared after : List String} {inLoop : Bool} {sentence : Sentence}
    {ts : List Token} (h : Forms declared inLoop sentence ts after) :
    after = sentence.declared.reverse ++ declared ∧ (declared.Nodup → after.Nodup) := by
  induction h with
  | declare hnew _ _ _ => exact ⟨rfl, fun hnodup => List.nodup_cons.2 ⟨hnew, hnodup⟩⟩
  | assign | leave | again | device | command | done => exact ⟨rfl, id⟩
  | loop _ ih => exact ih
  | whileLoop _ _ ih => exact ih
  | branch _ _ ih => simpa [Sentence.declared, Node.declared, Node.declaredInElse] using ih
  -- The names of the second part come in front of those of the first.
  | branchElse _ _ _ _ hfirst hsecond | branchElseIf _ _ _ _ hfirst hsecond =>
    obtain ⟨hbetween, hdistinct⟩ := hfirst
    obtain ⟨hafter, hdistinct'⟩ := hsecond
    refine ⟨?_, fun hnodup => hdistinct' (hdistinct hnodup)⟩
    rw [hafter, hbetween]
    simp [Sentence.declared, Node.declared, Node.declaredInElse]
  | block _ ih => exact ih
  | next _ _ hfirst hrest =>
    obtain ⟨hbetween, hdistinct⟩ := hfirst
    obtain ⟨hafter, hdistinct'⟩ := hrest
    refine ⟨?_, fun hnodup => hdistinct' (hdistinct hnodup)⟩
    rw [hafter, hbetween]
    simp [Sentence.declared, Node.declaredInAll]

end Grammar

/-! ## Simplified trees -/

namespace Node

theorem hasValue_mapParts (node : Node) (f : Node → Node) :
    (node.mapParts f).hasValue = node.hasValue := by
  cases node <;> simp [mapParts, hasValue, isStatement]

theorem IsExpression.simplify {node : Node} (h : IsExpression node) :
    IsExpression node.simplify := by
  induction h with
  | @intro node hroot hwithin ih =>
    have hvalue := (IsExpression.intro hroot hwithin).isStatement
    rcases simplify_cases node with ⟨v, hleft⟩ | hleft | ⟨part, hmem, hleft⟩ | hleft
    all_goals rw [hleft]
    · exact .ofValue v
    · exact .number _
    · exact ih part hmem
    · exact .intro (by rwa [hasValue_mapParts]) (forall_parts_mapParts hvalue ih)

/-- An expression that stands as a statement is simplified as one. -/
theorem IsExpression.simplifyStatement? {node : Node} (h : IsExpression node) :
    node.simplifyStatement? = some node.simplify := by
  have hnoStatement := h.isStatement
  cases node <;> first | rfl | cases hnoStatement

theorem WellFormed.bodyOf {inLoop : Bool} {left : Option Node}
    (h : ∀ node, left = some node → WellFormed inLoop node) : WellFormed inLoop (bodyOf left) := by
  cases left with
  | none => exact .block (by simp)
  | some node => exact h node rfl

/-- **What is left of a well-formed statement is well-formed.** -/
theorem WellFormed.simplify {inLoop : Bool} {node : Node} (h : WellFormed inLoop node) :
    ∀ left, node.simplifyStatement? = some left → WellFormed inLoop left := by
  induction h with
  | @block inLoop body _ ih =>
    intro left hsimplified
    obtain ⟨-, rfl⟩ := simplifyStatement?_block_cases hsimplified
    refine .block fun node hmem => ?_
    obtain ⟨statement, hmem, hsimplified⟩ := mem_simplifyStatements.1 hmem
    exact ih statement hmem node hsimplified
  | declare hvalue =>
    intro left hsimplified
    obtain rfl := Option.some.inj hsimplified
    exact .declare hvalue.simplify
  | @assign inLoop name index property value hindices hvalue =>
    intro left hsimplified
    obtain rfl := Option.some.inj hsimplified
    refine .assign (fun node hmem => ?_) hvalue.simplify
    obtain ⟨part, hamong, rfl⟩ := mem_simplifyIndex.1 hmem
    exact (hindices part hamong).simplify
  | loop _ ih =>
    intro left hsimplified
    obtain rfl := Option.some.inj hsimplified
    exact .loop (.bodyOf ih)
  | whileLoop hcondition _ ih =>
    intro left hsimplified
    rcases simplifyStatement?_whileLoop_cases hsimplified with ⟨-, rfl⟩ | ⟨-, rfl⟩
    · exact .loop (.bodyOf ih)
    · exact .whileLoop hcondition.simplify (.bodyOf ih)
  | @branch inLoop condition thenBranch elseBranch hcondition _ _ ih ih' =>
    -- What is left of the other branch, which may stand in the place of the whole choice.
    have hother : ∀ left, simplifyElse? elseBranch = some left → WellFormed inLoop left := by
      intro left hsimplified
      obtain ⟨node, hamong, hsimplified⟩ := simplifyElse?_eq_some.1 hsimplified
      exact ih' node hamong left hsimplified
    intro left hsimplified
    rcases simplifyStatement?_branch_cases hsimplified with
      ⟨-, hsimplified⟩ | ⟨-, hsimplified⟩ | ⟨-, rfl⟩
    · exact ih left hsimplified
    · exact hother left hsimplified
    · refine .branch hcondition.simplify (.bodyOf ih) fun node hmem => ?_
      exact hother node (Option.mem_toList.1 hmem)
  | control kind =>
    intro left hsimplified
    obtain rfl := Option.some.inj hsimplified
    exact .control kind
  | command kind harity harguments =>
    intro left hsimplified
    obtain rfl := Option.some.inj hsimplified
    rw [Node.simplify, simplifyArguments_eq_map]
    refine .command kind (by simpa using harity) ?_
    simp only [List.mem_map]
    rintro node ⟨argument, hmem, rfl⟩
    exact (harguments argument hmem).simplify
  | value hvalue =>
    intro left hsimplified
    rw [hvalue.simplifyStatement?] at hsimplified
    obtain rfl := Option.some.inj hsimplified
    exact .value hvalue.simplify

theorem declared_bodyOf (left : Option Node) : (bodyOf left).declared = declaredInElse left := by
  cases left <;> rfl

/-- Statements of which nothing is left take their declarations with them. -/
theorem declaredInAll_simplifyStatements {body : List Node}
    (heach : ∀ node ∈ body, (declaredInElse node.simplifyStatement?).Sublist node.declared) :
    (declaredInAll (simplifyStatements body)).Sublist (declaredInAll body) := by
  induction body with
  | nil => exact .slnil
  | cons statement rest ih =>
    have hfirst := heach statement (List.mem_cons_self ..)
    have hlater := ih fun node hmem => heach node (List.mem_cons_of_mem _ hmem)
    rw [simplifyStatements, declaredInAll]
    cases hleft : simplifyStatement? statement with
    | none => exact hlater.trans (List.sublist_append_right _ _)
    | some node =>
      rw [hleft] at hfirst
      exact hfirst.append hlater

/-- **Simplification declares nothing new**, and leaves the order of declarations. -/
theorem WellFormed.declared_simplify {inLoop : Bool} {node : Node} (h : WellFormed inLoop node) :
    (declaredInElse node.simplifyStatement?).Sublist node.declared := by
  induction h with
  | @block inLoop body _ ih =>
    rw [simplifyStatement?, declared]
    split
    · exact List.nil_sublist _
    · exact declaredInAll_simplifyStatements ih
  | declare | assign | control => exact List.Sublist.refl _
  | loop _ ih =>
    rw [simplifyStatement?, declaredInElse, declared, declared_bodyOf]
    exact ih
  | whileLoop _ _ ih =>
    rw [simplifyStatement?]
    -- A loop that is never entered is dropped with its declarations.
    split
    · rw [declaredInElse, declared, declared_bodyOf]
      exact ih
    · exact List.nil_sublist _
    · rw [declaredInElse, declared, declared_bodyOf]
      exact ih
  | @branch inLoop condition thenBranch elseBranch _ _ _ ih ih' =>
    -- The other branch may be missing, or be left out.
    have hother : (declaredInElse (simplifyElse? elseBranch)).Sublist
        (declaredInElse elseBranch) := by
      cases elseBranch with
      | none => exact .slnil
      | some other => exact ih' other (by simp)
    rw [simplifyStatement?, declared]
    split
    · exact ih.trans (List.sublist_append_left _ _)
    · exact hother.trans (List.sublist_append_right _ _)
    · rw [declaredInElse, declared, declared_bodyOf]
      exact ih.append hother
  | command kind harity harguments => exact List.Sublist.refl _
  | value hvalue =>
    rw [hvalue.simplifyStatement?, declaredInElse, hvalue.simplify.declared]
    exact List.nil_sublist _

end Node
end ChipScript
