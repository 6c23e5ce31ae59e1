import ChipScript.Proofs.Chip.History
import ChipScript.Proofs.Chip.Jumps
import ChipScript.Proofs.Node.WellFormed

/-!
# What code generation can refuse

Some errors of code generation answer trees from outside only.  A script that has been read, and its
simplification too, is never refused because of its form: that has been checked while it was read.
What remains are the errors that only code generation can find, such as a device without a logic
type or too many variables.

The other half is about code that is there: every instruction that is generated can be written,
since the one store that the chip does not have is refused before.

Main result: `code_refuses_nothing_read`.
-/

namespace ChipScript

/-! ## Errors -/

namespace CodeError

/-- Whether an error is about the form of a script: about its loop controls, its declarations, its
    calls, or about a statement in the place of a value. -/
def isFormFault : CodeError → Bool
  | controlOutsideLoop _ | redeclared _ | arityMismatch _ _ _ => true
  | unsupported .deviceOutsideDeclaration => false
  | unsupported _ => true
  | _ => false

/-- Whether an error is ruled out for scripts that have been read.  Registers that are freed twice
    or not at all would be a fault of the generator, and not of the script. -/
def isRuledOut (e : CodeError) : Bool :=
  e.isFormFault || e.isRegisterFault

end CodeError

namespace Gen

/-! ## Steps that accept -/

/-- A step may stop, but not with an error about the form of the script. -/
def Accepts {α : Type} (step : Gen α) (g : Generator) : Prop :=
  ∀ e g', step g = .error e g' → e.isFormFault = false

section Steps

variable {α β : Type} {g : Generator}

/-- A step that succeeds is not refused. -/
theorem Accepts.of_ok {step : Gen α} {a : α} {g' : Generator} (h : step g = .ok a g') :
    Accepts step g := by
  intro e g₁ hfailed
  rw [h] at hfailed
  cases hfailed

/-- The second step of a sequence is asked about only where the first has succeeded. -/
theorem Accepts.bind {x : Gen α} {f : α → Gen β} (hfirst : Accepts x g)
    (hsecond : ∀ a g₁, x g = .ok a g₁ → Accepts (f a) g₁) : Accepts (x >>= f) g := by
  intro e g' hfailed
  rcases bind_eq_error.1 hfailed with hstopped | ⟨a, g₁, hran, hstopped⟩
  · exact hfirst e g' hstopped
  · exact hsecond a g₁ hran e g' hstopped

/-- Steps that accept every state may follow each other. -/
theorem Accepts.seq {x : Gen α} {f : α → Gen β} (hfirst : Accepts x g)
    (hsecond : ∀ a g₁, Accepts (f a) g₁) : Accepts (x >>= f) g :=
  hfirst.bind fun a g₁ _ => hsecond a g₁

theorem throw_accepts {e : CodeError} (hkind : e.isFormFault = false) :
    Accepts (throw e : Gen α) g := by
  intro e' g' hfailed
  cases hfailed
  exact hkind

theorem emit_accepts (instruction : Instruction) : Accepts (emit instruction) g :=
  .of_ok (emit_apply instruction g)

theorem emitAll_accepts (code : List Instruction) : Accepts (emitAll code) g :=
  .of_ok (emitAll_apply code g)

/-- A question is refused for the reasons of its answer only. -/
theorem query_accepts {ask : Generator → Except CodeError α}
    (hkind : ∀ e, ask g = .error e → e.isFormFault = false) : Accepts (query ask) g := by
  intro e g' hfailed
  unfold query at hfailed
  -- A question has no other error than that of its answer.
  cases hanswer : ask g with
  | ok a => simp [hanswer] at hfailed
  | error e' =>
    simp only [hanswer, EStateM.Result.error.injEq] at hfailed
    exact hfailed.1 ▸ hkind e' hanswer

/-- Registers may run out, which is no fault of the form. -/
theorem reserveBy_accepts (candidates : List Register) :
    Accepts (reserveBy (·.take candidates)) g := by
  intro e g' hfailed
  rcases reserveBy_take candidates g with ⟨r, -, htaken⟩ | hexhausted
  · rw [htaken] at hfailed
    cases hfailed
  · rw [hexhausted] at hfailed
    cases hfailed
    rfl

theorem release_accepts (r : Register) : Accepts (release r) g := by
  intro e g' hfailed
  unfold release RegisterFile.release at hfailed
  split at hfailed
  · cases hfailed
  · next h =>
    split at h
    · cases h
      cases hfailed
      rfl
    · cases h

theorem releaseAll_accepts (registers : List Register) : Accepts (releaseAll registers) g := by
  induction registers generalizing g with
  | nil => exact .of_ok rfl
  | cons r rest ih =>
    rw [releaseAll]
    exact (release_accepts r).seq fun _ _ => ih

/-- A name that stands for no register is no fault of the form. -/
theorem registerOf_accepts (name : String) (index : Option Node) (property : Option String)
    (e : CodeError) (h : g.registerOf name index property = .error e) : e.isFormFault = false := by
  unfold Generator.registerOf at h
  split at h
  · cases h
    rfl
  · split at h
    · cases h
      rfl
    · cases h

theorem operand?_accepts (node : Node) : Accepts (query (·.operand? node)) g := by
  refine query_accepts fun e h => ?_
  cases node with
  | read name index property =>
    rw [Generator.operand?] at h
    split at h
    · cases h
    · cases hanswer : g.registerOf name index property with
      | ok r => simp [hanswer, Except.map] at h
      | error e' =>
        simp only [hanswer, Except.map, Except.error.injEq] at h
        exact h ▸ registerOf_accepts name index property e' hanswer
  | _ => cases h

/-- A call with as many arguments as its name asks for. -/
theorem checkArity_accepts {name : String} {expected found : Nat} (hsame : expected = found) :
    Accepts (checkArity name expected found) g := by
  rw [checkArity, if_pos hsame]
  exact .of_ok rfl

end Steps

/-! ## Values -/

/-- The code of a value is refused in no state because of its form. -/
abbrev ComputesFreely (node : Node) : Prop :=
  ∀ (dst : Register) (g : Generator), Accepts (expression node dst) g

theorem operandIn_accepts {node : Node} (hcomputes : ComputesFreely node) (scope : Scope)
    (g : Generator) : Accepts (operandIn scope node (expression node)) g := by
  refine (operand?_accepts node).seq fun found g₁ => ?_
  cases found with
  | some operand => exact .of_ok rfl
  | none =>
    cases scope.taken with
    | true =>
      refine (reserveBy_accepts Register.all).seq fun r g₂ => ?_
      exact (hcomputes r g₂).seq fun _ _ => .of_ok rfl
    | false => exact (hcomputes scope.dst g₁).seq fun _ _ => .of_ok rfl

theorem operandsIn_accepts {nodes : List Node} (hcomputes : ∀ node ∈ nodes, ComputesFreely node)
    (scope : Scope) (g : Generator) : Accepts (operandsIn scope nodes) g := by
  -- Neither the scope nor the state matters: the code of a value is refused in none.
  induction nodes generalizing scope g with
  | nil =>
    rw [operandsIn]
    exact .of_ok rfl
  | cons node rest ih =>
    rw [operandsIn]
    refine (operandIn_accepts (hcomputes node (List.mem_cons_self ..)) scope g).seq
      fun first g₁ => ?_
    exact (ih (fun n hn => hcomputes n (List.mem_cons_of_mem _ hn)) first.2 g₁).seq
      fun _ _ => .of_ok rfl

/-- Code that uses operands is refused only if the code of an operand is. -/
theorem withOperands_accepts {nodes : List Node} (hcomputes : ∀ node ∈ nodes, ComputesFreely node)
    (dst : Register) (use : List Operand → List Instruction) (g : Generator) :
    Accepts (withOperands dst nodes use) g := by
  refine (operandsIn_accepts hcomputes (.opened dst) g).seq fun gathered g₁ => ?_
  exact (emitAll_accepts _).seq fun _ _ => releaseAll_accepts _

theorem materialize_accepts {node : Node} (hcomputes : ComputesFreely node) (dst : Register)
    (g : Generator) : Accepts (materialize node (expression node) dst) g := by
  refine (operand?_accepts node).seq fun found g₁ => ?_
  cases found with
  | some operand => exact .of_ok rfl
  | none => exact (hcomputes dst g₁).seq fun _ _ => .of_ok rfl

/-- A device that is read without a logic type is refused, but not for its form. -/
theorem read_accepts (name : String) {index : Option Node} (property : Option String)
    (hcomputes : ∀ node ∈ index.toList, ComputesFreely node) :
    ComputesFreely (.read name index property) := by
  intro dst g
  cases hknown : g.device? name with
  | some config =>
    -- A device without a logic type is an error of its own, which only code generation can find.
    cases property with
    | none =>
      refine Accepts.bind (x := get) (.of_ok rfl) fun g₀ g₁ hsame => ?_
      cases hsame
      simp only [hknown]
      exact throw_accepts rfl
    | some property =>
      intro e g' hfailed
      rw [expression_load index property dst hknown] at hfailed
      exact withOperands_accepts hcomputes dst _ g e g' hfailed
  | none =>
    rw [expression]
    refine Accepts.bind (.of_ok get_apply) fun g₀ g₁ hsame => ?_
    cases hsame
    simp only [hknown]
    exact (query_accepts (registerOf_accepts name index property)).seq
      fun r _ => emit_accepts _

/-- **A value is never refused because of its form.** -/
theorem expression_accepts {node : Node} (h : node.IsExpression) : ComputesFreely node := by
  induction h with
  | @intro node hroot _ ih =>
    cases node with
    | arithmetic operator left right =>
      intro dst g
      rw [expression_arithmetic]
      exact withOperands_accepts ih dst _ g
    | comparison operator left right =>
      intro dst g
      rw [expression_comparison]
      exact withOperands_accepts ih dst _ g
    | connective operator left right =>
      intro dst g
      rw [expression]
      refine (materialize_accepts (ih left (by simp [Node.parts])) dst g).seq fun a g₁ => ?_
      refine (reserveBy_accepts Register.all).seq fun r g₂ => ?_
      refine (materialize_accepts (ih right (by simp [Node.parts])) r g₂).seq fun b g₃ => ?_
      refine (emit_accepts _).seq fun _ _ => (emit_accepts _).seq fun _ _ => ?_
      exact (emit_accepts _).seq fun _ _ => release_accepts r
    | not operand =>
      intro dst g
      rw [expression_not]
      exact withOperands_accepts ih dst _ g
    | choice condition thenValue elseValue =>
      intro dst g
      cases hknown : condition.value? with
      | some value =>
        rw [expression_choice_known _ _ _ hknown]
        split
        · exact ih thenValue (by simp [Node.parts]) dst g
        · exact ih elseValue (by simp [Node.parts]) dst g
      | none =>
        rw [expression_choice _ _ _ hknown]
        exact withOperands_accepts ih dst _ g
    | read name index property => exact read_accepts name property ih
    | call name arguments =>
      intro dst g
      have harity : Vocabulary.functionArity? name = some arguments.length := by
        simpa [Node.hasValue] using hroot
      -- The name of a function is none of a command, so that its arity is the one that is checked.
      have hnoCommand : Vocabulary.Command.ofName? name = none := by
        simpa [Vocabulary.isCommand] using Grammar.not_isCommand_of_functionArity? harity
      rw [expression_function arguments dst hnoCommand harity]
      exact (checkArity_accepts rfl).seq fun _ g₁ => withOperands_accepts ih dst _ g₁
    | number text | constant text | hash text =>
      intro dst g
      rw [expression]
      exact emit_accepts _
    | device config =>
      intro dst g
      rw [expression]
      exact throw_accepts rfl
    | block _ | declare _ _ | assign _ _ _ _ | loop _ | whileLoop _ _ | branch _ _ _ | control _ =>
      cases hroot

/-- A condition is tested by the code of its parts. -/
theorem jumpUnless_accepts {condition : Node} (h : condition.IsExpression) (dst : Register)
    (label : String) (g : Generator) : Accepts (jumpUnless condition dst label) g := by
  rw [jumpUnless_eq]
  refine withOperands_accepts (fun node hmem => expression_accepts ?_) dst _ g
  have hwhole := h
  obtain ⟨-, hwithin⟩ := h
  -- What is tested are the parts of a condition, or the condition itself.
  cases condition with
  | comparison _ _ _ | connective _ _ _ | not _ => exact hwithin node hmem
  | _ => exact List.mem_singleton.1 hmem ▸ hwhole

end Gen

/-! ## Statements -/

/-- A generator that a statement can be given to: what it declares is new, and if it stands in a
    loop then a loop has been begun. -/
structure Generator.Awaits (g : Generator) (inLoop : Bool) (names : List String) : Prop where
  nodup : g.registers.reserved.Nodup
  loops : inLoop = true → g.loops ≠ []
  distinct : names.Nodup
  new : ∀ name ∈ names, g.binding? name = none

namespace Generator.Awaits

variable {g g₁ : Generator} {inLoop : Bool} {names before after : List String}

/-- The first of two statements may be given to the generator. -/
theorem first (h : g.Awaits inLoop (before ++ after)) : g.Awaits inLoop before where
  nodup := h.nodup
  loops := h.loops
  distinct := (List.nodup_append.1 h.distinct).1
  new := fun name hmem => h.new name (List.mem_append_left _ hmem)

/-- After the first of two statements the names of the second are new. -/
theorem second (h : g.Awaits inLoop (before ++ after)) (hadded : Extends before g g₁) :
    g₁.Awaits inLoop after where
  nodup := hadded.nodup
  loops := fun hinside => hadded.loops ▸ h.loops hinside
  distinct := (List.nodup_append.1 h.distinct).2.1
  new := by
    intro name hmem
    cases hknown : g₁.binding? name with
    | none => rfl
    | some b =>
      -- A name that is known now was known before, or the first statement declared it; both exclude
      -- that it is new.
      rcases hadded.added name b hknown with hearlier | hnow
      · rw [h.new name (List.mem_append_right _ hmem)] at hearlier
        cases hearlier
      · exact absurd rfl ((List.nodup_append.1 h.distinct).2.2 name hnow name hmem)

/-- Only registers, loops and names matter. -/
theorem congr (h : g.Awaits inLoop names) (hregisters : g₁.registers = g.registers)
    (hloops : g₁.loops = g.loops) (hsame : ∀ name, g₁.binding? name = g.binding? name) :
    g₁.Awaits inLoop names where
  nodup := hregisters ▸ h.nodup
  loops := fun hinside => hloops ▸ h.loops hinside
  distinct := h.distinct
  new := fun name hmem => (hsame name).trans (h.new name hmem)

/-- A test declares nothing. -/
theorem tested (h : g.Awaits inLoop names) (hadded : Extends [] g g₁) :
    g₁.Awaits inLoop names := by
  have hnothing : g.Awaits inLoop ([] ++ names) := h
  exact hnothing.second hadded

/-- Inside one loop more. -/
theorem entered (h : g.Awaits inLoop names) (startStem endStem : String) :
    (g.entered startStem endStem).Awaits true names where
  nodup := h.nodup
  loops := fun _ => List.cons_ne_nil _ _
  distinct := h.distinct
  new := h.new

end Generator.Awaits

namespace Gen

variable {dst : Register}

theorem computeInto_accepts {value : Node} (h : value.IsExpression) (r : Register) (g : Generator) :
    Accepts (computeInto r value) g := by
  refine (operand?_accepts value).seq fun found g₁ => ?_
  cases found with
  | some operand => exact emit_accepts _
  | none => exact expression_accepts h r g₁

/-- A declaration of a new name is not refused. -/
theorem declaration_accepts {name : String} {value : Node} (h : value.IsExpression)
    {g : Generator} (hnew : g.binding? name = none) : Accepts (declaration name value) g := by
  obtain ⟨hnoDevice, hnoVariable⟩ := Generator.binding?_eq_none.1 hnew
  -- The check of the name is passed, since it stands for nothing.
  have hchecked : checkNew name g = .ok () g := by
    unfold checkNew
    rw [bind_apply get_apply]
    simp [hnoDevice, hnoVariable, pure, EStateM.pure]
  refine Accepts.bind (.of_ok hchecked) fun _ g₁ _ => ?_
  split
  · exact .of_ok (modify_apply _)
  · refine (reserveBy_accepts Register.all.reverse).seq fun r g₂ => ?_
    exact (computeInto_accepts h r g₂).seq fun _ _ => .of_ok (modify_apply _)

/-- A store that the chip does not have is refused, but not for its form. -/
theorem deviceStore_accepts (config : DeviceConfig) (name : String) {index : Option Node}
    (property : Option String) {value : Node} (hi : ∀ node ∈ index.toList, node.IsExpression)
    (hv : value.IsExpression) (dst : Register) (g : Generator) :
    Accepts (deviceStore config name index property value dst) g := by
  have hparts : ∀ node ∈ value :: index.toList, ComputesFreely node := by
    intro node hmem
    rcases List.mem_cons.1 hmem with rfl | hmem
    · exact expression_accepts hv
    · exact expression_accepts (hi node hmem)
  cases property with
  | none => exact throw_accepts rfl
  | some property =>
    -- The chip writes no slot of a named device, and the generator says so.
    by_cases hunnamed :
        index = none ∨ ∀ deviceName mode, config.addressing ≠ .namedBatch deviceName mode
    · rw [deviceStore_eq config name index property value dst hunnamed]
      exact withOperands_accepts hparts dst _ g
    · push Not at hunnamed
      obtain ⟨hindexed, deviceName, mode, haddress⟩ := hunnamed
      obtain ⟨node, rfl⟩ := Option.ne_none_iff_exists'.1 hindexed
      unfold deviceStore
      rw [haddress]
      exact throw_accepts rfl

theorem assignment_accepts (name : String) {index : Option Node} (property : Option String)
    {value : Node} (hi : ∀ node ∈ index.toList, node.IsExpression) (hv : value.IsExpression)
    (dst : Register) (g : Generator) :
    Accepts (assignment name index property value dst) g := by
  refine Accepts.bind (.of_ok get_apply) fun known g₁ _ => ?_
  split
  · exact deviceStore_accepts _ name property hi hv dst g₁
  · refine (query_accepts (registerOf_accepts name index property)).seq fun r g₂ => ?_
    refine (operand?_accepts value).seq fun found g₃ => ?_
    -- An operand is moved, and any other value is computed aside or in place.
    cases found with
    | some operand => exact emit_accepts _
    | none =>
      refine Accepts.bind (.of_ok get_apply) fun known g₄ _ => ?_
      split
      · refine (reserveBy_accepts Register.all).seq fun t g₅ => ?_
        refine (expression_accepts hv t g₅).seq fun _ _ => ?_
        exact (emit_accepts _).seq fun _ _ => release_accepts t
      · exact expression_accepts hv r g₄

/-- A statement is not refused because of its form, in any state that it can be given to. -/
abbrev AcceptedIn (inLoop : Bool) (names : List String) (step : Gen Unit) : Prop :=
  ∀ g : Generator, g.Awaits inLoop names → Accepts step g

/-- Each statement leaves the generator ready for those behind it. -/
theorem statements_accepted {inLoop : Bool} {nodes : List Node}
    (haccepted : ∀ node ∈ nodes, AcceptedIn inLoop node.declared (statement node dst)) :
    AcceptedIn inLoop (Node.declaredInAll nodes) (statements nodes dst) := by
  induction nodes with
  | nil =>
    rw [statements]
    exact fun g _ => .of_ok rfl
  | cons node rest ih =>
    intro g hawaits
    rw [statements]
    refine (haccepted node (List.mem_cons_self ..) g hawaits.first).bind fun _ g₁ hgenerated => ?_
    have hadded := statement_extends node dst g g₁ hawaits.nodup hgenerated
    exact ih (fun n hn => haccepted n (List.mem_cons_of_mem _ hn)) g₁ (hawaits.second hadded)

theorem loopWith_accepted {inLoop : Bool} {names : List String} (startStem endStem : String)
    {test : String → Gen Unit} {body : Gen Unit}
    (htests : ∀ label g, Accepts (test label) g) (hadds : ∀ label, Extending [] (test label))
    (haccepted : AcceptedIn true names body) :
    AcceptedIn inLoop names (loopWith startStem endStem test body) := by
  intro g hawaits
  refine Accepts.bind (.of_ok (newLabel_apply startStem)) fun _ _ hsame => ?_
  cases hsame
  refine Accepts.bind (.of_ok (newLabel_apply endStem)) fun _ _ hsame => ?_
  cases hsame
  refine Accepts.bind (.of_ok (modify_apply _)) fun _ _ hsame => ?_
  cases hsame
  refine Accepts.bind (emit_accepts _) fun _ g₁ hsame => ?_
  rw [emit_apply] at hsame
  cases hsame
  -- From here on a loop is around, which is what controls in the body ask for.
  have hentered := hawaits.entered startStem endStem
  refine (htests _ _).bind fun _ g₂ htested => ?_
  have hinside : g₂.Awaits true names := hentered.tested (hadds _ _ g₂ hentered.nodup htested)
  refine (haccepted g₂ hinside).seq fun _ _ => ?_
  exact (emit_accepts _).seq fun _ _ => (emit_accepts _).seq fun _ _ => .of_ok (modify_apply _)

theorem branch_accepted {inLoop : Bool} {condition thenBranch : Node} {elseBranch : Option Node}
    (hc : condition.IsExpression)
    (hthenAccepted : AcceptedIn inLoop thenBranch.declared (statement thenBranch dst))
    (helseAccepted : ∀ n ∈ elseBranch.toList, AcceptedIn inLoop n.declared (statement n dst)) :
    AcceptedIn inLoop (thenBranch.declared ++ Node.declaredInElse elseBranch)
      (statement (.branch condition thenBranch elseBranch) dst) := by
  have hother : AcceptedIn inLoop (Node.declaredInElse elseBranch) (otherwise elseBranch dst) := by
    cases elseBranch with
    | none => exact fun g _ => .of_ok rfl
    | some n =>
      rw [otherwise]
      exact helseAccepted n (by simp)
  intro g hawaits
  rw [statement]
  split
  · exact hthenAccepted g hawaits.first
  · -- What is decided to be left out declares nothing.
    exact hother g ⟨hawaits.nodup, hawaits.loops, (List.nodup_append.1 hawaits.distinct).2.1,
      fun name hmem => hawaits.new name (List.mem_append_right _ hmem)⟩
  · split
    · refine Accepts.bind (.of_ok (newLabel_apply "if_else")) fun _ _ hsame => ?_
      cases hsame
      refine Accepts.bind (.of_ok (newLabel_apply "if_end")) fun _ _ hsame => ?_
      cases hsame
      refine (jumpUnless_accepts hc dst _ _).bind fun _ g₁ htested => ?_
      -- Labels are made before the test, and change neither names nor registers.
      have hlabelled : ((g.labelled "if_else").labelled "if_end").Awaits inLoop _ :=
        hawaits.congr rfl rfl fun _ => rfl
      have hbefore := hlabelled.tested (jumpUnless_extends hlabelled.nodup htested)
      refine (hthenAccepted g₁ hbefore.first).bind fun _ g₂ hgenerated => ?_
      have hbetween :=
        hbefore.second (statement_extends thenBranch dst g₁ g₂ hbefore.nodup hgenerated)
      refine Accepts.bind (emit_accepts _) fun _ g₃ hsame => ?_
      rw [emit_apply] at hsame
      cases hsame
      refine Accepts.bind (emit_accepts _) fun _ g₄ hsame => ?_
      rw [emit_apply] at hsame
      cases hsame
      refine Accepts.seq (hother _ ?_) fun _ _ => emit_accepts _
      exact hbetween.congr rfl rfl fun _ => rfl
    · refine Accepts.bind (.of_ok (newLabel_apply "if")) fun _ _ hsame => ?_
      cases hsame
      refine (jumpUnless_accepts hc dst _ _).bind fun _ g₁ htested => ?_
      have hlabelled : (g.labelled "if").Awaits inLoop _ := hawaits.congr rfl rfl fun _ => rfl
      have hbefore := hlabelled.tested (jumpUnless_extends hlabelled.nodup htested)
      exact (hthenAccepted g₁ hbefore.first).seq fun _ _ => emit_accepts _

/-- **A well-formed statement is never refused because of its form.** -/
theorem statement_accepted {inLoop : Bool} {node : Node} (h : node.WellFormed inLoop)
    (dst : Register) : AcceptedIn inLoop node.declared (statement node dst) := by
  -- By the cases of a well-formed statement, each with the check that it has passed.
  induction h with
  | block _ ih =>
    rw [statement]
    exact statements_accepted ih
  | declare hvalue =>
    intro g hawaits
    rw [statement]
    exact declaration_accepts hvalue (hawaits.new _ (by simp [Node.declared]))
  | assign hindices hvalue =>
    intro g _
    rw [statement]
    exact assignment_accepts _ _ hindices hvalue dst g
  | loop _ ih =>
    rw [statement]
    exact loopWith_accepted _ _ (fun _ _ => .of_ok rfl) (fun _ => pure_extends) ih
  | whileLoop hcondition _ ih =>
    rw [statement]
    split
    · exact fun g _ => .of_ok rfl
    · exact loopWith_accepted _ _ (fun _ _ => .of_ok rfl) (fun _ => pure_extends) ih
    · exact loopWith_accepted _ _ (jumpUnless_accepts hcondition dst)
        (fun _ _ _ => jumpUnless_extends) ih
  | branch hcondition _ _ ih ih' => exact branch_accepted hcondition ih ih'
  | control kind =>
    intro g hawaits
    rw [statement]
    refine Accepts.bind (.of_ok get_apply) fun _ _ hsame => ?_
    cases hsame
    -- A control in a loop finds the labels of the loop.
    cases hloops : g.loops with
    | nil => exact absurd hloops (hawaits.loops rfl)
    | cons labels rest => exact emit_accepts _
  | command kind harity harguments =>
    intro g _
    rw [statement, expression_command _ dst (Vocabulary.Command.ofName?_name kind)]
    · refine (checkArity_accepts harity).seq fun _ g₁ => ?_
      exact withOperands_accepts (fun node hmem => expression_accepts (harguments node hmem))
        dst _ g₁
    all_goals simp
  | @value inLoop node hvalue =>
    intro g _
    -- An expression as a statement has the code of its value, which nothing reads.
    have hnoStatement := hvalue.isStatement
    rw [statement]
    · exact expression_accepts hvalue dst g
    all_goals
      intros
      subst_vars
      cases hnoStatement

/-! ## Scripts -/

/-- Around the statements a script takes one register, and gives it back. -/
theorem program_accepts {script : Program} (hwellFormed : ∀ node ∈ script, node.WellFormed false)
    (hdistinct : (Node.declaredInAll script).Nodup) : Accepts (program script) .empty := by
  refine (reserveBy_accepts Register.all).bind fun scratch g hreserved => ?_
  obtain ⟨-, rfl⟩ := reserveBy_eq_ok hreserved
  -- At the start nothing is known, so that all names are new.
  have hawaits : (Generator.empty.hold [scratch]).Awaits false (Node.declaredInAll script) :=
    ⟨List.nodup_singleton _, nofun, hdistinct, fun _ _ => rfl⟩
  refine (statements_accepted (fun node hmem => statement_accepted (hwellFormed node hmem) scratch)
    _ hawaits).seq fun _ _ => ?_
  refine (release_accepts scratch).seq fun _ _ => ?_
  refine Accepts.seq ?_ fun _ _ => ?_
  · refine Accepts.bind (.of_ok get_apply) fun _ _ _ => ?_
    exact Accepts.bind (.of_ok (modify_apply _)) fun _ _ _ => releaseAll_accepts _
  · refine Accepts.bind (.of_ok get_apply) fun left _ _ => ?_
    change Accepts (if left.registers.inUse ≠ 0 then _ else _) _
    split
    · exact throw_accepts rfl
    · exact .of_ok rfl

/-- An error of a script is none of those that are ruled out, if the script is well-formed and
    declares no name twice. -/
theorem code_not_ruledOut {script : Program} (hwellFormed : ∀ node ∈ script, node.WellFormed false)
    (hdistinct : (Node.declaredInAll script).Nodup) {e : CodeError} (h : script.code = .error e) :
    e.isRuledOut = false := by
  unfold Program.code at h
  split at h
  · cases h
  · next hfailed =>
    cases h
    have hform := program_accepts hwellFormed hdistinct e _ hfailed
    -- No register is freed twice or missed by the first call of a generator.
    let call : Call := ⟨script, id, fun _ => .refl _⟩
    have hdisciplined : Generator.empty.Disciplined := ⟨List.nodup_nil, List.nil_sublist _⟩
    have houtcome := call.run_outcome hdisciplined
    have hrun : call.run .empty = .error e _ := hfailed
    have hregisters : e.isRegisterFault = false := by
      cases e with
      | registerAlreadyFree r => exact absurd hrun (houtcome.freed r _)
      | registerLeak n => exact absurd rfl (houtcome.missed n _ hrun)
      | _ => rfl
    rw [CodeError.isRuledOut, hform, hregisters]
    rfl

/-! ## Written code -/

/-- The code of a test stores nothing. -/
theorem spelled_test {condition : Node} {label : String} {test : List Instruction} {g : Generator}
    (hnodup : g.registers.reserved.Nodup)
    (h : jumpUnless condition dst label g = .ok () (g.append test)) :
    ∀ instruction ∈ test, ∃ words, instruction.words = .ok words := by
  obtain ⟨operands, code, -, hcomputes, rfl⟩ := jumpUnless_test hnodup h
  intro instruction hmem
  rcases List.mem_append.1 hmem with hmem | hmem
  · exact Instruction.BelongsTo.spelled_of_noStore (hcomputes instruction hmem).noStore
  · rcases mem_testCode hmem with ⟨comparison, a, b, rfl⟩ | ⟨-, ⟨a, offset, rfl⟩ | rfl⟩
    all_goals exact ⟨_, rfl⟩

/-- **Every line can be written.** -/
theorem Lists.spelled {loops : List Enclosing} {node : Node} {g g' : Generator} {lines : List Line}
    (h : Lists dst loops node g g' lines) (hnodup : g.registers.reserved.Nodup) :
    ∀ line ∈ lines, ∃ words, line.instruction.words = .ok words := by
  have hall : ∀ {origin : Node} {loops : List Enclosing} {code : List Instruction},
      (∀ instruction ∈ code, ∃ words, instruction.words = .ok words) →
      ∀ line ∈ listed origin loops code, ∃ words, line.instruction.words = .ok words :=
    fun hspelled line hmem => hspelled _ (mem_listed.1 hmem).1
  induction h with
  | done => simp
  | next hfirst _ ih hlater =>
    exact List.forall_mem_append.2 ⟨ih hnodup, hlater (hfirst.extends hnodup).nodup⟩
  | decided _ _ ih => exact ih hnodup
  | @only loops condition thenBranch g g₁ test lines _ htested _ ih =>
    simp only [List.forall_mem_append]
    exact ⟨⟨hall (spelled_test (g := g.labelled "if") hnodup htested), ih hnodup⟩,
      hall (by simp [Instruction.words])⟩
  | @either loops condition thenBranch elseBranch g g₁ g₂ test lines more
      _ htested hlisting _ ih ih' =>
    simp only [List.forall_mem_append]
    exact ⟨⟨⟨⟨hall (spelled_test (g := (g.labelled "if_else").labelled "if_end") hnodup htested),
      ih hnodup⟩, hall (by simp [Instruction.words])⟩, ih' (hlisting.extends hnodup).nodup⟩,
      hall (by simp [Instruction.words])⟩
  | @repeats loops node body startStem endStem condition g g₁ test lines hform htested _ ih =>
    -- An endless loop has no test, and every other test is one of a condition.
    have hspelled : ∀ instruction ∈ test, ∃ words, instruction.words = .ok words := by
      cases condition with
      | none => simp [roundTest_none htested]
      | some condition => exact spelled_test (g := g.entered startStem endStem) hnodup htested
    simp only [List.forall_mem_append]
    refine ⟨⟨hall ?_, ih hnodup⟩, hall (by simp [Instruction.words])⟩
    exact List.forall_mem_cons.2 ⟨⟨_, rfl⟩, hspelled⟩
  | @simple loops node g g' code hsimple hgenerated hadded =>
    refine hall fun instruction hmem => ?_
    by_cases hcontrol : ∃ kind, node = .control kind
    · obtain ⟨kind, rfl⟩ := hcontrol
      obtain ⟨target, -, rfl⟩ := control_code hgenerated hadded
      exact List.mem_singleton.1 hmem ▸ ⟨_, rfl⟩
    · exact ((simple_belongs hsimple (by simpa using hcontrol) hnodup hgenerated).of_append hadded
        instruction hmem).spelled

end Gen

/-- Lines that can be written one by one make a text together. -/
theorem assemble_of_spelled {code : List Instruction}
    (h : ∀ instruction ∈ code, ∃ words, instruction.words = .ok words) :
    ∃ text, assemble code = .ok text := by
  have hlines : ∃ texts, code.mapM Instruction.text = .ok texts := by
    -- Every line is written by itself.
    induction code with
    | nil => exact ⟨[], rfl⟩
    | cons instruction rest ih =>
      obtain ⟨words, hspelled⟩ := h instruction (List.mem_cons_self ..)
      obtain ⟨texts, hlater⟩ := ih fun i hi => h i (List.mem_cons_of_mem _ hi)
      refine ⟨line words :: texts, ?_⟩
      rw [List.mapM_cons, hlater, Instruction.text, hspelled]
      rfl
  obtain ⟨texts, hwritten⟩ := hlines
  exact ⟨String.join texts, by rw [assemble, hwritten]; rfl⟩

/-- A text forms a script when its tokens do. -/
theorem ofSource_eq_ok {source : String} {program : Program} :
    Program.ofSource source = .ok program ↔
      ∃ tokens, tokenize source = .ok tokens ∧ Program.ofTokens tokens = .ok program := by
  unfold Program.ofSource
  cases tokenize source with
  | error e => simp
  | ok tokens =>
    cases hparsed : Program.ofTokens tokens with
    | ok nodes => simp [hparsed, Except.mapError]
    | error e => simp [hparsed, Except.mapError]

/-- **A script that has been read is well-formed.** -/
theorem Program.wellFormed_of_read {source : String} {program : Program}
    (hread : Program.ofSource source = .ok program) : ∀ node ∈ program, node.WellFormed false := by
  obtain ⟨tokens, -, hparsed⟩ := ofSource_eq_ok.1 hread
  obtain ⟨declared, hforms⟩ := Grammar.ofTokens_sound hparsed
  exact hforms.wellFormed

/-- **Code generation refuses nothing that has been read** for its form, nor the simplification of
    what has been read, and it never loses track of registers.  And whatever code it gives, for any
    tree, can be written as assembly. -/
theorem code_refuses_nothing_read {source : String} {program : Program}
    (hread : Program.ofSource source = .ok program) :
    (∀ e, program.code = .error e → e.isRuledOut = false) ∧
    (∀ e, program.simplify.code = .error e → e.isRuledOut = false) ∧
    (∀ (tree : Program) (code : List Instruction), tree.code = .ok code →
      ∃ text, assemble code = .ok text) := by
  obtain ⟨tokens, -, hparsed⟩ := ofSource_eq_ok.1 hread
  obtain ⟨declared, hforms⟩ := Grammar.ofTokens_sound hparsed
  have hwellFormed : ∀ node ∈ program, node.WellFormed false := hforms.wellFormed
  have hdistinct : (Node.declaredInAll program).Nodup := by
    obtain ⟨hnames, hnodup⟩ := hforms.declares
    have hall := hnodup List.nodup_nil
    rw [hnames, List.append_nil, List.nodup_reverse] at hall
    exact hall
  refine ⟨fun e => Gen.code_not_ruledOut hwellFormed hdistinct, ?_, ?_⟩
  · -- A script is simplified as the block of its statements is.
    have hblock : (Node.block program).WellFormed false := .block hwellFormed
    have hsimplified : ∀ node ∈ program.simplify, node.WellFormed false := by
      intro node hmem
      rw [Program.simplify, Node.simplifyStatements_eq_filterMap] at hmem
      obtain ⟨statement, hmem, hleft⟩ := List.mem_filterMap.1 hmem
      exact (hwellFormed statement hmem).simplify node hleft
    have hfewer : (Node.declaredInAll program.simplify).Sublist (Node.declaredInAll program) := by
      have hnames := hblock.declared_simplify
      rw [Node.simplifyStatement?, Node.declared] at hnames
      unfold Program.simplify
      cases hleft : Node.simplifyStatements program with
      | nil => exact List.nil_sublist _
      | cons statement rest => simpa [hleft, Node.declaredInElse, Node.declared] using hnames
    exact fun e => Gen.code_not_ruledOut hsimplified (hdistinct.sublist hfewer)
  · intro tree code hgenerated
    obtain ⟨lines, final, ⟨scratch, hlisting⟩, rfl⟩ := Program.Listed.exists_of_code hgenerated
    refine assemble_of_spelled fun instruction hmem => ?_
    obtain ⟨line, hplaced, rfl⟩ := List.mem_map.1 hmem
    exact hlisting.spelled (List.nodup_singleton _) line hplaced

/-! ## A script that only code generation can refuse -/

/-- A device is compared as if it had a value. -/
def probeSource : String :=
  "var p = Device(Pump, d0); loop { if (max(1, 2) < p) break; else yield(); }"

def probeTokens : List Token :=
  [.keyword .var, .identifier "p", .symbol .assign, .keyword .device, .symbol .leftParen,
    .identifier "Pump", .symbol .comma, .identifier "d0", .symbol .rightParen, .symbol .semicolon,
    .keyword .loop, .symbol .leftBrace, .keyword .ifThen, .symbol .leftParen, .identifier "max",
    .symbol .leftParen, .number "1", .symbol .comma, .number "2", .symbol .rightParen,
    .symbol .less, .identifier "p", .symbol .rightParen, .keyword .leave, .symbol .semicolon,
    .keyword .otherwise, .identifier "yield", .symbol .leftParen, .symbol .rightParen,
    .symbol .semicolon, .symbol .rightBrace]

def probeScript : Program :=
  [.declare "p" (.device ⟨"Pump", .pin "d0"⟩),
    .loop (.block [.branch (.comparison .less (.call "max" [.number "1", .number "2"])
      (.read "p" none none)) (.control .leave) (some (.call "yield" []))])]

theorem ofSource_probeSource : Program.ofSource probeSource = .ok probeScript := by
  have hscanned : (tokenize probeSource).map Grammar.uncommented = .ok probeTokens := by
    cbv
  have hparsed : Program.ofTokens (probeTokens.map fun token => ⟨token, .start⟩) =
      .ok probeScript := rfl
  cases htokens : tokenize probeSource with
  | error e =>
    rw [htokens] at hscanned
    cases hscanned
  | ok tokens' =>
    rw [htokens] at hscanned
    have hwords : Grammar.uncommented tokens' = probeTokens := Except.ok.inj hscanned
    have hscript : Grammar.Script probeTokens probeScript := Grammar.ofTokens_sound hparsed
    rw [← hwords] at hscript
    exact ofSource_eq_ok.2 ⟨tokens', htokens, Grammar.ofTokens_complete hscript⟩

theorem code_refuses_nothing_read_probe :
    Program.ofSource probeSource = .ok probeScript ∧
    probeScript.code = .error (.missingProperty "p") ∧
    (CodeError.missingProperty "p").isRuledOut = false := by
  have hrefused : probeScript.code = .error (.missingProperty "p") := by
    cbv
  exact ⟨ofSource_probeSource, hrefused,
    (code_refuses_nothing_read ofSource_probeSource).1 _ hrefused⟩

end ChipScript
