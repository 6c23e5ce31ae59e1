import ChipScript.Proofs.Chip.Extension
import ChipScript.Proofs.Chip.SimplifiedNeed

/-!
# Simplification and register pressure

A script that has code has, after simplification, code as well or fails for another reason than a
lack of registers.

The two scripts are generated side by side.  `Lighter g' g` says that the generator of the
simplified script has at least as much room, and that it knows no name that the other does not know
for a thing of the same kind.  `Carries` says that a step keeps to this while the other generator
goes from one state to another; it composes along sequences, and the other script may do more before
and behind, which is how statements are dropped.

Main result: `simplify_never_exhausts`.
-/

namespace ChipScript

/-! ## Two generators side by side -/

namespace Generator

variable {g g' g₁ g₁' h : Generator}

/-- The part of the state that room and names depend on. -/
def store (g : Generator) :
    RegisterFile × List (String × Register) × List (String × DeviceConfig) :=
  (g.registers, g.variableTable, g.deviceTable)

/-- The generator of a simplified script, beside that of the script: it has at least as much room,
    and the names that it knows are known to the other for things of the same kind. -/
structure Lighter (g' g : Generator) : Prop where
  nodup : g'.registers.reserved.Nodup
  room : g.room ≤ g'.room
  devices : ∀ name, g'.devices name = true → g.devices name = true
  named : ∀ name r, g'.binding? name = some (.register r) →
    ∃ r, g.binding? name = some (.register r)

theorem nodup_of_store (hsame : g₁.store = g.store) (hnodup : g.registers.reserved.Nodup) :
    g₁.registers.reserved.Nodup := by
  have hregisters : g₁.registers = g.registers := congrArg Prod.fst hsame
  rw [hregisters]
  exact hnodup

theorem devices_iff {name : String} :
    g.devices name = true ↔ ∃ config, g.binding? name = some (.device config) := by
  simp only [devices, binding?_eq_device, Option.isSome_iff_exists]

namespace Lighter

/-- Code, labels and loops do not matter. -/
theorem congr (hlighter : Lighter g' g) (hsame' : g₁'.store = g'.store)
    (hsame : g₁.store = g.store) : Lighter g₁' g₁ := by
  obtain ⟨code, registers, labels, loops, table, devices⟩ := g
  obtain ⟨code', registers', labels', loops', table', devices'⟩ := g'
  obtain ⟨code₁, registers₁, labels₁, loops₁, table₁, devices₁⟩ := g₁
  obtain ⟨code₁', registers₁', labels₁', loops₁', table₁', devices₁'⟩ := g₁'
  cases hsame
  cases hsame'
  exact ⟨hlighter.nodup, hlighter.room, hlighter.devices, hlighter.named⟩

/-- What goes on in the other script only makes it heavier. -/
theorem later {names : List String} (hlighter : Lighter g' g) (hgrown : Extends names g h) :
    Lighter g' h where
  nodup := hlighter.nodup
  room := by
    obtain ⟨entries, -, hreserved⟩ := hgrown.new
    have hless : h.room ≤ g.room := by
      apply room_le
      rw [hreserved]
      exact List.subset_append_right _ _
    exact hless.trans hlighter.room
  devices := by
    intro name hdevice
    obtain ⟨config, hknown⟩ := devices_iff.1 (hlighter.devices name hdevice)
    exact devices_iff.2 ⟨config, hgrown.known name _ hknown⟩
  named := by
    intro name r hknown
    obtain ⟨r', hknown'⟩ := hlighter.named name r hknown
    exact ⟨r', hgrown.known name _ hknown'⟩

/-- A new name may be given to a thing of one kind on both sides. -/
theorem bind {name : String} {binding binding' : Binding} (hlighter : Lighter g' g)
    (hnodup : g₁'.registers.reserved.Nodup) (hroom : g₁.room ≤ g₁'.room)
    (hnew : ∀ known, g₁.binding? known = if known = name then some binding else g.binding? known)
    (hnew' : ∀ known,
      g₁'.binding? known = if known = name then some binding' else g'.binding? known)
    (hdevice : ∀ config', binding' = .device config' → ∃ config, binding = .device config)
    (hregister : ∀ r', binding' = .register r' → ∃ r, binding = .register r) :
    Lighter g₁' g₁ where
  nodup := hnodup
  room := hroom
  devices := by
    intro known hstands
    simp only [devices_iff, hnew, hnew'] at hstands ⊢
    -- The name that is bound anew, and every other.
    by_cases hsame : known = name
    · simp only [if_pos hsame, Option.some.injEq] at hstands ⊢
      obtain ⟨config', hfound⟩ := hstands
      exact hdevice config' hfound
    · simp only [if_neg hsame] at hstands ⊢
      exact devices_iff.1 (hlighter.devices known (devices_iff.2 hstands))
  named := by
    intro known r hbound
    simp only [hnew, hnew'] at hbound ⊢
    by_cases hsame : known = name
    · simp only [if_pos hsame, Option.some.injEq] at hbound ⊢
      exact hregister r hbound
    · simp only [if_neg hsame] at hbound ⊢
      exact hlighter.named known r hbound

end Lighter
end Generator

namespace Gen

open Generator

/-- A step of the simplified script leads to a state that is lighter than `h`, or it stops for
    another reason than a lack of registers. -/
def Bears (h : Generator) : EStateM.Result CodeError Generator Unit → Prop
  | .ok _ g' => g'.Lighter h
  | .error e _ => e.isExhaustion = false

theorem Bears.imp {h k : Generator} {result : EStateM.Result CodeError Generator Unit}
    (hborne : Bears h result) (hfurther : ∀ g' : Generator, g'.Lighter h → g'.Lighter k) :
    Bears k result := by
  cases result with
  | ok a g' => exact hfurther g' hborne
  | error e g' => exact hborne

/-- A step of the simplified script goes along with the other script on its way from `g` to `h`. -/
def Carries (step : Gen Unit) (g h : Generator) : Prop :=
  ∀ g', g'.Lighter g → Bears h (step g')

namespace Carries

variable {step next : Gen Unit} {g g₁ h h₁ k : Generator} {names : List String}

theorem seq (hfirst : Carries step g h) (hsecond : Carries next h k) :
    Carries (do step; next) g k := by
  intro g' hlighter
  have hborne := hfirst g' hlighter
  cases hresult : step g' with
  | ok a g₂' =>
    rw [hresult] at hborne
    rw [bind_apply hresult]
    exact hsecond g₂' hborne
  | error e g₂' =>
    rw [hresult] at hborne
    rw [bind_error hresult]
    exact hborne

theorem congr (h' : Carries step g h) (hbefore : g₁.store = g.store) (hafter : h₁.store = h.store) :
    Carries step g₁ h₁ := by
  intro g' hlighter
  have hborne := h' g' (hlighter.congr rfl hbefore.symm)
  exact hborne.imp fun k hlighter => hlighter.congr rfl hafter

/-- The other script may have gone further before. -/
theorem earlier (h' : Carries step g₁ h) (hgrown : Extends names g g₁) : Carries step g h :=
  fun g' hlighter => h' g' (hlighter.later hgrown)

/-- The other script may go further behind. -/
theorem later (h' : Carries step g h) (hgrown : Extends names h k) : Carries step g k :=
  fun g' hlighter => (h' g' hlighter).imp fun _ hlighter => hlighter.later hgrown

/-- **A step carries on if it needs no more than the other had.** -/
theorem of_needs {need : Nat} (need' : Generator → Nat) (henough : need ≤ g.room)
    (hneeds : ∀ g' : Generator, g'.Lighter g → Needs (need' g') g'.room (step g') ∧ need' g' ≤ need)
    (hafter : ∀ g' k : Generator, g'.Lighter g → step g' = .ok () k → k.Lighter h) :
    Carries step g h := by
  intro g' hlighter
  obtain ⟨hneeds, hfewer⟩ := hneeds g' hlighter
  cases hresult : step g' with
  | ok a k => exact hafter g' k hlighter hresult
  | error e k =>
    rw [hresult] at hneeds
    show e.isExhaustion = false
    by_contra hexhausted
    -- It would have run out with the room that was enough for more.
    have hshort : g'.room < need' g' := hneeds (by simpa using hexhausted)
    have hroom := hlighter.room
    omega

end Carries

section Elementary

variable {g h : Generator}

theorem pure_carries : Carries (pure ()) g g :=
  fun _ hlighter => hlighter

theorem emit_carries (instruction : Instruction) : Carries (emit instruction) g g := by
  intro g' hlighter
  rw [emit_apply]
  exact hlighter.congr rfl rfl

theorem newLabel_carries {stem : String} {f : String → Gen Unit}
    (hlater : ∀ label, Carries (f label) g h) : Carries (newLabel stem >>= f) g h := by
  intro g' hlighter
  rw [bind_apply (newLabel_apply stem)]
  exact hlater _ _ (hlighter.congr rfl rfl)

end Elementary

/-! ## Values, conditions, declarations and assignments -/

section Simple

variable {g h : Generator} (hnodup : g.registers.reserved.Nodup)

include hnodup

/-- Gathering lighter operands leads to a lighter state. -/
theorem withOperands_carries {nodes nodes' : List Node} {dst dst' : Register}
    {use use' : List Operand → List Instruction}
    (hfewer : ∀ g' : Generator, g'.Lighter g →
      Node.gatheringNeed g'.devices 0 nodes' ≤ Node.gatheringNeed g.devices 0 nodes)
    (hsuccess : withOperands dst nodes use g = .ok () h) :
    Carries (withOperands dst' nodes' use') g h := by
  have hexact : ∀ nodes : List Node, ∀ node ∈ nodes, NeedsExactly node :=
    fun _ node _ => expression_needs node
  -- The other side got through, and so had the room for its own operands.
  have henough := withOperands_needs (hexact nodes) dst use hnodup
  rw [hsuccess] at henough
  obtain ⟨operands, -, -, code, -, -, rfl⟩ := withOperands_cases hnodup hsuccess
  refine .of_needs (fun g' => Node.gatheringNeed g'.devices 0 nodes') henough ?_ ?_
  · intro g' hlighter
    exact ⟨withOperands_needs (hexact nodes') dst' use' hlighter.nodup, hfewer g' hlighter⟩
  · intro g' k hlighter hresult
    obtain ⟨operands', -, -, code', -, -, rfl⟩ := withOperands_cases hlighter.nodup hresult
    exact hlighter.congr rfl rfl

theorem jumpUnless_carries {condition : Node} {dst dst' : Register} {label label' : String}
    (hsuccess : jumpUnless condition dst label g = .ok () h) :
    Carries (jumpUnless condition.simplify dst' label') g h := by
  rw [jumpUnless_eq] at hsuccess ⊢
  refine withOperands_carries hnodup ?_ hsuccess
  exact fun g' hlighter => Node.need_tested_simplify hlighter.devices condition

theorem expression_carries {node : Node} {dst dst' : Register}
    (hsuccess : expression node dst g = .ok () h) :
    Carries (expression node.simplify dst') g h := by
  have henough := expression_needs node dst g hnodup
  rw [hsuccess] at henough
  obtain ⟨code, -, rfl⟩ := expression_eq_ok hnodup hsuccess
  refine .of_needs (fun g' => node.simplify.need g'.devices) henough ?_ ?_
  · intro g' hlighter
    exact ⟨expression_needs _ dst' g' hlighter.nodup,
      (Node.noHeavier_simplify hlighter.devices node).need⟩
  · intro g' k hlighter hresult
    obtain ⟨code', -, rfl⟩ := expression_eq_ok hlighter.nodup hresult
    exact hlighter.congr rfl rfl

theorem declaration_device_carries {name : String} {config : DeviceConfig}
    (hsuccess : declaration name (.device config) g = .ok () h) :
    Carries (declaration name (.device config)) g h := by
  -- Both sides only enter the name in their tables.
  have hdeclared : ∀ {g k : Generator}, g.registers.reserved.Nodup →
      declaration name (.device config) g = .ok () k →
      g.binding? name = none ∧ k = g.declareDevice name config := by
    intro g k hnodup hsuccess
    obtain ⟨hnew, ⟨config', hsame, rfl⟩ | ⟨r, code, hother, -⟩⟩ := declaration_cases hnodup hsuccess
    · cases hsame
      exact ⟨hnew, rfl⟩
    · exact absurd rfl (hother config)
  obtain ⟨hnew, rfl⟩ := hdeclared hnodup hsuccess
  refine .of_needs (fun _ => 0) (Nat.zero_le _) ?_ ?_
  · exact fun g' hlighter => ⟨declaration_device_needs name config, Nat.le_refl 0⟩
  · intro g' k hlighter hresult
    obtain ⟨hnew', rfl⟩ := hdeclared hlighter.nodup hresult
    have hbindings := fun other => binding?_declareDevice g name other config
    have hbindings' := fun other => binding?_declareDevice g' name other config
    refine hlighter.bind ?_ ?_ hbindings hbindings' (fun _ _ => ⟨config, rfl⟩) ?_
    · exact hlighter.nodup
    · exact hlighter.room
    · exact fun _ hregister => by cases hregister

theorem declaration_carries {name : String} {value : Node}
    (hsuccess : declaration name value g = .ok () h) :
    Carries (declaration name value.simplify) g h := by
  obtain ⟨hnew, ⟨config, rfl, -⟩ | ⟨r, code, hother, hfree, -, hcomputed, hsame⟩⟩ :=
    declaration_cases hnodup hsuccess
  · exact declaration_device_carries hnodup hsuccess
  have hroom := declaration_room hother hnodup hsuccess
  -- What is left of the value is no device, or the name would stand for one.
  have hother' : ∀ config, value.simplify ≠ .device config := by
    intro config hdevice
    have hisValue := (computeInto_compiles hcomputed).isValue_simplify
    rw [hdevice] at hisValue
    cases hisValue
  have henough := declaration_needs name hother hnodup
  rw [hsuccess] at henough
  refine .of_needs (fun g' => 1 + value.simplify.need g'.devices) henough ?_ ?_
  · intro g' hlighter
    exact ⟨declaration_needs name hother' hlighter.nodup,
      Nat.add_le_add_left (Node.noHeavier_simplify hlighter.devices value).need 1⟩
  · intro g' k hlighter hresult
    have hroom' := declaration_room hother' hlighter.nodup hresult
    have hnodup' := (declaration_extends hlighter.nodup hresult).nodup
    obtain ⟨hnew', ⟨config, hdevice, -⟩ | ⟨r', code', -, hfree', -, -, hsame'⟩⟩ :=
      declaration_cases hlighter.nodup hresult
    · exact absurd hdevice (hother' config)
    have hbindings : ∀ known, h.binding? known =
        if known = name then some (.register r) else g.binding? known := by
      rw [hsame]
      exact fun known => binding?_declareVariable (g := (g.hold [r]).append code) hnew known r
    have hbindings' : ∀ known, k.binding? known =
        if known = name then some (.register r') else g'.binding? known := by
      rw [hsame']
      exact fun known => binding?_declareVariable (g := (g'.hold [r']).append code') hnew' known r'
    -- Both sides hold one more register than before, the one of the variable.
    have hfits : h.room ≤ k.room := by
      have hbefore := hlighter.room
      omega
    apply hlighter.bind hnodup' hfits hbindings hbindings'
    · exact fun _ hdevice => by cases hdevice
    · exact fun _ _ => ⟨r, rfl⟩

omit hnodup in
theorem variableStore_appends {name : String} {index : Option Node} {property : Option String}
    {value : Node} {g k : Generator} (hnodup : g.registers.reserved.Nodup)
    (hsuccess : variableStore name index property value g = .ok () k) :
    ∃ code, k = g.append code := by
  obtain ⟨r, -, -, -, hcases⟩ := variableStore_cases hnodup hsuccess
  rcases hcases with ⟨operand, -, rfl⟩ | ⟨t, code, -, -, -, -, rfl⟩ | ⟨-, -, hcomputed⟩
  · exact ⟨_, rfl⟩
  · exact ⟨_, rfl⟩
  · obtain ⟨code, -, rfl⟩ := expression_eq_ok hnodup hcomputed
    exact ⟨code, rfl⟩

theorem variableStore_carries {name : String} {index index' : Option Node}
    {property : Option String} {value : Node}
    (hsuccess : variableStore name index property value g = .ok () h) :
    Carries (variableStore name index' property value.simplify) g h := by
  have henough := variableStore_needs name index property value hnodup
  rw [hsuccess] at henough
  obtain ⟨code, rfl⟩ := variableStore_appends hnodup hsuccess
  refine .of_needs (fun g' => assignmentNeed g' name value.simplify) henough ?_ ?_
  · intro g' hlighter
    exact ⟨variableStore_needs name _ property _ hlighter.nodup,
      assignmentNeed_simplify hlighter.devices name value⟩
  · intro g' k hlighter hresult
    obtain ⟨code', rfl⟩ := variableStore_appends hlighter.nodup hresult
    exact hlighter.congr rfl rfl

theorem deviceStore_carries {config config' : DeviceConfig} {name : String} {index : Option Node}
    {property : Option String} {value : Node} {dst dst' : Register}
    (hsuccess : deviceStore config name index property value dst g = .ok () h) :
    Carries (deviceStore config' name (index.map Node.simplify) property value.simplify dst')
      g h := by
  have henough := deviceStore_needs config name index property value dst hnodup
  rw [hsuccess] at henough
  obtain ⟨logicType, -, hgathered⟩ := deviceStore_cases hsuccess
  obtain ⟨operands, -, -, code, -, -, rfl⟩ := withOperands_cases hnodup hgathered
  -- Enough room for the operands is enough for those that simplification leaves.
  refine .of_needs (fun g' => Node.gatheringNeed g'.devices 0
    (value.simplify :: (index.map Node.simplify).toList)) henough ?_ ?_
  · intro g' hlighter
    refine ⟨deviceStore_needs config' name _ property _ dst' hlighter.nodup, ?_⟩
    have heach := Node.noHeavier_simplify hlighter.devices
    apply Node.gatheringNeed_mono (Nat.le_refl 0)
    cases index with
    | none => exact .cons (heach value) .nil
    | some index => exact .cons (heach value) (.cons (heach index) .nil)
  · intro g' k hlighter hresult
    obtain ⟨logicType', -, hgathered'⟩ := deviceStore_cases hresult
    obtain ⟨operands', -, -, code', -, -, rfl⟩ := withOperands_cases hlighter.nodup hgathered'
    exact hlighter.congr rfl rfl

/-- An assignment goes on to a device where it did, unless the name is not known any more. -/
theorem assignment_carries {name : String} {index : Option Node} {property : Option String}
    {value : Node} {dst dst' : Register}
    (hsuccess : assignment name index property value dst g = .ok () h) :
    Carries (assignment name (index.map Node.simplify) property value.simplify dst') g h := by
  intro g' hlighter
  unfold assignment
  rw [bind_apply get_apply]
  rcases assignment_cases hsuccess with ⟨config, hknown, hstored⟩ | ⟨hunknown, hstored⟩
  · cases hknown' : g'.device? name with
    | some config' => exact deviceStore_carries hnodup hstored g' hlighter
    | none =>
      -- The name stands for nothing: a variable would be one in the other script as well.
      have hlost : g'.variableTable.lookup name = none := by
        by_contra hfound
        obtain ⟨r, hfound⟩ := Option.ne_none_iff_exists'.1 hfound
        obtain ⟨r', hother⟩ := hlighter.named name r (binding?_eq_register.2 ⟨hknown', hfound⟩)
        rw [(binding?_eq_register.1 hother).1] at hknown
        cases hknown
      have hfailed : g'.registerOf name (index.map Node.simplify) property =
          .error (.undeclared name) := by
        unfold registerOf
        rw [hlost]
      simp only [variableStore]
      rw [bind_error (query_error hfailed)]
      rfl
  · -- What stands for no device in the other script stands for none here.
    have hunknown' : g'.device? name = none := by
      by_contra hfound
      have hdevice := hlighter.devices name (Option.isSome_iff_ne_none.2 hfound)
      rw [Generator.devices, hunknown] at hdevice
      cases hdevice
    rw [hunknown']
    exact variableStore_carries hnodup hstored g' hlighter

end Simple

/-! ## Statements -/

section Statements

variable {g h : Generator}

theorem loopControl_carries {kind : LoopControl} (hsuccess : loopControl kind g = .ok () h) :
    Carries (loopControl kind) g h := by
  obtain ⟨target, -, rfl⟩ := loopControl_cases hsuccess
  intro g' hlighter
  unfold loopControl
  rw [bind_apply get_apply]
  cases LoopStack.target? g'.loops kind with
  | none => rfl
  | some target' =>
    simp only [emit_apply]
    exact hlighter.congr rfl rfl

theorem loopWith_carries {startStem endStem : String} {test : String → Gen Unit} {body : Gen Unit}
    {h₁ : Generator} (htests : ∀ label, Carries (test label) g h₁) (hrounds : Carries body h₁ h) :
    Carries (loopWith startStem endStem test body) g h := by
  have hloops : ∀ {g : Generator} (f : LoopStack → LoopStack),
      Carries (modify fun g => { g with loops := f g.loops }) g g :=
    fun f g' hlighter => hlighter.congr rfl rfl
  unfold loopWith
  refine newLabel_carries fun startLabel => newLabel_carries fun endLabel => ?_
  refine (hloops _).seq ((emit_carries _).seq ((htests endLabel).seq (hrounds.seq ?_)))
  exact (emit_carries _).seq ((emit_carries _).seq (hloops _))

/-- What is left of a choice whose condition is still not known. -/
theorem branch_carries {condition thenBranch : Node} {elseBranch : Option Node} {dst : Register}
    {h₁ h₂ : Generator} (hunknown : condition.truth? = none)
    (htests : ∀ label, Carries (jumpUnless condition dst label) g h₁)
    (hfirst : Carries (statement thenBranch dst) h₁ h₂)
    (hsecond : Carries (otherwise elseBranch dst) h₂ h) :
    Carries (statement (.branch condition thenBranch elseBranch) dst) g h := by
  rw [statement, hunknown]
  cases elseBranch with
  | some other =>
    simp only [Option.isSome_some, if_true]
    refine newLabel_carries fun elseLabel => newLabel_carries fun endLabel => ?_
    refine (htests elseLabel).seq (hfirst.seq ((emit_carries _).seq ((emit_carries _).seq ?_)))
    exact hsecond.seq (emit_carries _)
  | none =>
    simp only [Option.isSome_none, Bool.false_eq_true, if_false]
    refine newLabel_carries fun endLabel => (htests endLabel).seq ?_
    -- Behind the only branch the other script goes on to the end of its second one.
    have hended : Carries (do statement thenBranch dst; emit (.label endLabel)) h₁ h₂ :=
      hfirst.seq (emit_carries _)
    intro g' hlighter
    exact (hended g' hlighter).imp fun k hlighter => hsecond k hlighter

/-- A choice whose condition is not known tests it and has the code of its branches. -/
theorem branch_run {condition thenBranch : Node} {elseBranch : Option Node} {dst : Register}
    (hunknown : condition.truth? = none)
    (hsuccess : statement (.branch condition thenBranch elseBranch) dst g = .ok () h) :
    ∃ label g₀ g₁ g₂ g₃ g₄, g₀.store = g.store ∧ jumpUnless condition dst label g₀ = .ok () g₁ ∧
      statement thenBranch dst g₁ = .ok () g₂ ∧ g₃.store = g₂.store ∧
      otherwise elseBranch dst g₃ = .ok () g₄ ∧ h.store = g₄.store := by
  cases elseBranch with
  | some other =>
    obtain ⟨g₁, g₂, g₃, htested, hfirst, hsecond, rfl⟩ := branchElse_cases hunknown rfl hsuccess
    refine ⟨_, _, g₁, g₂, _, g₃, ?_, htested, hfirst, ?_, hsecond, rfl⟩
    · rfl
    · rfl
  | none =>
    obtain ⟨g₁, g₂, htested, hfirst, rfl⟩ := branchOnly_cases hunknown hsuccess
    refine ⟨_, _, g₁, g₂, g₂, g₂, ?_, htested, hfirst, rfl, rfl, rfl⟩
    rfl

/-- The code of a body that has no effect is that of nothing. -/
theorem statement_bodyOf (left : Option Node) (dst : Register) :
    statement (Node.bodyOf left) dst = otherwise left dst := by
  cases left with
  | none =>
    show statement (.block []) dst = _
    rw [statement, statements, otherwise]
  | some node =>
    rw [otherwise]
    rfl

theorem statement_of_isValue {node : Node} (hvalue : node.isValue = true) (dst : Register) :
    statement node dst = expression node dst := by
  cases node with
  | block _ | declare _ _ | assign _ _ _ _ | loop _ | whileLoop _ _ | branch _ _ _ | control _ =>
    cases hvalue
  | _ => rw [statement] <;> simp

/-- What is left of a statement carries on, for one node. -/
abbrev StaysLight (node : Node) : Prop :=
  ∀ (dst dst' : Register) {g h : Generator}, g.registers.reserved.Nodup →
    statement node dst g = .ok () h → Carries (otherwise node.simplifyStatement? dst') g h

theorem otherwise_carries {node : Option Node} (heach : ∀ n ∈ node.toList, StaysLight n)
    (dst dst' : Register) (hnodup : g.registers.reserved.Nodup)
    (hsuccess : otherwise node dst g = .ok () h) :
    Carries (otherwise (Node.simplifyElse? node) dst') g h := by
  cases node with
  | none =>
    cases hsuccess
    exact pure_carries
  | some node =>
    rw [otherwise] at hsuccess
    exact heach node (by simp) dst dst' hnodup hsuccess

theorem statements_carries {nodes : List Node} (heach : ∀ node ∈ nodes, StaysLight node)
    (dst dst' : Register) (hnodup : g.registers.reserved.Nodup)
    (hsuccess : statements nodes dst g = .ok () h) :
    Carries (statements (Node.simplifyStatements nodes) dst') g h := by
  induction nodes generalizing g with
  | nil =>
    rw [statements] at hsuccess
    cases hsuccess
    rw [Node.simplifyStatements, statements]
    exact pure_carries
  | cons node rest ih =>
    rw [statements, bind_eq_ok] at hsuccess
    obtain ⟨⟨⟩, g₁, hnow, hafter⟩ := hsuccess
    have hgrown := statement_extends node dst g g₁ hnodup hnow
    have hfirst := heach node (List.mem_cons_self ..) dst dst' hnodup hnow
    have hsecond := ih (fun n hmem => heach n (List.mem_cons_of_mem _ hmem)) hgrown.nodup hafter
    -- A statement with nothing left has the code of a missing branch, which is none.
    have hleft : statements (Node.simplifyStatements (node :: rest)) dst' =
        (do otherwise node.simplifyStatement? dst'
            statements (Node.simplifyStatements rest) dst') := by
      rw [Node.simplifyStatements]
      cases node.simplifyStatement? with
      | none =>
        rw [otherwise]
        rfl
      | some left => rw [statements, otherwise]
    rw [hleft]
    exact hfirst.seq hsecond

theorem branch_staysLight {condition thenBranch : Node} {elseBranch : Option Node}
    (hfirst : StaysLight thenBranch) (hsecond : ∀ n ∈ elseBranch.toList, StaysLight n) :
    StaysLight (.branch condition thenBranch elseBranch) := by
  intro dst dst' g h hnodup hsuccess
  rw [Node.simplifyStatement?]
  cases hknown : condition.truth? with
  | some b =>
    rw [Node.truth?_simplify hknown]
    rw [statement, hknown] at hsuccess
    cases b with
    | true => exact hfirst dst dst' hnodup hsuccess
    | false => exact otherwise_carries hsecond dst dst' hnodup hsuccess
  | none =>
    -- The other script has the test and both branches, and what is left is some of them.
    obtain ⟨label, g₀, g₁, g₂, g₃, g₄, hbegun, htested, hnow, hbetween, hother, hended⟩ :=
      branch_run hknown hsuccess
    have hnodup₀ := nodup_of_store hbegun hnodup
    have htesting := jumpUnless_extends hnodup₀ htested
    have hgrown := statement_extends thenBranch dst g₁ g₂ htesting.nodup hnow
    have hnodup₃ := nodup_of_store hbetween hgrown.nodup
    have hending := otherwise_extends dst (fun n _ => statement_extends n dst) g₃ g₄ hnodup₃ hother
    have hleft := hfirst dst dst' htesting.nodup hnow
    have hleft' := otherwise_carries hsecond dst dst' hnodup₃ hother
    split
    · -- Only the first branch is left.
      have hbehind : Carries (otherwise thenBranch.simplifyStatement? dst') g₀ g₃ :=
        (hleft.earlier htesting).congr rfl hbetween
      exact (hbehind.later hending).congr hbegun.symm hended
    · -- Only the second branch is left, behind the test and the first one of the other script.
      have hbefore : Carries (otherwise (Node.simplifyElse? elseBranch) dst') g₂ g₄ :=
        hleft'.congr hbetween.symm rfl
      exact ((hbefore.earlier hgrown).earlier htesting).congr hbegun.symm hended
    · next hunknown =>
      have htests : ∀ label', Carries (jumpUnless condition.simplify dst' label') g g₁ :=
        fun label' => (jumpUnless_carries hnodup₀ htested).congr hbegun.symm rfl
      rw [← statement_bodyOf] at hleft
      rw [otherwise]
      exact branch_carries hunknown htests hleft (hleft'.congr hbetween.symm hended)

/-- A loop tests its condition and has the code of its body. -/
theorem loopWith_run {startStem endStem : String} {test : String → Gen Unit} {body : Gen Unit}
    (hsuccess : loopWith startStem endStem test body g = .ok () h) :
    ∃ label g₀ g₁ g₂, g₀.store = g.store ∧ test label g₀ = .ok () g₁ ∧ body g₁ = .ok () g₂ ∧
      h.store = g₂.store := by
  obtain ⟨g₁, g₂, htested, hround, rfl⟩ := loopWith_cases hsuccess
  refine ⟨_, _, g₁, g₂, ?_, htested, hround, rfl⟩
  rfl

theorem loop_carries {body : Node} (hwithin : StaysLight body) {dst : Register} (dst' : Register)
    {startStem endStem : String} {test : String → Gen Unit}
    (htests : ∀ label, Extending [] (test label))
    (hnodup : g.registers.reserved.Nodup)
    (hsuccess : loopWith startStem endStem test (statement body dst) g = .ok () h) :
    Carries (statement (.loop (Node.bodyOf body.simplifyStatement?)) dst') g h := by
  obtain ⟨label, g₀, g₁, g₂, hbegun, htested, hround, hended⟩ := loopWith_run hsuccess
  have hnodup₀ := nodup_of_store hbegun hnodup
  have htesting := htests label g₀ g₁ hnodup₀ htested
  have hleft := hwithin dst dst' htesting.nodup hround
  rw [statement]
  refine loopWith_carries (fun _ => pure_carries) ?_
  rw [statement_bodyOf]
  exact (hleft.earlier htesting).congr hbegun.symm hended

theorem whileLoop_staysLight {condition body : Node} (hwithin : StaysLight body) :
    StaysLight (.whileLoop condition body) := by
  intro dst dst' g h hnodup hsuccess
  have hgrown := statement_extends (.whileLoop condition body) dst g h hnodup hsuccess
  rw [Node.simplifyStatement?]
  cases hknown : condition.truth? with
  | some b =>
    rw [Node.truth?_simplify hknown]
    rw [statement, hknown] at hsuccess
    cases b with
    | true => exact loop_carries hwithin dst' (fun _ => pure_extends) hnodup hsuccess
    | false =>
      cases hsuccess
      exact pure_carries
  | none =>
    rw [statement, hknown] at hsuccess
    split
    · -- The loop has become endless, and its test is gone.
      exact loop_carries hwithin dst' (fun _ _ _ => jumpUnless_extends) hnodup hsuccess
    · exact pure_carries.later hgrown
    · next hunknown =>
      obtain ⟨label, g₀, g₁, g₂, hbegun, htested, hround, hended⟩ := loopWith_run hsuccess
      have hnodup₀ := nodup_of_store hbegun hnodup
      have htesting := jumpUnless_extends hnodup₀ htested
      have htests : ∀ label', Carries (jumpUnless condition.simplify dst' label') g g₁ :=
        fun label' => (jumpUnless_carries hnodup₀ htested).congr hbegun.symm rfl
      have hleft := hwithin dst dst' htesting.nodup hround
      rw [← statement_bodyOf] at hleft
      rw [otherwise, statement, hunknown]
      exact loopWith_carries htests (hleft.congr rfl hended)

/-- **What is left of a statement carries on.**  By induction on the tree. -/
theorem statement_staysLight (node : Node) : StaysLight node := by
  induction node using Node.partsInduction with
  | step node ih =>
    cases node with
    | block body =>
      intro dst dst' g h hnodup hsuccess
      rw [statement] at hsuccess
      have hleft : Carries (statements (Node.simplifyStatements body) dst') g h :=
        statements_carries ih dst dst' hnodup hsuccess
      rw [Node.simplifyStatement?]
      split
      · next hempty =>
        rw [hempty, statements] at hleft
        exact hleft
      · rw [otherwise, statement]
        exact hleft
    | branch condition thenBranch elseBranch =>
      exact branch_staysLight (ih thenBranch (by simp [Node.parts]))
        fun n hmem => ih n (by simp only [Node.parts, List.mem_cons, hmem, or_true])
    | whileLoop condition body => exact whileLoop_staysLight (ih body (by simp [Node.parts]))
    | loop body =>
      intro dst dst' g h hnodup hsuccess
      rw [statement] at hsuccess
      exact loop_carries (ih body (by simp [Node.parts])) dst'
        (fun _ => pure_extends) hnodup hsuccess
    | control kind =>
      intro dst dst' g h hnodup hsuccess
      rw [statement] at hsuccess
      show Carries (otherwise (some (.control kind)) dst') g h
      rw [otherwise, statement]
      exact loopControl_carries hsuccess
    | declare name value =>
      intro dst dst' g h hnodup hsuccess
      rw [statement] at hsuccess
      rw [Node.simplifyStatement?, otherwise, statement]
      exact declaration_carries hnodup hsuccess
    | assign name index property value =>
      intro dst dst' g h hnodup hsuccess
      rw [statement] at hsuccess
      rw [Node.simplifyStatement?, otherwise, statement, Node.simplifyIndex_eq_map]
      exact assignment_carries hnodup hsuccess
    | call _ _ | device _ | number _ | constant _ | hash _ | read _ _ _ | not _ | arithmetic _ _ _
      | comparison _ _ _ | connective _ _ _ | choice _ _ _ =>
      -- What is left of a value is one, and no statement.
      intro dst dst' g h hnodup hsuccess
      rw [statement] at hsuccess
      · rw [Node.simplifyStatement?, otherwise,
          statement_of_isValue (Compiles.code hsuccess).isValue_simplify]
        · exact expression_carries hnodup hsuccess
        all_goals simp
      all_goals simp

end Statements

/-! ## Scripts -/

/-- What comes behind the statements of a script: all registers are freed. -/
def ending (scratch : Register) : Gen Unit := do
  release scratch
  dropVariables
  let count := (← get).registers.inUse
  if count ≠ 0 then throw (.registerLeak count)

/-- Nothing behind the statements of a script asks for a register. -/
theorem ending_needs (scratch : Register) {g : Generator} {room : Nat} :
    Needs 0 room (ending scratch g) := by
  refine (release_needs scratch).after_zero fun _ _ _ => ?_
  have hdropped : ∀ g : Generator, Needs 0 room (dropVariables g) := by
    intro g
    unfold dropVariables
    rw [bind_apply get_apply, bind_apply (modify_apply _)]
    exact releaseAll_needs _
  refine (hdropped _).after_zero fun _ g' _ => ?_
  rw [bind_apply get_apply]
  split
  · exact throw_needs rfl
  · exact pure_needs _

/-- A new generator computes into the lowest register. -/
theorem program_empty (nodes : Program) :
    program nodes .empty =
      (do statements nodes .first; ending .first) (Generator.empty.hold [.first]) := by
  have hreserved : reserve .empty = .ok .first (Generator.empty.hold [.first]) := rfl
  unfold program
  rw [bind_apply hreserved]
  rfl

theorem program_carries {program : Program} {g : Generator}
    (hsuccess : statements program .first (Generator.empty.hold [.first]) = .ok () g) :
    Bears g (statements program.simplify .first (Generator.empty.hold [.first])) := by
  have hnodup : (Generator.empty.hold [.first]).registers.reserved.Nodup := List.nodup_singleton _
  have hcarried := statements_carries (fun node _ => statement_staysLight node) .first .first hnodup
    hsuccess
  -- Both scripts begin with the same generator.
  apply hcarried
  exact ⟨hnodup, Nat.le_refl _, fun _ hdevice => hdevice, fun _ r hknown => ⟨r, hknown⟩⟩

end Gen

/-- **Simplification never raises register pressure.**  If a script has code, be it read from a text
    or given as a tree, then the simplified script does not fail for lack of a register. -/
theorem simplify_never_exhausts {program : Program} {code : List Instruction}
    (h : program.code = .ok code) (first last : Register) :
    program.simplify.code ≠ .error (.registersExhausted first last) := by
  unfold Program.code EStateM.run at h ⊢
  rw [Gen.program_empty] at h ⊢
  split at h
  · next hsuccess =>
    obtain ⟨⟨⟩, g, hgenerated, -⟩ := bind_eq_ok.1 hsuccess
    have hborne := Gen.program_carries hgenerated
    intro hfailed
    split at hfailed
    · cases hfailed
    · next hfailure =>
      cases hfailed
      cases hleft : Gen.statements program.simplify .first (Generator.empty.hold [.first]) with
      | ok a g' =>
        -- The statements are all there, and only what comes behind them could have failed.
        rw [bind_apply hleft] at hfailure
        have hneeds : Gen.Needs 0 0 (Gen.ending .first g') := Gen.ending_needs .first
        rw [hfailure] at hneeds
        exact Nat.not_lt_zero 0 (hneeds rfl)
      | error e g' =>
        rw [bind_error hleft] at hfailure
        cases hfailure
        rw [hleft] at hborne
        cases hborne
  · cases h

/-- Thirteen variables, beside which just two registers are left for the temporaries of an
    assignment. -/
def fullScript : Program :=
  ["a", "b", "c", "d", "e", "f", "g", "h", "i", "j", "k", "l", "m"].map
      (fun name => .declare name (.number "2")) ++
    [.branch
      (.comparison .less
        (.arithmetic .mul (.arithmetic .add (.read "a" none none) (.number "3")) (.number "1"))
        (.arithmetic .sub (.read "b" none none) (.read "c" none none)))
      (.assign "a" none none
        (.choice (.comparison .equal (.number "1") (.number "1")) (.read "b" none none)
          (.arithmetic .div (.read "a" none none) (.read "c" none none)))) none]

theorem code_fullScript : ∃ code, fullScript.code = .ok code := by
  have hhasCode : fullScript.code.toBool = true := by cbv
  cases hknown : fullScript.code with
  | ok code => exact ⟨code, rfl⟩
  | error e =>
    rw [hknown] at hhasCode
    cases hhasCode

theorem simplify_never_exhausts_fullScript :
    ∃ code, fullScript.code = .ok code ∧
      ∀ first last, fullScript.simplify.code ≠ .error (.registersExhausted first last) := by
  obtain ⟨code, hknown⟩ := code_fullScript
  exact ⟨code, hknown, simplify_never_exhausts hknown⟩

end ChipScript
