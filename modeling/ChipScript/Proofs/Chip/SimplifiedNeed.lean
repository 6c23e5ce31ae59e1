import ChipScript.Proofs.Chip.FoldedNames
import ChipScript.Proofs.Chip.Need

/-!
# What simplified expressions need

A simplified expression needs no more registers than it did, in whatever context it stands:

* as a value or as an operand (`Node.noHeavier_simplify`);
* as a condition, although a connective may have come out of a value (`Node.need_tested_simplify`);
* in an assignment, where it does not go through a temporary unless it did before
  (`Generator.assignmentNeed_simplify`).

And what has code as a value is still a value, so that no declaration of a variable turns into one
of a device (`Gen.Compiles.isValue_simplify`).
-/

namespace ChipScript

/-! ## Simplified expressions need no more -/

namespace Node

variable {devices devices' : String → Bool}

/-- One node, where some names stand for devices, asks for no more registers than another, where
    more names do. -/
structure NoHeavier (devices' devices : String → Bool) (node' node : Node) : Prop where
  computed : node'.isComputed devices' = true → node.isComputed devices = true
  need : node'.need devices' ≤ node.need devices

/-- What is not computed is never heavier. -/
theorem NoHeavier.of_plain {node' : Node} (hplain : node'.isComputed devices' = false)
    (node : Node) : NoHeavier devices' devices node' node where
  computed := by
    intro hcomputed
    rw [hplain] at hcomputed
    cases hcomputed
  need := by
    rw [need_of_not_isComputed hplain]
    exact Nat.zero_le _

theorem isComputed_ofValue (value : Float) : (ofValue value).isComputed devices = false :=
  ofValue_cases value (fun _ => rfl) fun _ => rfl

theorem gatheringNeed_mono {nodes' nodes : List Node} {held' held : Nat} (hfewer : held' ≤ held)
    (heach : List.Forall₂ (NoHeavier devices' devices) nodes' nodes) :
    gatheringNeed devices' held' nodes' ≤ gatheringNeed devices held nodes := by
  induction heach generalizing held' held with
  | nil => exact Nat.le_refl 0
  | @cons node' node rest' rest hfirst _ ih =>
    simp only [gatheringNeed, needsOf] at ih ⊢
    have hlighter := hfirst.need
    -- An operand that is not computed any more frees a register for those behind it.
    cases hkind' : node'.isComputed devices' with
    | false =>
      cases hkind : node.isComputed devices with
      | false => exact ih hfewer
      | true =>
        simp only [gathering]
        exact le_max_of_le_right (ih (Nat.le_succ_of_le hfewer))
    | true =>
      rw [hfirst.computed hkind']
      simp only [gathering]
      exact max_le_max (by omega) (ih (Nat.succ_le_succ hfewer))

/-- Gathering operands needs at least what each of them needs. -/
theorem need_le_gatheringNeed {node : Node} {nodes : List Node} (hmem : node ∈ nodes) (held : Nat) :
    node.need devices ≤ gatheringNeed devices held nodes := by
  induction nodes generalizing held with
  | nil => cases hmem
  | cons first rest ih =>
    simp only [gatheringNeed, needsOf] at ih ⊢
    rcases List.mem_cons.1 hmem with rfl | hlater
    · cases hkind : node.isComputed devices with
      | false =>
        rw [need_of_not_isComputed hkind]
        exact Nat.zero_le _
      | true =>
        simp only [gathering]
        exact le_max_of_le_left (Nat.le_add_left _ held)
    · cases first.isComputed devices with
      | false => exact ih hlater held
      | true => exact le_max_of_le_right (ih hlater (held + 1))

theorem noHeavier_choice {condition thenValue elseValue : Node}
    (hfirst : NoHeavier devices' devices condition.simplify condition)
    (hsecond : NoHeavier devices' devices thenValue.simplify thenValue)
    (hthird : NoHeavier devices' devices elseValue.simplify elseValue) :
    NoHeavier devices' devices (simplify (.choice condition thenValue elseValue))
      (.choice condition thenValue elseValue) := by
  refine ⟨fun _ => rfl, ?_⟩
  rw [simplify, foldChoice, need]
  cases hknown : condition.value? with
  | some v =>
    -- The part that is chosen is the one that has code.
    rw [simplify_of_value? hknown, hknown]
    simp only
    split
    · exact hsecond.need
    · exact hthird.need
  | none =>
    -- The condition may have become known; then one of three operands is left.
    show _ ≤ gatheringNeed devices 0 [condition, thenValue, elseValue]
    split
    · split
      · exact hsecond.need.trans (need_le_gatheringNeed (by simp) 0)
      · exact hthird.need.trans (need_le_gatheringNeed (by simp) 0)
    · next hunknown =>
      rw [need, hunknown]
      exact gatheringNeed_mono (Nat.le_refl 0) (.cons hfirst (.cons hsecond (.cons hthird .nil)))

/-- A test needs no more than the value of its condition would. -/
theorem need_tested_le (condition : Node) :
    gatheringNeed devices 0 (Gen.tested condition) ≤ condition.need devices := by
  cases condition with
  | connective operator left right =>
    -- As a value the right side always has a temporary, in a test only behind a computed left side.
    rw [need]
    show gatheringNeed devices 0 [left, right] ≤ _
    simp only [gatheringNeed, needsOf]
    cases left.isComputed devices <;> cases right.isComputed devices <;> simp [gathering]
  | comparison operator left right => exact Nat.le_refl _
  | not operand => exact Nat.le_refl _
  | _ => exact (gatheringNeed_singleton _).le

section Simplified

variable (hfewer : ∀ name, devices' name = true → devices name = true)

include hfewer

theorem noHeavier_read (name : String) {index : Option Node} (property : Option String)
    (ih : ∀ node ∈ index.toList, NoHeavier devices' devices node.simplify node) :
    NoHeavier devices' devices (simplify (.read name index property))
      (.read name index property) := by
  rw [simplify]
  refine ⟨hfewer name, ?_⟩
  rw [need, need, indexNeeds_eq, indexNeeds_eq]
  by_cases hdevice : devices' name = true
  · rw [if_pos hdevice, if_pos (hfewer name hdevice)]
    apply gatheringNeed_mono (Nat.le_refl 0)
    cases index with
    | none => exact .nil
    | some index => exact .cons (ih index (by simp)) .nil
  · rw [if_neg hdevice]
    exact Nat.zero_le _

/-- **A simplified expression needs no more registers**, and what is computed was so before. -/
theorem noHeavier_simplify (node : Node) : NoHeavier devices' devices node.simplify node := by
  induction node using partsInduction with
  | step node ih =>
    cases node with
    | read name index property => exact noHeavier_read hfewer name property ih
    | call name arguments =>
      rw [simplify, simplifyArguments_eq_map]
      refine ⟨fun _ => rfl, ?_⟩
      rw [need, need]
      apply gatheringNeed_mono (Nat.le_refl 0)
      rw [List.forall₂_map_left_iff, List.forall₂_same]
      exact ih
    | not operand =>
      have hwithin := ih operand (by simp [parts])
      rw [simplify, foldNot]
      split
      · exact .of_plain (isComputed_ofValue _) _
      · exact ⟨fun _ => rfl, gatheringNeed_mono (Nat.le_refl 0) (.cons hwithin .nil)⟩
    | arithmetic operator left right =>
      have hfirst := ih left (by simp [parts])
      have hsecond := ih right (by simp [parts])
      rw [simplify, foldArithmetic]
      split
      · exact .of_plain (isComputed_ofValue _) _
      · refine ⟨fun _ => rfl, ?_⟩
        show _ ≤ gatheringNeed devices 0 [left, right]
        -- An identity leaves one of the operands, or zero.
        rcases simplifyIdentity_cases operator left.simplify right.simplify with
          hsame | hsame | hsame | ⟨hsame, -⟩
        all_goals rw [hsame]
        · exact hfirst.need.trans (need_le_gatheringNeed (by simp) 0)
        · exact hsecond.need.trans (need_le_gatheringNeed (by simp) 0)
        · exact Nat.zero_le _
        · exact gatheringNeed_mono (Nat.le_refl 0) (.cons hfirst (.cons hsecond .nil))
    | comparison operator left right =>
      have hfirst := ih left (by simp [parts])
      have hsecond := ih right (by simp [parts])
      rw [simplify, foldComparison]
      split
      · exact .of_plain (isComputed_ofValue _) _
      · refine ⟨fun _ => rfl, ?_⟩
        exact gatheringNeed_mono (Nat.le_refl 0) (.cons hfirst (.cons hsecond .nil))
    | connective operator left right =>
      have hfirst := ih left (by simp [parts])
      have hsecond := ih right (by simp [parts])
      rw [simplify, foldConnective]
      split
      · exact .of_plain (isComputed_ofValue _) _
      · refine ⟨fun _ => rfl, ?_⟩
        rw [need, need]
        exact max_le_max hfirst.need (Nat.add_le_add_left hsecond.need 1)
    | choice condition thenValue elseValue =>
      exact noHeavier_choice (ih condition (by simp [parts])) (ih thenValue (by simp [parts]))
        (ih elseValue (by simp [parts]))
    | number _ | constant _ | hash _ => exact .of_plain rfl _
    | _ => exact ⟨fun _ => rfl, Nat.le_refl 0⟩

/-- A simplified condition needs no more registers.  It may have stood inside an expression before,
    and then a test of it needs no more than its value. -/
theorem need_tested_simplify (condition : Node) :
    gatheringNeed devices' 0 (Gen.tested condition.simplify) ≤
      gatheringNeed devices 0 (Gen.tested condition) := by
  have hplain : ∀ value, gatheringNeed devices' 0 (Gen.tested (ofValue value)) = 0 := by
    intro value
    have halone : Gen.tested (ofValue value) = [ofValue value] :=
      ofValue_cases value (fun _ => rfl) fun _ => rfl
    rw [halone, gatheringNeed_singleton, need_of_not_isComputed (isComputed_ofValue value)]
  have hpart := noHeavier_simplify hfewer
  -- What is tested as a whole has the need of its value.
  have hwhole :
      gatheringNeed devices 0 [condition] = gatheringNeed devices 0 (Gen.tested condition) →
      gatheringNeed devices' 0 (Gen.tested condition.simplify) ≤
        gatheringNeed devices 0 (Gen.tested condition) := by
    intro halone
    rw [← halone, gatheringNeed_singleton]
    exact (need_tested_le condition.simplify).trans (hpart condition).need
  cases condition with
  | comparison operator left right =>
    rw [simplify, foldComparison]
    split
    · rw [hplain]
      exact Nat.zero_le _
    · exact gatheringNeed_mono (Nat.le_refl 0) (.cons (hpart left) (.cons (hpart right) .nil))
  | connective operator left right =>
    rw [simplify, foldConnective]
    split
    · rw [hplain]
      exact Nat.zero_le _
    · exact gatheringNeed_mono (Nat.le_refl 0) (.cons (hpart left) (.cons (hpart right) .nil))
  | not operand =>
    rw [simplify, foldNot]
    split
    · rw [hplain]
      exact Nat.zero_le _
    · exact gatheringNeed_mono (Nat.le_refl 0) (.cons (hpart operand) .nil)
  | _ => exact hwhole rfl

end Simplified

/-! ## Assignments of simplified values -/

/-- A simplified expression reads no more names. -/
theorem reads_simplify {name : String} (node : Node) (h : node.simplify.reads name = true) :
    node.reads name = true := by
  induction node using partsInduction with
  | step node ih =>
    cases hstatement : node.isStatement with
    | true => rwa [simplify_of_isStatement hstatement] at h
    | false =>
      rcases simplify_cases node with ⟨v, hleft⟩ | hleft | ⟨part, hmem, hleft⟩ | hleft
      all_goals rw [hleft] at h
      · exact absurd h (ofValue_cases v (by simp [reads]) (by simp [reads]))
      · simp [reads] at h
      · exact reads_of_part hstatement hmem (ih part hmem h)
      · -- What the whole reads is read at its root, which is the same, or in a simplified part.
        rcases reads_cases h with ⟨index, property, hsame⟩ | ⟨part, hmem, hread⟩
        · cases node with
          | read other index' property' =>
            cases hsame
            simp [reads]
          | _ => cases hsame
        · rw [parts_mapParts hstatement] at hmem
          obtain ⟨operand, hamong, rfl⟩ := List.mem_map.1 hmem
          exact reads_of_part hstatement hamong (ih operand hamong hread)

end Node

namespace Generator

variable {g g' : Generator} (hfewer : ∀ name, g'.devices name = true → g.devices name = true)

/-- A literal or a variable is not simplified. -/
theorem simplify_of_isPlain {node : Node} (h : g.isPlain node = true) : node.simplify = node := by
  cases node with
  | read name index property =>
    cases index with
    | none => rfl
    | some index => simp [isPlain] at h
  | number _ | constant _ | hash _ => rfl
  | _ => simp [isPlain] at h

theorem isComputed_of_isPlain {node : Node} (h : g.isPlain node = true) :
    node.isComputed g.devices = false := by
  cases node with
  | read name index property =>
    cases index with
    | none =>
      cases property with
      | none =>
        have hvariable : (g.device? name).isNone = true := h
        show (g.device? name).isSome = false
        rw [Option.isNone_iff_eq_none.1 hvariable]
        rfl
      | some property => simp [isPlain] at h
    | some index => simp [isPlain] at h
  | number _ | constant _ | hash _ => rfl
  | _ => simp [isPlain] at h

include hfewer

theorem isPlain_mono {node : Node} (h : g.isPlain node = true) : g'.isPlain node = true := by
  cases node with
  | read name index property =>
    cases index with
    | none =>
      cases property with
      | none =>
        have hnone : (g.device? name).isNone = true := h
        show (g'.device? name).isNone = true
        -- A name without a device in the one generator has none in the other, which has fewer.
        have hknown := hfewer name
        simp only [devices] at hknown
        cases hfound : g'.device? name with
        | none => rfl
        | some config =>
          rw [hfound] at hknown
          have hcontradiction := hknown rfl
          rw [Option.isNone_iff_eq_none.1 hnone] at hcontradiction
          cases hcontradiction
      | some property => simp [isPlain] at h
    | some index => simp [isPlain] at h
  | number _ | constant _ | hash _ => rfl
  | _ => simp [isPlain] at h

/-- What takes one instruction does so where fewer names stand for devices. -/
theorem isSingleInstruction_mono {node : Node} (h : g.isSingleInstruction node = true) :
    g'.isSingleInstruction node = true := by
  have hplain : ∀ {part : Node}, g.isPlain part = true → g'.isPlain part = true :=
    isPlain_mono hfewer
  -- Each of these is a single instruction where its operands are plain.
  cases node with
  | arithmetic _ left right | comparison _ left right =>
    simp only [isSingleInstruction, Bool.and_eq_true] at h ⊢
    exact h.imp hplain hplain
  | not operand => exact hplain h
  | choice condition thenValue elseValue =>
    simp only [isSingleInstruction, Bool.and_eq_true] at h ⊢
    exact h.imp (And.imp hplain hplain) hplain
  | call name arguments =>
    simp only [isSingleInstruction, List.all_eq_true] at h ⊢
    exact fun argument hmem => hplain (h argument hmem)
  | read name index property =>
    cases index with
    | none => rfl
    | some index => exact hplain h
  | _ => cases h

omit hfewer in
/-- What takes one instruction is folded to a value that is not computed, or it stays as it is. -/
theorem simplify_of_isSingleInstruction {node : Node} (h : g.isSingleInstruction node = true) :
    node.simplify.isComputed g.devices = false ∨ node.simplify = node := by
  have hfolded : ∀ value, (Node.ofValue value).isComputed g.devices = false :=
    Node.isComputed_ofValue
  -- The operands of a single instruction are literals and variables, which stay as they are: only
  -- the rule at the root can apply.
  cases node with
  | arithmetic operator left right =>
    simp only [isSingleInstruction, Bool.and_eq_true] at h
    rw [Node.simplify, simplify_of_isPlain h.1, simplify_of_isPlain h.2, Node.foldArithmetic]
    split
    · exact .inl (hfolded _)
    · rcases Node.simplifyIdentity_cases operator left right with hsame | hsame | hsame | ⟨hsame, -⟩
      all_goals rw [hsame]
      · exact .inl (isComputed_of_isPlain h.1)
      · exact .inl (isComputed_of_isPlain h.2)
      · exact .inl rfl
      · exact .inr rfl
  | comparison operator left right =>
    simp only [isSingleInstruction, Bool.and_eq_true] at h
    rw [Node.simplify, simplify_of_isPlain h.1, simplify_of_isPlain h.2, Node.foldComparison]
    split
    · exact .inl (hfolded _)
    · exact .inr rfl
  | not operand =>
    rw [Node.simplify, simplify_of_isPlain h, Node.foldNot]
    split
    · exact .inl (hfolded _)
    · exact .inr rfl
  | choice condition thenValue elseValue =>
    simp only [isSingleInstruction, Bool.and_eq_true] at h
    rw [Node.simplify, simplify_of_isPlain h.1.1, simplify_of_isPlain h.1.2,
      simplify_of_isPlain h.2, Node.foldChoice]
    split
    · split
      · exact .inl (isComputed_of_isPlain h.1.2)
      · exact .inl (isComputed_of_isPlain h.2)
    · exact .inr rfl
  | call name arguments =>
    simp only [isSingleInstruction, List.all_eq_true] at h
    right
    rw [Node.simplify, Node.simplifyArguments_eq_map]
    have hsame : arguments.map Node.simplify = arguments.map id :=
      List.map_congr_left fun argument hmem => simplify_of_isPlain (h argument hmem)
    rw [hsame, List.map_id]
  | read name index property =>
    cases index with
    | none => exact .inr rfl
    | some index =>
      right
      rw [Node.simplify, Node.simplifyIndex, simplify_of_isPlain h]
  | _ => cases h

/-- **An assignment of a simplified value needs no more registers.** -/
theorem assignmentNeed_simplify (name : String) (value : Node) :
    Gen.assignmentNeed g' name value.simplify ≤ Gen.assignmentNeed g name value := by
  have hlighter := Node.noHeavier_simplify hfewer value
  unfold Gen.assignmentNeed
  split
  · next haside =>
    -- A value that goes aside reads the variable and takes several instructions, before as after.
    simp only [Gen.goesAside, Bool.and_eq_true, Bool.not_eq_true'] at haside
    obtain ⟨hcomputed, hread, hseveral⟩ := haside
    -- If it took one instruction before, it was folded away or it is still the same instruction.
    have hbefore : g.isSingleInstruction value = false := by
      by_contra hsingle
      rw [Bool.not_eq_false] at hsingle
      have hstill := isSingleInstruction_mono hfewer hsingle
      rcases simplify_of_isSingleInstruction hstill with hplain | hsame
      · rw [hplain] at hcomputed
        cases hcomputed
      · rw [hsame, hstill] at hseveral
        cases hseveral
    have hwent : (value.isComputed g.devices && Gen.goesAside g name value) = true := by
      rw [hlighter.computed hcomputed, Gen.goesAside, Node.reads_simplify value hread, hbefore]
      rfl
    rw [if_pos hwent]
    exact Nat.add_le_add_left hlighter.need 1
  · split
    · exact hlighter.need.trans (Nat.le_add_left _ 1)
    · exact hlighter.need

end Generator

/-! ## Values stay values -/

/-- A node with a value: neither a statement nor a device. -/
def Node.isValue : Node → Bool
  | .device _ => false
  | node => !node.isStatement

namespace Gen

/-- There is an operand or code for a node, in some state. -/
inductive Compiles (node : Node) : Prop where
  | operand {g : Generator} {operand : Operand} :
      g.operand? node = .ok (some operand) → Compiles node
  | code {g g' : Generator} {dst : Register} : expression node dst g = .ok () g' → Compiles node

theorem operandsIn_compiles {nodes : List Node} {scope : Scope} {found : List Operand × Scope}
    {g g' : Generator} (h : operandsIn scope nodes g = .ok found g') :
    ∀ node ∈ nodes, Compiles node := by
  induction nodes generalizing scope found g g' with
  | nil => simp
  | cons node rest ih =>
    obtain ⟨operand, scope₁, g₁, others, hfirst, hlater, -⟩ := operandsIn_cons_cases h
    apply List.forall_mem_cons.2 ⟨?_, ih hlater⟩
    -- An operand is found without code, computed to the destination, or to a temporary.
    rcases operandIn_cases hfirst with ⟨hanswer, -, -⟩ | ⟨-, -, hcode, -, -⟩ |
      ⟨-, -, r, -, hcode, -, -⟩
    · exact .operand hanswer
    · exact .code hcode
    · exact .code hcode

theorem withOperands_compiles {dst : Register} {nodes : List Node}
    {use : List Operand → List Instruction} {g g' : Generator}
    (h : withOperands dst nodes use g = .ok () g') : ∀ node ∈ nodes, Compiles node := by
  unfold withOperands at h
  rw [bind_eq_ok] at h
  obtain ⟨found, g₁, hgathered, -⟩ := h
  exact operandsIn_compiles hgathered

theorem computeInto_compiles {register : Register} {node : Node} {g g' : Generator}
    (h : computeInto register node g = .ok () g') : Compiles node := by
  rcases computeInto_cases h with ⟨operand, hanswer, -⟩ | ⟨-, hcode⟩
  · exact .operand hanswer
  · exact .code hcode

theorem Compiles.arithmetic {operator : Arithmetic} {left right : Node}
    (h : Compiles (.arithmetic operator left right)) : ∀ part ∈ [left, right], Compiles part := by
  cases h with
  | operand hanswer => cases hanswer
  | code hcode =>
    rw [expression_arithmetic] at hcode
    exact withOperands_compiles hcode

theorem Compiles.choice {condition thenValue elseValue : Node}
    (h : Compiles (.choice condition thenValue elseValue)) (hunknown : condition.value? = none) :
    ∀ part ∈ [condition, thenValue, elseValue], Compiles part := by
  cases h with
  | operand hanswer => cases hanswer
  | code hcode =>
    rw [expression_choice _ _ _ hunknown] at hcode
    exact withOperands_compiles hcode

/-- Of a choice that is decided, only the part that is chosen has code. -/
theorem Compiles.chosen {condition thenValue elseValue : Node} {v : Float}
    (h : Compiles (.choice condition thenValue elseValue)) (hknown : condition.value? = some v) :
    Compiles (if v != 0.0 then thenValue else elseValue) := by
  cases h with
  | operand hanswer => cases hanswer
  | code hcode =>
    rw [expression_choice_known _ _ _ hknown] at hcode
    split at hcode
    · next hchosen =>
      rw [if_pos hchosen]
      exact .code hcode
    · next hchosen =>
      rw [if_neg hchosen]
      exact .code hcode

/-- **What has code as a value is still a value after simplification.** -/
theorem Compiles.isValue_simplify {node : Node} (h : Compiles node) :
    node.simplify.isValue = true := by
  have hfolded : ∀ value, (Node.ofValue value).isValue = true :=
    fun value => Node.ofValue_cases value (fun _ => rfl) fun _ => rfl
  induction node using Node.partsInduction with
  | step node ih =>
    cases node with
    | number _ | constant _ | hash _ | read _ _ _ | call _ _ => rfl
    | not operand =>
      rw [Node.simplify, Node.foldNot]
      split
      · exact hfolded _
      · rfl
    | comparison operator left right =>
      rw [Node.simplify, Node.foldComparison]
      split
      · exact hfolded _
      · rfl
    | connective operator left right =>
      rw [Node.simplify, Node.foldConnective]
      split
      · exact hfolded _
      · rfl
    | arithmetic operator left right =>
      have heach : ∀ part ∈ [left, right], part.simplify.isValue = true :=
        fun part hmem => ih part hmem (h.arithmetic part hmem)
      rw [Node.simplify, Node.foldArithmetic]
      split
      · exact hfolded _
      · -- What an identity leaves is one of the operands, or a number.
        rcases Node.simplifyIdentity_cases operator left.simplify right.simplify with
          hsame | hsame | hsame | ⟨hsame, -⟩
        all_goals rw [hsame]
        · exact heach left (by simp)
        · exact heach right (by simp)
        · rfl
        · rfl
    | choice condition thenValue elseValue =>
      rw [Node.simplify, Node.foldChoice]
      cases hknown : condition.value? with
      | some v =>
        have hchosen := h.chosen hknown
        rw [Node.simplify_of_value? hknown, hknown]
        simp only
        split at hchosen
        · next htaken =>
          rw [if_pos htaken]
          exact ih thenValue (by simp [Node.parts]) hchosen
        · next htaken =>
          rw [if_neg htaken]
          exact ih elseValue (by simp [Node.parts]) hchosen
      | none =>
        have heach : ∀ part ∈ [condition, thenValue, elseValue], part.simplify.isValue = true :=
          fun part hmem => ih part hmem (h.choice hknown part hmem)
        split
        · split
          · exact heach thenValue (by simp)
          · exact heach elseValue (by simp)
        · rfl
    | _ =>
      cases h with
      | operand hanswer => cases hanswer
      | code hcode =>
        rw [expression] at hcode
        · cases hcode
        all_goals simp

end Gen

end ChipScript
