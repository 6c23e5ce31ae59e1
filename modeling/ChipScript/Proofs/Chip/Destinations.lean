import ChipScript.Proofs.Chip.Inversion
import ChipScript.Proofs.Node.Reads
import ChipScript.Proofs.Semantics.Setting

/-!
# Registers that values are computed into

Two things have to be kept apart while operands are gathered.  An operand that has been computed
waits in a register until the instruction that uses it, and the operands behind it must not write
that register (`Held`).  And the destination itself may be the register of a variable that the
expression reads: this is safe if all is read by a single instruction, which writes last
(`Generator.Safe`).

Nothing is said here of what registers hold.
-/

namespace ChipScript

namespace Generator

variable {g : Generator} {name : String} {r r' : Register} {node : Node}

/-! ## Registers of variables -/

theorem mem_variableTable (hknown : g.binding? name = some (.register r)) :
    (name, r) ∈ g.variableTable :=
  mem_of_lookup (binding?_eq_register.1 hknown).2

theorem mem_owned (hknown : g.binding? name = some (.register r)) : r ∈ g.owned :=
  List.mem_map.2 ⟨(name, r), mem_variableTable hknown, rfl⟩

/-- No register is in use twice, and those of the variables are in use.  The code of an expression
    asks no more of a state. -/
structure Accounted (g : Generator) : Prop where
  nodup : g.registers.reserved.Nodup
  mem_reserved : ∀ {name : String} {r : Register}, g.binding? name = some (.register r) →
    r ∈ g.registers.reserved

/-- Variables have registers of their own among those in use, of which none is listed twice. -/
structure Separate (g : Generator) : Prop where
  nodup : g.registers.reserved.Nodup
  reserved : ∀ {name : String} {r : Register}, g.variableTable.lookup name = some r →
    r ∈ g.registers.reserved
  injective : ∀ {name other : String} {r : Register}, g.variableTable.lookup name = some r →
    g.variableTable.lookup other = some r → name = other

theorem Separate.accounted (h : g.Separate) : g.Accounted :=
  ⟨h.nodup, fun hknown => h.reserved (binding?_eq_register.1 hknown).2⟩

/-- No other name has the register of a variable. -/
theorem Separate.eq_of_binding? (h : g.Separate) (hlookup : g.variableTable.lookup name = some r)
    {other : String} (hknown : g.binding? other = some (.register r)) : other = name :=
  h.injective (binding?_eq_register.1 hknown).2 hlookup

namespace Disciplined

theorem mem_reserved (h : g.Disciplined) (hknown : g.binding? name = some (.register r)) :
    r ∈ g.registers.reserved :=
  h.owned.subset (mem_owned hknown)

/-- The states that generation goes through keep variables apart. -/
theorem separate (h : g.Disciplined) : g.Separate := by
  have hdistinct : (g.variableTable.map (·.2)).Nodup := h.nodup.sublist h.owned
  refine ⟨h.nodup, fun hlookup => ?_, fun hlookup hlookup' => ?_⟩
  · exact h.owned.subset (List.mem_map.2 ⟨_, mem_of_lookup hlookup, rfl⟩)
  · exact congrArg Prod.fst
      (List.inj_on_of_nodup_map hdistinct (mem_of_lookup hlookup) (mem_of_lookup hlookup') rfl)

theorem accounted (h : g.Disciplined) : g.Accounted :=
  ⟨h.nodup, h.mem_reserved⟩

/-- Different variables have different registers. -/
theorem binding?_inj (h : g.Disciplined) {other : String}
    (hknown : g.binding? name = some (.register r))
    (hknown' : g.binding? other = some (.register r)) : name = other :=
  h.separate.eq_of_binding? (binding?_eq_register.1 hknown').2 hknown

end Disciplined

/-! ## Destinations -/

/-- None of the names that are read has a given register. -/
def Spares (g : Generator) (r : Register) (node : Node) : Prop :=
  ∀ name, node.reads name = true → g.binding? name ≠ some (.register r)

/-- The operands of one instruction may be computed into a register: none of them reads it, or no
    code is needed for any. -/
def SafeOperands (g : Generator) (r : Register) (nodes : List Node) : Prop :=
  (∀ node ∈ nodes, g.isPlain node = true) ∨ ∀ node ∈ nodes, g.Spares r node

/-- An expression may be computed into a register. -/
def Safe (g : Generator) (r : Register) (node : Node) : Prop :=
  g.isPlain node = true ∨ g.isSingleInstruction node = true ∨ g.Spares r node

/-- A name that is read has another register. -/
theorem Spares.ne (h : g.Spares r node) (hread : node.reads name = true)
    (hknown : g.binding? name = some (.register r')) : r' ≠ r := by
  rintro rfl
  exact h name hread hknown

theorem Spares.part {part : Node} (h : g.Spares r node) (hvalue : node.isStatement = false)
    (hmem : part ∈ node.parts) : g.Spares r part :=
  fun name hread => h name (Node.reads_of_part hvalue hmem hread)

namespace Safe

/-- A connective takes several instructions, so that its destination is none that it reads. -/
theorem connective {operator : Connective} {left right : Node}
    (h : g.Safe r (.connective operator left right)) :
    g.Spares r (.connective operator left right) := by
  rcases h with hplain | hsingle | hspares
  · simp [isPlain] at hplain
  · simp [isSingleInstruction] at hsingle
  · exact hspares

/-- A value may be computed into the register of the one variable that has it, if it does not read
    the variable or is a single instruction. -/
theorem of_apart {value : Node}
    (honly : ∀ other, g.binding? other = some (.register r) → other = name)
    (hapart : value.reads name = false ∨ g.isSingleInstruction value = true) : g.Safe r value := by
  rcases hapart with hunread | hsingle
  · right
    right
    intro other hread hknown
    rw [honly other hknown, hunread] at hread
    cases hread
  · exact .inr (.inl hsingle)

/-- The operands of an expression are safe if the expression is. -/
theorem operands (h : g.Safe r node) (hvalue : node.isStatement = false)
    (hsimple : g.isPlain node = true ∨ g.isSingleInstruction node = true →
      ∀ part ∈ node.parts, g.isPlain part = true) : g.SafeOperands r node.parts := by
  rcases h with hplain | hsingle | hspares
  · exact .inl (hsimple (.inl hplain))
  · exact .inl (hsimple (.inr hsingle))
  · exact .inr fun part hmem => hspares.part hvalue hmem

/-- Each of two values that are chosen between is safe if the choice is. -/
theorem choice_part {condition thenValue elseValue chosen : Node}
    (h : g.Safe r (.choice condition thenValue elseValue))
    (heither : chosen = thenValue ∨ chosen = elseValue) : g.Safe r chosen := by
  rcases h with hplain | hsingle | hspares
  · simp [isPlain] at hplain
  · left
    simp only [isSingleInstruction, Bool.and_eq_true] at hsingle
    rcases heither with rfl | rfl
    · exact hsingle.1.2
    · exact hsingle.2
  · refine .inr (.inr (hspares.part rfl ?_))
    rcases heither with rfl | rfl <;> simp [Node.parts]

end Safe

namespace Accounted

theorem append (h : g.Accounted) (code : List Instruction) : (g.append code).Accounted :=
  ⟨h.nodup, h.mem_reserved⟩

theorem hold (h : g.Accounted) (hfree : r ∉ g.registers.reserved) : (g.hold [r]).Accounted :=
  ⟨by simpa using ⟨hfree, h.nodup⟩, fun hknown => List.mem_cons_of_mem _ (h.mem_reserved hknown)⟩

/-- A register that was free belongs to no variable. -/
theorem spares (h : g.Accounted) (hfree : r ∉ g.registers.reserved) (node : Node) :
    g.Spares r node :=
  fun _ _ hknown => hfree (h.mem_reserved hknown)

end Accounted

/-! ## Operands that need no code -/

/-- A read that needs no code is that of a variable. -/
theorem operand?_read {index : Option Node} {property : Option String} {operand : Operand}
    (h : g.operand? (.read name index property) = .ok (some operand)) :
    ∃ r, g.binding? name = some (.register r) ∧ index = none ∧ property = none ∧
      operand = .register r := by
  rw [operand?] at h
  split at h
  · cases h
  · next hnoDevice =>
    cases hfound : g.registerOf name index property with
    | error e => simp [hfound, Except.map] at h
    | ok r =>
      simp only [hfound, Except.map, Except.ok.injEq, Option.some.injEq] at h
      obtain ⟨hknown, hindex, hproperty⟩ := registerOf_eq_ok hfound
      exact ⟨r, binding?_eq_register.2 ⟨hnoDevice, hknown⟩, hindex, hproperty, h.symm⟩

/-- A register that is read without code is that of a variable. -/
theorem operand?_register (h : g.operand? node = .ok (some (.register r))) :
    ∃ name, node.reads name = true ∧ g.binding? name = some (.register r) := by
  cases node with
  | read name index property =>
    obtain ⟨r', hknown, -, -, hsame⟩ := operand?_read h
    cases hsame
    exact ⟨name, by simp [Node.reads], hknown⟩
  | _ => cases h

theorem operand?_of_isPlain (hplain : g.isPlain node = true) : g.operand? node ≠ .ok none := by
  cases node with
  | read name index property =>
    intro h
    cases index <;> cases property <;> simp only [isPlain, Bool.false_eq_true] at hplain
    rw [operand?] at h
    rw [Option.isNone_iff_eq_none] at hplain
    simp only [hplain] at h
    cases hfound : g.registerOf name none none <;> simp [hfound, Except.map] at h
  | number text | constant name | hash text => simp [operand?]
  | _ => simp [isPlain] at hplain

end Generator

/-! ## Operands that wait -/

section Gathering

variable {g g' : Generator} {scope scope' : Gen.Scope} {node : Node} {operand : Operand}
  {dst r r' : Register}

/-- An operand that waits for its instruction is in no register that a later operand is computed
    into. -/
def Held (g : Generator) (scope : Gen.Scope) (operand : Operand) : Prop :=
  ∀ r, operand = .register r →
    r ∈ g.registers.reserved ∧ (r = scope.dst → scope.taken = true)

/-- What gathering an operand leaves of the state of generation. -/
structure Gathered (g g' : Generator) (scope scope' : Gen.Scope) : Prop where
  accounted : g'.Accounted
  reserved : ∀ r ∈ g.registers.reserved, r ∈ g'.registers.reserved
  bindings : ∀ name, g'.binding? name = g.binding? name
  dst : scope'.dst = scope.dst
  taken : scope.taken = true → scope'.taken = true

theorem Gathered.spares (h : Gathered g g' scope scope') (hspares : g.Spares scope.dst node) :
    g'.Spares scope'.dst node := by
  intro name hread
  rw [h.bindings, h.dst]
  exact hspares name hread

theorem operandIn_gathered (haccounted : g.Accounted)
    (h : Gen.operandIn scope node (Gen.expression node) g = .ok (operand, scope') g') :
    Gathered g g' scope scope' := by
  rcases Gen.operandIn_cases h with ⟨-, rfl, rfl⟩ | ⟨-, -, hgenerated, -, rfl⟩ |
    ⟨-, -, r, hfree, hgenerated, -, rfl⟩
  · exact ⟨haccounted, fun _ hmem => hmem, fun _ => rfl, rfl, id⟩
  · obtain ⟨code, -, rfl⟩ := Gen.expression_eq_ok haccounted.nodup hgenerated
    exact ⟨haccounted.append code, fun _ hmem => hmem, fun _ => rfl, rfl, fun _ => rfl⟩
  · have hheld := haccounted.hold hfree
    obtain ⟨code, -, rfl⟩ := Gen.expression_eq_ok hheld.nodup hgenerated
    exact ⟨hheld.append code, fun _ hmem => List.mem_cons_of_mem _ hmem, fun _ => rfl, rfl, id⟩

/-- An operand that stands alone is gathered like the first operand of an instruction. -/
theorem materialize_gathers {generate : Register → Gen Unit}
    (h : Gen.materialize node generate dst g = .ok operand g') :
    ∃ scope, Gen.operandIn (.opened dst) node generate g = .ok (operand, scope) g' := by
  unfold Gen.operandIn
  rcases Gen.materialize_cases h with ⟨hknown, rfl⟩ | ⟨habsent, hgenerated, rfl⟩
  · have hasked : Gen.query (·.operand? node) g' = .ok (some operand) g' :=
      Gen.query_eq_ok.2 ⟨hknown, rfl⟩
    exact ⟨.opened dst, by rw [bind_apply hasked]; rfl⟩
  · have hasked : Gen.query (·.operand? node) g = .ok none g := Gen.query_eq_ok.2 ⟨habsent, rfl⟩
    refine ⟨⟨dst, true, []⟩, ?_⟩
    rw [bind_apply hasked]
    exact bind_apply hgenerated

/-- The right side of a connective is in no register that the left side is in. -/
theorem materialize_register {generate : Register → Gen Unit}
    (h : Gen.materialize node generate r g = .ok operand g') (hspares : g.Spares dst node)
    (hother : r ≠ dst) (hoperand : operand = .register r') : r' ≠ dst := by
  rcases Gen.materialize_cases h with ⟨hknown, -⟩ | ⟨-, -, hcomputed⟩
  · rw [hoperand] at hknown
    obtain ⟨name, hread, hbinding⟩ := Generator.operand?_register hknown
    exact hspares.ne hread hbinding
  · rw [hoperand] at hcomputed
    cases hcomputed
    exact hother

end Gathering
end ChipScript
