import ChipScript.Chip.Statement
import ChipScript.Proofs.Node.Parts

/-!
# What expressions read and call

The names that an expression reads are those that its parts read, and its own if it is a read
(`Node.reads_of_part`, `Node.reads_cases`).  A command has no value, so that none may be called
where a value is expected (`Node.hasCommand`).
-/

namespace ChipScript

namespace Node

mutual

/-- Whether a command is called inside an expression, where a value is expected. -/
def hasCommand : Node → Bool
  | call name arguments => Vocabulary.isCommand name || anyHasCommand arguments
  | read _ index _ => indexHasCommand index
  | not operand => operand.hasCommand
  | arithmetic _ left right => left.hasCommand || right.hasCommand
  | comparison _ left right => left.hasCommand || right.hasCommand
  | connective _ left right => left.hasCommand || right.hasCommand
  | choice condition thenValue elseValue =>
    condition.hasCommand || thenValue.hasCommand || elseValue.hasCommand
  | _ => false

/-- Whether a command is called inside one of several expressions. -/
def anyHasCommand : List Node → Bool
  | [] => false
  | node :: rest => node.hasCommand || anyHasCommand rest

/-- Whether a command is called inside an index. -/
def indexHasCommand : Option Node → Bool
  | none => false
  | some index => index.hasCommand

end

theorem anyHasCommand_eq_false {nodes : List Node} :
    anyHasCommand nodes = false ↔ ∀ node ∈ nodes, node.hasCommand = false := by
  induction nodes with
  | nil => simp [anyHasCommand]
  | cons node rest ih => simp [anyHasCommand, ih]

theorem indexHasCommand_eq_false {index : Option Node} :
    indexHasCommand index = false ↔ ∀ node ∈ index.toList, node.hasCommand = false := by
  cases index <;> simp [indexHasCommand]

/-- In a value that calls no command, no part calls one. -/
theorem hasCommand_part {node part : Node} (h : node.hasCommand = false)
    (hvalue : node.isStatement = false) (hmem : part ∈ node.parts) : part.hasCommand = false := by
  -- Statements are excluded, and literals have no parts.
  cases node with
  | read name index property => exact indexHasCommand_eq_false.1 h part hmem
  | call name arguments =>
    rw [hasCommand, Bool.or_eq_false_iff] at h
    exact anyHasCommand_eq_false.1 h.2 part hmem
  | not operand =>
    obtain rfl := List.mem_singleton.1 hmem
    exact h
  | arithmetic operator left right | comparison operator left right
  | connective operator left right =>
    rw [hasCommand, Bool.or_eq_false_iff] at h
    rcases List.mem_pair.1 hmem with rfl | rfl
    · exact h.1
    · exact h.2
  | choice condition thenValue elseValue =>
    simp only [hasCommand, Bool.or_eq_false_iff] at h
    simp only [parts, List.mem_cons, List.not_mem_nil, or_false] at hmem
    rcases hmem with rfl | rfl | rfl
    · exact h.1.1
    · exact h.1.2
    · exact h.2
  | number _ | constant _ | hash _ | device _ => cases hmem
  | block _ | declare _ _ | assign _ _ _ _ | loop _ | whileLoop _ _ | branch _ _ _ | control _ =>
    cases hvalue

theorem anyReads_eq_true {name : String} {nodes : List Node} :
    anyReads name nodes = true ↔ ∃ node ∈ nodes, node.reads name = true := by
  induction nodes with
  | nil => simp [anyReads]
  | cons node rest ih => simp [anyReads, ih]

theorem indexReads_eq_true {name : String} {index : Option Node} :
    indexReads name index = true ↔ ∃ node ∈ index.toList, node.reads name = true := by
  cases index <;> simp [indexReads]

/-- A value reads the names that its parts read. -/
theorem reads_of_part {name : String} {node part : Node} (hvalue : node.isStatement = false)
    (hmem : part ∈ node.parts) (hread : part.reads name = true) : node.reads name = true := by
  -- Statements are excluded, and literals have no parts.
  cases node with
  | read other index property =>
    rw [reads, Bool.or_eq_true]
    exact .inr (indexReads_eq_true.2 ⟨part, hmem, hread⟩)
  | call other arguments =>
    rw [reads, anyReads_eq_true]
    exact ⟨part, hmem, hread⟩
  | not operand =>
    obtain rfl := List.mem_singleton.1 hmem
    rwa [reads]
  | arithmetic operator left right | comparison operator left right
  | connective operator left right =>
    rw [reads, Bool.or_eq_true]
    rcases List.mem_pair.1 hmem with rfl | rfl
    · exact .inl hread
    · exact .inr hread
  | choice condition thenValue elseValue =>
    simp only [parts, List.mem_cons, List.not_mem_nil, or_false] at hmem
    rcases hmem with rfl | rfl | rfl <;> simp [reads, hread]
  | number _ | constant _ | hash _ | device _ => cases hmem
  | block _ | declare _ _ | assign _ _ _ _ | loop _ | whileLoop _ _ | branch _ _ _ | control _ =>
    cases hvalue

/-- A tree reads a name at its root, or in one of its parts. -/
theorem reads_cases {name : String} {node : Node} (h : node.reads name = true) :
    (∃ index property, node = .read name index property) ∨
    ∃ part ∈ node.parts, part.reads name = true := by
  cases node with
  | read other index property =>
    rw [reads, Bool.or_eq_true, beq_iff_eq, indexReads_eq_true] at h
    rcases h with rfl | hwithin
    · exact .inl ⟨index, property, rfl⟩
    · exact .inr hwithin
  | call other arguments =>
    rw [reads, anyReads_eq_true] at h
    exact .inr h
  | not operand | arithmetic operator left right | comparison operator left right
  | connective operator left right | choice condition thenValue elseValue =>
    right
    simpa [reads, parts, or_assoc] using h
  | _ => simp [reads] at h

end Node

end ChipScript
