import ChipScript.Proofs.Chip.Legible

/-!
# Assembly can be read back

An instruction is a line of words.  The forms of lines share their first letters, and numbers, logic
types and pins stand in them as they were written, so that it is not plain that two different
instructions have different lines.  They have, but for what no line says: the batch mode of a store,
and whether `and`, `or` and `select` come from an operator or from the function of that name.

* `Instruction.canonical` chooses one instruction among those with the same line.
* `Instruction.ofWords?` reads it from the words of the line, and `disassemble?` reads code from a
  text.
* `disassemble?_assemble`: legible code is read back from its text.

Main result: `assembly_determines_code`.
-/

namespace ChipScript

/-! ## Line after line -/

theorem assemble_cons_eq_ok {instruction : Instruction} {rest : List Instruction} {text : String} :
    assemble (instruction :: rest) = .ok text ↔
      ∃ first later, instruction.text = .ok first ∧ assemble rest = .ok later ∧
        text = first ++ later := by
  unfold assemble
  rw [List.mapM_cons]
  cases instruction.text with
  | error e => simp [bind, Except.bind, Except.map]
  | ok first =>
    cases rest.mapM Instruction.text with
    | error e => simp [bind, Except.bind, Except.map]
    | ok lines =>
      simp [bind, Except.bind, Except.map, pure, Except.pure, String.join_cons, eq_comm]

/-- Whatever code is generated, for any tree, can be written. -/
theorem Program.exists_assemble {program : Program} {code : List Instruction}
    (hgenerated : program.code = .ok code) : ∃ text, assemble code = .ok text := by
  obtain ⟨lines, final, ⟨scratch, hlisting⟩, rfl⟩ := Program.Listed.exists_of_code hgenerated
  refine assemble_of_spelled fun instruction hmem => ?_
  obtain ⟨line, hplaced, rfl⟩ := List.mem_map.1 hmem
  exact hlisting.spelled (List.nodup_singleton _) line hplaced

/-! ## First words -/

/-- Which devices a load or a store reaches. -/
inductive Reach where
  | pin
  | batch
  | namedBatch
deriving DecidableEq

/-- What the first word of a line says. -/
inductive Opcode where
  | move
  | arithmetic (operator : Arithmetic)
  | compare (comparison : Comparison)
  | bitwise (operator : Connective)
  | select
  | jump
  | branch (comparison : Comparison)
  | branchRelative (comparison : Comparison)
  | load (reach : Reach) (indexed : Bool)
  | store (reach : Reach) (indexed : Bool)
  | sleep
  | yield
  | hcf
  | function (name : String)
deriving DecidableEq

namespace Opcode

/-- The letters behind the first one of a load or a store. -/
def reachLetters (reach : Reach) (indexed : Bool) : String :=
  let devices := match reach with
    | .pin => ""
    | .batch => "b"
    | .namedBatch => "bn"
  devices ++ if indexed then "s" else ""

/-- The first word of a line. -/
def mnemonic : Opcode → String
  | move => "move"
  | arithmetic operator => operator.mnemonic
  | compare comparison => "s" ++ comparison.mnemonic
  | bitwise operator => operator.mnemonic
  | select => "select"
  | jump => "j"
  | branch comparison => "b" ++ comparison.mnemonic
  | branchRelative comparison => "br" ++ comparison.mnemonic
  | load reach indexed => "l" ++ reachLetters reach indexed
  | store reach indexed => "s" ++ reachLetters reach indexed
  | sleep => "sleep"
  | yield => "yield"
  | hcf => "hcf"
  | function name => name

/-- All comparisons. -/
def comparisons : List Comparison :=
  [.equal, .notEqual, .less, .lessEqual, .greater, .greaterEqual]

/-- All opcodes.  A word that names an instruction and a function names the instruction, which comes
    first. -/
def all : List Opcode :=
  [move, select, jump, sleep, yield, hcf, arithmetic .add, arithmetic .sub, arithmetic .mul,
    arithmetic .div, bitwise .and, bitwise .or] ++
  comparisons.map compare ++ comparisons.map branch ++ comparisons.map branchRelative ++
  [Reach.pin, .batch, .namedBatch].flatMap (fun reach =>
    [load reach false, load reach true, store reach false, store reach true]) ++
  Vocabulary.functions.map fun entry => function entry.1

/-- The opcode that a word stands for. -/
def ofMnemonic? (word : String) : Option Opcode :=
  all.find? (·.mnemonic = word)

theorem word_of_ofMnemonic? {word : String} {opcode : Opcode}
    (h : ofMnemonic? word = some opcode) : WordText word.toList := by
  have hwords : ∀ opcode ∈ all, opcode.mnemonic.toList ≠ [] ∧
      opcode.mnemonic.toList.all Text.isWord = true := by
    decide
  have hsame : opcode.mnemonic = word := by simpa using List.find?_some h
  obtain ⟨hnonempty, hletters⟩ := hwords opcode (List.mem_of_find?_eq_some h)
  exact hsame ▸ .of_all hnonempty hletters

/-- No opcode ends as a label does. -/
theorem ofMnemonic?_label (name : String) : ofMnemonic? (name ++ ":") = none := by
  have hnoColon : ∀ opcode ∈ all, opcode.mnemonic.toList.all (· != ':') = true := by
    decide
  rw [ofMnemonic?, List.find?_eq_none]
  intro opcode hmem hsame
  have hcolon := List.all_eq_true.1 (hnoColon opcode hmem) ':'
  rw [of_decide_eq_true hsame] at hcolon
  simp at hcolon

/-- A function has an opcode of its own, but for three that share the name of an instruction. -/
theorem ofMnemonic?_function {name : String} {arity : Nat}
    (h : Vocabulary.functionArity? name = some arity) :
    name ∈ ["and", "or", "select"] ∨ ofMnemonic? name = some (.function name) := by
  have heach : ∀ entry ∈ Vocabulary.functions,
      entry.1 ∈ ["and", "or", "select"] ∨ ofMnemonic? entry.1 = some (.function entry.1) := by
    decide
  exact heach (name, arity) (mem_of_lookup h)

end Opcode

/-! ## The other words -/

/-- The register that a word names. -/
def Register.ofWord? (word : String) : Option Register :=
  Register.all.find? (·.text = word)

/-- The operand that a word stands for. -/
def Operand.ofWord (word : String) : Operand :=
  match Register.ofWord? word with
  | some r => .register r
  | none => .immediate word

/-- The hash that a word denotes. -/
def hashOfWord? (word : String) : Option Int32 :=
  word.toInt?.map Int32.ofInt

@[simp] theorem hashOfWord?_checksumText (hash : Int32) :
    hashOfWord? (Text.checksumText hash) = some hash := by
  rw [hashOfWord?, Text.checksumText, Int.toString_eq_repr, Int.toInt?_repr]
  simp

theorem word_checksumText (hash : Int32) : WordText (Text.checksumText hash).toList :=
  (signedText_toString _).word

theorem BatchMode.word_name (mode : BatchMode) : WordText mode.name.toList := by
  cases mode <;> exact .of_all (by decide) (by decide)

theorem Register.ofWord?_text {r : Register} (honChip : r ∈ Register.all) :
    Register.ofWord? r.text = some r := by
  have heach : ∀ r ∈ Register.all, Register.ofWord? r.text = some r := by
    decide
  exact heach r honChip

theorem Register.word_text {r : Register} (honChip : r ∈ Register.all) :
    WordText r.text.toList := by
  have heach : ∀ r ∈ Register.all, r.text.toList ≠ [] ∧ r.text.toList.all Text.isWord = true := by
    decide
  obtain ⟨hnonempty, hletters⟩ := heach r honChip
  exact .of_all hnonempty hletters

namespace Operand.Legible

variable {operand : Operand}

theorem ofWord_text (h : operand.Legible) : Operand.ofWord operand.text = operand := by
  cases operand with
  | register r =>
    rw [Operand.ofWord, Operand.text, Register.ofWord?_text h]
  | immediate text =>
    -- An immediate operand has the text of no register, so that the search for one fails.
    have hnone : Register.ofWord? text = none := by
      rw [Register.ofWord?, List.find?_eq_none]
      exact fun r hmem hsame => h.noRegister r hmem (of_decide_eq_true hsame)
    rw [Operand.ofWord, Operand.text, hnone]

theorem word (h : operand.Legible) : WordText operand.text.toList := by
  cases operand with
  | register r => exact Register.word_text h
  | immediate text => exact ImmediateText.word h

end Operand.Legible

/-! ## Instructions -/

/-- Devices whose batch mode is left open. -/
def DeviceTarget.anyMode : DeviceTarget → DeviceTarget
  | pin name => .pin name
  | batch typeHash _ => .batch typeHash .average
  | namedBatch typeHash nameHash _ => .namedBatch typeHash nameHash .average

namespace Instruction

/-- The instruction among those with the same line that is read back from it. -/
def canonical : Instruction → Instruction
  | store device slot property value => store device.anyMode slot property value
  | function "and" dst [a, b] => bitwise .and dst a b
  | function "or" dst [a, b] => bitwise .or dst a b
  | function "select" dst [c, a, b] => select dst c a b
  | instruction => instruction

/-- Instructions that differ as far as their lines tell have the same words. -/
theorem words_canonical (instruction : Instruction) :
    instruction.canonical.words = instruction.words := by
  unfold canonical
  split
  · next device slot property value => cases device <;> cases slot <;> rfl
  · rfl
  · rfl
  · rfl
  · rfl

theorem canonical_function {name : String} (hother : name ∉ ["and", "or", "select"])
    (dst : Register) (arguments : List Operand) :
    (function name dst arguments).canonical = function name dst arguments := by
  unfold canonical
  split <;> simp_all

end Instruction

/-- The instruction that the words behind an opcode complete. -/
def Opcode.decode : Opcode → List String → Option Instruction
  | move, [dst, source] => return .move (← Register.ofWord? dst) (.ofWord source)
  | arithmetic operator, [dst, left, right] =>
    return .arithmetic operator (← Register.ofWord? dst) (.ofWord left) (.ofWord right)
  | compare comparison, [dst, left, right] =>
    return .compare comparison (← Register.ofWord? dst) (.ofWord left) (.ofWord right)
  | bitwise operator, [dst, left, right] =>
    return .bitwise operator (← Register.ofWord? dst) (.ofWord left) (.ofWord right)
  | select, [dst, condition, thenValue, elseValue] =>
    return .select (← Register.ofWord? dst) (.ofWord condition) (.ofWord thenValue)
      (.ofWord elseValue)
  | jump, [target] => return .jump target
  | branch comparison, [left, right, target] =>
    return .branch comparison (.ofWord left) (.ofWord right) target
  | branchRelative comparison, [left, right, offset] =>
    return .branchRelative comparison (.ofWord left) (.ofWord right) (← offset.toInt?)
  | load .pin false, [dst, pin, property] =>
    return .load (← Register.ofWord? dst) (.pin pin) none property
  | load .pin true, [dst, pin, slot, property] =>
    return .load (← Register.ofWord? dst) (.pin pin) (some (.ofWord slot)) property
  | load .batch false, [dst, typeHash, property, mode] =>
    return .load (← Register.ofWord? dst)
      (.batch (← hashOfWord? typeHash) (← BatchMode.ofName? mode)) none property
  | load .batch true, [dst, typeHash, slot, property, mode] =>
    return .load (← Register.ofWord? dst)
      (.batch (← hashOfWord? typeHash) (← BatchMode.ofName? mode)) (some (.ofWord slot)) property
  | load .namedBatch false, [dst, typeHash, nameHash, property, mode] =>
    return .load (← Register.ofWord? dst)
      (.namedBatch (← hashOfWord? typeHash) (← hashOfWord? nameHash) (← BatchMode.ofName? mode))
      none property
  | load .namedBatch true, [dst, typeHash, nameHash, slot, property, mode] =>
    return .load (← Register.ofWord? dst)
      (.namedBatch (← hashOfWord? typeHash) (← hashOfWord? nameHash) (← BatchMode.ofName? mode))
      (some (.ofWord slot)) property
  | store .pin false, [pin, property, value] =>
    return .store (.pin pin) none property (.ofWord value)
  | store .pin true, [pin, slot, property, value] =>
    return .store (.pin pin) (some (.ofWord slot)) property (.ofWord value)
  | store .batch false, [typeHash, property, value] =>
    return .store (.batch (← hashOfWord? typeHash) .average) none property (.ofWord value)
  | store .batch true, [typeHash, slot, property, value] =>
    return .store (.batch (← hashOfWord? typeHash) .average) (some (.ofWord slot)) property
      (.ofWord value)
  | store .namedBatch false, [typeHash, nameHash, property, value] =>
    return .store (.namedBatch (← hashOfWord? typeHash) (← hashOfWord? nameHash) .average) none
      property (.ofWord value)
  | sleep, [duration] => return .sleep (.ofWord duration)
  | yield, [] => return .yield
  | hcf, [] => return .hcf
  | function name, dst :: arguments =>
    return .function name (← Register.ofWord? dst) (arguments.map .ofWord)
  | _, _ => none

/-- The instruction that the words of a line make up. -/
def Instruction.ofWords? : List String → Option Instruction
  | [] => none
  | word :: rest =>
    match Opcode.ofMnemonic? word with
    | some opcode => opcode.decode rest
    | none =>
      if rest = [] ∧ word.toList.getLast? = some ':' then
        some (.label (String.ofList word.toList.dropLast))
      else none

/-- Words that fill a line and can be told apart there. -/
structure IsRow (words : List String) : Prop where
  nonempty : words ≠ []
  unbroken : ∀ word ∈ words, WordText word.toList

/-- Words that are an opcode and what completes it to an instruction, or that are a label. -/
inductive Instruction.ReadFrom : Instruction → List String → Prop where
  | coded {instruction : Instruction} {word : String} {rest : List String} (opcode : Opcode) :
      Opcode.ofMnemonic? word = some opcode → (∀ other ∈ rest, WordText other.toList) →
      opcode.decode rest = some instruction → ReadFrom instruction (word :: rest)
  | label {name : String} : WordText name.toList → ReadFrom (.label name) [name ++ ":"]

namespace Instruction

theorem ReadFrom.ofWords? {instruction : Instruction} {words : List String}
    (h : instruction.ReadFrom words) : ofWords? words = some instruction := by
  cases h with
  | coded opcode hknown _ hdecoded => simp only [Instruction.ofWords?, hknown, hdecoded]
  | label => simp [Instruction.ofWords?, Opcode.ofMnemonic?_label]

theorem ReadFrom.isRow {instruction : Instruction} {words : List String}
    (h : instruction.ReadFrom words) : IsRow words := by
  cases h with
  | coded opcode hknown hothers _ =>
    exact ⟨by simp, List.forall_mem_cons.2 ⟨Opcode.word_of_ofMnemonic? hknown, hothers⟩⟩
  | label hword =>
    have hcolon : ∀ c ∈ [':'], Text.isBlank c = false := List.forall_mem_singleton.2 rfl
    refine ⟨by simp, ?_⟩
    simpa using (⟨by simp, List.forall_mem_append.2 ⟨hword.unbroken, hcolon⟩⟩ : WordText _)

theorem load_readFrom {dst : Register} {device : DeviceTarget} {slot : Option Operand}
    {property : String} (h : (load dst device slot property).Legible) :
    (load dst device slot property).ReadFrom (loadWords dst device slot property) := by
  obtain ⟨honChip, htarget, hindex, hlogicType⟩ := h
  -- The opcode says which devices are read and whether a slot is: one case for each form.
  have hregister := Register.word_text honChip
  have hread := Register.ofWord?_text honChip
  cases slot with
  | none =>
    cases device with
    | pin pin =>
      refine .coded (.load .pin false) (by decide) ?_ (by simp [Opcode.decode, hread])
      simpa using ⟨hregister, htarget, hlogicType⟩
    | batch typeHash mode =>
      refine .coded (.load .batch false) (by decide) ?_ (by simp [Opcode.decode, hread])
      simpa using ⟨hregister, word_checksumText _, hlogicType, mode.word_name⟩
    | namedBatch typeHash nameHash mode =>
      refine .coded (.load .namedBatch false) (by decide) ?_ (by simp [Opcode.decode, hread])
      simpa using ⟨hregister, word_checksumText _, word_checksumText _, hlogicType, mode.word_name⟩
  | some slot =>
    have hindex := hindex slot rfl
    have hread' := hindex.ofWord_text
    cases device with
    | pin pin =>
      refine .coded (.load .pin true) (by decide) ?_ (by simp [Opcode.decode, hread, hread'])
      simpa using ⟨hregister, htarget, hindex.word, hlogicType⟩
    | batch typeHash mode =>
      refine .coded (.load .batch true) (by decide) ?_ (by simp [Opcode.decode, hread, hread'])
      simpa using ⟨hregister, word_checksumText _, hindex.word, hlogicType, mode.word_name⟩
    | namedBatch typeHash nameHash mode =>
      refine .coded (.load .namedBatch true) (by decide) ?_ (by simp [Opcode.decode, hread, hread'])
      simpa using ⟨hregister, word_checksumText _, word_checksumText _, hindex.word, hlogicType,
        mode.word_name⟩

theorem store_readFrom {device : DeviceTarget} {slot : Option Operand} {property : String}
    {value : Operand} {words : List String} (h : (store device slot property value).Legible)
    (hspelled : storeWords device slot property value = .ok words) :
    (store device.anyMode slot property value).ReadFrom words := by
  obtain ⟨htarget, hindex, hlogicType, hvalue'⟩ := h
  -- The forms of a load without its last word: the batch mode is not written.
  have hread := hvalue'.ofWord_text
  cases slot with
  | none =>
    cases device with
    | pin pin =>
      cases hspelled
      refine .coded (.store .pin false) (by decide) ?_ ?_
      · simpa using ⟨htarget, hlogicType, hvalue'.word⟩
      · simp [Opcode.decode, hread, DeviceTarget.anyMode]
    | batch typeHash mode =>
      cases hspelled
      refine .coded (.store .batch false) (by decide) ?_ ?_
      · simpa using ⟨word_checksumText _, hlogicType, hvalue'.word⟩
      · simp [Opcode.decode, hread, DeviceTarget.anyMode]
    | namedBatch typeHash nameHash mode =>
      cases hspelled
      refine .coded (.store .namedBatch false) (by decide) ?_ ?_
      · simpa using ⟨word_checksumText _, word_checksumText _, hlogicType, hvalue'.word⟩
      · simp [Opcode.decode, hread, DeviceTarget.anyMode]
  | some slot =>
    have hindex := hindex slot rfl
    have hread' := hindex.ofWord_text
    cases device with
    | pin pin =>
      cases hspelled
      refine .coded (.store .pin true) (by decide) ?_ ?_
      · simpa using ⟨htarget, hindex.word, hlogicType, hvalue'.word⟩
      · simp [Opcode.decode, hread, hread', DeviceTarget.anyMode]
    | batch typeHash mode =>
      cases hspelled
      refine .coded (.store .batch true) (by decide) ?_ ?_
      · simpa using ⟨word_checksumText _, hindex.word, hlogicType, hvalue'.word⟩
      · simp [Opcode.decode, hread, hread', DeviceTarget.anyMode]
    | namedBatch typeHash nameHash mode => cases hspelled

/-- An instruction with two operands. -/
theorem binary_readFrom {dst : Register} {left right : Operand} {word : String} (opcode : Opcode)
    (make : Register → Operand → Operand → Instruction)
    (hknown : Opcode.ofMnemonic? word = some opcode)
    (hform : ∀ d l r, opcode.decode [d, l, r] =
      return make (← Register.ofWord? d) (.ofWord l) (.ofWord r))
    (h : dst ∈ Register.all ∧ left.Legible ∧ right.Legible) :
    (make dst left right).ReadFrom [word, dst.text, left.text, right.text] := by
  obtain ⟨honChip, hfirst, hsecond⟩ := h
  refine .coded opcode hknown ?_ ?_
  · simpa using ⟨Register.word_text honChip, hfirst.word, hsecond.word⟩
  · rw [hform, Register.ofWord?_text honChip, hfirst.ofWord_text, hsecond.ofWord_text]
    rfl

theorem select_readFrom {dst : Register} {condition thenValue elseValue : Operand}
    (h : (select dst condition thenValue elseValue).Legible) :
    (select dst condition thenValue elseValue).ReadFrom
      ["select", dst.text, condition.text, thenValue.text, elseValue.text] := by
  obtain ⟨honChip, hfirst, hsecond, hthird⟩ := h
  refine .coded .select (by decide) ?_ ?_
  · simpa using ⟨Register.word_text honChip, hfirst.word, hsecond.word, hthird.word⟩
  · simp [Opcode.decode, Register.ofWord?_text honChip, hfirst.ofWord_text, hsecond.ofWord_text,
      hthird.ofWord_text]

theorem function_readFrom {name : String} {dst : Register} {arguments : List Operand}
    (h : (function name dst arguments).Legible) :
    (function name dst arguments).canonical.ReadFrom
      (name :: dst.text :: arguments.map Operand.text) := by
  obtain ⟨honChip, harity, hlegible⟩ := h
  by_cases hshared : name ∈ ["and", "or", "select"]
  · -- The line is that of an instruction with the same operands.
    simp only [List.mem_cons, List.not_mem_nil, or_false] at hshared
    rcases hshared with rfl | rfl | rfl
    · obtain ⟨a, b, rfl⟩ := List.length_eq_two.1 (Option.some.inj harity).symm
      exact binary_readFrom (.bitwise .and) (.bitwise .and) (by decide) (fun _ _ _ => rfl)
        ⟨honChip, hlegible a (by simp), hlegible b (by simp)⟩
    · obtain ⟨a, b, rfl⟩ := List.length_eq_two.1 (Option.some.inj harity).symm
      exact binary_readFrom (.bitwise .or) (.bitwise .or) (by decide) (fun _ _ _ => rfl)
        ⟨honChip, hlegible a (by simp), hlegible b (by simp)⟩
    · obtain ⟨c, a, b, rfl⟩ := List.length_eq_three.1 (Option.some.inj harity).symm
      exact select_readFrom
        ⟨honChip, hlegible c (by simp), hlegible a (by simp), hlegible b (by simp)⟩
  · have hknown := (Opcode.ofMnemonic?_function harity).resolve_left hshared
    have hback : (arguments.map Operand.text).map Operand.ofWord = arguments := by
      rw [List.map_map]
      exact (List.map_congr_left fun operand hmem => (hlegible operand hmem).ofWord_text).trans
        (List.map_id _)
    rw [canonical_function hshared]
    refine .coded (.function name) hknown ?_ ?_
    · simp only [List.forall_mem_cons, List.forall_mem_map]
      exact ⟨Register.word_text honChip, fun operand hmem => (hlegible operand hmem).word⟩
    · simp [Opcode.decode, Register.ofWord?_text honChip, hback]

/-- **The words of a legible instruction are read back.** -/
theorem Legible.readFrom {instruction : Instruction} {words : List String}
    (h : instruction.Legible) (hspelled : instruction.words = .ok words) :
    instruction.canonical.ReadFrom words := by
  -- Each instruction has its own opcode, and its operands are read back one by one as what they
  -- were.
  cases instruction with
  | label name =>
    cases hspelled
    exact .label h
  | move dst source =>
    cases hspelled
    obtain ⟨honChip, hlegible⟩ := h
    refine .coded .move (by decide) ?_ ?_
    · simpa using ⟨Register.word_text honChip, hlegible.word⟩
    · simp [Opcode.decode, Register.ofWord?_text honChip, hlegible.ofWord_text, canonical]
  | arithmetic operator dst left right =>
    cases hspelled
    exact binary_readFrom (.arithmetic operator) (.arithmetic operator)
      (by cases operator <;> decide) (fun _ _ _ => rfl) h
  | compare comparison dst left right =>
    cases hspelled
    exact binary_readFrom (.compare comparison) (.compare comparison)
      (by cases comparison <;> decide) (fun _ _ _ => rfl) h
  | bitwise operator dst left right =>
    cases hspelled
    exact binary_readFrom (.bitwise operator) (.bitwise operator)
      (by cases operator <;> decide) (fun _ _ _ => rfl) h
  | select dst condition thenValue elseValue =>
    cases hspelled
    exact select_readFrom h
  | jump target =>
    cases hspelled
    exact .coded .jump (by decide) (by simpa [Legible] using h) rfl
  | branch comparison left right target =>
    cases hspelled
    obtain ⟨hfirst, hsecond, hword⟩ := h
    refine .coded (.branch comparison) (by cases comparison <;> decide) ?_ ?_
    · simpa using ⟨hfirst.word, hsecond.word, hword⟩
    · simp [Opcode.decode, hfirst.ofWord_text, hsecond.ofWord_text, canonical]
  | branchRelative comparison left right offset =>
    cases hspelled
    obtain ⟨hfirst, hsecond⟩ := h
    refine .coded (.branchRelative comparison) (by cases comparison <;> decide) ?_ ?_
    · simpa using ⟨hfirst.word, hsecond.word, (signedText_toString offset).word⟩
    · simp [Opcode.decode, hfirst.ofWord_text, hsecond.ofWord_text, canonical,
        Int.toString_eq_repr, Int.toInt?_repr]
  | load dst device slot property =>
    cases hspelled
    exact load_readFrom h
  -- A store may have no text at all, so that it keeps the equation for its words.
  | store device slot property value => exact store_readFrom h hspelled
  | sleep duration =>
    cases hspelled
    refine .coded .sleep (by decide) ?_ ?_
    · simpa using Operand.Legible.word h
    · simp [Opcode.decode, Operand.Legible.ofWord_text h, canonical]
  | yield =>
    cases hspelled
    exact .coded .yield (by decide) (by simp) rfl
  | hcf =>
    cases hspelled
    exact .coded .hcf (by decide) (by simp) rfl
  | function name dst arguments =>
    cases hspelled
    exact function_readFrom h

end Instruction

/-! ## Lines -/

theorem WordText.notMem {cs : List Char} {c : Char} (h : WordText cs)
    (hblank : Text.isBlank c = true) : c ∉ cs := by
  intro hmem
  rw [h.unbroken c hmem] at hblank
  cases hblank

namespace IsRow

variable {words : List String}

/-- The words of a line are those between its blanks. -/
theorem splitOn (h : IsRow words) :
    ((" ".intercalate words).toList.splitOn ' ').map String.ofList = words := by
  have hapart : ∀ cs ∈ words.map String.toList, ' ' ∉ cs := by
    rw [List.forall_mem_map]
    exact fun word hmem => (h.unbroken word hmem).notMem rfl
  rw [String.toList_intercalate, show " ".toList = [' '] from rfl,
    List.splitOn_intercalate ' ' hapart (by simpa using h.nonempty), List.map_map]
  simp [Function.comp_def]

theorem newline_notMem (h : IsRow words) : '\n' ∉ (" ".intercalate words).toList := by
  obtain ⟨-, hunbroken⟩ := h
  induction words with
  | nil => simp
  | cons word rest ih =>
    obtain ⟨hfirst, hothers⟩ := List.forall_mem_cons.1 hunbroken
    have hnotFirst := hfirst.notMem Text.isBlank_newline
    cases rest with
    | nil => simpa using hnotFirst
    | cons next rest =>
      rw [String.intercalate_cons_cons]
      simpa [String.toList_append] using ⟨hnotFirst, by simpa using ih hothers⟩

end IsRow

/-! ## Texts -/

/-- The lines of a text are what stands before its line breaks. -/
theorem splitOn_join_rows {rows : List String} (hunbroken : ∀ row ∈ rows, '\n' ∉ row.toList) :
    (String.join (rows.map (· ++ "\n"))).toList.splitOn '\n' = rows.map String.toList ++ [[]] := by
  -- A line break behind every line is one between any two, with an empty line at the end.
  have hends : (String.join (rows.map (· ++ "\n"))).toList =
      ['\n'].intercalate (rows.map String.toList ++ [[]]) := by
    induction rows with
    | nil => rfl
    | cons row rows ih =>
      rw [List.map_cons, String.join_cons, String.toList_append,
        ih (List.forall_mem_cons.1 hunbroken).2, List.map_cons, List.cons_append,
        List.intercalate_cons_of_ne_nil (by simp)]
      simp
  rw [hends]
  refine List.splitOn_intercalate '\n' (List.forall_mem_append.2 ⟨?_, by simp⟩) (by simp)
  exact List.forall_mem_map.2 hunbroken

/-- The code that the lines of a text make up. -/
def disassemble? (text : String) : Option (List Instruction) :=
  (text.toList.splitOn '\n').dropLast.mapM fun row =>
    Instruction.ofWords? ((row.splitOn ' ').map String.ofList)

/-- The text of legible code is the lines of its instructions, one after the other. -/
theorem exists_rows_of_assemble {code : List Instruction} {text : String}
    (hlegible : ∀ instruction ∈ code, instruction.Legible) (h : assemble code = .ok text) :
    ∃ rows : List (List String),
      List.Forall₂ (fun instruction words =>
        instruction.Legible ∧ instruction.words = .ok words) code rows ∧
      text = String.join (rows.map line) := by
  induction code generalizing text with
  | nil =>
    cases h
    exact ⟨[], .nil, rfl⟩
  | cons instruction rest ih =>
    obtain ⟨first, later, hwritten, hassembled, rfl⟩ := assemble_cons_eq_ok.1 h
    obtain ⟨hreadable, hothers⟩ := List.forall_mem_cons.1 hlegible
    obtain ⟨rows, hspelled, rfl⟩ := ih hothers hassembled
    rw [Instruction.text] at hwritten
    -- An instruction without words would have stopped the whole text.
    cases hwords : instruction.words with
    | error e =>
      rw [hwords] at hwritten
      cases hwritten
    | ok row =>
      rw [hwords] at hwritten
      cases hwritten
      exact ⟨row :: rows, .cons ⟨hreadable, hwords⟩ hspelled,
        by rw [List.map_cons, String.join_cons]⟩

section Rows

variable {code : List Instruction} {rows : List (List String)}
  (hspelled : List.Forall₂ (fun instruction words =>
    instruction.Legible ∧ instruction.words = .ok words) code rows)

include hspelled

theorem isRow_of_spelled : ∀ words ∈ rows, IsRow words := by
  induction hspelled with
  | nil => simp
  | cons hhead _ ih => exact List.forall_mem_cons.2 ⟨(hhead.1.readFrom hhead.2).isRow, ih⟩

/-- The lines are cut into the words that they were put together of, and these are read back. -/
theorem mapM_ofWords?_of_spelled :
    (rows.mapM fun words => Instruction.ofWords?
      (((" ".intercalate words).toList.splitOn ' ').map String.ofList)) =
      some (code.map Instruction.canonical) := by
  induction hspelled with
  | nil => rfl
  | cons hhead _ ih =>
    have hread := hhead.1.readFrom hhead.2
    rw [List.mapM_cons, hread.isRow.splitOn, hread.ofWords?, ih]
    rfl

end Rows

/-- **Legible code is read back from its text.** -/
theorem disassemble?_assemble {code : List Instruction} {text : String}
    (hlegible : ∀ instruction ∈ code, instruction.Legible) (hassembled : assemble code = .ok text) :
    disassemble? text = some (code.map Instruction.canonical) := by
  obtain ⟨rows, hspelled, rfl⟩ := exists_rows_of_assemble hlegible hassembled
  have hlines : (String.join (rows.map line)).toList.splitOn '\n' =
      rows.map (fun words => (" ".intercalate words).toList) ++ [[]] := by
    have hunbroken : ∀ row ∈ rows.map " ".intercalate, '\n' ∉ row.toList :=
      List.forall_mem_map.2 fun words hmem => (isRow_of_spelled hspelled words hmem).newline_notMem
    have hsplit := splitOn_join_rows hunbroken
    rwa [List.map_map, List.map_map] at hsplit
  -- What stands behind the last line break is empty, and dropped.
  rw [disassemble?, hlines, List.dropLast_concat, List.mapM_map]
  exact mapM_ofWords?_of_spelled hspelled

/-- Code with the same canonical form has the same text. -/
theorem assemble_map_canonical (code : List Instruction) :
    assemble (code.map Instruction.canonical) = assemble code := by
  have hsame : Instruction.text ∘ Instruction.canonical = Instruction.text :=
    funext fun instruction => by
      rw [Function.comp_apply, Instruction.text, Instruction.words_canonical, Instruction.text]
  rw [assemble, List.mapM_map, hsame, assemble]

/-! ## Generated code -/

namespace Instruction

/-- What an instruction reads, apart from devices. -/
def operands : Instruction → List Operand
  | label _ | jump _ | yield | hcf => []
  | move _ source => [source]
  | arithmetic _ _ left right | compare _ _ left right | bitwise _ _ left right
  | branch _ left right _ | branchRelative _ left right _ => [left, right]
  | select _ condition thenValue elseValue => [condition, thenValue, elseValue]
  | load _ _ slot _ => slot.toList
  | store _ slot _ value => slot.toList ++ [value]
  | sleep duration => [duration]
  | function _ _ arguments => arguments

/-- An instruction writes or reads a register. -/
def Names (instruction : Instruction) (r : Register) : Prop :=
  instruction.written? = some r ∨ .register r ∈ instruction.operands

theorem Legible.operands {instruction : Instruction} (h : instruction.Legible) :
    ∀ operand ∈ instruction.operands, operand.Legible := by
  cases instruction with
  | label | jump | yield | hcf => exact nofun
  | sleep => exact List.forall_mem_singleton.2 h
  | move | arithmetic | compare | bitwise | select => simpa [Instruction.operands] using h.2
  | branch => simpa [Instruction.operands] using ⟨h.1, h.2.1⟩
  | branchRelative => simpa [Instruction.operands] using ⟨h.1, h.2⟩
  | load => simpa [Instruction.operands] using h.2.2.1
  | store =>
    obtain ⟨-, hslot, -, hvalue⟩ := h
    exact List.forall_mem_append.2 ⟨by simpa using hslot, by simpa using hvalue⟩
  | function => exact h.2.2

theorem Legible.onChip {instruction : Instruction} {r : Register} (h : instruction.Legible)
    (hnames : instruction.Names r) : r ∈ Register.all := by
  rcases hnames with hwritten | hread
  · cases instruction with
    | move | arithmetic | compare | bitwise | select | load | function =>
      cases hwritten
      exact h.1
    | _ => cases hwritten
  · exact h.operands _ hread

/-- How an instruction is written: in one line of words, with a colon behind the name of a label,
    and with no registers but those of the chip. -/
structure WrittenAs (instruction : Instruction) (row : String) : Prop where
  text : instruction.text = .ok (row ++ "\n")
  unbroken : '\n' ∉ row.toList
  words : ∃ words, IsRow words ∧ row = " ".intercalate words
  label : ∀ name, instruction = label name → WordText name.toList ∧ row = name ++ ":"
  registers : ∀ r, instruction.Names r → r.index < 16

theorem Legible.writtenAs {instruction : Instruction} {words : List String}
    (h : instruction.Legible) (hspelled : instruction.words = .ok words) :
    instruction.WrittenAs (" ".intercalate words) := by
  have hisRow := (h.readFrom hspelled).isRow
  refine ⟨?_, hisRow.newline_notMem, ⟨words, hisRow, rfl⟩, ?_, ?_⟩
  · rw [Instruction.text, hspelled]
    rfl
  · rintro name rfl
    cases hspelled
    exact ⟨h, String.intercalate_singleton⟩
  · intro r hnames
    obtain ⟨index, honChip, rfl⟩ := List.mem_map.1 (h.onChip hnames)
    exact List.mem_range.1 honChip

end Instruction

/-- Code that is generated for a script, whether it is simplified first or not. -/
def IsGenerated (code : List Instruction) : Prop :=
  ∃ source program options, Program.ofSource source = .ok program ∧
    (CompileOptions.prepare options program).code = .ok code

theorem IsGenerated.legible {code : List Instruction} (h : IsGenerated code) :
    ∀ instruction ∈ code, instruction.Legible := by
  obtain ⟨source, program, options, hread, hgenerated⟩ := h
  exact Program.legible_code (options.legible_prepare hread) hgenerated

theorem IsGenerated.exists_assemble {code : List Instruction} (h : IsGenerated code) :
    ∃ text, assemble code = .ok text := by
  obtain ⟨source, program, options, hread, hgenerated⟩ := h
  exact Program.exists_assemble hgenerated

theorem exists_code_of_compile {source text : String} {options : CompileOptions}
    (hcompiled : compile source options = .ok text) :
    ∃ program code, Program.ofSource source = .ok program ∧
      (options.prepare program).code = .ok code ∧ assemble code = .ok text := by
  -- A success has passed through reading, generating and writing, and each of them is looked up in
  -- turn.
  unfold compile at hcompiled
  split at hcompiled
  · next program hread =>
    unfold Program.assembly at hcompiled
    split at hcompiled
    · next code hgenerated =>
      refine ⟨program, code, hread, hgenerated, ?_⟩
      cases hassembled : assemble code with
      | error e =>
        rw [hassembled] at hcompiled
        cases hcompiled
      | ok text' =>
        rw [hassembled] at hcompiled
        cases hcompiled
        rfl
    · cases hcompiled
  · cases hcompiled

/-- **Assembly determines its code.**  The text that a script is compiled to has a line for every
    instruction: words with one blank between them, with a colon behind a label and no registers but
    those of the chip.  And code of scripts has the same text only if it is the same, up to what a
    line does not say: the batch mode of a store, and whether an instruction or the function of the
    same name is meant by `and`, `or` and `select`. -/
theorem assembly_determines_code :
    (∀ source options text, compile source options = .ok text →
      ∃ program code rows, Program.ofSource source = .ok program ∧
        (options.prepare program).code = .ok code ∧
        List.Forall₂ Instruction.WrittenAs code rows ∧
        text = String.join (rows.map (· ++ "\n"))) ∧
    ∀ code code', IsGenerated code → IsGenerated code' →
      (assemble code = assemble code' ↔
        code.map Instruction.canonical = code'.map Instruction.canonical) := by
  refine ⟨fun source options text hcompiled => ?_, fun code code' h h' => ⟨fun hsame => ?_, ?_⟩⟩
  · obtain ⟨program, code, hread, hgenerated, hassembled⟩ := exists_code_of_compile hcompiled
    have hlegible := IsGenerated.legible ⟨source, program, options, hread, hgenerated⟩
    obtain ⟨rows, hspelled, rfl⟩ := exists_rows_of_assemble hlegible hassembled
    refine ⟨program, code, rows.map " ".intercalate, hread, hgenerated, ?_, ?_⟩
    · rw [List.forall₂_map_right_iff]
      exact hspelled.imp fun instruction words h => h.1.writtenAs h.2
    · rw [List.map_map]
      rfl
  · -- Both are read back from the one text that they have.
    obtain ⟨text, hassembled⟩ := h.exists_assemble
    have hback := disassemble?_assemble h.legible hassembled
    have hback' := disassemble?_assemble h'.legible (hsame ▸ hassembled)
    exact Option.some.inj (hback.symm.trans hback')
  · intro hsame
    rw [← assemble_map_canonical, hsame, assemble_map_canonical]

/-- A store to all devices of a type. -/
def batchSource (mode : BatchMode) : String :=
  "var p = Device(Pump, " ++ mode.name ++ "); p.On = 1;"

def batchScript (mode : BatchMode) : Program :=
  [.declare "p" (.device ⟨"Pump", .batch mode⟩), .assign "p" none (some "On") (.number "1")]

def batchCode (mode : BatchMode) : List Instruction :=
  [.store (.batch 941956819 mode) none "On" (.immediate "1")]

/-- One text, for the code of two scripts that differ in their batch modes. -/
theorem assembly_determines_code_batch :
    (compile (batchSource .average) {} = .ok "sb 941956819 On 1\n" ∧
      ∃ rows, List.Forall₂ Instruction.WrittenAs (batchCode .average) rows ∧
        "sb 941956819 On 1\n" = String.join (rows.map (· ++ "\n"))) ∧
    batchCode .average ≠ batchCode .maximum ∧
    (batchCode .average).map Instruction.canonical =
      (batchCode .maximum).map Instruction.canonical := by
  have haverage : Program.ofSource (batchSource .average) = .ok (batchScript .average) := by
    decide +kernel
  have hmaximum : Program.ofSource (batchSource .maximum) = .ok (batchScript .maximum) := by
    decide +kernel
  have hgenerated : ∀ mode, (CompileOptions.prepare {} (batchScript mode)).code =
      .ok (batchCode mode) := by
    intro mode
    cbv
  have hcompiled : compile (batchSource .average) {} = .ok "sb 941956819 On 1\n" := by
    simp only [compile, haverage, Program.assembly, hgenerated]
    decide +kernel
  -- The two stores differ in the mode, which no word of the line shows.
  refine ⟨⟨hcompiled, ?_⟩, by decide, ?_⟩
  · obtain ⟨program, code, rows, hread, hgenerated', hwritten, hlines⟩ :=
      assembly_determines_code.1 _ _ _ hcompiled
    cases haverage.symm.trans hread
    cases (hgenerated _).symm.trans hgenerated'
    exact ⟨rows, hwritten, hlines⟩
  · exact (assembly_determines_code.2 _ _ ⟨_, _, _, haverage, hgenerated _⟩
      ⟨_, _, _, hmaximum, hgenerated _⟩).1 rfl

end ChipScript
