import ChipScript.Proofs.Chip.Refusals
import ChipScript.Proofs.Node.NormalForm
import ChipScript.Proofs.Node.PrinterRoundTrip
import ChipScript.Proofs.Token.Layout

/-!
# Legible trees

Numbers, names of constants, logic types and pins go from a tree into assembly as they are written.
A text with a blank in it would break its line into other words there, and a text such as `r3` would
read as a register.  A tree is legible (`Node.Legible`) if it holds no such text.

Trees that have been read are legible, since their texts come from tokens
(`Program.legible_of_read`), and simplification keeps them so, since the texts that it writes are
those of numbers and constants (`Program.legible_simplify`).
-/

namespace ChipScript

open Text

/-! ## Words -/

/-- The texts that can stand between two blanks. -/
structure WordText (cs : List Char) : Prop where
  nonempty : cs ≠ []
  unbroken : ∀ c ∈ cs, isBlank c = false

/-- The texts of numbers, with or without a sign. -/
def SignedText (cs : List Char) : Prop :=
  NumberText cs ∨ ∃ ds, cs = '-' :: ds ∧ NumberText ds

/-- The texts that are read as themselves where a register could stand. -/
structure ImmediateText (text : String) : Prop where
  word : WordText text.toList
  noRegister : ∀ r ∈ Register.all, r.text ≠ text

theorem WordText.cons {c : Char} {cs : List Char} (hc : isBlank c = false)
    (h : ∀ c ∈ cs, isBlank c = false) : WordText (c :: cs) :=
  ⟨List.cons_ne_nil _ _, List.forall_mem_cons.2 ⟨hc, h⟩⟩

theorem isWord_not_isBlank {c : Char} (h : isWord c = true) : isBlank c = false := by
  -- A blank is no word character, so the question is settled from the other side.
  cases hblank : isBlank c with
  | false => rfl
  | true =>
    rw [isBlank_not_isWord hblank] at h
    cases h

/-- Word characters make a word. -/
theorem WordText.of_all {cs : List Char} (hnonempty : cs ≠ []) (hletters : cs.all isWord = true) :
    WordText cs :=
  ⟨hnonempty, fun c hmem => isWord_not_isBlank (List.all_eq_true.1 hletters c hmem)⟩

/-- A name is a word. -/
theorem NameText.word {cs : List Char} (h : NameText cs) : WordText cs := by
  obtain ⟨first, others, rfl, hstart, hrest⟩ := h
  exact .cons (isNameStart_not_isBlank hstart) fun c hmem => isWord_not_isBlank (hrest c hmem)

/-- A number is a word, in each of its forms. -/
theorem NumberText.word {cs : List Char} (h : NumberText cs) : WordText cs := by
  have hdigit : ∀ ds : List Char, (∀ c ∈ ds, c.isDigit = true) → ∀ c ∈ ds, isBlank c = false :=
    fun ds hdigits c hmem => isDigit_not_isBlank (hdigits c hmem)
  -- A mark, a digit and a point are no blanks, and the rest are digits.
  cases h with
  | hexadecimal _ hdigits =>
    exact .cons rfl fun c hmem => isWord_not_isBlank (isHexDigit_isWord (hdigits c hmem))
  | binary _ hdigits =>
    exact .cons rfl fun c hmem => isWord_not_isBlank (isBinaryDigit_isWord (hdigits c hmem))
  | whole hnonempty hdigits => exact ⟨hnonempty, hdigit _ hdigits⟩
  | fraction hwhole _ hpart =>
    refine ⟨by simp, List.forall_mem_append.2 ⟨hdigit _ hwhole, ?_⟩⟩
    exact List.forall_mem_cons.2 ⟨rfl, hdigit _ hpart⟩

theorem SignedText.word {cs : List Char} (h : SignedText cs) : WordText cs := by
  rcases h with hnumber | ⟨ds, rfl, hnumber⟩
  · exact hnumber.word
  · exact .cons rfl hnumber.word.unbroken

/-- The text of a number does not begin as that of a register does. -/
theorem SignedText.head?_ne {cs : List Char} (h : SignedText cs) : cs.head? ≠ some 'r' := by
  rcases h with hnumber | ⟨ds, rfl, -⟩
  · have hdigit : ∀ c : Char, c.isDigit = true → c ≠ 'r' := by
      rintro c hdigit rfl
      cases hdigit
    cases hnumber with
    | hexadecimal | binary => simp
    | whole hnonempty hdigits =>
      cases cs with
      | nil => simp
      | cons c cs => simpa using hdigit c (hdigits c List.mem_cons_self)
    | @fraction ds es hwhole =>
      cases ds with
      | nil => simp
      | cons d ds => simpa using hdigit d (hwhole d List.mem_cons_self)
  · simp

/-- A number is read as itself where a register could stand. -/
theorem SignedText.immediate {text : String} (h : SignedText text.toList) : ImmediateText text := by
  refine ⟨h.word, ?_⟩
  rintro r - rfl
  exact h.head?_ne (by simp [Register.text])

/-- So is the name of a constant, which is that of no register. -/
theorem immediate_constant {name : String} (h : Vocabulary.isConstant name = true) :
    ImmediateText name := by
  -- The table of constants is small, and is looked through.
  have hwords : ∀ entry ∈ Vocabulary.constants, entry.1.toList ≠ [] ∧
      entry.1.toList.all isWord = true ∧ ∀ r ∈ Register.all, r.text ≠ entry.1 := by
    decide
  rw [Vocabulary.isConstant, Option.isSome_iff_exists] at h
  obtain ⟨value, hfound⟩ := h
  obtain ⟨hnonempty, hletters, hnoRegister⟩ := hwords (name, value) (mem_of_lookup hfound)
  exact ⟨.of_all hnonempty hletters, hnoRegister⟩

/-- Hashes are written as numbers. -/
theorem signedText_toString (n : Int) : SignedText (toString n).toList := by
  have hdigits : ∀ k : Nat, NumberText k.repr.toList := by
    intro k
    rw [Nat.toList_repr]
    exact .whole Nat.toDigits_ne_nil fun c hmem =>
      Nat.isDigit_of_mem_toDigits (by decide) (by decide) hmem
  rw [Int.toString_eq_repr, Int.repr_eq_if]
  -- A negative number has a sign in front of its digits.
  split
  · exact .inl (hdigits _)
  · exact .inr ⟨_, by rw [String.toList_append]; rfl, hdigits _⟩

/-- The shortest text of a number is that of a decimal. -/
theorem signedText_write (value : Float) : SignedText (Literal.write value).toList := by
  -- Zero is written as a digit, and any other number as its shortest decimal.
  have hmagnitude : NumberText (if Binary64.ordinal value = 0 then ['0']
      else (Decimal.shortest (Binary64.ordinal value)).stripZeros.positional) := by
    split
    · exact .whole (by simp) (by simp)
    · exact (Grammar.decimalText_positional _).1
  rw [Literal.write, String.toList_ofList]
  split
  · exact .inr ⟨_, rfl, hmagnitude⟩
  · exact .inl hmagnitude

/-! ## Trees -/

/-- A device is reached over a pin that is a word, or by its hashes. -/
def DeviceConfig.Legible (config : DeviceConfig) : Prop :=
  ∀ pin, config.addressing = .pin pin → WordText pin.toList

namespace Node

/-- The texts at the root of a tree may be written into assembly. -/
def LegibleRoot : Node → Prop
  | number text | constant text => ImmediateText text
  | read _ _ property | assign _ _ property _ =>
    ∀ logicType, property = some logicType → WordText logicType.toList
  | device config => config.Legible
  | _ => True

/-- The texts of a tree may be written into assembly. -/
inductive Legible : Node → Prop where
  | intro {node : Node} : node.LegibleRoot → (∀ part ∈ node.parts, Legible part) → Legible node

namespace Legible

theorem root {node : Node} (h : node.Legible) : node.LegibleRoot := by
  obtain ⟨hroot, -⟩ := h
  exact hroot

theorem part {node part : Node} (h : node.Legible) (hmem : part ∈ node.parts) : part.Legible := by
  obtain ⟨-, hwithin⟩ := h
  exact hwithin part hmem

theorem number {text : String} (h : ImmediateText text) : Legible (.number text) :=
  .intro h (by simp [parts])

theorem constant {name : String} (h : ImmediateText name) : Legible (.constant name) :=
  .intro h (by simp [parts])

/-- The node for a number is legible. -/
theorem ofValue (value : Float) : Legible (.ofValue value) := by
  unfold Node.ofValue
  split
  · exact .constant (immediate_constant rfl)
  · split
    · split
      · exact .constant (immediate_constant rfl)
      · exact .constant (immediate_constant rfl)
    · exact .number (signedText_write value).immediate

end Legible
end Node

/-! ## Trees that have been read -/

namespace Grammar

/-- So is the node for a number after a minus sign. -/
theorem legible_negated {text : String} (h : NumberText text.toList) :
    (Parser.negated text).Legible := by
  unfold Parser.negated
  -- Marked numbers have been written anew, and decimals have a sign in front.
  split
  · exact .ofValue _
  · exact .ofValue _
  · refine .number (SignedText.immediate (.inr ⟨text.toList, ?_, h⟩))
    rw [String.toList_append]
    rfl

theorem IsPin.word {name : String} (h : IsPin name) : WordText name.toList := by
  obtain ⟨c, hspelled, hdigit | rfl⟩ := h
  · rw [hspelled]
    exact .cons rfl (by simpa using isDigit_not_isBlank hdigit)
  · rw [hspelled]
    exact .cons rfl (by simp; rfl)

/-- A device that has been read has a pin that is a word, or none. -/
theorem DeviceArguments.legible {ts : List Token} {config : DeviceConfig}
    (h : DeviceArguments ts config) : config.Legible := by
  cases h with
  | pin _ hisPin =>
    intro pin hsame
    cases hsame
    exact hisPin.word
  | batch | namedBatch => nofun

/-- What a phrase stands for is legible. -/
def Phrase.Legible : Phrase → Prop
  | .value _ node => node.Legible
  | .list nodes => ∀ node ∈ nodes, node.Legible
  | .arguments nodes => ∀ node ∈ nodes, node.Legible
  | .suffix index property => (∀ node ∈ index.toList, node.Legible) ∧
      ∀ logicType, property = some logicType → WordText logicType.toList

/-- **What is read from tokens of a text is legible.** -/
theorem Derives.legible {declared : List String} {phrase : Phrase} {ts : List Token}
    (h : Derives declared phrase ts) (hspelled : ∀ t ∈ ts, t.Spelled) : phrase.Legible := by
  -- Numbers, constants, devices and logic types have texts; all else is put together from parts.
  induction h with
  | lift _ _ ih => exact ih hspelled
  | join _ hjoins _ _ hleft hright =>
    simp only [List.forall_mem_append, List.forall_mem_cons] at hspelled
    obtain ⟨hfirst, -, hsecond⟩ := hspelled
    cases hjoins <;>
      exact .intro trivial (by simpa [Node.parts] using ⟨hleft hfirst, hright hsecond⟩)
  | choice _ _ _ hfirst hsecond hthird =>
    simp only [List.forall_mem_append, List.forall_mem_cons] at hspelled
    obtain ⟨hcondition, -, hthenValue, -, helseValue⟩ := hspelled
    exact .intro trivial
      (by simpa [Node.parts] using ⟨hfirst hcondition, hsecond hthenValue, hthird helseValue⟩)
  | not _ ih =>
    refine .intro trivial fun part hmem => ?_
    exact List.mem_singleton.1 hmem ▸ ih (List.forall_mem_cons.1 hspelled).2
  | number text =>
    have hnumber : NumberText text.toList := hspelled _ (List.mem_singleton_self _)
    exact .number (SignedText.immediate (.inl hnumber))
  | negative text => exact legible_negated (hspelled (.number text) (by simp))
  | constant hknown => exact .constant (immediate_constant hknown)
  | hash => exact .intro trivial (by simp [Node.parts])
  | device harguments => exact .intro harguments.legible (by simp [Node.parts])
  | group _ ih => exact ih fun t hmem => hspelled t (by simp [hmem])
  | call _ _ ih => exact .intro trivial (ih fun t hmem => hspelled t (by simp [hmem]))
  -- A logic type is an identifier, and so a name.
  | read _ _ _ ih =>
    obtain ⟨hindex, hproperty⟩ := ih (List.forall_mem_cons.1 hspelled).2
    exact .intro hproperty hindex
  | one _ ih =>
    intro node hmem
    exact List.mem_singleton.1 hmem ▸ ih hspelled
  | more _ _ hfirst hrest =>
    simp only [List.forall_mem_append, List.forall_mem_cons] at hspelled
    exact List.forall_mem_cons.2 ⟨hfirst hspelled.1, hrest hspelled.2.2⟩
  | someArguments _ ih => exact ih hspelled
  | noArguments => exact fun node hmem => by simp at hmem
  | bare => exact ⟨by simp, by simp⟩
  | property property =>
    have hname : (Token.identifier property).Spelled := hspelled _ (by simp)
    refine ⟨by simp, fun logicType hsame => ?_⟩
    exact Option.some.inj hsame ▸ hname.1.word
  | indexed property _ ih =>
    have hname : (Token.identifier property).Spelled := hspelled _ (by simp)
    refine ⟨fun node hmem => ?_, fun logicType hsame => Option.some.inj hsame ▸ hname.1.word⟩
    exact List.mem_singleton.1 hmem ▸ ih fun t hmem => hspelled t (by simp [hmem])

/-- The statements of a sentence are legible. -/
def Sentence.Legible : Sentence → Prop
  | .statement node => node.Legible
  | .sequence nodes => ∀ node ∈ nodes, node.Legible

/-- **Statements that are read from tokens of a text are legible.** -/
theorem Forms.legible {declared after : List String} {inLoop : Bool} {sentence : Sentence}
    {ts : List Token} (h : Forms declared inLoop sentence ts after)
    (hspelled : ∀ t ∈ ts, t.Spelled) : sentence.Legible := by
  -- Statements have texts in their expressions only, apart from the logic type of an assignment.
  induction h with
  | declare _ _ _ hvalue =>
    have hlegible := hvalue.legible fun t hmem => hspelled t (by simp [hmem])
    exact .intro trivial fun part hmem => List.mem_singleton.1 hmem ▸ hlegible
  | assign _ _ hsuffix hvalue =>
    obtain ⟨hindex, hproperty⟩ := hsuffix.legible fun t hmem => hspelled t (by simp [hmem])
    have hlegible := hvalue.legible fun t hmem => hspelled t (by simp [hmem])
    exact .intro hproperty (List.forall_mem_cons.2 ⟨hlegible, hindex⟩)
  | loop _ ih =>
    refine .intro trivial fun part hmem => ?_
    exact List.mem_singleton.1 hmem ▸ ih (List.forall_mem_cons.1 hspelled).2
  | whileLoop hcondition _ ih | branch hcondition _ ih =>
    simp only [List.forall_mem_append, List.forall_mem_cons] at hspelled
    obtain ⟨-, -, htested, -, hbehind⟩ := hspelled
    exact .intro trivial (by simpa [Node.parts] using ⟨hcondition.legible htested, ih hbehind⟩)
  | branchElse hcondition _ _ _ hfirst hsecond =>
    simp only [List.forall_mem_append, List.forall_mem_cons] at hspelled
    obtain ⟨-, -, htested, -, hbefore, -, hbehind⟩ := hspelled
    exact .intro trivial
      (by simpa [Node.parts] using ⟨hcondition.legible htested, hfirst hbefore, hsecond hbehind⟩)
  | branchElseIf hcondition _ _ _ hfirst hsecond =>
    simp only [List.forall_mem_append, List.forall_mem_cons] at hspelled
    obtain ⟨-, -, htested, -, hbefore, -, hbehind⟩ := hspelled
    have hother := hsecond (List.forall_mem_cons.2 ⟨trivial, hbehind⟩)
    exact .intro trivial
      (by simpa [Node.parts] using ⟨hcondition.legible htested, hfirst hbefore, hother⟩)
  | leave | again => exact .intro trivial (by simp [Node.parts])
  | device harguments => exact .intro harguments.legible (by simp [Node.parts])
  | command _ harguments =>
    exact .intro trivial (harguments.legible fun t hmem => hspelled t (by simp [hmem]))
  | block _ ih => exact .intro trivial (ih fun t hmem => hspelled t (by simp [hmem]))
  | done => exact fun node hmem => by simp at hmem
  | next _ _ hfirst hrest =>
    rw [List.forall_mem_append] at hspelled
    exact List.forall_mem_cons.2 ⟨hfirst hspelled.1, hrest hspelled.2⟩

end Grammar

/-- **A script that has been read is legible.** -/
theorem Program.legible_of_read {source : String} {program : Program}
    (hread : Program.ofSource source = .ok program) : ∀ node ∈ program, node.Legible := by
  obtain ⟨tokens, hscanned, hparsed⟩ := ofSource_eq_ok.1 hread
  obtain ⟨declared, hforms⟩ := Grammar.ofTokens_sound hparsed
  exact hforms.legible fun t hmem => Grammar.spelled_of_mem_uncommented hscanned hmem

/-! ## Simplified trees -/

namespace Node

theorem legibleRoot_mapParts {node : Node} (f : Node → Node) (h : node.LegibleRoot) :
    (node.mapParts f).LegibleRoot := by
  cases node <;> exact h

/-- **A simplified expression is legible.** -/
theorem Legible.simplify {node : Node} (h : node.Legible) : node.simplify.Legible := by
  -- Folding writes the text of a value; where nothing is folded, the parts have been simplified.
  induction h with
  | @intro node hroot hwithin ih =>
    -- A statement is no expression, and is simplified elsewhere.
    cases hstatement : node.isStatement with
    | true =>
      rw [simplify_of_isStatement hstatement]
      exact .intro hroot hwithin
    | false =>
      rcases simplify_cases node with ⟨v, hleft⟩ | hleft | ⟨part, hmem, hleft⟩ | hleft
      all_goals rw [hleft]
      · exact .ofValue v
      · exact .number (SignedText.immediate (.inl (.whole (by simp) (by simp))))
      · exact ih part hmem
      · exact .intro (legibleRoot_mapParts _ hroot) (forall_parts_mapParts hstatement ih)

theorem Legible.bodyOf {left : Option Node} (h : ∀ node, left = some node → node.Legible) :
    (bodyOf left).Legible := by
  cases left with
  | none => exact .intro trivial (by simp [Node.bodyOf, parts])
  | some node => exact h node rfl

/-- **What is left of a legible statement is legible.** -/
theorem Legible.simplifyStatement {node : Node} (h : node.Legible) :
    ∀ left, node.simplifyStatement? = some left → left.Legible := by
  -- What is left of a statement is put together from what is left of its parts.
  induction h with
  | @intro node hroot hwithin ih =>
    have hwhole : node.Legible := .intro hroot hwithin
    intro left hsimplified
    cases node with
    | block body =>
      obtain ⟨-, rfl⟩ := simplifyStatement?_block_cases hsimplified
      refine .intro trivial fun part hmem => ?_
      obtain ⟨statement, hmem, hsimplified⟩ := mem_simplifyStatements.1 hmem
      exact ih statement hmem part hsimplified
    | declare name value =>
      obtain rfl := Option.some.inj hsimplified
      have hvalue' := (hwithin value (by simp [parts])).simplify
      exact .intro trivial fun part hmem => List.mem_singleton.1 hmem ▸ hvalue'
    | assign name index property value =>
      obtain rfl := Option.some.inj hsimplified
      refine .intro hroot fun part hmem => ?_
      rcases List.mem_cons.1 hmem with rfl | hmem
      · exact (hwithin value (by simp [parts])).simplify
      · obtain ⟨node, hamong, rfl⟩ := mem_simplifyIndex.1 hmem
        exact (hwithin node (List.mem_cons_of_mem _ hamong)).simplify
    | loop body =>
      obtain rfl := Option.some.inj hsimplified
      have hbody' := Legible.bodyOf (ih body (by simp [parts]))
      exact .intro trivial fun part hmem => List.mem_singleton.1 hmem ▸ hbody'
    | whileLoop condition body =>
      have hbody' := Legible.bodyOf (ih body (by simp [parts]))
      rcases simplifyStatement?_whileLoop_cases hsimplified with ⟨-, rfl⟩ | ⟨-, rfl⟩
      · exact .intro trivial fun part hmem => List.mem_singleton.1 hmem ▸ hbody'
      · have hcondition' := (hwithin condition (by simp [parts])).simplify
        exact .intro trivial (by simpa [parts] using ⟨hcondition', hbody'⟩)
    | branch condition thenBranch elseBranch =>
      have hother : ∀ left, simplifyElse? elseBranch = some left → left.Legible := by
        intro left hsimplified
        obtain ⟨node, hamong, hsimplified⟩ := simplifyElse?_eq_some.1 hsimplified
        exact ih node (by simp_all [parts]) left hsimplified
      rcases simplifyStatement?_branch_cases hsimplified with
        ⟨-, hsimplified⟩ | ⟨-, hsimplified⟩ | ⟨-, rfl⟩
      · exact ih thenBranch (by simp [parts]) left hsimplified
      · exact hother left hsimplified
      · refine .intro trivial fun part hmem => ?_
        simp only [parts, List.mem_cons, Option.mem_toList] at hmem
        rcases hmem with rfl | rfl | hmem
        · exact (hwithin condition (by simp [parts])).simplify
        · exact .bodyOf (ih thenBranch (by simp [parts]))
        · exact hother part hmem
    | _ =>
      obtain rfl := Option.some.inj hsimplified
      exact hwhole.simplify

end Node

/-- **A simplified script is legible.** -/
theorem Program.legible_simplify {program : Program} (h : ∀ node ∈ program, node.Legible) :
    ∀ node ∈ program.simplify, node.Legible := by
  intro node hmem
  obtain ⟨statement, hmem, hleft⟩ := Node.mem_simplifyStatements.1 hmem
  exact (h statement hmem).simplifyStatement node hleft

/-- **The script that code is generated for is legible**, simplified or not. -/
theorem CompileOptions.legible_prepare (options : CompileOptions) {source : String}
    {program : Program} (hread : Program.ofSource source = .ok program) :
    ∀ node ∈ options.prepare program, node.Legible := by
  unfold CompileOptions.prepare
  split
  · exact Program.legible_simplify (Program.legible_of_read hread)
  · exact Program.legible_of_read hread

end ChipScript
