import ChipScript.Proofs.Chip.Inversion
import ChipScript.Proofs.Semantics.Script

/-!
# What a statement adds

Code for a statement is added behind the code that is there already.  What is added has labels of
its own, each at one place only, and what a name stood for before it stands for afterwards
(`statement_extends`).  Two labels with different stems or numbers have different texts, since a
stem has no digits (`label_injective`).
-/

namespace ChipScript

/-! ## Texts of labels -/

namespace LabelCounts

theorem isDigit_of_mem_numberText {n : Nat} {c : Char} (h : c ∈ (numberText n).toList) :
    c.isDigit = true := by
  simp only [numberText, String.toList_ofList, List.mem_append, List.mem_replicate] at h
  rcases h with ⟨-, rfl⟩ | h
  · decide
  · exact Nat.isDigit_of_mem_toDigits (by decide) (by decide) h

/-- Zeros in front do not count, so that the digits give the number back. -/
theorem numberText_injective {n m : Nat} (h : numberText n = numberText m) : n = m := by
  have hvalue : ∀ k, Nat.ofDigitChars 10 (numberText k).toList 0 = k := by
    intro k
    simp [numberText, Nat.ofDigitChars_append, Nat.ofDigitChars_toDigits]
  rw [← hvalue n, h, hvalue m]

theorem numberText_ne_nil (n : Nat) : (numberText n).toList ≠ [] := by
  simp [numberText, Nat.toDigits_ne_nil]

/-- A stem has no digits. -/
def IsStem (stem : String) : Prop :=
  stem.toList.all (!·.isDigit) = true

instance (stem : String) : Decidable (IsStem stem) :=
  inferInstanceAs (Decidable (_ = true))

/-- A label is the characters before its first digit and the number behind them. -/
theorem takeWhile_label {stem : String} (h : IsStem stem) (n : Nat) :
    (stem ++ numberText n).toList.takeWhile (fun c => !c.isDigit) = stem.toList := by
  rw [String.toList_append, List.takeWhile_append_of_pos (List.all_eq_true.1 h)]
  cases hdigits : (numberText n).toList with
  | nil => exact absurd hdigits (numberText_ne_nil n)
  | cons d ds =>
    have hdigit : d.isDigit = true := isDigit_of_mem_numberText (n := n) (by simp [hdigits])
    simp [hdigit]

/-- **Labels with different stems or numbers are different.** -/
theorem label_injective {stem stem' : String} {n n' : Nat} (h : IsStem stem) (h' : IsStem stem')
    (hsame : stem ++ numberText n = stem' ++ numberText n') : stem = stem' ∧ n = n' := by
  have hstems : stem.toList = stem'.toList := by
    rw [← takeWhile_label h n, hsame, takeWhile_label h' n']
  have hstems_eq : stem = stem' := String.toList_inj.1 hstems
  subst hstems_eq
  refine ⟨rfl, numberText_injective ?_⟩
  have htails := congrArg String.toList hsame
  rw [String.toList_append, String.toList_append] at htails
  exact String.toList_inj.1 (List.append_cancel_left htails)

/-- A label that has been made. -/
def Made (labels : LabelCounts) (name : String) : Prop :=
  ∃ stem number, IsStem stem ∧ name = stem ++ numberText number ∧ number ≤ labels.count stem

theorem Made.next {labels : LabelCounts} {name : String} (h : labels.Made name) (stem : String) :
    (labels.next stem).2.Made name := by
  obtain ⟨other, number, hisStem, htext, hbelow⟩ := h
  refine ⟨other, number, hisStem, htext, hbelow.trans ?_⟩
  rw [count_next]
  split
  · next hsame =>
    subst hsame
    omega
  · exact le_refl _

theorem made_next (labels : LabelCounts) {stem : String} (h : IsStem stem) :
    (labels.next stem).2.Made (labels.next stem).1 :=
  ⟨stem, labels.count stem + 1, h, rfl, by simp⟩

/-- The next label has not been made before. -/
theorem Made.ne_next {labels : LabelCounts} {name stem : String} (h : labels.Made name)
    (hisStem : IsStem stem) : name ≠ (labels.next stem).1 := by
  obtain ⟨other, number, hisOther, rfl, hbelow⟩ := h
  intro hsame
  obtain ⟨rfl, rfl⟩ := label_injective hisOther hisStem hsame
  omega

end LabelCounts

/-- The labels in code. -/
def labelsIn (code : List Instruction) : List String :=
  code.filterMap fun
    | .label name => some name
    | _ => none

@[simp] theorem labelsIn_append (code more : List Instruction) :
    labelsIn (code ++ more) = labelsIn code ++ labelsIn more :=
  List.filterMap_append

theorem labelsIn_of_straight {code : List Instruction}
    (h : ∀ instruction ∈ code, instruction.isStraight = true) : labelsIn code = [] := by
  rw [labelsIn, List.filterMap_eq_nil_iff]
  intro instruction hmem
  have hstraight := h instruction hmem
  cases instruction <;> simp_all [Instruction.isStraight]

/-! ## Labels in the code -/

namespace Generator

theorem prefix_append_code (g : Generator) (code : List Instruction) :
    g.code.toList <+: (g.append code).code.toList := by
  simp

/-- The labels in the code and those that are still to be placed have all been made, and no two of
    them are the same. -/
structure LabelsApart (g : Generator) (pending : List String) : Prop where
  nodup : (labelsIn g.code.toList ++ pending).Nodup
  made : ∀ name ∈ labelsIn g.code.toList ++ pending, g.labels.Made name

namespace LabelsApart

variable {g : Generator} {pending : List String}

theorem empty : Generator.empty.LabelsApart [] :=
  ⟨by simp [Generator.empty, labelsIn], by simp [Generator.empty, labelsIn]⟩

/-- Only the code and the labels made matter. -/
theorem congr {g' : Generator} (h : g.LabelsApart pending) (hcode : g'.code = g.code)
    (hlabels : g'.labels = g.labels) : g'.LabelsApart pending :=
  ⟨by rw [hcode]; exact h.nodup, by rw [hcode, hlabels]; exact h.made⟩

theorem perm {pending' : List String} (h : g.LabelsApart pending) (hsame : pending.Perm pending') :
    g.LabelsApart pending' := by
  have hall : (labelsIn g.code.toList ++ pending).Perm (labelsIn g.code.toList ++ pending') :=
    hsame.append_left _
  exact ⟨hall.nodup_iff.1 h.nodup, fun name hmem => h.made name (hall.mem_iff.2 hmem)⟩

/-- A label that is made is still to be placed. -/
theorem labelled (h : g.LabelsApart pending) (stem : String) (hisStem : LabelCounts.IsStem stem) :
    (g.labelled stem).LabelsApart (g.nextLabel stem :: pending) := by
  have hfresh : g.nextLabel stem ∉ labelsIn g.code.toList ++ pending := fun hmem =>
    (h.made _ hmem).ne_next hisStem rfl
  have hall : (labelsIn g.code.toList ++ g.nextLabel stem :: pending).Perm
      (g.nextLabel stem :: (labelsIn g.code.toList ++ pending)) := List.perm_middle
  refine ⟨hall.nodup_iff.2 (List.nodup_cons.2 ⟨hfresh, h.nodup⟩), ?_⟩
  intro name hmem
  rcases List.mem_cons.1 (hall.mem_iff.1 hmem) with rfl | hearlier
  · exact g.labels.made_next hisStem
  · exact (h.made name hearlier).next stem

/-- Code without labels changes nothing. -/
theorem append (h : g.LabelsApart pending) (code : List Instruction) (hnone : labelsIn code = []) :
    (g.append code).LabelsApart pending := by
  have hsame : labelsIn (g.append code).code.toList = labelsIn g.code.toList := by
    simp [hnone]
  exact ⟨by rw [hsame]; exact h.nodup, by rw [hsame]; exact h.made⟩

/-- A label that is placed is no longer to be placed. -/
theorem place {name : String} (h : g.LabelsApart (name :: pending)) :
    (g.append [.label name]).LabelsApart pending := by
  have hsame : labelsIn (g.append [.label name]).code.toList ++ pending =
      labelsIn g.code.toList ++ name :: pending := by
    simp [labelsIn]
  exact ⟨by rw [hsame]; exact h.nodup, by rw [hsame]; exact h.made⟩

end LabelsApart
end Generator

/-! ## Extensions -/

/-- What a statement does to the state, as far as later statements can tell: it adds code with new
    labels, and names of its own. -/
structure Extends (names : List String) (g g' : Generator) : Prop extends Declares g g' where
  code : g.code.toList <+: g'.code.toList
  labels : ∀ pending, g.LabelsApart pending → g'.LabelsApart pending
  /-- What a name stands for does not change. -/
  known : ∀ name b, g.binding? name = some b → g'.binding? name = some b
  /-- Only the names of the statement have become known. -/
  added : ∀ name b, g'.binding? name = some b → g.binding? name = some b ∨ name ∈ names

namespace Extends

variable {names names' : List String} {g g₁ g₂ g' : Generator}

theorem refl (hnodup : g.registers.reserved.Nodup) : Extends names g g where
  toDeclares := .refl hnodup
  code := List.prefix_rfl
  labels := fun _ hapart => hapart
  known := fun _ _ hknown => hknown
  added := fun _ _ hknown => .inl hknown

theorem trans (hfirst : Extends names g g₁) (hsecond : Extends names' g₁ g₂) :
    Extends (names ++ names') g g₂ where
  toDeclares := hfirst.toDeclares.trans hsecond.toDeclares
  code := hfirst.code.trans hsecond.code
  labels := fun pending hapart => hsecond.labels pending (hfirst.labels pending hapart)
  known := fun name b hknown => hsecond.known name b (hfirst.known name b hknown)
  added := by
    intro name b hknown
    rcases hsecond.added name b hknown with hbetween | hmem
    · rcases hfirst.added name b hbetween with hbefore | hmem
      · exact .inl hbefore
      · exact .inr (List.mem_append_left _ hmem)
    · exact .inr (List.mem_append_right _ hmem)

theorem append (h : Extends names g g₁) {code : List Instruction} (hnone : labelsIn code = []) :
    Extends names g (g₁.append code) where
  toDeclares := h.toDeclares.append code
  code := h.code.trans (g₁.prefix_append_code code)
  labels := fun pending hapart => (h.labels pending hapart).append code hnone
  known := h.known
  added := h.added

theorem mono (h : Extends names g g') (hsubset : ∀ name ∈ names, name ∈ names') :
    Extends names' g g' :=
  { h with added := fun name b hknown => (h.added name b hknown).imp_right (hsubset name) }

end Extends

namespace Gen

/-! ## Expressions, declarations and assignments -/

/-- The code of a value has no labels and makes nothing known. -/
theorem expression_extends {node : Node} {dst : Register} {g g' : Generator}
    (hnodup : g.registers.reserved.Nodup) (h : expression node dst g = .ok () g') :
    Extends [] g g' := by
  obtain ⟨code, hstraight, rfl⟩ := expression_eq_ok hnodup h
  exact (Extends.refl hnodup).append (labelsIn_of_straight hstraight)

/-- Code that uses operands adds no labels if the instructions that use them are none. -/
theorem withOperands_extends {dst : Register} {nodes : List Node}
    {use : List Operand → List Instruction} {g g' : Generator}
    (hnone : ∀ operands, labelsIn (use operands) = []) (hnodup : g.registers.reserved.Nodup)
    (h : withOperands dst nodes use g = .ok () g') : Extends [] g g' := by
  obtain ⟨operands, -, -, code, -, hstraight, rfl⟩ := withOperands_cases hnodup h
  exact (Extends.refl hnodup).append (by simp [labelsIn_of_straight hstraight, hnone])

/-- A test jumps, but nothing jumps into it. -/
theorem labelsIn_testCode (label : String) (condition : Node) (operands : List Operand) :
    labelsIn (testCode label condition operands) = [] := by
  have hbinary : ∀ code : Operand → Operand → List Instruction, (∀ a b, labelsIn (code a b) = []) →
      labelsIn (binaryCode code operands) = [] := by
    intro code hnone
    unfold binaryCode
    split
    · exact hnone _ _
    · rfl
  have hunary : ∀ code : Operand → List Instruction, (∀ a, labelsIn (code a) = []) →
      labelsIn (unaryCode code operands) = [] := by
    intro code hnone
    unfold unaryCode
    split
    · exact hnone _
    · rfl
  -- A test has one operand or two, and no form of it places a label.
  cases condition with
  | comparison operator left right => exact hbinary _ fun _ _ => rfl
  | connective operator left right =>
    cases operator with
    | and => exact hbinary _ fun _ _ => rfl
    | or => exact hbinary _ fun _ _ => rfl
  | _ => exact hunary _ fun _ => rfl

/-- A test adds code and makes nothing known. -/
theorem jumpUnless_extends {condition : Node} {dst : Register} {label : String} {g g' : Generator}
    (hnodup : g.registers.reserved.Nodup) (h : jumpUnless condition dst label g = .ok () g') :
    Extends [] g g' := by
  rw [jumpUnless_eq] at h
  exact withOperands_extends (labelsIn_testCode label condition) hnodup h

theorem storeCode_labels (config : DeviceConfig) (property : String) (operands : List Operand) :
    labelsIn (storeCode config property operands) = [] := by
  cases operands <;> rfl

/-- A declaration makes its name known, and hides none. -/
theorem declaration_extends {name : String} {value : Node} {g g' : Generator}
    (hnodup : g.registers.reserved.Nodup) (h : declaration name value g = .ok () g') :
    Extends [name] g g' := by
  have hdeclares : Declares g g' := by
    have houtcome := declaration_keepsRegisters name value g hnodup
    rw [h] at houtcome
    exact houtcome
  obtain ⟨hnew, ⟨config, -, rfl⟩ | ⟨r, code, -, -, hstraight, -, rfl⟩⟩ := declaration_cases hnodup h
  · -- A device takes no code; a new name hides none that was known, since it was not known before.
    refine { hdeclares with code := List.prefix_rfl, labels := ?_, known := ?_, added := ?_ }
    · exact fun pending hapart => hapart.congr rfl rfl
    · intro other b hknown
      rw [Generator.binding?_declareDevice, if_neg]
      · exact hknown
      · intro hsame
        rw [hsame, hnew] at hknown
        cases hknown
    · intro other b hknown
      rw [Generator.binding?_declareDevice] at hknown
      split at hknown
      · next hsame => exact .inr (by simp [hsame])
      · exact .inl hknown
  · -- The code of the value is straight-line code, so that no label is placed in it.
    have hbindings := fun other =>
      Generator.binding?_declareVariable (g := (g.hold [r]).append code) hnew other r
    refine { hdeclares with code := ?_, labels := ?_, known := ?_, added := ?_ }
    · exact g.prefix_append_code code
    · intro pending hapart
      have hnone := labelsIn_of_straight hstraight
      exact (hapart.append code hnone).congr rfl rfl
    · intro other b hknown
      rw [hbindings, if_neg]
      · exact hknown
      · intro hsame
        rw [hsame, hnew] at hknown
        cases hknown
    · intro other b hknown
      rw [hbindings] at hknown
      split at hknown
      · next hsame => exact .inr (by simp [hsame])
      · exact .inl hknown

/-- An assignment makes nothing known. -/
theorem assignment_extends {name : String} {index : Option Node} {property : Option String}
    {value : Node} {dst : Register} {g g' : Generator} (hnodup : g.registers.reserved.Nodup)
    (h : assignment name index property value dst g = .ok () g') : Extends [] g g' := by
  rcases assignment_cases h with ⟨config, -, hstored⟩ | ⟨-, hstored⟩
  · obtain ⟨logicType, -, hgathered⟩ := deviceStore_cases hstored
    exact withOperands_extends (storeCode_labels config logicType) hnodup hgathered
  · obtain ⟨r, -, -, -, hcases⟩ := variableStore_cases hnodup hstored
    -- The value is moved, or computed aside and moved, or computed in place.
    rcases hcases with ⟨operand, -, rfl⟩ | ⟨t, code, -, -, hstraight, -, rfl⟩ | ⟨-, -, hcomputed⟩
    · exact (Extends.refl hnodup).append rfl
    · have hnone : labelsIn (code ++ [Instruction.move r (.register t)]) = [] := by
        rw [labelsIn_append, labelsIn_of_straight hstraight]
        rfl
      exact (Extends.refl hnodup).append hnone
    · exact expression_extends hnodup hcomputed

/-! ## Control -/

/-- A step that extends the state whenever it succeeds. -/
abbrev Extending (names : List String) (step : Gen Unit) : Prop :=
  ∀ g g' : Generator, g.registers.reserved.Nodup → step g = .ok () g' → Extends names g g'

theorem pure_extends {names : List String} : Extending names (pure ()) := by
  intro g g' hnodup h
  cases h
  exact Extends.refl hnodup

theorem loopControl_extends (kind : LoopControl) : Extending [] (loopControl kind) := by
  intro g g' hnodup h
  obtain ⟨target, -, rfl⟩ := loopControl_cases h
  exact (Extends.refl hnodup).append rfl

/-- The labels of a loop are placed before and behind what the loop adds. -/
theorem loopWith_extends {startStem endStem : String} (hisStart : LabelCounts.IsStem startStem)
    (hisEnd : LabelCounts.IsStem endStem) {test : String → Gen Unit} {body : Gen Unit}
    {names : List String} (htests : ∀ label, Extending [] (test label))
    (hadds : Extending names body) : Extending names (loopWith startStem endStem test body) := by
  intro g g' hnodup h
  obtain ⟨g₁, g₂, htested, hgenerated, rfl⟩ := loopWith_cases h
  have hfirst : Extends [] (g.entered startStem endStem) g₁ := htests _ _ _ hnodup htested
  have hsecond : Extends names g₁ g₂ := hadds _ _ hfirst.nodup hgenerated
  -- Test and body are generated one after the other, inside the loop.
  have hinside : Extends names (g.entered startStem endStem) g₂ := hfirst.trans hsecond
  have hentered : g.code.toList <+: (g.entered startStem endStem).code.toList :=
    g.prefix_append_code _
  refine ⟨?_, ?_, ?_, hinside.known, hinside.added⟩
  · exact hinside.toDeclares.congr ⟨rfl, rfl⟩ ⟨rfl, rfl⟩ (congrArg LoopStack.pop hinside.loops)
  · exact (hentered.trans hinside.code).trans (g₂.prefix_append_code _)
  · -- Both labels are made at the start; one is placed at once and the other at the end.
    intro pending hapart
    have hmade :=
      ((hapart.labelled startStem hisStart).labelled endStem hisEnd).perm (List.Perm.swap ..)
    have hplaced := hmade.place
    have hbody := hinside.labels _ (hplaced.congr rfl rfl)
    have hjumped := hbody.append [.jump (g.loopLabels startStem endStem).againTo] rfl
    exact hjumped.place.congr
      (by simp [Generator.closed, Generator.append, Generator.loopLabels]) rfl

/-- Statements add one after another. -/
theorem statements_extends {nodes : List Node} (dst : Register)
    (hadds : ∀ node ∈ nodes, Extending node.declared (statement node dst)) :
    Extending (Node.declaredInAll nodes) (statements nodes dst) := by
  induction nodes with
  | nil =>
    rw [statements]
    exact pure_extends
  | cons node rest ih =>
    intro g g' hnodup h
    rw [statements, bind_eq_ok] at h
    obtain ⟨⟨⟩, g₁, hfirst, hlater⟩ := h
    have hone := hadds node (List.mem_cons_self ..) g g₁ hnodup hfirst
    have hmore := ih (fun n hn => hadds n (List.mem_cons_of_mem _ hn)) g₁ g' hone.nodup hlater
    -- What the first one has made known is kept by the others.
    exact hone.trans hmore

theorem otherwise_extends {node : Option Node} (dst : Register)
    (hadds : ∀ n ∈ node.toList, Extending n.declared (statement n dst)) :
    Extending (Node.declaredInElse node) (otherwise node dst) := by
  cases node with
  | none =>
    rw [otherwise]
    exact pure_extends
  | some n =>
    rw [otherwise]
    exact hadds n (by simp)

/-- The labels of a choice are placed behind its branches. -/
theorem branchElse_extends {condition thenBranch : Node} {elseBranch : Option Node} {dst : Register}
    (hunknown : condition.truth? = none) (htwo : elseBranch.isSome = true)
    (haddsThen : Extending thenBranch.declared (statement thenBranch dst))
    (haddsElse : Extending (Node.declaredInElse elseBranch) (otherwise elseBranch dst)) :
    Extending (thenBranch.declared ++ Node.declaredInElse elseBranch)
      (statement (.branch condition thenBranch elseBranch) dst) := by
  intro g g' hnodup h
  obtain ⟨g₁, g₂, g₃, htested, hfirst, hsecond, rfl⟩ := branchElse_cases hunknown htwo h
  -- The test is generated behind the labels, and each branch behind what came before it.
  have htest := jumpUnless_extends (g := (g.labelled "if_else").labelled "if_end") hnodup htested
  have hone := haddsThen _ _ htest.nodup hfirst
  have hother := haddsElse (g₂.append _) g₃ hone.nodup hsecond
  have hbefore := htest.trans hone
  refine ⟨?_, ?_, ?_, ?_, ?_⟩
  · have hdeclares := (hbefore.toDeclares.append _).trans hother.toDeclares
    exact (hdeclares.congr ⟨rfl, rfl⟩ ⟨rfl, rfl⟩ hdeclares.loops)
  · exact ((hbefore.code.trans (g₂.prefix_append_code _)).trans hother.code).trans
      (g₃.prefix_append_code _)
  · intro pending hapart
    -- Both labels are made first, and then one is placed behind the first branch and the other at
    -- the end.
    have hmade := (hapart.labelled "if_else" (by decide)).labelled "if_end" (by decide)
    have hthenDone := hbefore.labels _ hmade
    have hjumped := (hthenDone.append [.jump ((g.labelled "if_else").nextLabel "if_end")] rfl).perm
      (List.Perm.swap ..)
    have hplaced := hjumped.place
    rw [Generator.append_append] at hplaced
    exact (hother.labels _ hplaced).place
  · exact fun name b hknown => hother.known name b (hbefore.known name b hknown)
  · intro name b hknown
    rcases hother.added name b hknown with hbetween | hmem
    · rcases hbefore.added name b hbetween with hearlier | hmem
      · exact .inl hearlier
      · exact .inr (List.mem_append_left _ hmem)
    · exact .inr (List.mem_append_right _ hmem)

/-- The label of a choice without another branch is placed behind the branch. -/
theorem branchOnly_extends {condition thenBranch : Node} {dst : Register}
    (hunknown : condition.truth? = none)
    (haddsThen : Extending thenBranch.declared (statement thenBranch dst)) :
    Extending thenBranch.declared (statement (.branch condition thenBranch none) dst) := by
  intro g g' hnodup h
  obtain ⟨g₁, g₂, htested, hfirst, rfl⟩ := branchOnly_cases hunknown h
  have htest := jumpUnless_extends (g := g.labelled "if") hnodup htested
  have hbefore := htest.trans (haddsThen _ _ htest.nodup hfirst)
  refine ⟨?_, ?_, ?_, hbefore.known, hbefore.added⟩
  · exact hbefore.toDeclares.congr ⟨rfl, rfl⟩ ⟨rfl, rfl⟩ hbefore.loops
  · exact hbefore.code.trans (g₂.prefix_append_code _)
  · intro pending hapart
    exact (hbefore.labels _ (hapart.labelled "if" (by decide))).place

/-- A choice adds what its branches add, or only one of them if its condition is known. -/
theorem branch_extends {condition thenBranch : Node} {elseBranch : Option Node} (dst : Register)
    (haddsThen : Extending thenBranch.declared (statement thenBranch dst))
    (haddsElse : ∀ n ∈ elseBranch.toList, Extending n.declared (statement n dst)) :
    Extending (thenBranch.declared ++ Node.declaredInElse elseBranch)
      (statement (.branch condition thenBranch elseBranch) dst) := by
  have hother := otherwise_extends dst haddsElse
  intro g g' hnodup h
  -- If the condition is known, then the other branch adds nothing, and fewer names are declared.
  cases htruth : condition.truth? with
  | some holds =>
    rw [statement, htruth] at h
    cases holds with
    | true => exact (haddsThen g g' hnodup h).mono fun _ => List.mem_append_left _
    | false => exact (hother g g' hnodup h).mono fun _ => List.mem_append_right _
  | none =>
    cases elseBranch with
    | some node => exact branchElse_extends htruth rfl haddsThen hother g g' hnodup h
    | none =>
      refine (branchOnly_extends htruth haddsThen g g' hnodup h).mono fun _ hmem => ?_
      exact List.mem_append_left _ hmem

/-- **A statement only adds**: code behind the code that is there, labels that were not made before,
    and names that were not known before. -/
theorem statement_extends (node : Node) (dst : Register) :
    Extending node.declared (statement node dst) := by
  induction node using Node.partsInduction with
  | step node ih =>
    -- Each kind of statement has its own lemma, and this is only the recursion over them.
    cases node with
    | block body =>
      rw [statement]
      exact statements_extends dst ih
    | branch condition thenBranch elseBranch =>
      exact branch_extends dst (ih thenBranch (by simp [Node.parts]))
        fun n hn => ih n (by simp only [Node.parts, List.mem_cons, hn, or_true])
    | whileLoop condition body =>
      have hadds := ih body (by simp [Node.parts])
      rw [statement]
      split
      · exact pure_extends
      · exact loopWith_extends (by decide) (by decide) (fun _ => pure_extends) hadds
      · exact loopWith_extends (by decide) (by decide) (fun _ _ _ => jumpUnless_extends) hadds
    | loop body =>
      rw [statement]
      exact loopWith_extends (by decide) (by decide) (fun _ => pure_extends)
        (ih body (by simp [Node.parts]))
    | control kind =>
      rw [statement]
      exact loopControl_extends kind
    | declare name value =>
      rw [statement]
      exact fun _ _ => declaration_extends
    | assign name index property value =>
      rw [statement]
      exact fun _ _ => assignment_extends
    | _ =>
      rw [statement]
      · exact fun _ _ => expression_extends
      all_goals simp

end Gen
end ChipScript
