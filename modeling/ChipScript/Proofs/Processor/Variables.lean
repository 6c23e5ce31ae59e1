import ChipScript.Proofs.Chip.Ownership
import ChipScript.Proofs.Processor.Condition

/-!
# What changes a variable

Once its declaration has been reached, the register of a variable is changed by its declaration and
by assignments to it, and by one thing more: code above the declaration in a loop around it
(`variable_changed_by`).  Such code was generated while the register was free, may use it for what
it computes on the way, and runs again in the next round.

The proof follows a run.  A step goes down, or back to the start of a loop around the place it
leaves (`Program.Listed.step_goes`).  So a run that has come to the declaration never comes back
above the outermost loop around it, and between there and the declaration every line is inside that
loop. -/

namespace ChipScript

/-! ## Steps and registers -/

namespace Processor

variable {P : Processor} {code : List Instruction} {r : Register} {m : Machine Float}

theorem effect_registers {s : Contents Float} {instruction : Instruction}
    (h : instruction.written? ≠ some r) : (P.effect s instruction).registers r = s.registers r := by
  have hother : ∀ {dst : Register}, some dst ≠ some r → r ≠ dst := by
    rintro dst hdiffers rfl
    exact hdiffers rfl
  -- An instruction updates the registers at its destination only, and loads and calls write to the
  -- trace besides.
  cases instruction with
  | load dst device slot property => exact Function.update_of_ne (hother h) _ _
  | function name dst arguments => exact Function.update_of_ne (hother h) _ _
  | move dst source => exact s.write_registers_of_ne _ (hother h)
  | arithmetic operator dst left right => exact s.write_registers_of_ne _ (hother h)
  | compare comparison dst left right => exact s.write_registers_of_ne _ (hother h)
  | bitwise operator dst left right => exact s.write_registers_of_ne _ (hother h)
  | select dst condition thenValue elseValue => exact s.write_registers_of_ne _ (hother h)
  | _ => rfl

theorem jumpIn_registers (name : String) : (m.jumpIn code name).registers = m.registers := by
  unfold Machine.jumpIn
  split <;> rfl

theorem moveBy_registers (offset : Int) : (m.moveBy offset).registers = m.registers := by
  unfold Machine.moveBy
  split <;> rfl

/-- A step performs the instruction at the index, or the processor stands still from then on. -/
theorem step_cases (P : Processor) (code : List Instruction) (m : Machine Float) :
    (m.status = .running ∧ ∃ instruction, code[m.index]? = some instruction ∧
      P.step code m = P.perform code m instruction) ∨
    ((P.step code m).status ≠ .running ∧ (P.step code m).registers = m.registers) := by
  unfold step
  split
  · next hrunning =>
    cases hfetched : code[m.index]? with
    | none => exact .inr ⟨Status.noConfusion, rfl⟩
    | some instruction => exact .inl ⟨hrunning, instruction, rfl, rfl⟩
  · next hstopped => exact .inr ⟨hstopped, rfl⟩

theorem perform_registers {instruction : Instruction} (h : instruction.written? ≠ some r) :
    (P.perform code m instruction).registers r = m.registers r := by
  cases instruction with
  | jump target => rw [perform, jumpIn_registers]
  | branch comparison left right target =>
    rw [perform]
    split
    · rw [jumpIn_registers]
    · rfl
  | branchRelative comparison left right offset =>
    rw [perform]
    split
    · rw [moveBy_registers]
    · rfl
  | hcf => rfl
  | _ => exact effect_registers (P := P) (s := m.contents) h

/-- A register is changed only by an instruction that writes it. -/
theorem written_of_changed (hchanged : (P.step code m).registers r ≠ m.registers r) :
    m.status = .running ∧
      ∃ instruction, code[m.index]? = some instruction ∧ instruction.written? = some r := by
  rcases step_cases P code m with ⟨hrunning, instruction, hfetched, hperforms⟩ | ⟨-, hsame⟩
  · refine ⟨hrunning, instruction, hfetched, ?_⟩
    by_contra hunwritten
    rw [hperforms] at hchanged
    exact hchanged (perform_registers hunwritten)
  · exact absurd (congrFun hsame r) hchanged

end Processor

/-! ## Places of labels -/

/-- A label stands once. -/
theorem label_unique {code : List Instruction} {name : String} {i j : Nat}
    (hdistinct : (labelsIn code).Nodup) (h : code[i]? = some (.label name))
    (h' : code[j]? = some (.label name)) : i = j := by
  obtain ⟨hbound, hi⟩ := List.getElem?_eq_some_iff.1 h
  obtain ⟨hbound', hj⟩ := List.getElem?_eq_some_iff.1 h'
  -- Of two places the upper one would bear the name of a label that comes again below.
  rw [labelsIn, List.Nodup, List.pairwise_filterMap, List.pairwise_iff_getElem] at hdistinct
  rcases Nat.lt_trichotomy i j with habove | hsame | hbelow
  · exact absurd rfl (hdistinct i j hbound hbound' habove name (by rw [hi]) name (by rw [hj]))
  · exact hsame
  · exact absurd rfl (hdistinct j i hbound' hbound hbelow name (by rw [hj]) name (by rw [hi]))

theorem labelIndex?_eq_some {code : List Instruction} {name : String} {i : Nat}
    (h : labelIndex? code name = some i) : code[i]? = some (.label name) := by
  obtain ⟨hbound, hi, -⟩ := List.findIdx?_eq_some_iff_getElem.1 h
  rw [List.getElem?_eq_getElem hbound, of_decide_eq_true hi]

/-! ## Directions -/

namespace Program.Listed

variable {program : Program} {lines : List Line} {final : Generator} {P : Processor}
  {m : Machine Float}

/-- A line is found where its label is. -/
theorem index_of_label (hlisting : program.Listed lines final) {name : String} {i j : Nat}
    {line : Line} (hfound : lines[i]? = some line) (hlabel : line.instruction = .label name)
    (h : labelIndex? (lines.map (·.instruction)) name = some j) : j = i := by
  refine label_unique hlisting.labels_nodup (labelIndex?_eq_some h) ?_
  rw [List.getElem?_map, hfound, Option.map_some, hlabel]

/-- Jumps lead down, or to the start of a loop around them. -/
theorem jump_goes (hlisting : program.Listed lines final) {line : Line} {target : String}
    (hfound : lines[m.index]? = some line) (hgoes : line.instruction.target? = some target)
    (hrunning : (m.jumpIn (lines.map (·.instruction)) target).status = .running) :
    m.index < (m.jumpIn (lines.map (·.instruction)) target).index ∨
    ∃ e outer last,
      LoopLines lines e outer (m.jumpIn (lines.map (·.instruction)) target).index last ∧
      (m.jumpIn (lines.map (·.instruction)) target).index ≤ m.index ∧ m.index ≤ last := by
  unfold Machine.jumpIn at hrunning ⊢
  split
  · next j hindex =>
    obtain ⟨scratch, hlists⟩ := id hlisting
    have hwithin : (Generator.empty.hold [scratch]).Within [] := ⟨List.nodup_singleton _, rfl⟩
    rcases hlists.directed hwithin m.index line target hfound hgoes with
      ⟨i, below, hdown, hi, hlabel⟩ | ⟨e, haround, rfl⟩ | hopen
    · -- A label further down, of the same statement or of a loop that is left.
      rw [hlisting.index_of_label hi hlabel hindex]
      exact .inl hdown
    · -- The start of a loop around the line.
      obtain ⟨inner, hsplit, hloops⟩ := hlists.enclosed m.index line hfound
      rw [hsplit, List.append_nil] at haround
      obtain ⟨innermost, outer, rfl⟩ := List.append_of_mem haround
      obtain ⟨first, last, habove, hbelow, hloop⟩ := hloops innermost e outer rfl
      rw [hlisting.index_of_label hloop.start rfl hindex]
      exact .inr ⟨e, outer ++ [], last, hloop, habove, hbelow⟩
    · cases hopen
  · -- A jump to a label that is not there would stop the run.
    next hlost =>
    rw [hlost] at hrunning
    cases hrunning

/-- **A step goes down, or back to the start of a loop around the place that it leaves.** -/
theorem step_goes (hlisting : program.Listed lines final)
    (hrunning : (P.step (lines.map (·.instruction)) m).status = .running) :
    m.index < (P.step (lines.map (·.instruction)) m).index ∨
    ∃ e outer last,
      LoopLines lines e outer (P.step (lines.map (·.instruction)) m).index last ∧
      (P.step (lines.map (·.instruction)) m).index ≤ m.index ∧ m.index ≤ last := by
  rcases Processor.step_cases P (lines.map (·.instruction)) m with
    ⟨-, instruction, hfetched, hperforms⟩ | ⟨hstopped, -⟩
  · rw [hperforms] at hrunning ⊢
    rw [List.getElem?_map, Option.map_eq_some_iff] at hfetched
    obtain ⟨line, hfound, rfl⟩ := hfetched
    cases hform : line.instruction with
    | jump target =>
      rw [hform] at hrunning
      exact hlisting.jump_goes hfound (by rw [hform]; rfl) hrunning
    | branch comparison left right target =>
      rw [hform] at hrunning
      rw [Processor.perform] at hrunning ⊢
      split at hrunning
      · next hholds =>
        rw [if_pos hholds]
        exact hlisting.jump_goes hfound (by rw [hform]; rfl) hrunning
      · next hfails =>
        rw [if_neg hfails]
        exact .inl (Nat.lt_succ_self _)
    | branchRelative comparison left right offset =>
      -- The test of a disjunction stands below its branches.
      obtain ⟨scratch, hlists⟩ := id hlisting
      obtain ⟨k, -, hplace, hgoes, -⟩ :=
        hlists.skips (List.nodup_singleton _) m.index line comparison
        left right offset hfound hform
      left
      rw [Processor.perform]
      split
      · have hforward : 0 ≤ (m.index : Int) + offset := by omega
        simp only [Machine.moveBy, if_pos hforward]
        omega
      · exact Nat.lt_succ_self _
    | hcf =>
      rw [hform] at hrunning
      cases hrunning
    | _ => exact .inl (Nat.lt_succ_self _)
  · exact absurd hrunning hstopped

/-! ## Loops around a place -/

/-- A place that no loop reaches from above: no loop is around it, or it is the start of one that is
    in no other loop. -/
def Outermost (lines : List Line) (start : Nat) : Prop :=
  (∃ line, lines[start]? = some line ∧ line.loops = []) ∨ ∃ e last, LoopLines lines e [] start last

/-- A loop around a place below starts below as well. -/
theorem start_le_first (hlisting : program.Listed lines final) {start i : Nat}
    (houtermost : Outermost lines start) (hbelow : start ≤ i) {e : Enclosing}
    {outer : List Enclosing} {first last : Nat} (hloop : LoopLines lines e outer first last)
    (hinside : i ≤ last) : start ≤ first := by
  by_contra habove
  -- Otherwise the place is inside the loop, and not at its start.
  obtain ⟨line, inner, hfound, hloops⟩ := hloop.inside start (by omega) (by omega)
  rcases houtermost with ⟨line', hfound', hnone⟩ | ⟨e', last', hloop'⟩
  · obtain rfl := Option.some.inj (hfound.symm.trans hfound')
    rw [hnone] at hloops
    simp at hloops
  · obtain rfl := Option.some.inj (hfound.symm.trans hloop'.start)
    -- The only loop around the start is the one that begins there.
    have hsame : inner = [] ∧ e = e' := by
      cases inner with
      | nil => simpa [eq_comm] using (List.cons.inj hloops).1
      | cons head tail => simp at hloops
    obtain ⟨rfl, rfl⟩ := hsame
    have hhere : (lines.map (·.instruction))[start]? = some (.label e.labels.againTo) := by
      rw [List.getElem?_map, hloop'.start]
      rfl
    have hthere : (lines.map (·.instruction))[first]? = some (.label e.labels.againTo) := by
      rw [List.getElem?_map, hloop.start]
      rfl
    have := label_unique hlisting.labels_nodup hhere hthere
    omega

/-- **A run does not come back above the outermost loop around a place that it has reached.** -/
theorem start_le_after (hlisting : program.Listed lines final) {start : Nat}
    (houtermost : Outermost lines start) (steps : Nat) (hreached : start ≤ m.index)
    (hrunning : (P.after (lines.map (·.instruction)) steps m).status = .running) :
    start ≤ (P.after (lines.map (·.instruction)) steps m).index := by
  induction steps with
  | zero => exact hreached
  | succ steps ih =>
    rw [Processor.after_succ] at hrunning ⊢
    -- The run was going on before its last step, for what has stopped stays so.
    have hbefore : start ≤ (P.after (lines.map (·.instruction)) steps m).index := by
      rcases Processor.step_cases P (lines.map (·.instruction))
        (P.after (lines.map (·.instruction)) steps m) with ⟨hearlier, -⟩ | ⟨hstopped, -⟩
      · exact ih hearlier
      · exact absurd hrunning hstopped
    rcases hlisting.step_goes hrunning with hdown | ⟨e, outer, last, hloop, -, hinside⟩
    · exact hbefore.trans (Nat.le_of_lt hdown)
    · exact hlisting.start_le_first houtermost hbefore hloop hinside

/-- The outermost loop around a line, if there is one, or else the line itself. -/
theorem exists_outermost (hlisting : program.Listed lines final) {d : Nat} {line : Line}
    (hfound : lines[d]? = some line) :
    ∃ start, Outermost lines start ∧ start ≤ d ∧ (start = d ∨
      ∃ e ∈ line.loops, ∃ last, d ≤ last ∧ LoopLines lines e [] start last) := by
  obtain ⟨scratch, hlists⟩ := hlisting
  obtain ⟨inner, hsplit, hloops⟩ := hlists.enclosed d line hfound
  rw [List.append_nil] at hsplit
  rcases List.eq_nil_or_concat inner with rfl | ⟨innermost, e, rfl⟩
  · exact ⟨d, .inl ⟨line, hfound, hsplit⟩, Nat.le_refl d, .inl rfl⟩
  · obtain ⟨first, last, habove, hbelow, hloop⟩ := hloops innermost e [] (by simp)
    refine ⟨first, .inr ⟨e, last, hloop⟩, habove, .inr ⟨e, ?_, last, hbelow, hloop⟩⟩
    rw [hsplit]
    simp

/-! ## Variables -/

/-- When a run has come to the declaration of a variable, a line that changes the register of the
    variable is one of the declaration or of an assignment, or it is above the declaration in a loop
    around it. -/
theorem changed_by (hlisting : program.Listed lines final) {x : String} {r : Register}
    (hknown : final.binding? x = some (.register r)) {declaration : Line}
    (hdeclares : declaration.Declares x) (hreached : lines[m.index]? = some declaration)
    (steps : Nat)
    (hchanged : (P.after (lines.map (·.instruction)) (steps + 1) m).registers r ≠
      (P.after (lines.map (·.instruction)) steps m).registers r) :
    ∃ line, lines[(P.after (lines.map (·.instruction)) steps m).index]? = some line ∧
      line.instruction.written? = some r ∧
      (line.Declares x ∨ line.Assigns x ∨
        (P.after (lines.map (·.instruction)) steps m).index < m.index ∧
          ∃ e ∈ line.loops, e ∈ declaration.loops) := by
  -- A line has been run that writes the register.
  rw [Processor.after_succ] at hchanged
  obtain ⟨hrunning, instruction, hfetched, hwritten⟩ := Processor.written_of_changed hchanged
  rw [List.getElem?_map, Option.map_eq_some_iff] at hfetched
  obtain ⟨line, hfound, rfl⟩ := hfetched
  refine ⟨line, hfound, hwritten, ?_⟩
  refine (hlisting.own_or_above hknown hfound hwritten).imp_right (.imp_right fun habove => ?_)
  have hbefore := habove m.index declaration hreached hdeclares
  refine ⟨hbefore, ?_⟩
  -- The run is between the start of the outermost loop around the declaration and the declaration.
  obtain ⟨start, houtermost, hreaches, hplace⟩ := hlisting.exists_outermost hreached
  have hbehind := hlisting.start_le_after houtermost steps hreaches hrunning
  rcases hplace with hsame | ⟨e, haround, last, hbelow, hloop⟩
  · omega
  · obtain ⟨line', inner, hfound', hloops⟩ := hloop.inside _ hbehind (by omega)
    obtain rfl := Option.some.inj (hfound.symm.trans hfound')
    exact ⟨e, by simp [hloops], haround⟩

end Program.Listed

/-- **What changes a variable.**  The code of a script has a listing, and in every listing of it:
    when a run has come to the declaration of a variable, the register of the variable is changed
    after that by lines of the declaration, by lines of assignments to the variable, and by lines
    above the declaration that share a loop with it. -/
theorem variable_changed_by {program : Program} {code : List Instruction}
    (hgenerated : program.code = .ok code) :
    (∃ lines final, program.Listed lines final ∧ lines.map (·.instruction) = code) ∧
    ∀ lines final, program.Listed lines final → lines.map (·.instruction) = code →
      ∀ (x : String) (r : Register), final.binding? x = some (.register r) →
      ∀ (P : Processor) (m : Machine Float) (declaration : Line), declaration.Declares x →
      lines[m.index]? = some declaration → ∀ steps : Nat,
      (P.after code (steps + 1) m).registers r ≠ (P.after code steps m).registers r →
      ∃ line, lines[(P.after code steps m).index]? = some line ∧
        line.instruction.written? = some r ∧
        (line.Declares x ∨ line.Assigns x ∨
          (P.after code steps m).index < m.index ∧ ∃ e ∈ line.loops, e ∈ declaration.loops) := by
  refine ⟨Program.Listed.exists_of_code hgenerated, ?_⟩
  rintro lines final hlisting rfl x r hknown P m declaration hdeclares hreached steps hchanged
  exact hlisting.changed_by hknown hdeclares hreached steps hchanged

/-! ## A variable that is overwritten -/

/-- The device that the script reads. -/
def sensor : DeviceConfig := ⟨"StructureGasSensor", .pin "d0"⟩

/-- A load from the device `p`. -/
def loadOf (property : String) : Node := .read "p" none (some property)

/-- The sum of a load and of as many more, from the right. -/
def sumOfLoads : Nat → Node
  | 0 => loadOf "A"
  | more + 1 => .arithmetic .add (loadOf "A") (sumOfLoads more)

/-- The code for the sum of sixteen loads, which takes all registers. -/
def sumCode : List Instruction :=
  (List.range 16).map (fun i => .load ⟨i⟩ (.pin "d0") none "A") ++
    (List.range 15).map (fun i =>
      .arithmetic .add ⟨14 - i⟩ (.register ⟨14 - i⟩) (.register ⟨15 - i⟩))

/-- A declaration of `x` where a condition holds. -/
def lateDeclaration : Node :=
  .branch (loadOf "C") (.block [.declare "x" (.number "5")]) none

def storeOfX : Node := .assign "p" none (some "S") (.read "x" none none)

/-- A loop whose test takes all registers, with the declaration of `x` in its body. -/
def crowdedLoop : Node :=
  .whileLoop (sumOfLoads 15) (.block [lateDeclaration, storeOfX])

def crowdedScript : Program := [.declare "p" (.device sensor), crowdedLoop]

/-- The loop with the labels of its code. -/
def crowdedRound : Enclosing := ⟨crowdedLoop, ⟨"while_end001", "while_start001"⟩⟩

def roundTestCode : List Instruction :=
  sumCode ++ [.branch .less (.register ⟨0⟩) Gen.one "while_end001"]

def crowdedLines : List Line :=
  listed crowdedLoop [crowdedRound] (.label "while_start001" :: roundTestCode) ++
    (listed lateDeclaration [crowdedRound]
      [.load ⟨0⟩ (.pin "d0") none "C", .branch .less (.register ⟨0⟩) Gen.one "if001"] ++
    listed (.declare "x" (.number "5")) [crowdedRound] [.move ⟨15⟩ (.immediate "5")] ++
    listed lateDeclaration [crowdedRound] [.label "if001"] ++
    listed storeOfX [crowdedRound] [.store (.pin "d0") none "S" (.register ⟨15⟩)]) ++
    listed crowdedLoop [crowdedRound] [.jump "while_start001", .label "while_end001"]

/-- The state before the loop. -/
def beforeLoop : Generator :=
  (Generator.empty.hold [⟨0⟩]).declareDevice "p" sensor

/-- The state before its body. -/
def beforeBody : Generator :=
  (beforeLoop.entered "while_start" "while_end").append roundTestCode

def behindTest : Generator :=
  (beforeBody.labelled "if").append
    [.load ⟨0⟩ (.pin "d0") none "C", .branch .less (.register ⟨0⟩) Gen.one "if001"]

/-- The state behind the declaration: `x` has the highest register. -/
def behindDeclaration : Generator :=
  ((behindTest.hold [⟨15⟩]).append [.move ⟨15⟩ (.immediate "5")]).declareVariable "x" ⟨15⟩

def behindBody : Generator :=
  (behindDeclaration.append [.label "if001"]).append
    [.store (.pin "d0") none "S" (.register ⟨15⟩)]

/-- The state behind the loop. -/
def behindLoop : Generator :=
  behindBody.closed crowdedRound.labels

/-- A condition that is computed is tested in the register that it is computed into. -/
theorem jumpUnless_arithmetic {operator : Arithmetic} {left right : Node} {dst : Register}
    {label : String} {g g' : Generator}
    (hcomputed : Gen.expression (.arithmetic operator left right) dst g = .ok () g') :
    Gen.jumpUnless (.arithmetic operator left right) dst label g =
      .ok () (g'.append [.branch .less (.register dst) Gen.one label]) := by
  have hasked : Gen.query (·.operand? (.arithmetic operator left right)) g = .ok none g :=
    Gen.query_eq_ok.2 ⟨rfl, rfl⟩
  have hmade : Gen.materialize (.arithmetic operator left right)
      (Gen.expression (.arithmetic operator left right)) dst g = .ok (.register dst) g' := by
    rw [Gen.materialize, bind_apply hasked]
    exact bind_apply hcomputed
  rw [Gen.jumpUnless, bind_apply hmade, Gen.emit_apply]
  all_goals simp

theorem expression_sumOfLoads :
    Gen.expression (sumOfLoads 15) ⟨0⟩ (beforeLoop.entered "while_start" "while_end") =
      .ok () ((beforeLoop.entered "while_start" "while_end").append sumCode) := by
  cbv

theorem roundTest_sumOfLoads :
    Gen.roundTest (some (sumOfLoads 15)) ⟨0⟩ "while_end001"
      (beforeLoop.entered "while_start" "while_end") = .ok () beforeBody := by
  refine Eq.trans (jumpUnless_arithmetic expression_sumOfLoads) ?_
  rw [Generator.append_append]
  rfl

theorem crowdedScript_listed : crowdedScript.Listed crowdedLines behindLoop := by
  -- The lines are listed from the inside outwards, as the generator has made them.
  have hdeclaration : Gen.Lists ⟨0⟩ [crowdedRound] (.block [.declare "x" (.number "5")]) behindTest
      behindDeclaration (listed (.declare "x" (.number "5")) [crowdedRound]
        [.move ⟨15⟩ (.immediate "5")] ++ []) :=
    .next (.simple rfl rfl rfl) .done
  have hbranch : Gen.Lists ⟨0⟩ [crowdedRound] lateDeclaration beforeBody _ _ :=
    .only rfl rfl hdeclaration
  have hstore : Gen.Lists ⟨0⟩ [crowdedRound] storeOfX
      (behindDeclaration.append [.label "if001"]) behindBody
      (listed storeOfX [crowdedRound] [.store (.pin "d0") none "S" (.register ⟨15⟩)]) :=
    .simple rfl rfl rfl
  have hbody : Gen.Lists ⟨0⟩ [crowdedRound] (.block [lateDeclaration, storeOfX]) beforeBody
      behindBody _ := .next hbranch (.next hstore .done)
  have hloop : Gen.Lists ⟨0⟩ [] crowdedLoop beforeLoop behindLoop _ :=
    .repeats (.tested _ rfl) roundTest_sumOfLoads hbody
  have hwhole : Gen.Lists ⟨0⟩ [] (.block crowdedScript) (Generator.empty.hold [⟨0⟩]) behindLoop
      (listed (.declare "p" (.device sensor)) [] [] ++ (_ ++ [])) :=
    .next (.simple rfl rfl (List.append_nil _).symm) (.next hloop .done)
  exact ⟨⟨0⟩, hwhole⟩

theorem crowdedScript_code : crowdedScript.code = .ok (crowdedLines.map (·.instruction)) := by
  cbv

/-- A chip in a world where every answer is one. -/
def Processor.steady : Processor := { Processor.idle with world := fun _ _ => 1.0 }

/-- The run of the script in that world, from registers that are all zero. -/
def crowdedRun (steps : Nat) : Machine Float :=
  Processor.steady.after (crowdedLines.map (·.instruction)) steps (.initial fun _ => 0.0)

/-- The line of the declaration. -/
def declarationLine : Line :=
  ⟨.move ⟨15⟩ (.immediate "5"), .declare "x" (.number "5"), [crowdedRound]⟩

theorem crowdedRun_reaches : crowdedLines[(crowdedRun 35).index]? = some declarationLine := by
  have hindex : (crowdedRun 35).index = 35 := by decide +kernel
  rw [hindex]
  rfl

theorem crowdedRun_changes :
    (crowdedRun 56).registers ⟨15⟩ ≠ (crowdedRun 55).registers ⟨15⟩ := by
  decide +kernel

theorem variable_changed_by_crowdedRun :
    crowdedScript.code = .ok (crowdedLines.map (·.instruction)) ∧
    crowdedScript.Listed crowdedLines behindLoop ∧
    behindLoop.binding? "x" = some (.register ⟨15⟩) ∧ declarationLine.Declares "x" ∧
    crowdedLines[(crowdedRun 35).index]? = some declarationLine ∧
    (crowdedRun 56).registers ⟨15⟩ ≠ (crowdedRun 55).registers ⟨15⟩ ∧
    ∃ line, crowdedLines[(crowdedRun 55).index]? = some line ∧
      line.instruction.written? = some ⟨15⟩ ∧
      (line.Declares "x" ∨ line.Assigns "x" ∨ (crowdedRun 55).index < (crowdedRun 35).index ∧
        ∃ e ∈ line.loops, e ∈ declarationLine.loops) := by
  have hdeclares : declarationLine.Declares "x" := ⟨_, rfl⟩
  have hat55 : Processor.steady.after (crowdedLines.map (·.instruction)) 20 (crowdedRun 35) =
      crowdedRun 55 := (Processor.after_add 35 20 _).symm
  have hat56 : Processor.steady.after (crowdedLines.map (·.instruction)) (20 + 1) (crowdedRun 35) =
      crowdedRun 56 := (Processor.after_add 35 21 _).symm
  obtain ⟨-, hchanges⟩ := variable_changed_by crowdedScript_code
  have hfound := hchanges crowdedLines behindLoop crowdedScript_listed rfl "x" ⟨15⟩ rfl
    Processor.steady (crowdedRun 35) declarationLine hdeclares crowdedRun_reaches 20
    (by rw [hat56, hat55]; exact crowdedRun_changes)
  rw [hat55] at hfound
  exact ⟨crowdedScript_code, crowdedScript_listed, rfl, hdeclares, crowdedRun_reaches,
    crowdedRun_changes, hfound⟩

/-- The declaration of `x` has been run, and then the test of the next round changes `x`: an
    instruction that belongs neither to the declaration nor to an assignment. -/
theorem declared_variable_overwritten :
    crowdedScript.code = .ok (crowdedLines.map (·.instruction)) ∧
    crowdedScript.Listed crowdedLines behindLoop ∧
    behindLoop.binding? "x" = some (.register ⟨15⟩) ∧
    crowdedLines[(crowdedRun 35).index]? = some declarationLine ∧ declarationLine.Declares "x" ∧
    (crowdedRun 56).registers ⟨15⟩ ≠ (crowdedRun 55).registers ⟨15⟩ ∧
    ∃ line, crowdedLines[(crowdedRun 55).index]? = some line ∧
      ¬ line.Declares "x" ∧ ¬ line.Assigns "x" := by
  refine ⟨crowdedScript_code, crowdedScript_listed, rfl, crowdedRun_reaches, ⟨_, rfl⟩,
    crowdedRun_changes, ?_⟩
  have hindex : (crowdedRun 55).index = 16 := by decide +kernel
  rw [hindex]
  refine ⟨⟨.load ⟨15⟩ (.pin "d0") none "A", crowdedLoop, [crowdedRound]⟩, rfl, ?_, ?_⟩
  · rintro ⟨value, hsame⟩
    cases hsame
  · rintro ⟨value, hsame⟩
    cases hsame

end ChipScript
