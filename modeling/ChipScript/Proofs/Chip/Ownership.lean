import ChipScript.Proofs.Chip.Jumps
import ChipScript.Proofs.Refinement.Run

/-!
# Which lines write the register of a variable

A variable has its register from its declaration on.  Behind the declaration only assignments to the
variable write the register; above it the register is free, and code for other statements may use it
for what they compute on the way.  So every line that writes the register belongs to the declaration
or to an assignment, or it stands above the declaration (`Program.Listed.own_or_above`).

"Above" is a matter of the listing, not of the run: a loop around both lines runs the upper one
again after the lower one.
-/

namespace ChipScript

/-- A line of the declaration of a variable. -/
def Line.Declares (line : Line) (x : String) : Prop :=
  ∃ value, line.origin = .declare x value

/-- A line of an assignment to a variable. -/
def Line.Assigns (line : Line) (x : String) : Prop :=
  ∃ value, line.origin = .assign x none none value

/-- What the lines between two states of generation do to the register of a variable. -/
structure Owns (x : String) (r : Register) (g g' : Generator) (lines : List Line) : Prop where
  known : ∀ b, g.binding? x = some b → g'.binding? x = some b
  /-- A declaration makes the variable known, which was unknown. -/
  declared : ∀ line ∈ lines, line.Declares x → g.binding? x = none ∧ g'.binding? x ≠ none
  /-- Where the variable is known from the start, its register is written by assignments only. -/
  assigned : g.binding? x = some (.register r) → ∀ line ∈ lines,
    line.instruction.written? = some r → line.Assigns x
  /-- Where it is known at the end, other writers of the register are above the declaration. -/
  above : g'.binding? x = some (.register r) → ∀ (i : Nat) (line : Line), lines[i]? = some line →
    line.instruction.written? = some r → line.Declares x ∨ line.Assigns x ∨
      ∀ (j : Nat) (other : Line), lines[j]? = some other → other.Declares x → i < j

namespace Owns

variable {x : String} {r : Register} {g g₁ g₂ g' : Generator} {lines more : List Line}

/-- Lines that make nothing known and do not write the register. -/
theorem of_quiet (hsame : g'.binding? x = g.binding? x)
    (hother : ∀ line ∈ lines, ¬ line.Declares x)
    (hspared : g.binding? x = some (.register r) → ∀ line ∈ lines,
      line.instruction.written? ≠ some r) : Owns x r g g' lines where
  known := fun b hknown => hsame.trans hknown
  declared := fun line hmem hdeclares => absurd hdeclares (hother line hmem)
  assigned := fun hknown line hmem hwritten => absurd hwritten (hspared hknown line hmem)
  above := by
    intro hknown i line hfound hwritten
    exact absurd hwritten (hspared (hsame.symm.trans hknown) line (List.mem_of_getElem? hfound))

/-- **One piece of a listing after another.** -/
theorem append (hfirst : Owns x r g g₁ lines) (hsecond : Owns x r g₁ g₂ more) :
    Owns x r g g₂ (lines ++ more) where
  known := fun b hknown => hsecond.known b (hfirst.known b hknown)
  declared := by
    intro line hmem hdeclares
    rcases List.mem_append.1 hmem with hmem | hmem
    · obtain ⟨hunknown, hlater⟩ := hfirst.declared line hmem hdeclares
      obtain ⟨b, hknown⟩ := Option.ne_none_iff_exists'.1 hlater
      rw [hsecond.known b hknown]
      exact ⟨hunknown, Option.some_ne_none b⟩
    · obtain ⟨hunknown, hlater⟩ := hsecond.declared line hmem hdeclares
      refine ⟨?_, hlater⟩
      by_contra hknown
      obtain ⟨b, hknown⟩ := Option.ne_none_iff_exists'.1 hknown
      rw [hfirst.known b hknown] at hunknown
      cases hunknown
  assigned := by
    intro hknown line hmem hwritten
    rcases List.mem_append.1 hmem with hmem | hmem
    · exact hfirst.assigned hknown line hmem hwritten
    · exact hsecond.assigned (hfirst.known _ hknown) line hmem hwritten
  above := by
    intro hknown i line hfound hwritten
    -- The declaration is in the first piece if the variable is known between the two.
    cases hbetween : g₁.binding? x with
    | none =>
      have hundeclared : ∀ other ∈ lines, ¬ other.Declares x := fun other hmem hdeclares =>
        (hfirst.declared other hmem hdeclares).2 hbetween
      rcases getElem?_append_some hfound with hbefore | ⟨k, rfl, hbehind⟩
      · have hbound : i < lines.length := (List.getElem?_eq_some_iff.1 hbefore).1
        refine .inr (.inr fun j other hfound' hdeclares => ?_)
        rcases getElem?_append_some hfound' with hbefore' | ⟨k', rfl, -⟩
        · exact absurd hdeclares (hundeclared other (List.mem_of_getElem? hbefore'))
        · omega
      · refine (hsecond.above hknown k line hbehind hwritten).imp_right
          (.imp_right fun habove => ?_)
        intro j other hfound' hdeclares
        rcases getElem?_append_some hfound' with hbefore' | ⟨k', rfl, hbehind'⟩
        · exact absurd hdeclares (hundeclared other (List.mem_of_getElem? hbefore'))
        · have := habove k' other hbehind' hdeclares
          omega
    | some b =>
      have hsame : b = .register r := Option.some.inj ((hsecond.known b hbetween).symm.trans hknown)
      rw [hsame] at hbetween
      rcases getElem?_append_some hfound with hbefore | ⟨k, rfl, hbehind⟩
      · refine (hfirst.above hbetween i line hbefore hwritten).imp_right
          (.imp_right fun habove => ?_)
        intro j other hfound' hdeclares
        rcases getElem?_append_some hfound' with hbefore' | ⟨k', rfl, hbehind'⟩
        · exact habove j other hbefore' hdeclares
        · have hunknown := (hsecond.declared other (List.mem_of_getElem? hbehind') hdeclares).1
          rw [hbetween] at hunknown
          cases hunknown
      · exact .inr (.inl (hsecond.assigned hbetween line (List.mem_of_getElem? hbehind) hwritten))

end Owns

/-! ## Pieces of listings -/

namespace Gen

variable {dst r : Register} {g g' : Generator} {x : String} {loops : List Enclosing} {node : Node}

/-- The register of a variable is in use and is not the one that statements may use. -/
theorem owned_register (hready : g.Ready dst) (hknown : g.binding? x = some (.register r)) :
    r ∈ g.registers.reserved ∧ r ≠ dst := by
  refine ⟨hready.disciplined.mem_reserved hknown, ?_⟩
  rintro rfl
  exact hready.scratch (Generator.mem_owned hknown)

/-- Labels, jumps and branches write no register. -/
theorem owns_unwritten (hsame : g'.binding? x = g.binding? x) {code : List Instruction}
    (hcompound : node.isSimple = false)
    (hunwritten : ∀ instruction ∈ code, instruction.written? = none) :
    Owns x r g g' (listed node loops code) := by
  refine .of_quiet hsame ?_ ?_
  · rintro line hmem ⟨value, hdeclares⟩
    rw [← (mem_listed.1 hmem).2.1, hdeclares] at hcompound
    cases hcompound
  · intro _ line hmem hwritten
    rw [hunwritten _ (mem_listed.1 hmem).1] at hwritten
    cases hwritten

/-- A test writes the register that it may use, and free ones. -/
theorem owns_test (g₀ : Generator) (node : Node) (loops : List Enclosing) (hready : g.Ready dst)
    (hsame : g.binding? x = g₀.binding? x) {condition : Node} {label : String}
    {test : List Instruction} (hcompound : node.isSimple = false)
    (h : jumpUnless condition dst label g = .ok () (g.append test)) :
    Owns x r g₀ (g.append test) (listed node loops test) := by
  obtain ⟨operands, code, -, hcomputes, rfl⟩ := jumpUnless_test hready.disciplined.nodup h
  refine .of_quiet hsame ?_ ?_
  · rintro line hmem ⟨value, hdeclares⟩
    rw [← (mem_listed.1 hmem).2.1, hdeclares] at hcompound
    cases hcompound
  · intro hknown line hmem hwritten
    -- What gathers the operands writes free registers, and the branches write none.
    obtain ⟨hused, hother⟩ := owned_register hready (hsame.trans hknown)
    rcases List.mem_append.1 (mem_listed.1 hmem).1 with hcomputed | htested
    · exact ((hcomputes _ hcomputed).within r hwritten).elim hother fun hfree => hfree hused
    · rcases mem_testCode htested with ⟨comparison, a, b, hsame⟩ |
      ⟨-, ⟨a, offset, hsame⟩ | hsame⟩ <;>
        rw [hsame] at hwritten <;> cases hwritten

theorem owns_roundTest (hready : g.Ready dst) {condition : Option Node} {label : String}
    {test : List Instruction} (hcompound : node.isSimple = false)
    (h : roundTest condition dst label g = .ok () (g.append test)) :
    Owns x r g (g.append test) (listed node loops test) := by
  cases condition with
  | none =>
    obtain rfl := roundTest_none h
    exact owns_unwritten rfl hcompound (by simp)
  | some condition => exact owns_test g node loops hready rfl hcompound h

/-- What is known of a name stays as it is where the name is not declared. -/
theorem binding?_of_undeclared {names : List String} (hmore : Extends names g g')
    (hother : x ∉ names) :
    g'.binding? x = g.binding? x := by
  cases hknown : g.binding? x with
  | some b => exact hmore.known x b hknown
  | none =>
    by_contra hlater
    obtain ⟨b, hlater⟩ := Option.ne_none_iff_exists'.1 hlater
    rcases hmore.added x b hlater with hbefore | hmem
    · rw [hknown] at hbefore
      cases hbefore
    · exact hother hmem

theorem declared_of_simple (hsimple : node.isSimple = true) :
    x ∈ node.declared → ∃ value, node = .declare x value := by
  intro hmem
  cases node with
  | declare name value =>
    obtain rfl := List.mem_singleton.1 hmem
    exact ⟨value, rfl⟩
  | block _ | branch _ _ _ | whileLoop _ _ | loop _ => cases hsimple
  | _ => cases hmem

/-- A declaration makes its name known, which was unknown. -/
theorem binding?_of_declaration {value : Node} (hnodup : g.registers.reserved.Nodup)
    (h : declaration x value g = .ok () g') : g.binding? x = none ∧ g'.binding? x ≠ none := by
  obtain ⟨hunknown, ⟨config, -, rfl⟩ | ⟨register, code, -, -, -, -, rfl⟩⟩ :=
    declaration_cases hnodup h
  · refine ⟨hunknown, ?_⟩
    rw [Generator.binding?_declareDevice, if_pos rfl]
    exact Option.some_ne_none _
  · refine ⟨hunknown, ?_⟩
    have hunknown' : ((g.hold [register]).append code).binding? x = none := hunknown
    rw [Generator.binding?_declareVariable hunknown', if_pos rfl]
    exact Option.some_ne_none _

/-- A statement without parts writes the register of a variable to declare it or to assign to it. -/
theorem owns_simple (hready : g.Ready dst) (hsimple : node.isSimple = true)
    {code : List Instruction}
    (h : statement node dst g = .ok () g') (hadded : g'.code.toList = g.code.toList ++ code) :
    Owns x r g g' (listed node loops code) := by
  have hnodup := hready.disciplined.nodup
  have hmore := statement_extends node dst g g' hnodup h
  by_cases hdeclares : ∃ value, node = .declare x value
  · -- All lines are lines of the declaration.
    obtain ⟨value, rfl⟩ := hdeclares
    obtain ⟨hunknown, hlater⟩ := binding?_of_declaration hnodup h
    have hown : ∀ line ∈ listed (.declare x value) loops code, line.Declares x := fun line hmem =>
      ⟨value, (mem_listed.1 hmem).2.1⟩
    refine ⟨hmore.known x, fun _ _ _ => ⟨hunknown, hlater⟩, ?_, ?_⟩
    · intro hknown
      rw [hunknown] at hknown
      cases hknown
    · intro _ i line hfound _
      exact .inl (hown line (List.mem_of_getElem? hfound))
  · have hsame := binding?_of_undeclared hmore
      fun hmem => hdeclares (declared_of_simple hsimple hmem)
    have hother : ∀ line ∈ listed node loops code, ¬ line.Declares x := by
      rintro line hmem ⟨value, horigin⟩
      exact hdeclares ⟨value, (mem_listed.1 hmem).2.1.symm.trans horigin⟩
    have hassigned : g.binding? x = some (.register r) → ∀ line ∈ listed node loops code,
        line.instruction.written? = some r → line.Assigns x := by
      intro hknown line hmem hwritten
      obtain ⟨hplaced, horigin, -⟩ := mem_listed.1 hmem
      obtain ⟨hused, hunused⟩ := owned_register hready hknown
      by_cases hcontrol : ∃ kind, node = .control kind
      · obtain ⟨kind, rfl⟩ := hcontrol
        obtain ⟨target, -, rfl⟩ := control_code h hadded
        rw [List.mem_singleton.1 hplaced] at hwritten
        cases hwritten
      · have hbelongs :=
          (simple_belongs hsimple (by simpa using hcontrol) hnodup h).of_append hadded
        rcases (hbelongs _ hplaced).within r hused hwritten with hsame | ⟨name, value, rfl, hknown'⟩
        · exact absurd hsame hunused
        · -- No other variable has this register.
          obtain rfl := hready.disciplined.binding?_inj hknown hknown'
          exact ⟨value, horigin⟩
    refine ⟨hmore.known x, fun line hmem hdeclares => absurd hdeclares (hother line hmem),
      hassigned, ?_⟩
    intro hknown i line hfound hwritten
    exact .inr (.inl
      (hassigned (hsame.symm.trans hknown) line (List.mem_of_getElem? hfound) hwritten))

/-- **Who writes the register of a variable.** -/
theorem Lists.owns {lines : List Line} (h : Lists dst loops node g g' lines)
    (hready : g.Ready dst) : Owns x r g g' lines := by
  -- The register that statements may use is no variable's at the start of each piece, and the
  -- pieces are put together with `Owns.append`.
  induction h with
  | done => exact .of_quiet rfl (by simp) (by simp)
  | next hfirst _ ih hlater =>
    exact (ih hready).append (hlater (hready.extends (hfirst.extends hready.disciplined.nodup)))
  | decided _ _ ih => exact ih hready
  | @only loops condition thenBranch g g₁ test lines _ htested _ ih =>
    have hinside : (g.labelled "if").Ready dst := hready.congr rfl rfl
    have hfirst := owns_test (x := x) (r := r) g (.branch condition thenBranch none) loops hinside
      rfl rfl htested
    exact (hfirst.append (ih (hinside.append test))).append
      (owns_unwritten (by rfl) (by rfl) (by simp [Instruction.written?]))
  | @either loops condition thenBranch elseBranch g g₁ g₂ test lines more
      _ htested hlisting _ ih ih' =>
    have hinside : ((g.labelled "if_else").labelled "if_end").Ready dst := hready.congr rfl rfl
    have hbetween := (hinside.append test).extends (hlisting.extends hinside.disciplined.nodup)
    have hfirst := owns_test (x := x) (r := r) g (.branch condition thenBranch (some elseBranch))
      loops hinside rfl rfl htested
    have hsecond := ih' (hbetween.append _)
    refine Owns.append (Owns.append (Owns.append (hfirst.append (ih (hinside.append test))) ?_)
      hsecond) ?_
    · exact owns_unwritten (by rfl) (by rfl) (by simp [Instruction.written?])
    · exact owns_unwritten (by rfl) (by rfl) (by simp [Instruction.written?])
  | @repeats loops node body startStem endStem condition g g₁ test lines
      hform htested hlisting ih =>
    have hcompound : node.isSimple = false := by cases hform <;> rfl
    have hinside : (g.entered startStem endStem).Ready dst := hready.congr rfl rfl
    have hlabel : Owns x r g (g.entered startStem endStem)
        (listed node (⟨node, g.loopLabels startStem endStem⟩ :: loops)
          [.label (g.loopLabels startStem endStem).againTo]) :=
      owns_unwritten (by rfl) hcompound (by simp [Instruction.written?])
    refine Owns.append (Owns.append (hlabel.append (owns_roundTest hinside hcompound htested))
      (ih (hinside.append test))) ?_
    exact owns_unwritten (by rfl) hcompound (by simp [Instruction.written?])
  | simple hsimple hgenerated hadded => exact owns_simple hready hsimple hgenerated hadded

end Gen

/-- **Whatever writes the register of a variable belongs to its declaration or to an assignment, or
    stands above the declaration.** -/
theorem Program.Listed.own_or_above {program : Program} {lines : List Line} {final : Generator}
    (hlisting : program.Listed lines final) {x : String} {r : Register}
    (hknown : final.binding? x = some (.register r)) {i : Nat} {line : Line}
    (hfound : lines[i]? = some line) (hwritten : line.instruction.written? = some r) :
    line.Declares x ∨ line.Assigns x ∨
      ∀ (j : Nat) (other : Line), lines[j]? = some other → other.Declares x → i < j := by
  obtain ⟨scratch, hlists⟩ := hlisting
  have hready : (Generator.empty.hold [scratch]).Ready scratch :=
    ⟨⟨List.nodup_singleton _, List.nil_sublist _⟩, List.mem_singleton_self _, List.not_mem_nil⟩
  exact (hlists.owns hready).above hknown i line hfound hwritten

end ChipScript
