import ChipScript.Proofs.Chip.RegisterDiscipline

/-!
# Histories of a generator

One generator may be given script after script, also after errors, and keeps what a failed run has
left behind: registers in use, variables, begun loops.  This module follows the registers through
all such histories.

After a script the registers of its variables are freed in the order in which the table of variables
happens to be emptied.  That order means nothing, so it is a parameter of a call here, and
`Gen.program` is the call with one of these orders.

Main result: `calls_keep_registers`.
-/

namespace ChipScript

/-! ## Calls -/

namespace Gen

/-- Forgets the variables and frees their registers in a given order. -/
def dropVariablesIn (order : List Register → List Register) : Gen Unit := do
  let registers := (← get).variableTable.map (·.2)
  modify fun g => { g with variableTable := [] }
  releaseAll (order registers)

/-- No register may be in use. -/
def checkFree : Gen Unit := do
  let count := (← get).registers.inUse
  if count ≠ 0 then throw (.registerLeak count)

/-- The code of a script, after which the registers of variables are freed in a given order. -/
def programIn (order : List Register → List Register) (script : Program) : Gen Unit := do
  let scratch ← reserve
  statements script scratch
  release scratch
  dropVariablesIn order
  checkFree

example : programIn id = program := rfl

end Gen

/-- A script for a generator, and the order in which the registers of its variables are freed. -/
structure Call where
  script : Program
  order : List Register → List Register
  order_perm : ∀ registers, (order registers).Perm registers

namespace Call

/-- What a call gives on a generator. -/
def run (call : Call) (g : Generator) : EStateM.Result CodeError Generator Unit :=
  Gen.programIn call.order call.script g

/-- The generator after a call, whether it succeeded or failed. -/
def stateAfter (call : Call) (g : Generator) : Generator :=
  match call.run g with
  | .ok _ g' => g'
  | .error _ g' => g'

end Call

/-- The generator after calls, one after the other, from the first one on. -/
def afterCalls (calls : List Call) : Generator :=
  calls.foldl (fun g call => call.stateAfter g) .empty

/-- One of the calls gave an error. -/
def SomeFailed (calls : List Call) : Prop :=
  ∃ earlier call later e g, calls = earlier ++ call :: later ∧
    call.run (afterCalls earlier) = .error e g

/-! ## Registers between calls -/

namespace Generator

/-- The state with other registers in use. -/
def reserving (g : Generator) (registers : List Register) : Generator :=
  { g with registers := ⟨registers⟩ }

/-- The registers in use that belong to no variable.  Between calls nobody will free them. -/
def leaked (g : Generator) : List Register :=
  g.registers.reserved.filter (· ∉ g.owned)

/-- A register in use that belongs to no variable stays so, wherever generation stops. -/
theorem mem_leaked_of_grown {g g' : Generator} (hgrown : Grown g g') {r : Register}
    (hmem : r ∈ g.leaked) : r ∈ g'.leaked := by
  obtain ⟨hused, hunowned⟩ := List.mem_filter.1 hmem
  obtain ⟨hused', hunowned'⟩ := hgrown.keeps_unowned hused (by simpa using hunowned)
  exact List.mem_filter.2 ⟨hused', by simpa using hunowned'⟩

/-- The scratch register of a call belongs to no variable. -/
theorem mem_leaked_scratch {g : Generator} (h : g.Disciplined) {r : Register}
    (hfree : r ∉ g.registers.reserved) : r ∈ (g.hold [r]).leaked := by
  have hunowned : r ∉ (g.hold [r]).owned := fun hmem => hfree (h.owned.subset hmem)
  refine List.mem_filter.2 ⟨by simp, ?_⟩
  simpa using hunowned

end Generator

namespace Gen

/-- Registers that are in use can be freed in any order. -/
theorem releaseAll_of_subset {registers : List Register} {g : Generator}
    (hnodup : registers.Nodup) (hused : registers ⊆ g.registers.reserved)
    (hdistinct : g.registers.reserved.Nodup) :
    releaseAll registers g =
      .ok () (g.reserving (g.registers.reserved.filter (· ∉ registers))) := by
  induction registers generalizing g with
  | nil => simp [releaseAll, pure, EStateM.pure, Generator.reserving]
  | cons r rest ih =>
    obtain ⟨habsent, hnodup⟩ := List.nodup_cons.1 hnodup
    obtain ⟨hmem, hsubset⟩ := List.cons_subset.1 hused
    -- One register is freed, and the others are still in use, so that the induction goes on.
    have hfreed : release r g = .ok () (g.reserving (g.registers.reserved.filter (· ≠ r))) := by
      have hbusy : g.registers.isFree r = false := by simpa [RegisterFile.isFree] using hmem
      simp [release, RegisterFile.release, hbusy, hdistinct.erase_eq_filter,
        Generator.reserving, bne, beq_eq_decide]
    have hremaining : rest ⊆ g.registers.reserved.filter (· ≠ r) := by
      intro x hx
      refine List.mem_filter.2 ⟨hsubset hx, ?_⟩
      simp only [ne_eq, decide_eq_true_eq]
      exact fun hsame => habsent (hsame ▸ hx)
    have hboth : (g.registers.reserved.filter (· ≠ r)).filter (· ∉ rest) =
        g.registers.reserved.filter (· ∉ r :: rest) := by
      rw [List.filter_filter]
      apply List.filter_congr
      intro x _
      simp [Bool.and_comm]
    have hafter := ih (g := g.reserving (g.registers.reserved.filter (· ≠ r))) hnodup hremaining
      (hdistinct.filter _)
    simp only [releaseAll, bind, EStateM.bind, hfreed, hafter]
    rw [← hboth]
    rfl

/-! ## One call -/

/-- After the statements of a script only what had leaked before is left in use: the scratch
    register and the registers of all variables are free, in whatever order these were freed. -/
theorem finish_eq {g g₂ : Generator} (h : g.Disciplined) {scratch : Register}
    (hdeclared : Declares (g.hold [scratch]) g₂) {order : List Register → List Register}
    (hperm : ∀ registers, (order registers).Perm registers) :
    (do release scratch; dropVariablesIn order : Gen Unit) g₂ =
      .ok () { g₂ with variableTable := [], registers := ⟨g.leaked⟩ } := by
  obtain ⟨entries, hv, hr⟩ := hdeclared.new
  have hdistinct : (entries.map (·.2) ++ scratch :: g.registers.reserved).Nodup := by
    have := hdeclared.nodup
    rwa [hr] at this
  obtain ⟨hnodupNew, hnodupOld, hapart⟩ := List.nodup_append.1 hdistinct
  have habsent : scratch ∉ entries.map (·.2) := fun hmem =>
    hapart scratch hmem scratch (List.mem_cons_self ..) rfl
  -- Freeing the scratch register leaves the registers of variables and what was in use before.
  have hfreed : release scratch g₂ =
      .ok () (g₂.reserving (entries.map (·.2) ++ g.registers.reserved)) := by
    have hreserved :
        g₂.registers.reserved = entries.map (·.2) ++ scratch :: g.registers.reserved := hr
    simp [release, RegisterFile.release, RegisterFile.isFree, hreserved, Generator.reserving,
      List.erase_append_right _ habsent]
  -- The registers to be freed are those of the new variables and of the old ones.
  have howned : g₂.variableTable.map (·.2) = entries.map (·.2) ++ g.owned := by
    rw [hv, List.map_append]
    rfl
  have hwithin : (entries.map (·.2) ++ g.owned).Sublist
      (entries.map (·.2) ++ g.registers.reserved) :=
    (List.Sublist.refl _).append h.owned
  have hnodupAll : (entries.map (·.2) ++ g.registers.reserved).Nodup :=
    hdistinct.sublist ((List.Sublist.refl _).append (List.sublist_cons_self scratch _))
  have hreleased : releaseAll (order (entries.map (·.2) ++ g.owned))
      { g₂.reserving (entries.map (·.2) ++ g.registers.reserved) with variableTable := [] } = _ :=
    releaseAll_of_subset ((hperm _).nodup_iff.2 (hnodupAll.sublist hwithin))
      (fun r hmem => hwithin.subset ((hperm _).mem_iff.1 hmem)) hnodupAll
  have hleft : (entries.map (·.2) ++ g.registers.reserved).filter
      (· ∉ order (entries.map (·.2) ++ g.owned)) = g.leaked := by
    rw [List.filter_append]
    have hnone : (entries.map (·.2)).filter (· ∉ order (entries.map (·.2) ++ g.owned)) = [] := by
      rw [List.filter_eq_nil_iff]
      intro r hmem
      simp only [decide_eq_true_eq, not_not]
      exact (hperm _).mem_iff.2 (List.mem_append_left _ hmem)
    rw [hnone, List.nil_append]
    apply List.filter_congr
    intro r hmem
    have hother : r ∉ entries.map (·.2) := fun hnew =>
      hapart r hnew r (List.mem_cons_of_mem _ hmem) rfl
    simp only [decide_eq_decide, (hperm _).mem_iff, List.mem_append, not_or]
    exact ⟨fun hboth => hboth.2, fun hunowned => ⟨hother, hunowned⟩⟩
  change EStateM.bind (release scratch) (fun _ => dropVariablesIn order) g₂ = _
  simp only [EStateM.bind, hfreed]
  change releaseAll (order (g₂.variableTable.map (·.2)))
    { g₂.reserving (entries.map (·.2) ++ g.registers.reserved) with variableTable := [] } = _
  rw [howned, hreleased]
  simp only [Generator.reserving, hleft]

end Gen

/-- What a call does to a generator whose registers are in order. -/
structure CallOutcome (g : Generator)
    (result : EStateM.Result CodeError Generator Unit) : Prop where
  /-- A success shows that nothing had leaked, and leaves all free. -/
  ok : ∀ g', result = .ok () g' → g.leaked = [] ∧ g'.registers.reserved = [] ∧
    g'.variableTable = [] ∧ g'.loops = g.loops
  /-- After an error the registers are in order, but some have leaked. -/
  error : ∀ e g', result = .error e g' → g'.Disciplined ∧
    (g.leaked ≠ [] ∨ g.registers.reserved = [] → g'.leaked ≠ [])
  /-- No register is freed twice. -/
  freed : ∀ r g', result ≠ .error (.registerAlreadyFree r) g'
  /-- A register is missed only if it had leaked before. -/
  missed : ∀ n g', result = .error (.registerLeak n) g' → g.leaked ≠ []

/-- A call that ends well. -/
theorem CallOutcome.of_ok {g g' : Generator} (hnone : g.leaked = [])
    (hfree : g'.registers.reserved = []) (hempty : g'.variableTable = [])
    (hloops : g'.loops = g.loops) : CallOutcome g (.ok () g') where
  ok := by
    intro g₁ h
    cases h
    exact ⟨hnone, hfree, hempty, hloops⟩
  error := by
    intro e g₁ h
    cases h
  freed := by
    intro r g₁ h
    cases h
  missed := by
    intro n g₁ h
    cases h

/-- A call that stops half-way. -/
theorem CallOutcome.of_error {g g' : Generator} {e : CodeError} (hkind : e.isRegisterFault = false)
    (hdisciplined : g'.Disciplined)
    (hleaks : g.leaked ≠ [] ∨ g.registers.reserved = [] → g'.leaked ≠ []) :
    CallOutcome g (.error e g') where
  ok := by
    intro g₁ h
    cases h
  error := by
    intro e' g₁ h
    cases h
    exact ⟨hdisciplined, hleaks⟩
  freed := by
    intro r g₁ h
    cases h
    cases hkind
  missed := by
    intro n g₁ h
    cases h
    cases hkind

/-- A call that comes to its last check, with what had leaked before still in use. -/
theorem CallOutcome.of_check {g g' : Generator} (hleft : g'.registers.reserved = g.leaked)
    (hempty : g'.variableTable = []) (hnodup : g.leaked.Nodup) (hloops : g'.loops = g.loops) :
    CallOutcome g (Gen.checkFree g') := by
  have hunfolded : Gen.checkFree g' = (if g.leaked.length ≠ 0
      then throw (.registerLeak g.leaked.length) else pure () : Gen Unit) g' := by
    rw [← hleft]
    rfl
  rw [hunfolded]
  -- Either nothing has leaked, or the check reports as many registers as have.
  by_cases hnone : g.leaked = []
  · rw [if_neg (by simpa using hnone)]
    exact .of_ok hnone (hleft.trans hnone) hempty hloops
  · have howned : g'.owned = [] := by simp [Generator.owned, hempty]
    have hleaks : g'.leaked = g.leaked := by simp [Generator.leaked, howned, hleft]
    rw [if_pos (by simpa using hnone)]
    have hdisciplined : g'.Disciplined := ⟨hleft ▸ hnodup, howned ▸ List.nil_sublist _⟩
    refine ⟨?_, ?_, ?_, fun _ _ _ => hnone⟩
    · intro g₁ h
      cases h
    · intro e g₁ h
      cases h
      exact ⟨hdisciplined, fun _ => hleaks.symm ▸ hnone⟩
    · intro r g₁ h
      cases h

/-- A register can be reserved while none is in use. -/
theorem Generator.reserved_ne_nil {g : Generator} {e : CodeError}
    (hexhausted : Gen.reserveBy (·.take Register.all) g = .error e g) :
    g.registers.reserved ≠ [] := by
  intro hnone
  have hempty : g.registers = .empty := congrArg RegisterFile.mk hnone
  rw [Gen.reserveBy, hempty] at hexhausted
  cases hexhausted

/-- **What one call does to the registers**, on any generator whose registers are in order. -/
theorem Call.run_outcome {g : Generator} (h : g.Disciplined) (call : Call) :
    CallOutcome g (call.run g) := by
  unfold run Gen.programIn
  change CallOutcome g (EStateM.bind (Gen.reserveBy (·.take Register.all)) _ g)
  unfold EStateM.bind
  rcases Gen.reserveBy_take Register.all g with ⟨scratch, hfree, hreserved⟩ | hexhausted
  · have hheld := h.hold hfree
    have hgenerated : Outcome (g.hold [scratch]) (fun _ g' => Declares (g.hold [scratch]) g')
        (Gen.statements call.script scratch (g.hold [scratch])) :=
      Gen.statements_keepsRegisters scratch (fun node _ => Gen.statement_outcome node scratch) _
        hheld.nodup
    simp only [hreserved]
    change CallOutcome g (EStateM.bind (Gen.statements call.script scratch) _ (g.hold [scratch]))
    unfold EStateM.bind
    cases hended : Gen.statements call.script scratch (g.hold [scratch]) with
    | error e g₂ =>
      -- The script has no code: its scratch register is never freed.
      rw [hended] at hgenerated
      obtain ⟨hkind, hgrown⟩ := hgenerated
      refine .of_error hkind (hheld.grown hgrown) fun _ => ?_
      exact List.ne_nil_of_mem
        (Generator.mem_leaked_of_grown hgrown (Generator.mem_leaked_scratch h hfree))
    | ok _ g₂ =>
      -- All is freed but what had leaked, and the check decides.
      rw [hended] at hgenerated
      have hfinished := Gen.finish_eq h hgenerated call.order_perm
      change CallOutcome g ((Gen.release scratch >>= fun _ =>
        Gen.dropVariablesIn call.order >>= fun _ => Gen.checkFree) g₂)
      rw [← bind_assoc]
      change CallOutcome g (EStateM.bind _ (fun _ => Gen.checkFree) g₂)
      simp only [EStateM.bind, hfinished]
      exact .of_check rfl rfl (h.nodup.filter _) hgenerated.loops
  · simp only [hexhausted]
    exact .of_error rfl h fun hcause =>
      hcause.resolve_right (Generator.reserved_ne_nil hexhausted)

/-! ## Histories -/

/-- All is free: no register is in use, there are no variables, and no loop has been begun. -/
structure Generator.Idle (g : Generator) : Prop where
  registers : g.registers.reserved = []
  variableTable : g.variableTable = []
  loops : g.loops = []

theorem Generator.Idle.disciplined {g : Generator} (h : g.Idle) : g.Disciplined :=
  ⟨by simp [h.registers], by simp [Generator.owned, h.variableTable]⟩

theorem Generator.Idle.leaked {g : Generator} (h : g.Idle) : g.leaked = [] := by
  simp [Generator.leaked, h.registers]

theorem afterCalls_concat (calls : List Call) (call : Call) :
    afterCalls (calls ++ [call]) = call.stateAfter (afterCalls calls) := by
  simp [afterCalls]

/-- A generator is idle as long as nothing has failed, and has leaked registers for ever after. -/
theorem afterCalls_idle_or_leaked (calls : List Call) :
    (¬ SomeFailed calls ∧ (afterCalls calls).Idle) ∨
      (SomeFailed calls ∧ (afterCalls calls).Disciplined ∧ (afterCalls calls).leaked ≠ []) := by
  induction calls using List.reverseRecOn with
  | nil =>
    left
    refine ⟨?_, rfl, rfl, rfl⟩
    intro h
    obtain ⟨earlier, call, later, e, g, hsplit, -⟩ := h
    simp at hsplit
  | append_singleton calls call ih =>
    have hdisciplined : (afterCalls calls).Disciplined := by
      rcases ih with ⟨-, hidle⟩ | ⟨-, hdisciplined, -⟩
      · exact hidle.disciplined
      · exact hdisciplined
    have houtcome := call.run_outcome hdisciplined
    rw [afterCalls_concat]
    unfold Call.stateAfter
    cases hresult : call.run (afterCalls calls) with
    | error e g =>
      -- From now on registers have leaked.
      right
      obtain ⟨hdisciplined', hleaks⟩ := houtcome.error e g hresult
      refine ⟨⟨calls, call, [], e, g, rfl, hresult⟩, hdisciplined', hleaks ?_⟩
      rcases ih with ⟨-, hidle⟩ | ⟨-, -, hleaked⟩
      · exact .inr hidle.registers
      · exact .inl hleaked
    | ok _ g =>
      -- Nothing can have failed before.
      left
      obtain ⟨hunleaked, hregisters, hvariableTable, hloops⟩ := houtcome.ok g hresult
      rcases ih with ⟨hnone, hidle⟩ | ⟨-, -, hleaked⟩
      · refine ⟨?_, hregisters, hvariableTable, hloops.trans hidle.loops⟩
        intro h
        obtain ⟨earlier, failed, later, e, g', hsplit, herror⟩ := h
        rcases List.eq_nil_or_concat later with rfl | ⟨later, last, rfl⟩
        · obtain ⟨rfl, hsame⟩ := List.append_inj' hsplit rfl
          obtain rfl := List.head_eq_of_cons_eq hsame
          rw [hresult] at herror
          cases herror
        · refine hnone ⟨earlier, failed, later, e, g', ?_, herror⟩
          rw [List.concat_eq_append, ← List.cons_append, ← List.append_assoc] at hsplit
          exact (List.append_inj' hsplit rfl).1
      · exact absurd hunleaked hleaked

/-- **Register discipline over all histories.**  After any calls, with whatever order of freeing the
    registers of variables in each of them: no register is freed twice; a register is missed only
    after an error; after an error nothing succeeds; and a success leaves every register free, no
    variable and no loop. -/
theorem calls_keep_registers (calls : List Call) (call : Call) :
    (∀ r g, call.run (afterCalls calls) ≠ .error (.registerAlreadyFree r) g) ∧
    (∀ n g, call.run (afterCalls calls) = .error (.registerLeak n) g → SomeFailed calls) ∧
    (SomeFailed calls → ∀ g, call.run (afterCalls calls) ≠ .ok () g) ∧
    (∀ g, call.run (afterCalls calls) = .ok () g →
      (∀ r ∈ Register.all, g.registers.isFree r = true) ∧ g.variableTable = [] ∧ g.loops = []) := by
  rcases afterCalls_idle_or_leaked calls with ⟨hnone, hidle⟩ | ⟨hfailed, hdisciplined, hleaked⟩
  · have houtcome := call.run_outcome hidle.disciplined
    refine ⟨houtcome.freed, ?_, fun hfailed => absurd hfailed hnone, ?_⟩
    · intro n g hmissed
      exact absurd hidle.leaked (houtcome.missed n g hmissed)
    · intro g hsuccess
      obtain ⟨-, hregisters, hvariableTable, hloops⟩ := houtcome.ok g hsuccess
      refine ⟨?_, hvariableTable, hloops.trans hidle.loops⟩
      intro r _
      simp [RegisterFile.isFree, hregisters]
  · have houtcome := call.run_outcome hdisciplined
    have hfails : ∀ g, call.run (afterCalls calls) ≠ .ok () g :=
      fun g hsuccess => hleaked (houtcome.ok g hsuccess).1
    exact ⟨houtcome.freed, fun _ _ _ => hfailed, fun _ => hfails,
      fun g hsuccess => absurd hsuccess (hfails g)⟩

end ChipScript
