import ChipScript.Proofs.Refinement.Condition

/-!
# Following a run of statements

`Performs` says what the chip does for a run of statements.  A run ends in one of several ways, and
each has its place: the end of the code, the label that a loop control goes to, a halt.  A run that
is cut off in a loop has taken at least as many steps as the loop has taken rounds, so that the chip
goes on where the script does.

Names that are declared in the body of a loop are unknown to the generator at the start of the loop
and known at its end.  When the chip comes back to the start they have lost their meaning, and what
is left of the environment is what the generator knew when it entered the loop (`Tracks.enter`).
-/

namespace ChipScript

/-! ## Places of labels -/

theorem labelIndex?_append {before later : List Instruction} {name : String}
    (hnew : name ∉ labelsIn before) :
    labelIndex? (before ++ .label name :: later) name = some before.length := by
  have hother : ∀ instruction ∈ before, instruction ≠ .label name := by
    intro instruction hmem hsame
    subst hsame
    exact hnew (List.mem_filterMap.2 ⟨_, hmem, rfl⟩)
  unfold labelIndex?
  rw [List.findIdx?_append, List.findIdx?_eq_none_iff.2 (by simpa using hother)]
  simp [List.findIdx?_cons]

/-- A label is at the place where it has been added, since there is no other one of its name. -/
theorem labelIndex?_of_placed {program : List Instruction} {g : Generator} {name : String}
    (code later : List Instruction) (hdistinct : (labelsIn program).Nodup)
    (hplaced : (g.append (code ++ .label name :: later)).code.toList <+: program) :
    labelIndex? program name = some (g.append code).code.size := by
  obtain ⟨rest, rfl⟩ := hplaced
  have hsplit : (g.append (code ++ .label name :: later)).code.toList ++ rest =
      (g.append code).code.toList ++ .label name :: (later ++ rest) := by
    simp
  rw [hsplit] at hdistinct ⊢
  rw [labelIndex?_append, Array.length_toList]
  intro hearlier
  rw [labelsIn_append] at hdistinct
  refine (List.nodup_append.1 hdistinct).2.2 name hearlier name ?_ rfl
  simp [labelsIn]

/-! ## Where a run and the chip agree -/

/-- The generator is ready for a statement that may use a register. -/
structure Generator.Ready (g : Generator) (dst : Register) : Prop where
  disciplined : g.Disciplined
  reserved : dst ∈ g.registers.reserved
  /-- The register belongs to no variable. -/
  scratch : dst ∉ g.owned

theorem Generator.Ready.extends {names : List String} {g g' : Generator} {dst : Register}
    (h : g.Ready dst) (hmore : Extends names g g') : g'.Ready dst := by
  obtain ⟨hreserved, hscratch⟩ := hmore.grown.keeps_unowned h.reserved h.scratch
  exact ⟨h.disciplined.grown hmore.grown, hreserved, hscratch⟩

/-- Only registers and variables matter. -/
theorem Generator.Ready.congr {g g' : Generator} {dst : Register} (h : g.Ready dst)
    (hregisters : g'.registers = g.registers) (htable : g'.variableTable = g.variableTable) :
    g'.Ready dst := by
  have howned : g'.owned = g.owned := by
    simp [Generator.owned, htable]
  refine ⟨⟨?_, ?_⟩, ?_, ?_⟩
  · rw [hregisters]
    exact h.disciplined.nodup
  · rw [howned, hregisters]
    exact h.disciplined.owned
  · rw [hregisters]
    exact h.reserved
  · rw [howned]
    exact h.scratch

theorem Generator.Ready.append {g : Generator} {dst : Register} (h : g.Ready dst)
    (code : List Instruction) : (g.append code).Ready dst :=
  h.congr rfl rfl

section Tracking

variable {V : Type} {g g' : Generator} {m m₁ : Machine V} {s : Situation V}

/-- The chip runs, has the same trace, and its registers hold what the names stand for. -/
structure Tracks (g : Generator) (s : Situation V) (m : Machine V) : Prop where
  running : m.status = .running
  trace : m.trace = s.trace
  stands : ∀ name, Stands g s.env m.registers name

namespace Tracks

/-- More may be known. -/
theorem extend (h : Tracks g s m)
    (hknown : ∀ name b, g.binding? name = some b → g'.binding? name = some b) : Tracks g' s m :=
  ⟨h.running, h.trace, fun name => (h.stands name).congr (hknown name) fun _ _ => rfl⟩

theorem append (h : Tracks g s m) (code : List Instruction) : Tracks (g.append code) s m :=
  h.extend fun _ _ hknown => hknown

/-- The chip may go on at another place. -/
theorem move (h : Tracks g s m) (index : Nat) : Tracks g s { m with index } :=
  ⟨h.running, h.trace, h.stands⟩

/-- Registers that belong to no variable may change, and more may be seen. -/
theorem scratch {dst : Register} (h : Tracks g s m) (hready : g.Ready dst)
    (hrunning : m₁.status = .running) (hkept : KeepsOthers g dst m.contents m₁.contents) :
    Tracks g { s with trace := m₁.trace } m₁ := by
  refine ⟨hrunning, rfl, fun name => (h.stands name).congr (fun _ hknown => hknown) ?_⟩
  intro r hknown
  refine hkept r (hready.disciplined.mem_reserved hknown) ?_
  intro hsame
  exact hready.scratch (hsame ▸ Generator.mem_owned hknown)

/-- **At the start of a loop** the names of its body are forgotten, and the others were known before
    the loop. -/
theorem enter {names : List String} (h : Tracks g' s m)
    (hadded : ∀ name b, g'.binding? name = some b → g.binding? name = some b ∨ name ∈ names) :
    Tracks g { s with env := s.env.forget names } m := by
  refine ⟨h.running, h.trace, fun name => ?_⟩
  have hstand := h.stands name
  unfold Stands at hstand ⊢
  by_cases hmem : name ∈ names
  · simp [Environment.forget, hmem]
  · simp only [Environment.forget, hmem, if_false]
    cases hmeaning : s.env name with
    | none => trivial
    | some what =>
      rw [hmeaning] at hstand
      cases what with
      | value v =>
        obtain ⟨r, hknown, hvalue⟩ := hstand
        exact ⟨r, (hadded name _ hknown).resolve_right hmem, hvalue⟩
      | device config => exact (hadded name _ hstand).resolve_right hmem

end Tracks

/-- A name is given a meaning that is known. -/
theorem Stands.define {env : Environment V} {registers : Register → V} {name : String}
    {meaning : Meaning V} (hothers : ∀ other, other ≠ name → Stands g env registers other)
    (hown : Stands g (fun _ => some meaning) registers name) (other : String) :
    Stands g (env.define name meaning) registers other := by
  unfold Stands Environment.define
  by_cases hsame : other = name
  · subst hsame
    simpa [Stands] using hown
  · simpa [hsame, Stands] using hothers other hsame

end Tracking

/-! ## Evaluating -/

namespace Exec

variable {V α β : Type} {s : Situation V}

theorem ofEval_ok {x : Environment V → Eval V α} {a : α} {trace : Trace V}
    (h : x s.env s.trace = .ok a trace) : ofEval x s = .ok a { s with trace } := by
  simp [ofEval, h]

theorem ofEval_error {x : Environment V → Eval V α} {fault : Fault} {trace : Trace V}
    (h : x s.env s.trace = .error fault trace) :
    ofEval x s = .error (.fault fault) { s with trace } := by
  simp [ofEval, h]

theorem ofEval_pure (a : α) : ofEval (fun _ => pure a) = (pure a : Exec V α) := rfl

/-- The environment stays the same between two evaluations. -/
theorem ofEval_bind (x : Environment V → Eval V α) (y : α → Environment V → Eval V β) :
    ofEval (fun env => x env >>= fun a => y a env) = ofEval x >>= fun a => ofEval (y a) := by
  funext s
  cases hfirst : x s.env s.trace with
  | ok a trace =>
    rw [bind_apply (ofEval_ok hfirst)]
    simp only [ofEval, bind_apply hfirst]
  | error fault trace =>
    rw [bind_error (ofEval_error hfirst)]
    exact ofEval_error (bind_error hfirst)

/-! ### Writing to a place, by the meaning of the name -/

variable {name property : String} (s : Situation V)

theorem write_undefined (hmeaning : s.env name = none) (slot : Option V) (v : V) :
    write name slot (some property) v s = .error (.fault (.undefined name)) s := by
  unfold write
  rw [bind_apply get_apply]
  simp only [hmeaning]
  rfl

theorem write_device {config : DeviceConfig} (hmeaning : s.env name = some (.device config))
    (slot : Option V) (v : V) :
    write name slot (some property) v s =
      .ok () { s with trace := s.trace ++ [.store config.target slot property v] } := by
  unfold write
  rw [bind_apply get_apply]
  simp only [hmeaning]
  rfl

/-- A name that is no device's takes the value, whether or not it had one. -/
theorem write_variable (hnoDevice : ∀ config, s.env name ≠ some (.device config)) (v : V) :
    write name none none v s = .ok () { s with env := s.env.define name (.value v) } := by
  unfold write
  rw [bind_apply get_apply]
  cases hmeaning : s.env name with
  | none => rfl
  | some what =>
    cases what with
    | value v' => rfl
    | device config => exact absurd hmeaning (hnoDevice config)

end Exec

/-! ## Performing -/

section Performing

variable {V : Type} [LinearOrder V] {chip : Chip V} {least : Nat} {loops : LoopStack}
  {g g₁ g' : Generator} {m m₁ : Machine V} {s : Situation V}

/-- From a state on, the chip comes to the place where a run ends, given the loops around and the
    state of generation behind the code. -/
def Performs (chip : Chip V) (least : Nat) (loops : LoopStack) (g' : Generator) (m : Machine V) :
    EStateM.Result Exit (Situation V) Unit → Prop
  | .ok _ s => ∃ m', chip.Leads m m' ∧ m'.index = g'.code.size ∧ Tracks g' s m'
  | .error (.control kind) s => ∃ m', chip.Leads m m' ∧ Tracks g' s m' ∧
    ∃ label, LoopStack.target? loops kind = some label ∧
      labelIndex? chip.code label = some m'.index
  | .error .halted s => ∃ m', chip.Leads m m' ∧ m'.status = .halted ∧ m'.trace = s.trace
  | .error .unfinished s =>
    ∃ m', chip.LeadsIn least m m' ∧ m'.status = .running ∧ m'.trace = s.trace
  | .error (.fault fault) s =>
    (∃ name, fault = .undefined name) ∧ ∃ m', chip.Leads m m' ∧ m'.trace = s.trace

namespace Performs

/-- What is performed from a later state is performed from an earlier one, and takes more steps. -/
theorem of_leadsIn {more : Nat} {r : EStateM.Result Exit (Situation V) Unit}
    (hleads : chip.LeadsIn more m m₁) (h : Performs chip least loops g' m₁ r) :
    Performs chip (more + least) loops g' m r := by
  cases r with
  | ok a s =>
    obtain ⟨m', hlater, hrest⟩ := h
    exact ⟨m', hleads.leads.trans hlater, hrest⟩
  | error exit s =>
    cases exit with
    | control kind | halted =>
      obtain ⟨m', hlater, hrest⟩ := h
      exact ⟨m', hleads.leads.trans hlater, hrest⟩
    | unfinished =>
      obtain ⟨m', hlater, hrest⟩ := h
      exact ⟨m', hleads.trans hlater, hrest⟩
    | fault fault =>
      obtain ⟨hundefined, m', hlater, hrest⟩ := h
      exact ⟨hundefined, m', hleads.leads.trans hlater, hrest⟩

theorem of_leads {r : EStateM.Result Exit (Situation V) Unit} (hleads : chip.Leads m m₁)
    (h : Performs chip least loops g' m₁ r) : Performs chip least loops g' m r := by
  have hmore := h.of_leadsIn hleads
  rw [Nat.zero_add] at hmore
  exact hmore

/-- A run that is not done ends at a place of its own, and the code behind it does not matter. -/
theorem error {exit : Exit}
    (h : Performs chip least loops g₁ m (.error exit s))
    (hknown : ∀ name b, g₁.binding? name = some b → g'.binding? name = some b) :
    Performs chip least loops g' m (.error exit s) := by
  cases exit with
  | control kind =>
    obtain ⟨m', hleads, htracks, hrest⟩ := h
    exact ⟨m', hleads, htracks.extend hknown, hrest⟩
  | halted | unfinished => exact h
  | fault fault => exact h

/-- One statement after another. -/
theorem bind {x : Exec V Unit} {f : Unit → Exec V Unit}
    (hfirst : Performs chip least loops g₁ m (x s))
    (hknown : ∀ name b, g₁.binding? name = some b → g'.binding? name = some b)
    (hsecond : ∀ m₁ s₁, m₁.index = g₁.code.size → Tracks g₁ s₁ m₁ →
      Performs chip least loops g' m₁ (f () s₁)) :
    Performs chip least loops g' m ((x >>= f) s) := by
  cases h : x s with
  | ok a s₁ =>
    rw [h] at hfirst
    obtain ⟨m₁, hleads, hindex, htracks⟩ := hfirst
    rw [bind_apply h]
    exact (hsecond m₁ s₁ hindex htracks).of_leads hleads
  | error exit s₁ =>
    rw [h] at hfirst
    rw [bind_error h]
    exact hfirst.error hknown

/-- Steps that leave no trace may come after a run that is done. -/
theorem extend {r : EStateM.Result Exit (Situation V) Unit}
    (hfirst : Performs chip least loops g₁ m r)
    (hknown : ∀ name b, g₁.binding? name = some b → g'.binding? name = some b)
    (hmore : ∀ m₁ : Machine V, m₁.index = g₁.code.size → m₁.status = .running →
      chip.Leads m₁ { m₁ with index := g'.code.size }) :
    Performs chip least loops g' m r := by
  cases r with
  | ok a s₁ =>
    obtain ⟨m₁, hleads, hindex, htracks⟩ := hfirst
    refine ⟨_, hleads.trans (hmore m₁ hindex htracks.running), rfl, ?_⟩
    exact (htracks.extend hknown).move _
  | error exit s₁ => exact hfirst.error hknown

/-- A statement that evaluates first. -/
theorem ofEval {α : Type} {x : Environment V → Eval V α} {f : α → Exec V Unit}
    {post : α → Machine V → Prop} (htracks : Tracks g s m)
    (hfirst : Follows chip m post (x s.env m.trace))
    (hsecond : ∀ a m', m'.status = .running → post a m' →
      Performs chip least loops g' m' (f a { s with trace := m'.trace })) :
    Performs chip least loops g' m ((Exec.ofEval x >>= f) s) := by
  rw [htracks.trace] at hfirst
  cases h : x s.env s.trace with
  | ok a trace =>
    rw [h] at hfirst
    obtain ⟨m', hleads, hrunning, rfl, hholds⟩ := hfirst
    rw [bind_apply (Exec.ofEval_ok h)]
    exact (hsecond a m' hrunning hholds).of_leads hleads
  | error fault trace =>
    rw [h] at hfirst
    rw [bind_error (Exec.ofEval_error h)]
    exact hfirst

end Performs

/-- A label is passed in one step. -/
theorem label_passed {name : String} (code later : List Instruction)
    (hplaced : (g.append (code ++ .label name :: later)).code.toList <+: chip.code)
    (hindex : m.index = (g.append code).code.size) (hrunning : m.status = .running) :
    chip.LeadsIn 1 m { m with index := (g.append (code ++ [.label name])).code.size } := by
  have hstep := Chip.leadsIn_perform hrunning (fetch hplaced ⟨hindex, hrunning⟩)
  have hnext : chip.perform m (.label name) =
      { m with index := (g.append (code ++ [.label name])).code.size } := by
    simp [Chip.perform, Machine.next, hindex, Nat.add_assoc]
  rw [hnext] at hstep
  exact hstep

end Performing
end ChipScript
