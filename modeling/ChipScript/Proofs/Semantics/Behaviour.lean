import ChipScript.Proofs.Node.Parts
import ChipScript.Proofs.Semantics.Machine
import ChipScript.Proofs.Semantics.Script
import ChipScript.Proofs.Step

/-!
# Behaviour

What can be seen of a whole run, of a script and of a chip alike.  A run that goes on for ever is
seen by its beginnings: of a chip these are its traces after some number of steps, of a script its
traces when it is cut off after some number of rounds.

* `Chip.behaves_unique`: a chip has one behaviour at most.
* `Program.execute_mono`: what a script does before it is cut off does not depend on where it would
  be cut off, so that the bound on rounds is no part of the meaning.
-/

namespace ChipScript

/-- What can be seen of a whole run. -/
inductive Behaviour (V : Type) where
  /-- The run comes to its end, after this. -/
  | ends (trace : Trace V)
  /-- The chip is halted, after this. -/
  | halts (trace : Trace V)
  /-- The run goes on for ever, and its beginnings leave these traces. -/
  | goesOn (seen : Set (Trace V))

/-! ## The bound on rounds -/

section Bounds

variable {σ V α β : Type}

/-- A run that was not cut off goes the same way in another run. -/
def Agrees (x y : EStateM Exit σ α) : Prop :=
  ∀ s, (∀ s', x s ≠ .error .unfinished s') → y s = x s

theorem Agrees.refl (x : EStateM Exit σ α) : Agrees x x :=
  fun _ _ => rfl

theorem Agrees.bind {x y : EStateM Exit σ α} {f k : α → EStateM Exit σ β} (hfirst : Agrees x y)
    (hsecond : ∀ a, Agrees (f a) (k a)) : Agrees (x >>= f) (y >>= k) := by
  intro s hsettled
  cases h : x s with
  | ok a s₁ =>
    have hsame : y s = .ok a s₁ := (hfirst s (by simp [h])).trans h
    rw [bind_apply h] at hsettled ⊢
    rw [bind_apply hsame]
    exact hsecond a s₁ hsettled
  | error exit s₁ =>
    rw [bind_error h] at hsettled ⊢
    have hfinished : exit ≠ .unfinished := by
      intro hcut
      exact hsettled s₁ (by rw [hcut])
    have hsame : y s = .error exit s₁ := (hfirst s (by simp [h, hfinished])).trans h
    exact bind_error hsame

/-- More rounds may be allowed than are taken. -/
theorem Agrees.repeatedly {round round' : Exec V Unit} (heach : Agrees round round') {n n' : Nat}
    (hle : n ≤ n') : Agrees (Exec.repeatedly n round) (Exec.repeatedly n' round') := by
  induction n generalizing n' with
  | zero => exact fun s hsettled => absurd rfl (hsettled s)
  | succ n ih =>
    obtain ⟨n', rfl⟩ : ∃ k, n' = k + 1 := Nat.exists_eq_succ_of_ne_zero (by omega)
    intro s hsettled
    rw [Exec.repeatedly] at hsettled ⊢
    rw [Exec.repeatedly]
    cases h : round s with
    | ok u s₁ =>
      rw [h] at hsettled
      rw [(heach s (by simp [h])).trans h]
      exact ih (by omega) s₁ hsettled
    | error exit s₁ =>
      -- A round that is not cut off ends in the same way under both bounds.
      have hsame : exit ≠ .unfinished → round' s = .error exit s₁ := by
        intro hfinished
        exact (heach s (by simp [h, hfinished])).trans h
      rw [h] at hsettled
      cases exit with
      | control kind =>
        rw [hsame (by simp)]
        cases kind with
        | again => exact ih (by omega) s₁ hsettled
        | leave => rfl
      | halted | fault => rw [hsame (by simp)]
      | unfinished => exact absurd rfl (hsettled s₁)

end Bounds

section Runs

variable {V : Type} [LinearOrder V]

theorem executeAll_agrees (S : Setting V) {rounds rounds' : Nat} {nodes : List Node}
    (heach : ∀ node ∈ nodes, Agrees (execute S rounds node) (execute S rounds' node)) :
    Agrees (executeAll S rounds nodes) (executeAll S rounds' nodes) := by
  induction nodes with
  | nil =>
    rw [executeAll, executeAll]
    exact .refl _
  | cons node rest ih =>
    rw [executeAll, executeAll]
    refine (heach node (by simp)).bind fun _ => ih ?_
    exact fun n hmem => heach n (List.mem_cons_of_mem _ hmem)

/-- A statement does the same under a larger bound, unless it is cut off. -/
theorem execute_agrees (S : Setting V) {rounds rounds' : Nat} (hle : rounds ≤ rounds')
    (node : Node) : Agrees (execute S rounds node) (execute S rounds' node) := by
  -- Only loops look at the bound, and a loop that has ended has used less of it.
  induction node using Node.partsInduction with
  | step node ih =>
    cases node with
    | block body =>
      rw [execute, execute]
      exact executeAll_agrees S ih
    | branch condition thenBranch elseBranch =>
      have hother :
          Agrees (executeElse S rounds elseBranch) (executeElse S rounds' elseBranch) := by
        cases elseBranch with
        | none =>
          rw [executeElse, executeElse]
          exact .refl _
        | some n =>
          rw [executeElse, executeElse]
          exact ih n (by simp [Node.parts])
      rw [execute, execute]
      refine (Agrees.refl _).bind fun v => ?_
      split
      · exact ih thenBranch (by simp [Node.parts])
      · exact hother
    | whileLoop condition body =>
      rw [execute, execute]
      refine Agrees.repeatedly ((Agrees.refl _).bind fun _ => (Agrees.refl _).bind fun _ => ?_) hle
      exact ih body (by simp [Node.parts])
    | loop body =>
      rw [execute, execute]
      refine Agrees.repeatedly ((Agrees.refl _).bind fun _ => ?_) hle
      exact ih body (by simp [Node.parts])
    | control kind | declare name value | assign name index property value =>
      rw [execute, execute]
      exact .refl _
    | call name arguments =>
      rw [execute, execute]
      exact .refl _
    | _ =>
      rw [execute, execute]
      · exact .refl _
      all_goals simp

/-- **A larger bound on rounds changes nothing**, unless the run is cut off. -/
theorem Program.execute_mono (S : Setting V) (program : Program) {rounds rounds' : Nat}
    (hle : rounds ≤ rounds')
    (hsettled : ∀ s, program.execute S rounds ≠ .error .unfinished s) :
    program.execute S rounds' = program.execute S rounds :=
  executeAll_agrees S (fun node _ => execute_agrees S hle node) .initial hsettled

/-- Two runs that are not cut off are the same run. -/
theorem Program.execute_unique {S : Setting V} {program : Program} {rounds rounds' : Nat}
    {r r' : EStateM.Result Exit (Situation V) Unit} (hrun : program.execute S rounds = r)
    (hrun' : program.execute S rounds' = r') (hsettled : ∀ s, r ≠ .error .unfinished s)
    (hsettled' : ∀ s, r' ≠ .error .unfinished s) : r = r' := by
  subst hrun hrun'
  rcases Nat.le_total rounds rounds' with hle | hle
  · exact (program.execute_mono S hle hsettled).symm
  · exact program.execute_mono S hle hsettled'

/-! ## Chips -/

/-- What a chip does from the start on. -/
def Chip.Behaves (chip : Chip V) (registers : Register → V) : Behaviour V → Prop
  | .ends trace => ∃ steps, (chip.after steps (.initial registers)).status = .ended ∧
    (chip.after steps (.initial registers)).trace = trace
  | .halts trace => ∃ steps, (chip.after steps (.initial registers)).status = .halted ∧
    (chip.after steps (.initial registers)).trace = trace
  | .goesOn seen => (∀ steps, (chip.after steps (.initial registers)).status = .running) ∧
    seen = {trace | ∃ steps, trace <+: (chip.after steps (.initial registers)).trace}

/-- A chip that has stopped in one way does not do anything else. -/
theorem Chip.stopped_eq {chip : Chip V} {m : Machine V} {first second : Nat} {how how' : Status}
    (h₁ : (chip.after first m).status = how) (h₂ : (chip.after second m).status = how')
    (hstopped : how ≠ .running) (hstopped' : how' ≠ .running) :
    how = how' ∧ (chip.after first m).trace = (chip.after second m).trace := by
  have hsame := Chip.stopped_unique (h₁ ▸ hstopped) (h₂ ▸ hstopped')
  rw [← h₁, ← h₂, hsame]
  exact ⟨rfl, rfl⟩

/-- **A chip has one behaviour at most.** -/
theorem Chip.behaves_unique {chip : Chip V} {registers : Register → V} {b b' : Behaviour V}
    (h : chip.Behaves registers b) (h' : chip.Behaves registers b') : b = b' := by
  cases b with
  | ends trace =>
    -- A chip that has stopped stays so, and one that goes on never stops.
    obtain ⟨steps, hstatus, rfl⟩ := h
    cases b' with
    | ends trace' =>
      obtain ⟨steps', hstatus', rfl⟩ := h'
      rw [(Chip.stopped_eq hstatus hstatus' (by simp) (by simp)).2]
    | halts trace' =>
      obtain ⟨steps', hstatus', rfl⟩ := h'
      cases (Chip.stopped_eq hstatus hstatus' (by simp) (by simp)).1
    | goesOn seen => simp [h'.1 steps] at hstatus
  | halts trace =>
    obtain ⟨steps, hstatus, rfl⟩ := h
    cases b' with
    | ends trace' =>
      obtain ⟨steps', hstatus', rfl⟩ := h'
      cases (Chip.stopped_eq hstatus hstatus' (by simp) (by simp)).1
    | halts trace' =>
      obtain ⟨steps', hstatus', rfl⟩ := h'
      rw [(Chip.stopped_eq hstatus hstatus' (by simp) (by simp)).2]
    | goesOn seen => simp [h'.1 steps] at hstatus
  | goesOn seen =>
    cases b' with
    | ends trace' | halts trace' =>
      obtain ⟨steps', hstatus', -⟩ := h'
      simp [h.1 steps'] at hstatus'
    | goesOn seen' => rw [h.2, h'.2]

/-! ## Scripts -/

/-- What a script does. -/
def Program.Behaves (S : Setting V) (program : Program) : Behaviour V → Prop
  | .ends trace => ∃ rounds s, program.execute S rounds = .ok () s ∧ s.trace = trace
  | .halts trace => ∃ rounds s, program.execute S rounds = .error .halted s ∧ s.trace = trace
  | .goesOn seen => (∀ rounds, ∃ s, program.execute S rounds = .error .unfinished s) ∧
    seen = {trace | ∃ rounds s, program.execute S rounds = .error .unfinished s ∧ trace <+: s.trace}

/-- After a trace, a script reads a name that has no meaning then. -/
def Program.ReadsUndefined (S : Setting V) (program : Program) (trace : Trace V) : Prop :=
  ∃ rounds name s, program.execute S rounds = .error (.fault (.undefined name)) s ∧ s.trace = trace

/-- A script that behaves in some way reads no name without a meaning. -/
theorem Program.Behaves.defined {S : Setting V} {program : Program} {b : Behaviour V}
    (h : program.Behaves S b) (trace : Trace V) : ¬ program.ReadsUndefined S trace := by
  intro hundefined
  obtain ⟨rounds, name, s, hrun, -⟩ := hundefined
  cases b with
  | ends trace' | halts trace' =>
    obtain ⟨rounds', s', hrun', -⟩ := h
    cases Program.execute_unique hrun hrun' (by simp) (by simp)
  | goesOn seen =>
    obtain ⟨s', hcut⟩ := h.1 rounds
    simp [hcut] at hrun

/-- **A script has one behaviour at most.** -/
theorem Program.behaves_unique {S : Setting V} {program : Program} {b b' : Behaviour V}
    (h : program.Behaves S b) (h' : program.Behaves S b') : b = b' := by
  -- Two runs that end agree under the larger bound, and a script that goes on is cut off under any.
  cases b with
  | ends trace =>
    obtain ⟨rounds, s, hrun, rfl⟩ := h
    cases b' with
    | ends trace' =>
      obtain ⟨rounds', s', hrun', rfl⟩ := h'
      cases Program.execute_unique hrun hrun' (by simp) (by simp)
      rfl
    | halts trace' =>
      obtain ⟨rounds', s', hrun', rfl⟩ := h'
      cases Program.execute_unique hrun hrun' (by simp) (by simp)
    | goesOn seen =>
      obtain ⟨s', hcut⟩ := h'.1 rounds
      simp [hcut] at hrun
  | halts trace =>
    obtain ⟨rounds, s, hrun, rfl⟩ := h
    cases b' with
    | ends trace' =>
      obtain ⟨rounds', s', hrun', rfl⟩ := h'
      cases Program.execute_unique hrun hrun' (by simp) (by simp)
    | halts trace' =>
      obtain ⟨rounds', s', hrun', rfl⟩ := h'
      cases Program.execute_unique hrun hrun' (by simp) (by simp)
      rfl
    | goesOn seen =>
      obtain ⟨s', hcut⟩ := h'.1 rounds
      simp [hcut] at hrun
  -- What is seen of a script that goes on is what its runs under all bounds have seen.
  | goesOn seen =>
    cases b' with
    | ends trace' | halts trace' =>
      obtain ⟨rounds', s', hrun', -⟩ := h'
      obtain ⟨s, hcut⟩ := h.1 rounds'
      simp [hcut] at hrun'
    | goesOn seen' => rw [h.2, h'.2]

end Runs
end ChipScript
