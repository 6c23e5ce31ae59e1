import ChipScript.Proofs.Chip.Extension
import ChipScript.Proofs.Chip.Values

/-!
# Following an evaluation

A chip follows an evaluation if its steps lead to a state that has the same trace and holds the
result.  Where the evaluation reads a name that has no meaning, nothing is asked of the chip but
that it comes to the same trace.  `Follows.bind` follows the order of evaluation.

`Stands` ties the environment to the registers: a name that has a value has a register, and the
register holds that value.
-/

namespace ChipScript

/-! ## Names and registers -/

section Representation

variable {V : Type}

/-- What a name means is what the generator knows of it, and its register holds its value. -/
def Stands (g : Generator) (env : Environment V) (registers : Register → V)
    (name : String) : Prop :=
  match env name with
  | none => True
  | some (.value v) => ∃ r, g.binding? name = some (.register r) ∧ registers r = v
  | some (.device config) => g.binding? name = some (.device config)

variable {g g' : Generator} {env : Environment V} {registers registers' : Register → V}
  {name : String}

theorem Stands.congr (h : Stands g env registers name)
    (hknown : ∀ b, g.binding? name = some b → g'.binding? name = some b)
    (hkept : ∀ r, g.binding? name = some (.register r) → registers' r = registers r) :
    Stands g' env registers' name := by
  unfold Stands at h ⊢
  split
  · trivial
  · next v hmeaning =>
    simp only [hmeaning] at h
    obtain ⟨r, hbinding, hvalue⟩ := h
    exact ⟨r, hknown _ hbinding, (hkept r hbinding).trans hvalue⟩
  · next config hmeaning =>
    simp only [hmeaning] at h
    exact hknown _ h

/-- A name that has a meaning has the one that the generator knows. -/
theorem Stands.meaning (h : Stands g env registers name) :
    env name = none ∨ env name = g.environment registers name := by
  unfold Stands at h
  cases hmeaning : env name with
  | none => exact .inl rfl
  | some what =>
    right
    rw [hmeaning] at h
    unfold Generator.environment
    cases what with
    | value v =>
      obtain ⟨r, hknown, rfl⟩ := h
      rw [hknown]
      rfl
    | device config =>
      rw [h]
      rfl

end Representation

/-! ## Following -/

section Following

variable {V : Type} [LinearOrder V] {chip : Chip V} {α β : Type}

/-- From a state on, the chip comes to the trace of an evaluation and to its result. -/
def Follows (chip : Chip V) (m : Machine V) (post : α → Machine V → Prop) :
    EStateM.Result Fault (Trace V) α → Prop
  | .ok a trace => ∃ m', chip.Leads m m' ∧ m'.status = .running ∧ m'.trace = trace ∧ post a m'
  | .error fault trace => (∃ name, fault = .undefined name) ∧
      ∃ m', chip.Leads m m' ∧ m'.trace = trace

namespace Follows

variable {m m₁ : Machine V} {post result : α → Machine V → Prop}

theorem mono {r : EStateM.Result Fault (Trace V) α} (h : Follows chip m post r)
    (himp : ∀ a m', m'.status = .running → post a m' → result a m') : Follows chip m result r := by
  cases r with
  | ok a trace =>
    obtain ⟨m', hleads, hrunning, htraced, hholds⟩ := h
    exact ⟨m', hleads, hrunning, htraced, himp a m' hrunning hholds⟩
  | error fault trace => exact h

/-- What is followed from a later state is followed from an earlier one. -/
theorem of_leads {r : EStateM.Result Fault (Trace V) α} (hleads : chip.Leads m m₁)
    (h : Follows chip m₁ post r) : Follows chip m post r := by
  cases r with
  | ok a trace =>
    obtain ⟨m', hlater, hrest⟩ := h
    exact ⟨m', hleads.trans hlater, hrest⟩
  | error fault trace =>
    obtain ⟨hundefined, m', hlater, htraced⟩ := h
    exact ⟨hundefined, m', hleads.trans hlater, htraced⟩

/-- One evaluation after another. -/
theorem bind {x : Eval V α} {f : α → Eval V β} {trace : Trace V} {result : β → Machine V → Prop}
    (hfirst : Follows chip m post (x trace))
    (hsecond : ∀ a m', m'.status = .running → post a m' → Follows chip m' result (f a m'.trace)) :
    Follows chip m result ((x >>= f) trace) := by
  cases h : x trace with
  | ok a trace' =>
    rw [h] at hfirst
    obtain ⟨m', hleads, hrunning, rfl, hholds⟩ := hfirst
    rw [bind_apply h]
    exact (hsecond a m' hrunning hholds).of_leads hleads
  | error fault trace' =>
    rw [h] at hfirst
    rw [bind_error h]
    exact hfirst

end Follows
end Following
end ChipScript
