import ChipScript.Proofs.Chip.Inversion

/-!
# How many free registers a value needs

Code for a value takes temporaries while it is generated and frees them at its end.  `Node.need` is
the number of temporaries that it has in use at once, read off the tree: an operand that is computed
needs what it needs itself, beside the temporaries of the operands computed before it and, unless it
is the first of them, one of its own.

Generation meets this number exactly.  `Gen.Needs` says of a step that it succeeds only with so many
registers free, and runs out of registers only with fewer; `expression_needs` shows it of the code
for every expression, and the later lemmas of what statements do with expressions.
-/

namespace ChipScript

/-! ## The need of a tree -/

namespace Node

/-- Whether a value has to be computed: it is neither a literal nor that of a variable.  Names are
    those of variables unless they stand for devices. -/
def isComputed (devices : String → Bool) : Node → Bool
  | number _ | constant _ | hash _ => false
  | read name _ _ => devices name
  | _ => true

/-- The need of gathering operands.  Of each operand is given whether it is computed, and what it
    needs then.  The next one to be computed holds `held` registers: one for each that was computed
    before it, where the destination serves one of them. -/
def gathering : (held : Nat) → List (Bool × Nat) → Nat
  | _, [] => 0
  | held, (false, _) :: rest => gathering held rest
  | held, (true, need) :: rest => max (held + need) (gathering (held + 1) rest)

mutual

/-- The most temporaries that are in use at once while a value is computed. -/
def need (devices : String → Bool) : Node → Nat
  | read name index _ => if devices name then gathering 0 (indexNeeds devices index) else 0
  | call _ arguments => gathering 0 (needsOf devices arguments)
  | not operand => gathering 0 [(operand.isComputed devices, need devices operand)]
  | arithmetic _ left right =>
    gathering 0 [(left.isComputed devices, need devices left),
      (right.isComputed devices, need devices right)]
  | comparison _ left right =>
    gathering 0 [(left.isComputed devices, need devices left),
      (right.isComputed devices, need devices right)]
  -- The right side of a connective always has a temporary.
  | connective _ left right => max (need devices left) (1 + need devices right)
  | choice condition thenValue elseValue =>
    match condition.value? with
    | some v => if v != 0.0 then need devices thenValue else need devices elseValue
    | none =>
      gathering 0 [(condition.isComputed devices, need devices condition),
        (thenValue.isComputed devices, need devices thenValue),
        (elseValue.isComputed devices, need devices elseValue)]
  | _ => 0

/-- What each of several operands needs. -/
def needsOf (devices : String → Bool) : List Node → List (Bool × Nat)
  | [] => []
  | node :: rest => (node.isComputed devices, need devices node) :: needsOf devices rest

/-- What an index needs. -/
def indexNeeds (devices : String → Bool) : Option Node → List (Bool × Nat)
  | none => []
  | some index => [(index.isComputed devices, need devices index)]

end

/-- The need of gathering the operands for several nodes. -/
def gatheringNeed (devices : String → Bool) (held : Nat) (nodes : List Node) : Nat :=
  gathering held (needsOf devices nodes)

variable {devices : String → Bool}

theorem indexNeeds_eq (index : Option Node) :
    indexNeeds devices index = needsOf devices index.toList := by
  cases index with
  | none => rfl
  | some node => rfl

/-- What is not computed needs nothing. -/
theorem need_of_not_isComputed {node : Node} (h : node.isComputed devices = false) :
    need devices node = 0 := by
  cases node with
  | read name index property =>
    have hvariable : devices name = false := h
    rw [need, hvariable]
    rfl
  | number _ | constant _ | hash _ => rw [need] <;> simp
  | _ => cases h

/-- An operand that stands alone needs what it needs as a value. -/
theorem gatheringNeed_singleton (node : Node) :
    gatheringNeed devices 0 [node] = need devices node := by
  rw [gatheringNeed, needsOf, needsOf]
  cases hcomputed : node.isComputed devices with
  | false => rw [gathering, gathering, need_of_not_isComputed hcomputed]
  | true => simp [gathering]

/-- Registers that are held throughout are needed beside those for the operands. -/
theorem max_gathering_add (beside need held : Nat) (operands : List (Bool × Nat)) :
    max (beside + need) (gathering (beside + held) operands) =
      beside + max need (gathering held operands) := by
  induction operands generalizing need held with
  | nil => simp [gathering]
  | cons first rest ih =>
    obtain ⟨computed, first⟩ := first
    cases computed with
    | false => exact ih need held
    | true =>
      -- The next operand takes the place of the need, and holds one register more.
      have hlater := ih (held + first) (held + 1)
      rw [← Nat.add_assoc, ← Nat.add_assoc] at hlater
      simp only [gathering]
      omega

end Node

/-! ## Free registers -/

namespace Generator

/-- The names that stand for devices. -/
def devices (g : Generator) (name : String) : Bool :=
  (g.device? name).isSome

/-- The number of free registers. -/
def room (g : Generator) : Nat :=
  (Register.all.filter g.registers.isFree).length

theorem isFree_hold (g : Generator) (r other : Register) :
    (g.hold [r]).registers.isFree other = (other != r && g.registers.isFree other) := by
  by_cases hsame : other = r
  · simp [RegisterFile.isFree, hold, hsame]
  · simp [RegisterFile.isFree, hold, hsame]

/-- One register is free no more. -/
theorem room_hold {g : Generator} {r : Register} (hfree : r ∉ g.registers.reserved)
    (hknown : r ∈ Register.all) : (g.hold [r]).room + 1 = g.room := by
  have hdistinct : (Register.all.filter g.registers.isFree).Nodup :=
    List.Nodup.filter _ (by decide)
  have hmem : r ∈ Register.all.filter g.registers.isFree := by
    simp [hknown, RegisterFile.isFree, hfree]
  -- The registers that are still free are those from before without this one.
  have hrest : Register.all.filter (g.hold [r]).registers.isFree =
      (Register.all.filter g.registers.isFree).erase r := by
    rw [hdistinct.erase_eq_filter, List.filter_filter]
    apply List.filter_congr
    intro other _
    exact isFree_hold g r other
  rw [room, room, hrest, List.length_erase_add_one hmem]

/-- More registers in use leave less room. -/
theorem room_le {g g' : Generator} (h : g.registers.reserved ⊆ g'.registers.reserved) :
    g'.room ≤ g.room := by
  apply List.Sublist.length_le
  apply List.monotone_filter_right
  intro r hfree
  simp only [RegisterFile.isFree, Bool.not_eq_true', List.contains_eq_mem,
    decide_eq_false_iff_not] at hfree ⊢
  exact fun hused => hfree (h hused)

end Generator

/-! ## The need of a step -/

/-- Whether an error says that there was no free register. -/
def CodeError.isExhaustion : CodeError → Bool
  | registersExhausted _ _ => true
  | _ => false

namespace Gen

/-- A step that begins with `room` registers free has as many as it needs if it succeeds, and fewer
    if it runs out of registers. -/
def Needs {α : Type} (need room : Nat) : EStateM.Result CodeError Generator α → Prop
  | .ok _ _ => need ≤ room
  | .error e _ => e.isExhaustion = true → room < need

namespace Needs

variable {α β : Type} {g : Generator} {need need' room : Nat}

/-- Registers that are held throughout are needed as well. -/
theorem beside {r : EStateM.Result CodeError Generator α} (h : Needs need room r) (held : Nat) :
    Needs (held + need) (held + room) r := by
  cases r with
  | ok a g' => exact Nat.add_le_add_left h held
  | error e g' => exact fun hexhausted => Nat.add_lt_add_left (h hexhausted) held

/-- **One step after another needs what the needier of them needs.** -/
theorem bind {x : Gen α} {f : α → Gen β} (hfirst : Needs need room (x g))
    (hsecond : ∀ a g', x g = .ok a g' → Needs need' room (f a g')) :
    Needs (max need need') room ((x >>= f) g) := by
  cases h : x g with
  | ok a g' =>
    rw [bind_apply h]
    rw [h] at hfirst
    have hlater := hsecond a g' h
    have henough : need ≤ room := hfirst
    -- The first step left enough room, so that only the second one can have run out of it.
    cases hresult : f a g' with
    | ok b g'' =>
      rw [hresult] at hlater
      exact max_le henough hlater
    | error e g'' =>
      rw [hresult] at hlater
      exact fun hexhausted => lt_max_of_lt_right (hlater hexhausted)
  | error e g' =>
    rw [bind_error h]
    rw [h] at hfirst
    exact fun hexhausted => lt_max_of_lt_left (hfirst hexhausted)

/-- A step that needs nothing may go before. -/
theorem after_zero {x : Gen α} {f : α → Gen β} (hfirst : Needs 0 room (x g))
    (hsecond : ∀ a g', x g = .ok a g' → Needs need room (f a g')) :
    Needs need room ((x >>= f) g) := by
  have hboth := hfirst.bind hsecond
  rwa [Nat.zero_max] at hboth

/-- A step that needs nothing may follow. -/
theorem before_zero {x : Gen α} {f : α → Gen β} (hfirst : Needs need room (x g))
    (hsecond : ∀ a g', x g = .ok a g' → Needs 0 room (f a g')) :
    Needs need room ((x >>= f) g) := by
  have hboth := hfirst.bind hsecond
  rwa [Nat.max_zero] at hboth

end Needs

/-! ## Elementary steps -/

section Elementary

variable {α : Type} {g : Generator} {need room : Nat}

theorem throw_needs {e : CodeError} (hother : e.isExhaustion = false) :
    Needs need room ((throw e : Gen α) g) := by
  intro hexhausted
  rw [hother] at hexhausted
  cases hexhausted

theorem pure_needs (a : α) : Needs 0 room ((pure a : Gen α) g) :=
  Nat.zero_le room

theorem emit_needs (instruction : Instruction) : Needs 0 room (emit instruction g) :=
  Nat.zero_le room

theorem emitAll_needs (code : List Instruction) : Needs 0 room (emitAll code g) := by
  rw [emitAll_apply]
  exact Nat.zero_le room

theorem release_needs (r : Register) : Needs 0 room (release r g) := by
  cases hfreed : g.registers.release r with
  | ok registers =>
    simp only [release, hfreed]
    exact Nat.zero_le room
  | error e =>
    simp only [release, hfreed]
    unfold RegisterFile.release at hfreed
    split at hfreed
    · cases hfreed
      exact throw_needs rfl
    · cases hfreed

theorem releaseAll_needs (registers : List Register) : Needs 0 room (releaseAll registers g) := by
  induction registers generalizing g with
  | nil => exact pure_needs ()
  | cons r rest ih => exact (release_needs r).after_zero fun _ _ _ => ih

theorem checkArity_needs (name : String) (expected found : Nat) :
    Needs 0 room (checkArity name expected found g) := by
  unfold checkArity
  split
  · exact pure_needs ()
  · exact throw_needs rfl

theorem registerOf_not_isExhaustion {name : String} {index : Option Node}
    {property : Option String} {e : CodeError} (h : g.registerOf name index property = .error e) :
    e.isExhaustion = false := by
  unfold Generator.registerOf at h
  split at h
  · cases h
    rfl
  · split at h
    · cases h
      rfl
    · cases h

theorem operand?_not_isExhaustion {node : Node} {e : CodeError} (h : g.operand? node = .error e) :
    e.isExhaustion = false := by
  cases node with
  | read name index property =>
    rw [Generator.operand?] at h
    split at h
    · cases h
    · cases hasked : g.registerOf name index property with
      | ok r => simp [hasked, Except.map] at h
      | error e' =>
        simp only [hasked, Except.map, Except.error.injEq] at h
        exact h ▸ registerOf_not_isExhaustion hasked
  | _ => cases h

theorem query_needs {ask : Generator → Except CodeError α}
    (hkind : ∀ e, ask g = .error e → e.isExhaustion = false) : Needs 0 room (query ask g) := by
  unfold query
  cases hanswer : ask g with
  | ok a => exact Nat.zero_le room
  | error e => exact throw_needs (hkind e hanswer)

/-- A register is reserved if and only if there is a free one. -/
theorem reserveBy_room {candidates : List Register} (hall : candidates.Perm Register.all)
    (g : Generator) :
    (∃ r, r ∉ g.registers.reserved ∧ r ∈ Register.all ∧
      reserveBy (·.take candidates) g = .ok r (g.hold [r])) ∨
    (g.room = 0 ∧
      reserveBy (·.take candidates) g = .error (.registersExhausted .first .last) g) := by
  cases hfound : candidates.find? g.registers.isFree with
  | none =>
    right
    have hfull : g.room = 0 := by
      rw [Generator.room, List.length_eq_zero_iff, List.filter_eq_nil_iff]
      intro r hknown
      exact List.find?_eq_none.mp hfound r (hall.mem_iff.mpr hknown)
    refine ⟨hfull, ?_⟩
    simp [reserveBy, RegisterFile.take, hfound]
  | some r =>
    left
    have hfree := List.find?_some hfound
    refine ⟨r, by simpa [RegisterFile.isFree] using hfree,
      hall.mem_iff.mp (List.mem_of_find?_eq_some hfound), ?_⟩
    simp [reserveBy, RegisterFile.take, hfound, Generator.hold]

/-- A register that is reserved for what follows is needed beside what that needs. -/
theorem reserveBy_needs {candidates : List Register} (hall : candidates.Perm Register.all)
    {f : Register → Gen α}
    (hlater : ∀ r, r ∉ g.registers.reserved → r ∈ Register.all →
      Needs need (g.hold [r]).room (f r (g.hold [r]))) :
    Needs (1 + need) g.room ((reserveBy (·.take candidates) >>= f) g) := by
  rcases reserveBy_room hall g with ⟨r, hfree, hknown, htaken⟩ | ⟨hfull, hfailed⟩
  · rw [bind_apply htaken, ← Generator.room_hold hfree hknown, Nat.add_comm _ 1]
    exact (hlater r hfree hknown).beside 1
  · rw [bind_error hfailed, hfull]
    exact fun _ => by omega

theorem reserve_needs {f : Register → Gen α}
    (hlater : ∀ r, r ∉ g.registers.reserved → r ∈ Register.all →
      Needs need (g.hold [r]).room (f r (g.hold [r]))) :
    Needs (1 + need) g.room ((reserve >>= f) g) :=
  reserveBy_needs (List.Perm.refl _) hlater

end Elementary

/-! ## Operands -/

/-- What is found without code is not computed. -/
theorem isComputed_of_operand? {g : Generator} {node : Node} {found : Option Operand}
    (h : g.operand? node = .ok found) : node.isComputed g.devices = found.isNone := by
  cases node with
  | number _ | constant _ | hash _ =>
    cases h
    rfl
  | read name index property =>
    rw [Generator.operand?] at h
    show (g.device? name).isSome = _
    split at h
    · next hknown =>
      -- The name is that of a device, whose value has to be loaded.
      cases h
      rw [hknown]
      rfl
    · next hknown =>
      rw [hknown]
      cases hasked : g.registerOf name index property with
      | ok r =>
        rw [hasked] at h
        cases h
        rfl
      | error e =>
        rw [hasked] at h
        cases h
  | _ =>
    cases h
    rfl

/-- What the code of a value needs, for one node. -/
abbrev NeedsExactly (node : Node) : Prop :=
  ∀ (dst : Register) (g : Generator), g.registers.reserved.Nodup →
    Needs (node.need g.devices) g.room (expression node dst g)

/-- Asking for an operand needs no register: there is one unless the value has to be computed. -/
theorem operand?_needs {α : Type} {node : Node} {f : Option Operand → Gen α} {g : Generator}
    {need : Nat}
    (hused : node.isComputed g.devices = false → ∀ operand, Needs need g.room (f (some operand) g))
    (hcomputed : node.isComputed g.devices = true → Needs need g.room (f none g)) :
    Needs need g.room ((query (·.operand? node) >>= f) g) := by
  refine (query_needs fun e => operand?_not_isExhaustion).after_zero ?_
  intro found g₁ hasked
  obtain ⟨hanswer, rfl⟩ := query_eq_ok.1 hasked
  have hkind := isComputed_of_operand? hanswer
  cases found with
  | some operand => exact hused hkind operand
  | none => exact hcomputed hkind

/-- An operand that stands alone needs what it needs as a value. -/
theorem materialize_needs {node : Node} (hexact : NeedsExactly node) (dst : Register)
    {g : Generator} (hnodup : g.registers.reserved.Nodup) :
    Needs (node.need g.devices) g.room (materialize node (expression node) dst g) := by
  unfold materialize
  apply operand?_needs
  · intro hplain operand
    rw [Node.need_of_not_isComputed hplain]
    exact pure_needs operand
  · intro _
    exact (hexact dst g hnodup).before_zero fun _ _ _ => pure_needs _

/-- The registers that the next operand of a scope holds when it is computed. -/
def Scope.held (scope : Scope) : Nat :=
  if scope.taken then 1 else 0

/-- An operand that is not computed needs nothing. -/
theorem operandIn_plain_needs {α : Type} {node : Node} (scope : Scope) {f : Operand × Scope → Gen α}
    {g : Generator} {need : Nat} (hplain : node.isComputed g.devices = false)
    (hlater : ∀ operand, Needs need g.room (f (operand, scope) g)) :
    Needs need g.room ((operandIn scope node (expression node) >>= f) g) := by
  unfold operandIn
  rw [bind_assoc]
  apply operand?_needs
  · exact fun _ operand => hlater operand
  · intro hcomputed
    rw [hplain] at hcomputed
    cases hcomputed

/-- An operand that is computed needs its temporary, if it has one, and beside it what its code and
    the steps that follow need. -/
theorem operandIn_computed_needs {α : Type} {node : Node} (hexact : NeedsExactly node)
    (scope : Scope) {f : Operand × Scope → Gen α} {g : Generator} {need : Nat}
    (hnodup : g.registers.reserved.Nodup) (hcomputed : node.isComputed g.devices = true)
    (hlater : ∀ operand scope' g', g'.registers.reserved.Nodup → g'.devices = g.devices →
      scope'.taken = true → Needs need g'.room (f (operand, scope') g')) :
    Needs (scope.held + max (node.need g.devices) need) g.room
      ((operandIn scope node (expression node) >>= f) g) := by
  -- The code is generated in a state with the same names, and only code is added to it.
  have hgenerated : ∀ r scope' g', g'.registers.reserved.Nodup → g'.devices = g.devices →
      scope'.taken = true →
      Needs (max (node.need g.devices) need) g'.room
        ((do expression node r; f (.register r, scope')) g') := by
    intro r scope' g' hnodup' hsame htaken
    have hfirst := hexact r g' hnodup'
    rw [hsame] at hfirst
    refine hfirst.bind ?_
    intro _ g₂ hsuccess
    obtain ⟨code, -, rfl⟩ := expression_eq_ok hnodup' hsuccess
    exact hlater _ scope' (g'.append code) hnodup' hsame htaken
  unfold operandIn
  rw [bind_assoc]
  apply operand?_needs
  · intro hplain
    rw [hplain] at hcomputed
    cases hcomputed
  · intro _
    -- The first operand that is computed goes to the destination, every later one to a temporary.
    by_cases htaken : scope.taken = true
    · simp only [htaken, if_true, bind_assoc, pure_bind, Scope.held]
      refine reserve_needs ?_
      intro r hfree _
      have hheld : (g.hold [r]).registers.reserved.Nodup := by simpa using ⟨hfree, hnodup⟩
      exact hgenerated r _ (g.hold [r]) hheld rfl rfl
    · simp only [htaken, Scope.held]
      rw [if_neg (by simp), if_neg (by simp), Nat.zero_add]
      simp only [bind_assoc, pure_bind]
      exact hgenerated scope.dst _ g hnodup rfl rfl

theorem operandsIn_needs {nodes : List Node} (hexact : ∀ node ∈ nodes, NeedsExactly node)
    (scope : Scope) {g : Generator} (hnodup : g.registers.reserved.Nodup) :
    Needs (Node.gatheringNeed g.devices scope.held nodes) g.room (operandsIn scope nodes g) := by
  induction nodes generalizing scope g with
  | nil =>
    rw [operandsIn]
    exact pure_needs _
  | cons node rest ih =>
    have hlater : ∀ (operand : Operand) (scope' : Scope) (g' : Generator),
        g'.registers.reserved.Nodup → g'.devices = g.devices →
        Needs (Node.gatheringNeed g.devices scope'.held rest) g'.room
          ((do let found ← operandsIn scope' rest
               return (operand :: found.1, found.2)) g') := by
      intro operand scope' g' hnodup' hsame
      have hgathered := ih (fun n hn => hexact n (List.mem_cons_of_mem _ hn)) scope' hnodup'
      rw [hsame] at hgathered
      exact hgathered.before_zero fun _ _ _ => pure_needs _
    rw [operandsIn]
    cases hkind : node.isComputed g.devices with
    | false =>
      simp only [Node.gatheringNeed, Node.needsOf, hkind, Node.gathering]
      exact operandIn_plain_needs scope hkind fun operand => hlater operand scope g hnodup rfl
    | true =>
      simp only [Node.gatheringNeed, Node.needsOf, hkind, Node.gathering]
      -- What the scope holds is held throughout; behind this operand its destination is taken.
      rw [Node.max_gathering_add]
      refine operandIn_computed_needs (hexact node (List.mem_cons_self ..)) scope hnodup hkind ?_
      intro operand scope' g' hnodup' hsame htaken
      have hgathered := hlater operand scope' g' hnodup' hsame
      rw [Scope.held, if_pos htaken] at hgathered
      exact hgathered

theorem withOperands_needs {nodes : List Node} (hexact : ∀ node ∈ nodes, NeedsExactly node)
    (dst : Register) (use : List Operand → List Instruction) {g : Generator}
    (hnodup : g.registers.reserved.Nodup) :
    Needs (Node.gatheringNeed g.devices 0 nodes) g.room (withOperands dst nodes use g) := by
  unfold withOperands
  refine (operandsIn_needs hexact (.opened dst) hnodup).before_zero ?_
  rintro ⟨operands, scope⟩ g₁ -
  exact (emitAll_needs _).after_zero fun _ _ _ => releaseAll_needs _

/-! ## Expressions -/

theorem connective_needs (operator : Connective) {left right : Node}
    (hexactLeft : NeedsExactly left) (hexactRight : NeedsExactly right) :
    NeedsExactly (.connective operator left right) := by
  intro dst g hnodup
  rw [expression, Node.need]
  refine (materialize_needs hexactLeft dst hnodup).bind ?_
  intro a g₁ hfirst
  obtain ⟨code, -, rfl⟩ := materialize_eq_ok hnodup hfirst
  -- The left side stays in the destination while the right side has a temporary of its own.
  refine reserve_needs (g := g.append code) ?_
  intro r hfree _
  have hheld : ((g.append code).hold [r]).registers.reserved.Nodup := by simpa using ⟨hfree, hnodup⟩
  refine (materialize_needs hexactRight r hheld).before_zero ?_
  intro b g₂ _
  refine (emit_needs _).after_zero fun _ _ _ => ?_
  refine (emit_needs _).after_zero fun _ _ _ => ?_
  exact (emit_needs _).after_zero fun _ _ _ => release_needs r

theorem read_needs (name : String) {index : Option Node} (property : Option String)
    (hexact : ∀ node ∈ index.toList, NeedsExactly node) :
    NeedsExactly (.read name index property) := by
  intro dst g hnodup
  rw [Node.need, Node.indexNeeds_eq]
  -- A device is loaded after its index has been gathered; a variable needs no register.
  cases hknown : g.device? name with
  | some config =>
    have hdevice : g.devices name = true := by rw [Generator.devices, hknown]; rfl
    rw [if_pos hdevice]
    cases property with
    | none =>
      simp only [expression]
      rw [bind_apply get_apply, hknown]
      exact throw_needs rfl
    | some property =>
      rw [expression_load index property dst hknown]
      exact withOperands_needs hexact dst _ hnodup
  | none =>
    have hvariable : g.devices name = false := by rw [Generator.devices, hknown]; rfl
    rw [if_neg (by rw [hvariable]; simp)]
    simp only [expression]
    rw [bind_apply get_apply, hknown]
    refine (query_needs fun e => registerOf_not_isExhaustion).after_zero ?_
    exact fun _ _ _ => emit_needs _

theorem call_needs (name : String) {arguments : List Node}
    (hexact : ∀ node ∈ arguments, NeedsExactly node) : NeedsExactly (.call name arguments) := by
  intro dst g hnodup
  -- Commands and functions gather their arguments alike.
  have hgathered : ∀ arity (use : List Operand → List Instruction),
      Needs (Node.need g.devices (.call name arguments)) g.room
        ((do checkArity name arity arguments.length; withOperands dst arguments use) g) := by
    intro arity use
    rw [Node.need]
    refine (checkArity_needs name arity _).after_zero ?_
    intro _ g₁ hchecked
    obtain ⟨-, rfl⟩ := checkArity_eq_ok hchecked
    exact withOperands_needs hexact dst use hnodup
  cases hcalled : Vocabulary.Command.ofName? name with
  | some command =>
    rw [expression_command arguments dst hcalled]
    exact hgathered _ _
  | none =>
    cases hknown : Vocabulary.functionArity? name with
    | some arity =>
      rw [expression_function arguments dst hcalled hknown]
      exact hgathered _ _
    | none =>
      simp only [expression, hcalled, hknown]
      exact throw_needs rfl

/-- **The code of a value needs as many free registers as its tree says**: it succeeds only with so
    many, and runs out of registers only with fewer. -/
theorem expression_needs (node : Node) : NeedsExactly node := by
  induction node using Node.partsInduction with
  | step node ih =>
    cases node with
    | arithmetic operator left right =>
      intro dst g hnodup
      rw [expression_arithmetic, Node.need]
      exact withOperands_needs ih dst _ hnodup
    | comparison operator left right =>
      intro dst g hnodup
      rw [expression_comparison, Node.need]
      exact withOperands_needs ih dst _ hnodup
    | not operand =>
      intro dst g hnodup
      rw [expression_not, Node.need]
      exact withOperands_needs ih dst _ hnodup
    | connective operator left right =>
      exact connective_needs operator (ih left (by simp [Node.parts]))
        (ih right (by simp [Node.parts]))
    | choice condition thenValue elseValue =>
      intro dst g hnodup
      cases hknown : condition.value? with
      | some value =>
        -- Only the part that is chosen has code.
        rw [expression_choice_known _ _ _ hknown, Node.need, hknown]
        simp only
        split
        · exact ih thenValue (by simp [Node.parts]) dst g hnodup
        · exact ih elseValue (by simp [Node.parts]) dst g hnodup
      | none =>
        rw [expression_choice _ _ _ hknown, Node.need, hknown]
        exact withOperands_needs ih dst _ hnodup
    | read name index property => exact read_needs name property ih
    | call name arguments => exact call_needs name ih
    | number text | constant text | hash text =>
      intro dst g hnodup
      rw [expression, Node.need]
      · exact emit_needs _
      all_goals simp
    | device config | block body | declare name value | assign name index property value | loop body
      | whileLoop condition body | branch condition thenBranch elseBranch | control kind =>
      intro dst g hnodup
      rw [expression]
      · exact throw_needs rfl
      all_goals simp

/-! ## Declarations and assignments -/

theorem computeInto_needs (register : Register) (node : Node) {g : Generator}
    (hnodup : g.registers.reserved.Nodup) :
    Needs (node.need g.devices) g.room (computeInto register node g) := by
  unfold computeInto
  apply operand?_needs
  · intro hplain operand
    rw [Node.need_of_not_isComputed hplain]
    exact emit_needs _
  · exact fun _ => expression_needs node register g hnodup

theorem checkNew_needs (name : String) {g : Generator} {room : Nat} :
    Needs 0 room (checkNew name g) := by
  unfold checkNew
  rw [bind_apply get_apply]
  split
  · exact throw_needs rfl
  · exact pure_needs _

/-- A variable needs a register beside what its value needs. -/
theorem declaration_needs (name : String) {value : Node} (hother : ∀ config, value ≠ .device config)
    {g : Generator} (hnodup : g.registers.reserved.Nodup) :
    Needs (1 + value.need g.devices) g.room (declaration name value g) := by
  unfold declaration
  refine (checkNew_needs name).after_zero ?_
  intro _ g₁ hchecked
  obtain ⟨-, rfl⟩ := checkNew_eq_ok hchecked
  -- The register of the variable is held while the value is computed into it.
  have hreserved : Needs (1 + value.need g₁.devices) g₁.room
      ((do let register ← reserveHigh
           computeInto register value
           modify fun g => { g with variableTable := (name, register) :: g.variableTable } :
        Gen Unit) g₁) := by
    refine reserveBy_needs (List.reverse_perm _) ?_
    intro r hfree _
    have hheld : (g₁.hold [r]).registers.reserved.Nodup := by simpa using ⟨hfree, hnodup⟩
    exact (computeInto_needs r value hheld).before_zero fun _ _ _ => Nat.zero_le _
  cases value with
  | device config => exact absurd rfl (hother config)
  | _ => exact hreserved

/-- The register of a variable is free no more behind its declaration. -/
theorem declaration_room {name : String} {value : Node} (hother : ∀ config, value ≠ .device config)
    {g g' : Generator} (hnodup : g.registers.reserved.Nodup)
    (h : declaration name value g = .ok () g') : g'.room + 1 = g.room := by
  have hreserved : ∀ {g₁ : Generator}, g₁.registers.reserved.Nodup →
      (do let register ← reserveHigh
          computeInto register value
          modify fun g => { g with variableTable := (name, register) :: g.variableTable } :
        Gen Unit) g₁ = .ok () g' → g'.room + 1 = g₁.room := by
    intro g₁ hnodup₁ hsuccess
    have hfirst := reserveBy_room (List.reverse_perm Register.all) g₁
    rw [bind_eq_ok] at hsuccess
    obtain ⟨r, g₂, htaken, hsuccess⟩ := hsuccess
    rcases hfirst with ⟨r', hfree, hknown, htaken'⟩ | ⟨-, hfailed⟩
    · cases htaken.symm.trans htaken'
      have hheld : (g₁.hold [r]).registers.reserved.Nodup := by simpa using ⟨hfree, hnodup₁⟩
      rw [bind_eq_ok] at hsuccess
      obtain ⟨⟨⟩, g₃, hcomputed, hsuccess⟩ := hsuccess
      -- The temporaries of the value are free again, and only its own register is not.
      obtain ⟨code, -, rfl⟩ := computeInto_eq_ok hheld hcomputed
      cases hsuccess
      exact Generator.room_hold hfree hknown
    · cases htaken.symm.trans hfailed
  unfold declaration at h
  rw [bind_eq_ok] at h
  obtain ⟨⟨⟩, g₁, hchecked, h⟩ := h
  obtain ⟨-, rfl⟩ := checkNew_eq_ok hchecked
  cases value with
  | device config => exact absurd rfl (hother config)
  | _ => exact hreserved hnodup h

/-- A device needs no register. -/
theorem declaration_device_needs (name : String) (config : DeviceConfig) {g : Generator}
    {room : Nat} : Needs 0 room (declaration name (.device config) g) :=
  (checkNew_needs name).after_zero fun _ _ _ => Nat.zero_le room

/-- A store needs what gathering its value and its index needs. -/
theorem deviceStore_needs (config : DeviceConfig) (name : String) (index : Option Node)
    (property : Option String) (value : Node) (dst : Register) {g : Generator}
    (hnodup : g.registers.reserved.Nodup) :
    Needs (Node.gatheringNeed g.devices 0 (value :: index.toList)) g.room
      (deviceStore config name index property value dst g) := by
  cases property with
  | none => exact throw_needs rfl
  | some property =>
    by_cases hunnamed :
        index = none ∨ ∀ deviceName mode, config.addressing ≠ .namedBatch deviceName mode
    · rw [deviceStore_eq config name index property value dst hunnamed]
      exact withOperands_needs (fun node _ => expression_needs node) dst _ hnodup
    · -- Devices that are addressed by name are never indexed, whatever registers there are.
      push Not at hunnamed
      obtain ⟨hindexed, deviceName, mode, haddress⟩ := hunnamed
      obtain ⟨node, rfl⟩ := Option.ne_none_iff_exists'.1 hindexed
      unfold deviceStore
      rw [haddress]
      exact throw_needs rfl

/-- Whether a value is computed aside before it is assigned to a variable. -/
def goesAside (g : Generator) (name : String) (value : Node) : Bool :=
  value.reads name && !g.isSingleInstruction value

/-- What an assignment to a variable needs. -/
def assignmentNeed (g : Generator) (name : String) (value : Node) : Nat :=
  if value.isComputed g.devices && goesAside g name value then 1 + value.need g.devices
  else value.need g.devices

theorem variableStore_needs (name : String) (index : Option Node) (property : Option String)
    (value : Node) {g : Generator} (hnodup : g.registers.reserved.Nodup) :
    Needs (assignmentNeed g name value) g.room (variableStore name index property value g) := by
  unfold variableStore
  refine (query_needs fun e => registerOf_not_isExhaustion).after_zero ?_
  intro register g₁ hasked
  obtain ⟨-, rfl⟩ := query_eq_ok.1 hasked
  unfold assignmentNeed
  apply operand?_needs
  · intro hplain operand
    rw [hplain, Node.need_of_not_isComputed hplain]
    exact emit_needs _
  · intro hcomputed
    rw [hcomputed, Bool.true_and]
    simp only
    rw [bind_apply get_apply]
    -- A value that reads the variable while it is written goes through a temporary.
    by_cases haside : goesAside g₁ name value = true
    · rw [if_pos haside]
      unfold goesAside at haside
      rw [if_pos haside]
      refine reserve_needs ?_
      intro r hfree _
      have hheld : (g₁.hold [r]).registers.reserved.Nodup := by simpa using ⟨hfree, hnodup⟩
      refine (expression_needs value r _ hheld).before_zero fun _ _ _ => ?_
      exact (emit_needs _).after_zero fun _ _ _ => release_needs r
    · rw [if_neg haside]
      unfold goesAside at haside
      rw [if_neg haside]
      exact expression_needs value register g₁ hnodup

end Gen
end ChipScript
