import ChipScript.Proofs.Chip.Need

/-!
# Running out of registers

The code of a value can be missing for two reasons: the tree does not fit the names that are known,
or there are too few registers.  `Generator.HasCode` says when the first is not the case, without a
word about registers.  What is left depends on how many registers are free, and neither on which
these are nor on the destination.

Main result: `exhausted_iff_room_lt_need`.
-/

namespace ChipScript

/-! ## Trees that have code -/

/-- The parts that code is generated for.  Of a choice that is decided it is the part that is
    chosen. -/
def Node.generated : Node → List Node
  | .choice condition thenValue elseValue =>
    match condition.value? with
    | some v => [if v != 0.0 then thenValue else elseValue]
    | none => [condition, thenValue, elseValue]
  | node => node.parts

/-- **The need of operands is that of the neediest of them.**  One that is computed holds a register
    for each that was computed before it. -/
theorem Node.gatheringNeed_eq_max (devices : String → Bool) (held : Nat) (nodes : List Node) :
    gatheringNeed devices held nodes =
      (((nodes.filter (isComputed devices)).zipIdx held).map fun (node, j) =>
        j + need devices node).foldr max 0 := by
  induction nodes generalizing held with
  | nil => rfl
  | cons node rest ih =>
    rw [gatheringNeed, needsOf]
    cases hcomputed : node.isComputed devices with
    | false =>
      rw [gathering, List.filter_cons_of_neg (by simp [hcomputed])]
      exact ih held
    | true =>
      rw [gathering, List.filter_cons_of_pos hcomputed, List.zipIdx_cons, List.map_cons,
        List.foldr_cons]
      exact congrArg _ (ih (held + 1))

namespace Generator

/-- What is known of names. -/
def tables (g : Generator) : List (String × Register) × List (String × DeviceConfig) :=
  (g.variableTable, g.deviceTable)

/-- Whether the root of a tree fits the names that are known: loads name a logic type, variables are
    plain, calls have as many arguments as their name asks for, and neither a statement nor a device
    stands for a value. -/
def suits (g : Generator) : Node → Bool
  | .number _ | .constant _ | .hash _ => true
  | .not _ | .arithmetic _ _ _ | .comparison _ _ _ | .connective _ _ _ | .choice _ _ _ => true
  | .read name index property =>
    if g.devices name then property.isSome else (g.registerOf name index property).toBool
  | .call name arguments =>
    match Vocabulary.Command.ofName? name with
    | some command => command.arity = arguments.length
    | none => Vocabulary.functionArity? name = some arguments.length
  | _ => false

/-- Trees whose code can only be missing for a lack of registers. -/
inductive HasCode (g : Generator) : Node → Prop where
  | intro {node : Node} :
      g.suits node = true → (∀ part ∈ node.generated, HasCode g part) → HasCode g node

variable {g g' : Generator}

theorem HasCode.suits {node : Node} (h : g.HasCode node) : g.suits node = true := by
  cases h with
  | intro hroot _ => exact hroot

theorem suits_congr (hsame : g'.tables = g.tables) (node : Node) :
    g'.suits node = g.suits node := by
  obtain ⟨code, registers, labels, loops, known, devices⟩ := g
  obtain ⟨code', registers', labels', loops', known', devices'⟩ := g'
  cases hsame
  rfl

/-- Only the names that are known matter. -/
theorem HasCode.congr {node : Node} (h : g.HasCode node) (hsame : g'.tables = g.tables) :
    g'.HasCode node := by
  induction h with
  | intro hroot _ ih => exact .intro ((suits_congr hsame _).trans hroot) ih

/-- A node that suits is found without code, or it needs code. -/
theorem exists_operand? {node : Node} (h : g.suits node = true) :
    ∃ found, g.operand? node = .ok found := by
  cases node with
  | read name index property =>
    rw [operand?]
    cases hknown : g.device? name with
    | some config => exact ⟨none, rfl⟩
    | none =>
      have hvariable : g.devices name = false := by rw [devices, hknown]; rfl
      rw [suits, hvariable] at h
      cases hfound : g.registerOf name index property with
      | ok r => exact ⟨some (.register r), rfl⟩
      | error e =>
        rw [hfound] at h
        cases h
  | _ => exact ⟨_, rfl⟩

/-- What is found without code has code as a value, too. -/
theorem hasCode_of_operand? {node : Node} {operand : Operand}
    (h : g.operand? node = .ok (some operand)) : g.HasCode node := by
  -- Only literals and variables stand for themselves, and neither has parts that need code.
  cases node with
  | number _ | constant _ | hash _ => exact .intro rfl (by simp [Node.generated, Node.parts])
  | read name index property =>
    rw [operand?] at h
    cases hknown : g.device? name with
    | some config => simp [hknown] at h
    | none =>
      have hvariable : g.devices name = false := by rw [devices, hknown]; rfl
      simp only [hknown] at h
      cases hfound : g.registerOf name index property with
      | error e => simp [hfound, Except.map] at h
      | ok r =>
        obtain ⟨-, rfl, rfl⟩ := registerOf_eq_ok hfound
        refine .intro ?_ (by simp [Node.generated, Node.parts])
        rw [suits, hvariable, hfound]
        rfl
  | _ => cases h

end Generator

namespace Gen

open Generator

/-! ## Steps that need nothing but registers -/

/-- A step that gets through unless it runs out of registers. -/
def OnlyExhausts {α : Type} (step : Gen α) (g : Generator) : Prop :=
  ∀ e g', step g = .error e g' → e = .registersExhausted .first .last

section Steps

variable {α β : Type} {g : Generator}

theorem OnlyExhausts.of_ok {step : Gen α} {a : α} {g' : Generator} (h : step g = .ok a g') :
    OnlyExhausts step g := by
  intro e g₁ hfailed
  rw [h] at hfailed
  cases hfailed

theorem OnlyExhausts.bind {x : Gen α} {f : α → Gen β} (hfirst : OnlyExhausts x g)
    (hsecond : ∀ a g₁, x g = .ok a g₁ → OnlyExhausts (f a) g₁) : OnlyExhausts (x >>= f) g := by
  intro e g' hfailed
  rcases bind_eq_error.1 hfailed with hstopped | ⟨a, g₁, hran, hstopped⟩
  · exact hfirst e g' hstopped
  · exact hsecond a g₁ hran e g' hstopped

theorem OnlyExhausts.congr {step step' : Gen α} (h : OnlyExhausts step' g)
    (hsame : step g = step' g) : OnlyExhausts step g :=
  fun e g' hfailed => h e g' (hsame ▸ hfailed)

theorem reserve_onlyExhausts (g : Generator) : OnlyExhausts reserve g := by
  intro e g' hfailed
  rcases reserveBy_take Register.all g with ⟨r, -, htaken⟩ | hexhausted
  · cases htaken.symm.trans hfailed
  · cases hexhausted.symm.trans hfailed
    rfl

theorem query_onlyExhausts {ask : Generator → Except CodeError α}
    (hanswers : ∃ a, ask g = .ok a) : OnlyExhausts (query ask) g := by
  obtain ⟨a, hanswer⟩ := hanswers
  exact .of_ok (query_eq_ok.2 ⟨hanswer, rfl⟩)

end Steps

/-! ## Values -/

/-- The code of a value can only be missing for a lack of registers, wherever the same names are
    known. -/
abbrev Computable (g : Generator) (node : Node) : Prop :=
  ∀ (dst : Register) (g' : Generator), g'.registers.reserved.Nodup → g'.tables = g.tables →
    OnlyExhausts (expression node dst) g'

section Values

/-- Where a value suits there is an answer to the question for its operand. -/
theorem operand?_onlyExhausts {α : Type} {g g' : Generator} (hsame : g'.tables = g.tables)
    {node : Node} (hsuits : g.suits node = true) {f : Option Operand → Gen α}
    (hused : ∀ operand, OnlyExhausts (f (some operand)) g') (hcomputed : OnlyExhausts (f none) g') :
    OnlyExhausts (query (·.operand? node) >>= f) g' := by
  have hsuits' : g'.suits node = true := (suits_congr hsame node).trans hsuits
  refine (query_onlyExhausts (exists_operand? hsuits')).bind ?_
  intro found g₁ hasked
  obtain ⟨-, rfl⟩ := query_eq_ok.1 hasked
  cases found with
  | some operand => exact hused operand
  | none => exact hcomputed

variable {g g' : Generator} (hnodup : g'.registers.reserved.Nodup) (hsame : g'.tables = g.tables)

include hnodup hsame

theorem operandIn_onlyExhausts {node : Node} (hsuits : g.suits node = true)
    (hcomputable : Computable g node) (scope : Scope) :
    OnlyExhausts (operandIn scope node (expression node)) g' := by
  unfold operandIn
  apply operand?_onlyExhausts hsame hsuits
  · exact fun operand => .of_ok rfl
  · cases scope.taken with
    | true =>
      refine (reserve_onlyExhausts g').bind ?_
      intro r g₁ hreserved
      obtain ⟨hfree, rfl⟩ := reserveBy_eq_ok hreserved
      have hheld : (g'.hold [r]).registers.reserved.Nodup := by simpa using ⟨hfree, hnodup⟩
      exact (hcomputable r _ hheld hsame).bind fun _ _ _ => .of_ok rfl
    | false => exact (hcomputable scope.dst g' hnodup hsame).bind fun _ _ _ => .of_ok rfl

theorem materialize_onlyExhausts {node : Node} (hsuits : g.suits node = true)
    (hcomputable : Computable g node) (dst : Register) :
    OnlyExhausts (materialize node (expression node) dst) g' := by
  unfold materialize
  apply operand?_onlyExhausts hsame hsuits
  · exact fun operand => .of_ok rfl
  · exact (hcomputable dst g' hnodup hsame).bind fun _ _ _ => .of_ok rfl

theorem operandsIn_onlyExhausts {nodes : List Node}
    (heach : ∀ node ∈ nodes, g.suits node = true ∧ Computable g node) (scope : Scope) :
    OnlyExhausts (operandsIn scope nodes) g' := by
  induction nodes generalizing scope g' with
  | nil =>
    rw [operandsIn]
    exact .of_ok rfl
  | cons node rest ih =>
    rw [operandsIn]
    obtain ⟨hsuits, hcomputable⟩ := heach node (List.mem_cons_self ..)
    refine (operandIn_onlyExhausts hnodup hsame hsuits hcomputable scope).bind ?_
    rintro ⟨operand, scope₁⟩ g₁ hfirst
    -- Behind the first operand the same names are known, and its temporaries are in use.
    have houtcome := operandIn_outcome (expression_outcome node) scope hnodup
    rw [hfirst] at houtcome
    obtain ⟨temporaries, code, -, -, hheld, rfl⟩ := houtcome
    have hheld' : ((g'.append code).hold temporaries.reverse).registers.reserved.Nodup := hheld
    have hlater := ih hheld' hsame (fun n hn => heach n (List.mem_cons_of_mem _ hn)) scope₁
    exact hlater.bind fun _ _ _ => .of_ok rfl

theorem withOperands_onlyExhausts {nodes : List Node}
    (heach : ∀ node ∈ nodes, g.suits node = true ∧ Computable g node) (dst : Register)
    (use : List Operand → List Instruction) : OnlyExhausts (withOperands dst nodes use) g' := by
  unfold withOperands
  refine (operandsIn_onlyExhausts hnodup hsame heach (.opened dst)).bind ?_
  rintro ⟨operands, scope⟩ g₁ hgathered
  have houtcome := operandsIn_outcome nodes (fun node _ => expression_outcome node) (.opened dst)
    hnodup
  rw [hgathered] at houtcome
  obtain ⟨temporaries, code, hlisted, -, hheld, rfl⟩ := houtcome
  have hlisted' : scope.temporaries = temporaries := hlisted
  exact .of_ok (closeScope_gathered code (use operands) hlisted' hheld)

theorem connective_onlyExhausts (operator : Connective) {left right : Node}
    (hl : g.suits left = true ∧ Computable g left) (hr : g.suits right = true ∧ Computable g right)
    (dst : Register) : OnlyExhausts (expression (.connective operator left right) dst) g' := by
  rw [expression]
  refine (materialize_onlyExhausts hnodup hsame hl.1 hl.2 dst).bind ?_
  intro a g₁ hfirst
  obtain ⟨code, -, rfl⟩ := materialize_eq_ok hnodup hfirst
  refine (reserve_onlyExhausts _).bind ?_
  intro r g₂ hreserved
  obtain ⟨hfree, rfl⟩ := reserveBy_eq_ok hreserved
  have hheld : ((g'.append code).hold [r]).registers.reserved.Nodup := by
    simpa using ⟨hfree, hnodup⟩
  refine (materialize_onlyExhausts hheld hsame hr.1 hr.2 r).bind ?_
  intro b g₃ hsecond
  obtain ⟨more, -, rfl⟩ := materialize_eq_ok hheld hsecond
  -- The rest appends instructions and frees the temporary, which cannot fail.
  intro e g₄ hfailed
  simp only [bind, EStateM.bind, emit_apply, Generator.append_hold, Generator.append_append,
    release_hold] at hfailed
  cases hfailed

end Values

/-- A call whose arguments are as many as its name asks for fails only where one of them does. -/
theorem call_onlyExhausts {g g' : Generator} {name : String} {arguments : List Node}
    (hroot : g.suits (.call name arguments) = true) (dst : Register)
    (hgathered : ∀ use, OnlyExhausts (withOperands dst arguments use) g') :
    OnlyExhausts (expression (.call name arguments) dst) g' := by
  have hchecked : ∀ arity (use : List Operand → List Instruction), arity = arguments.length →
      OnlyExhausts (do checkArity name arity arguments.length; withOperands dst arguments use)
        g' := by
    intro arity use hcounted
    rw [checkArity, if_pos hcounted]
    exact hgathered use
  cases hcalled : Vocabulary.Command.ofName? name with
  | some command =>
    rw [expression_command arguments dst hcalled]
    exact hchecked _ _ (by simpa [Generator.suits, hcalled] using hroot)
  | none =>
    have hknown : Vocabulary.functionArity? name = some arguments.length := by
      simpa [Generator.suits, hcalled] using hroot
    rw [expression_function arguments dst hcalled hknown]
    exact hchecked _ _ rfl

/-- A load names a logic type, and a variable is plain. -/
theorem read_onlyExhausts {g g' : Generator} (hsame : g'.tables = g.tables) {name : String}
    {index : Option Node} {property : Option String}
    (hroot : g.suits (.read name index property) = true) (dst : Register)
    (hgathered : ∀ use, OnlyExhausts (withOperands dst index.toList use) g') :
    OnlyExhausts (expression (.read name index property) dst) g' := by
  have hroot' : g'.suits (.read name index property) = true := (suits_congr hsame _).trans hroot
  rw [Generator.suits, Generator.devices] at hroot'
  cases hknown : g'.device? name with
  | some config =>
    cases property with
    | none => simp [hknown] at hroot'
    | some property => exact (hgathered _).congr (expression_load index property dst hknown)
  | none =>
    rw [expression]
    -- The name is one of a variable, so that the question for its register has an answer.
    have hanswers : ∃ r, g'.registerOf name index property = .ok r := by
      cases hfound : g'.registerOf name index property with
      | ok r => exact ⟨r, rfl⟩
      | error e => simp [hknown, hfound, Except.toBool] at hroot'
    have hmoved : OnlyExhausts (do
        let register ← query (·.registerOf name index property)
        emit (.move dst (.register register))) g' :=
      (query_onlyExhausts hanswers).bind fun _ _ _ => .of_ok rfl
    refine hmoved.congr ?_
    rw [bind_apply get_apply, hknown]

/-- **The code of a tree that fits the known names can only be missing for a lack of registers.** -/
theorem computable_of_hasCode {g : Generator} {node : Node} (h : g.HasCode node) :
    Computable g node := by
  induction h with
  | @intro node hroot hgenerated ih =>
    intro dst g' hnodup hsame
    have heach : ∀ part ∈ node.generated, g.suits part = true ∧ Computable g part :=
      fun part hmem => ⟨(hgenerated part hmem).suits, ih part hmem⟩
    cases node with
    | number _ | constant _ | hash _ => exact .of_ok rfl
    | arithmetic operator left right =>
      rw [expression_arithmetic]
      exact withOperands_onlyExhausts hnodup hsame heach dst _
    | comparison operator left right =>
      rw [expression_comparison]
      exact withOperands_onlyExhausts hnodup hsame heach dst _
    | not operand =>
      rw [expression_not]
      exact withOperands_onlyExhausts hnodup hsame heach dst _
    | connective operator left right =>
      exact connective_onlyExhausts hnodup hsame operator
        (heach left (by simp [Node.generated, Node.parts]))
        (heach right (by simp [Node.generated, Node.parts])) dst
    | choice condition thenValue elseValue =>
      cases hknown : condition.value? with
      | some value =>
        -- Only the part that is chosen has code.
        rw [Node.generated, hknown] at ih
        rw [expression_choice_known _ _ _ hknown]
        split
        · next hchosen => exact ih thenValue (by simp [hchosen]) dst g' hnodup hsame
        · next hchosen => exact ih elseValue (by simp [hchosen]) dst g' hnodup hsame
      | none =>
        rw [Node.generated, hknown] at heach
        rw [expression_choice _ _ _ hknown]
        exact withOperands_onlyExhausts hnodup hsame heach dst _
    | read name index property =>
      exact read_onlyExhausts hsame hroot dst fun use =>
        withOperands_onlyExhausts hnodup hsame heach dst use
    | call name arguments =>
      exact call_onlyExhausts hroot dst fun use =>
        withOperands_onlyExhausts hnodup hsame heach dst use
    | _ => cases hroot

/-! ## Code shows that the tree fits -/

/-- A node whose code is there fits the known names. -/
abbrev ShowsCode (node : Node) : Prop :=
  ∀ (dst : Register) (g g' : Generator), g.registers.reserved.Nodup →
    expression node dst g = .ok () g' → g.HasCode node

section Shown

variable {g g' : Generator} (hnodup : g.registers.reserved.Nodup)

include hnodup

theorem operandIn_shows {node : Node} (hshows : ShowsCode node) {scope scope' : Scope}
    {operand : Operand}
    (h : operandIn scope node (expression node) g = .ok (operand, scope') g') :
    g.HasCode node := by
  rcases operandIn_cases h with ⟨hfound, -, -⟩ | ⟨-, -, hgenerated, -, -⟩ |
    ⟨-, -, r, hfree, hgenerated, -, -⟩
  · exact hasCode_of_operand? hfound
  · exact hshows _ g g' hnodup hgenerated
  · have hheld : (g.hold [r]).registers.reserved.Nodup := by simpa using ⟨hfree, hnodup⟩
    exact (hshows r _ g' hheld hgenerated).congr rfl

theorem materialize_shows {node : Node} (hshows : ShowsCode node) {dst : Register}
    {operand : Operand} (h : materialize node (expression node) dst g = .ok operand g') :
    g.HasCode node := by
  rcases materialize_cases h with ⟨hfound, -⟩ | ⟨-, hgenerated, -⟩
  · exact hasCode_of_operand? hfound
  · exact hshows dst g g' hnodup hgenerated

theorem operandsIn_shows {nodes : List Node} (hshows : ∀ node ∈ nodes, ShowsCode node)
    {scope scope' : Scope} {operands : List Operand}
    (h : operandsIn scope nodes g = .ok (operands, scope') g') :
    ∀ node ∈ nodes, g.HasCode node := by
  induction nodes generalizing scope scope' g g' operands with
  | nil => exact fun node hmem => absurd hmem List.not_mem_nil
  | cons node rest ih =>
    obtain ⟨operand, scope₁, g₁, more, hfirst, hlater, -⟩ := operandsIn_cons_cases h
    have houtcome := operandIn_outcome (expression_outcome node) scope hnodup
    rw [hfirst] at houtcome
    obtain ⟨temporaries, code, -, -, hheld, rfl⟩ := houtcome
    have hothers := ih hheld (fun n hn => hshows n (List.mem_cons_of_mem _ hn)) hlater
    rw [List.forall_mem_cons]
    exact ⟨operandIn_shows hnodup (hshows node (List.mem_cons_self ..)) hfirst,
      fun n hn => (hothers n hn).congr rfl⟩

theorem withOperands_shows {nodes : List Node} (hshows : ∀ node ∈ nodes, ShowsCode node)
    {dst : Register} {use : List Operand → List Instruction}
    (h : withOperands dst nodes use g = .ok () g') : ∀ node ∈ nodes, g.HasCode node := by
  obtain ⟨operands, scope, temporaries, code, hgathered, -, -⟩ := withOperands_cases hnodup h
  exact operandsIn_shows hnodup hshows hgathered

theorem connective_shows {operator : Connective} {left right : Node} (hl : ShowsCode left)
    (hr : ShowsCode right) {dst : Register}
    (h : expression (.connective operator left right) dst g = .ok () g') :
    g.HasCode (.connective operator left right) := by
  obtain ⟨a, b, r, code, more, hfree, hfirst, hsecond, -⟩ := connective_cases hnodup h
  have hheld : ((g.append code).hold [r]).registers.reserved.Nodup := by
    simpa using ⟨hfree, hnodup⟩
  refine .intro rfl ?_
  simp only [Node.generated, Node.parts, List.forall_mem_cons, List.not_mem_nil, false_imp_iff,
    implies_true, and_true]
  exact ⟨materialize_shows hnodup hl hfirst, (materialize_shows hheld hr hsecond).congr rfl⟩

theorem call_shows {name : String} {arguments : List Node}
    (hshows : ∀ node ∈ arguments, ShowsCode node) {dst : Register}
    (h : expression (.call name arguments) dst g = .ok () g') :
    g.HasCode (.call name arguments) := by
  -- Commands and functions gather their arguments alike.
  have hgathered : ∀ arity (use : List Operand → List Instruction),
      (do checkArity name arity arguments.length; withOperands dst arguments use) g = .ok () g' →
      arity = arguments.length ∧ ∀ node ∈ arguments, g.HasCode node := by
    intro arity use hsuccess
    rw [bind_eq_ok] at hsuccess
    obtain ⟨⟨⟩, g₁, hchecked, hsuccess⟩ := hsuccess
    obtain ⟨hcounted, rfl⟩ := checkArity_eq_ok hchecked
    exact ⟨hcounted, withOperands_shows hnodup hshows hsuccess⟩
  cases hcalled : Vocabulary.Command.ofName? name with
  | some command =>
    rw [expression_command arguments dst hcalled] at h
    obtain ⟨hcounted, hparts⟩ := hgathered _ _ h
    exact .intro (by simp [Generator.suits, hcalled, hcounted]) hparts
  | none =>
    cases hknown : Vocabulary.functionArity? name with
    | some arity =>
      rw [expression_function arguments dst hcalled hknown] at h
      obtain ⟨hcounted, hparts⟩ := hgathered _ _ h
      exact .intro (by simp [Generator.suits, hcalled, hknown, hcounted]) hparts
    | none =>
      simp only [expression, hcalled, hknown] at h
      cases h

theorem read_shows {name : String} {index : Option Node} {property : Option String}
    (hshows : ∀ node ∈ index.toList, ShowsCode node) {dst : Register}
    (h : expression (.read name index property) dst g = .ok () g') :
    g.HasCode (.read name index property) := by
  cases hknown : g.device? name with
  | some config =>
    cases property with
    | none =>
      rw [expression, bind_apply get_apply, hknown] at h
      cases h
    | some property =>
      rw [expression_load index property dst hknown] at h
      refine .intro ?_ (withOperands_shows hnodup hshows h)
      simp [Generator.suits, Generator.devices, hknown]
  | none =>
    rw [expression, bind_apply get_apply, hknown] at h
    obtain ⟨r, g₁, hasked, -⟩ := bind_eq_ok.1 h
    obtain ⟨hanswer, rfl⟩ := query_eq_ok.1 hasked
    -- A plain variable is found without code as well.
    have hfound : g₁.operand? (.read name index property) = .ok (some (.register r)) := by
      rw [operand?, hknown]
      simp [hanswer, Except.map]
    exact hasCode_of_operand? hfound

end Shown

/-- **Code shows that the tree fits the known names.** -/
theorem hasCode_of_expression (node : Node) : ShowsCode node := by
  induction node using Node.partsInduction with
  | step node ih =>
    intro dst g g' hnodup h
    cases node with
    | number _ | constant _ | hash _ => exact .intro rfl (by simp [Node.generated, Node.parts])
    | arithmetic operator left right =>
      rw [expression_arithmetic] at h
      exact .intro rfl (withOperands_shows hnodup ih h)
    | comparison operator left right =>
      rw [expression_comparison] at h
      exact .intro rfl (withOperands_shows hnodup ih h)
    | not operand =>
      rw [expression_not] at h
      exact .intro rfl (withOperands_shows hnodup ih h)
    | connective operator left right =>
      exact connective_shows hnodup (ih left (by simp [Node.parts]))
        (ih right (by simp [Node.parts])) h
    | choice condition thenValue elseValue =>
      -- Of a choice that is decided only the chosen part has code, and nothing is asked of the
      -- other.
      refine .intro rfl ?_
      cases hknown : condition.value? with
      | some value =>
        rw [expression_choice_known _ _ _ hknown] at h
        simp only [Node.generated, hknown, List.forall_mem_singleton]
        split at h
        · next hchosen =>
          rw [if_pos hchosen]
          exact ih thenValue (by simp [Node.parts]) dst g g' hnodup h
        · next hchosen =>
          rw [if_neg hchosen]
          exact ih elseValue (by simp [Node.parts]) dst g g' hnodup h
      | none =>
        rw [expression_choice _ _ _ hknown] at h
        rw [Node.generated, hknown]
        exact withOperands_shows hnodup ih h
    | read name index property => exact read_shows hnodup ih h
    | call name arguments => exact call_shows hnodup ih h
    | _ =>
      -- A statement in the place of a value has no code.
      rw [expression] at h
      · cases h
      all_goals simp

/-! ## Exhaustion -/

/-- **Registers run out exactly where fewer are free than the tree needs.**  A value has code if and
    only if it fits the known names and as many registers are free as it needs.  If it fits, but
    there are fewer, generation says that the registers are exhausted, and it says so in no other
    case.  Neither the destination matters nor which of the registers are free. -/
theorem exhausted_iff_room_lt_need {g : Generator} (hnodup : g.registers.reserved.Nodup)
    (node : Node) (dst : Register) :
    ((∃ g', expression node dst g = .ok () g') ↔
      g.HasCode node ∧ node.need g.devices ≤ g.room) ∧
    (g.HasCode node →
      ((∃ g', expression node dst g = .error (.registersExhausted .first .last) g') ↔
        g.room < node.need g.devices)) := by
  have hneeds := expression_needs node dst g hnodup
  have hexhausts : g.HasCode node → ∀ e g', expression node dst g = .error e g' →
      e = .registersExhausted .first .last :=
    fun hfits => computable_of_hasCode hfits dst g hnodup rfl
  -- A success shows that there was room enough, and a failure over registers that there was not.
  cases hresult : expression node dst g with
  | ok _ g' =>
    rw [hresult] at hneeds
    have henough : node.need g.devices ≤ g.room := hneeds
    have hfits := hasCode_of_expression node dst g g' hnodup hresult
    exact ⟨by simp [hfits, henough], fun _ => by simp [henough]⟩
  | error e g' =>
    rw [hresult] at hneeds
    have hshort : g.HasCode node → e = .registersExhausted .first .last ∧
        g.room < node.need g.devices := by
      intro hfits
      obtain rfl := hexhausts hfits e g' hresult
      exact ⟨rfl, hneeds rfl⟩
    refine ⟨?_, fun hfits => ?_⟩
    · simpa using fun hfits => (hshort hfits).2
    · obtain ⟨rfl, hfew⟩ := hshort hfits
      simp [hfew]

/-- A state in which `panel` stands for a device and only `r6` is free. -/
def narrowState : Generator :=
  { Generator.empty with
    registers := ⟨Register.all.filter fun r => r ≠ ⟨6⟩⟩
    deviceTable := [("panel", ⟨"StructureSolarPanel", .pin "d0"⟩)] }

/-- The expression `panel.Charge + panel.Ratio * (panel.Power - panel.Maximum)`, whose right side
    holds a temporary while a part of it takes another one. -/
def nestedLoads : Node :=
  let load (property : String) : Node := .read "panel" none (some property)
  .arithmetic .add (load "Charge")
    (.arithmetic .mul (load "Ratio") (.arithmetic .sub (load "Power") (load "Maximum")))

theorem exhausted_iff_room_lt_need_nestedLoads :
    narrowState.registers.reserved.Nodup ∧ narrowState.HasCode nestedLoads ∧
    nestedLoads.need narrowState.devices = 3 ∧
    ∃ g', expression nestedLoads ⟨2⟩ narrowState =
      .error (.registersExhausted .first .last) g' := by
  have hnodup : narrowState.registers.reserved.Nodup := by decide
  have hload : ∀ property, narrowState.HasCode (.read "panel" none (some property)) :=
    fun property => .intro rfl (by simp [Node.generated, Node.parts])
  have hboth : ∀ operator left right, narrowState.HasCode left → narrowState.HasCode right →
      narrowState.HasCode (.arithmetic operator left right) :=
    fun _ _ _ hl hr => .intro rfl (by simpa [Node.generated, Node.parts] using ⟨hl, hr⟩)
  have hfits : narrowState.HasCode nestedLoads :=
    hboth _ _ _ (hload _) (hboth _ _ _ (hload _) (hboth _ _ _ (hload _) (hload _)))
  have hneed : nestedLoads.need narrowState.devices = 3 := by decide
  refine ⟨hnodup, hfits, hneed, ?_⟩
  refine ((exhausted_iff_room_lt_need hnodup nestedLoads ⟨2⟩).2 hfits).2 ?_
  rw [hneed]
  decide

end Gen
end ChipScript
