import ChipScript.Proofs.Chip.Inversion
import ChipScript.Proofs.Node.Parts

/-!
# Names that code generation looks up

All names live in one table, and code generation walks over a script from the first line to the
last: a name is known from the end of its declaration on, wherever that stands.  What is left out
because of a condition that is known declares nothing and looks nothing up.

* `Node.introduced` are the names that are known after a statement and were not before.
* `Node.needs` are the names that have to be known before.

Both are read off the tree alone.  `statement_resolves` says that they are what the generator goes
by: it gets through a statement only if it knows the names that the statement needs, and a name that
it reports as undeclared is one of these.
-/

namespace ChipScript

/-! ## Names in a tree -/

namespace Node

mutual

/-- The names whose declarations leave code. -/
@[simp] def introduced : Node → List String
  | block body => introducedInAll body
  | declare name _ => [name]
  | loop body => body.introduced
  | whileLoop condition body =>
    match condition.truth? with
    | some false => []
    | _ => body.introduced
  | branch condition thenBranch elseBranch =>
    match condition.truth? with
    | some true => thenBranch.introduced
    | some false => introducedInOption elseBranch
    | none => thenBranch.introduced ++ introducedInOption elseBranch
  | _ => []

/-- The names that several statements introduce. -/
@[simp] def introducedInAll : List Node → List String
  | [] => []
  | node :: rest => node.introduced ++ introducedInAll rest

/-- The names that a statement introduces which may be missing. -/
@[simp] def introducedInOption : Option Node → List String
  | none => []
  | some node => node.introduced

end

mutual

/-- The names that have to be known before a statement or an expression. -/
@[simp] def needs : Node → List String
  | block body => needsInSequence body
  | declare _ value => value.needs
  | assign name index _ value => name :: (value.needs ++ needsInOption index)
  | loop body => body.needs
  | whileLoop condition body =>
    match condition.truth? with
    | some false => []
    | some true => body.needs
    | none => condition.needs ++ body.needs
  | branch condition thenBranch elseBranch =>
    match condition.truth? with
    | some true => thenBranch.needs
    | some false => needsInOption elseBranch
    | none => condition.needs ++ (thenBranch.needs ++
      (needsInOption elseBranch).filter (· ∉ thenBranch.introduced))
  | read name index _ => name :: needsInOption index
  | call _ arguments => needsInEach arguments
  | not operand => operand.needs
  | arithmetic _ left right => left.needs ++ right.needs
  | comparison _ left right => left.needs ++ right.needs
  | connective _ left right => left.needs ++ right.needs
  | choice condition thenValue elseValue =>
    match condition.value? with
    | some v => if v != 0.0 then thenValue.needs else elseValue.needs
    | none => condition.needs ++ (thenValue.needs ++ elseValue.needs)
  | _ => []

/-- The names that have to be known before several statements, each of which may introduce names for
    those that follow. -/
@[simp] def needsInSequence : List Node → List String
  | [] => []
  | node :: rest => node.needs ++ (needsInSequence rest).filter (· ∉ node.introduced)

/-- The names that have to be known before several expressions. -/
@[simp] def needsInEach : List Node → List String
  | [] => []
  | node :: rest => node.needs ++ needsInEach rest

/-- The names that have to be known before a part that may be missing. -/
@[simp] def needsInOption : Option Node → List String
  | none => []
  | some node => node.needs

end

theorem needsInEach_toList (index : Option Node) :
    needsInEach index.toList = needsInOption index := by
  cases index with
  | none => rfl
  | some node => simp

end Node

/-- Whether a name stands for something. -/
def Generator.Knows (g : Generator) (name : String) : Prop :=
  g.binding? name ≠ none

theorem Generator.not_knows {g : Generator} {name : String} :
    ¬ g.Knows name ↔ g.device? name = none ∧ g.variableTable.lookup name = none := by
  rw [Knows, Decidable.not_not, binding?_eq_none]

theorem Generator.knows_of_device {g : Generator} {name : String} {config : DeviceConfig}
    (h : g.device? name = some config) : g.Knows name := by
  rw [Knows, binding?_eq_device.2 h]
  simp

theorem Generator.knows_of_register {g : Generator} {name : String} {r : Register}
    (h : g.variableTable.lookup name = some r) : g.Knows name := by
  intro hunknown
  rw [(binding?_eq_none.1 hunknown).2] at h
  cases h

namespace Gen

/-! ## Steps that look names up -/

/-- What a step has to do with names.  It succeeds only if the names that it needs are known, it
    adds names to those that are known, and a name that it reports as undeclared is needed and not
    known. -/
structure Resolves {α : Type} (needs adds : List String) (step : Gen α) (g : Generator) :
    Prop where
  known : ∀ {a : α} {g' : Generator}, step g = .ok a g' → ∀ name ∈ needs, g.Knows name
  after : ∀ {a : α} {g' : Generator}, step g = .ok a g' →
    ∀ name, g'.Knows name ↔ g.Knows name ∨ name ∈ adds
  undeclared : ∀ {name : String} {g' : Generator}, step g = .error (.undeclared name) g' →
    name ∈ needs ∧ ¬ g.Knows name

section Steps

variable {α β : Type} {g : Generator} {needs adds : List String}

namespace Resolves

/-- The second of two steps may use the names that the first one adds. -/
theorem bind {x : Gen α} {f : α → Gen β} {needs' adds' all more : List String}
    (hfirst : Resolves needs adds x g)
    (hsecond : ∀ a g₁, x g = .ok a g₁ → Resolves needs' adds' (f a) g₁)
    (hwanted : ∀ name, name ∈ all ↔ name ∈ needs ∨ name ∈ needs' ∧ name ∉ adds)
    (hgiven : ∀ name, name ∈ more ↔ name ∈ adds ∨ name ∈ adds') :
    Resolves all more (x >>= f) g where
  known := by
    intro b g' h name hmem
    -- A success of the sequence is one of both steps, and the second has seen what the first
    -- introduced.
    obtain ⟨a, g₁, hran, hlater⟩ := bind_eq_ok.1 h
    rcases (hwanted name).1 hmem with hnow | ⟨hthen, hnew⟩
    · exact hfirst.known hran name hnow
    · have hknown := (hsecond a g₁ hran).known hlater name hthen
      exact ((hfirst.after hran name).1 hknown).resolve_right hnew
  after := by
    intro b g' h name
    obtain ⟨a, g₁, hran, hlater⟩ := bind_eq_ok.1 h
    rw [(hsecond a g₁ hran).after hlater, hfirst.after hran, hgiven, or_assoc]
  undeclared := by
    intro name g' h
    -- The name is missing in the first step, or in the second one and the first has not introduced
    -- it.
    cases hran : x g with
    | ok a g₁ =>
      rw [bind_apply hran] at h
      obtain ⟨hmem, hunknown⟩ := (hsecond a g₁ hran).undeclared h
      rw [hfirst.after hran, not_or] at hunknown
      exact ⟨(hwanted name).2 (.inr ⟨hmem, hunknown.2⟩), hunknown.1⟩
    | error e g₁ =>
      rw [bind_error hran] at h
      obtain ⟨rfl, rfl⟩ := EStateM.Result.error.inj h
      obtain ⟨hmem, hunknown⟩ := hfirst.undeclared hran
      exact ⟨(hwanted name).2 (.inl hmem), hunknown⟩

theorem after_quiet {x : Gen α} {f : α → Gen β} (hfirst : Resolves [] [] x g)
    (hsecond : ∀ a g₁, x g = .ok a g₁ → Resolves needs adds (f a) g₁) :
    Resolves needs adds (x >>= f) g :=
  hfirst.bind hsecond (by simp) (by simp)

theorem before_quiet {x : Gen α} {f : α → Gen β} (hfirst : Resolves needs adds x g)
    (hsecond : ∀ a g₁, Resolves [] [] (f a) g₁) : Resolves needs adds (x >>= f) g :=
  hfirst.bind (fun a g₁ _ => hsecond a g₁) (by simp) (by simp)

/-- After a step that adds no names. -/
theorem seq {x : Gen α} {f : α → Gen β} {needs' : List String} (hfirst : Resolves needs [] x g)
    (hsecond : ∀ a g₁, x g = .ok a g₁ → Resolves needs' adds (f a) g₁) :
    Resolves (needs ++ needs') adds (x >>= f) g :=
  hfirst.bind hsecond (by simp) (by simp)

/-- After a step that adds names. -/
theorem chain {x : Gen α} {f : α → Gen β} {needs' adds' : List String}
    (hfirst : Resolves needs adds x g) (hsecond : ∀ a g₁, Resolves needs' adds' (f a) g₁) :
    Resolves (needs ++ needs'.filter (· ∉ adds)) (adds ++ adds') (x >>= f) g :=
  hfirst.bind (fun a g₁ _ => hsecond a g₁) (by simp) (by simp)

/-- A step that succeeds and looks nothing up. -/
theorem adding {step : Gen α} {a : α} {g' : Generator} (h : step g = .ok a g')
    (hadded : ∀ name, g'.Knows name ↔ g.Knows name ∨ name ∈ adds) : Resolves [] adds step g where
  known := by simp
  after := by
    intro b g₁ h' name
    rw [h] at h'
    cases h'
    exact hadded name
  undeclared := by simp [h]

/-- A step that succeeds and leaves the names as they are. -/
theorem of_ok {step : Gen α} {a : α} {g' : Generator} (h : step g = .ok a g')
    (hsame : g'.Knows = g.Knows) : Resolves [] [] step g :=
  .adding h (by simp [hsame])

/-- A step that fails for another reason. -/
theorem of_error {step : Gen α} {e : CodeError} {g' : Generator} (h : step g = .error e g')
    (hother : ∀ name, e ≠ .undeclared name) : Resolves needs adds step g where
  known := by simp [h]
  after := by simp [h]
  undeclared := by
    intro name g₁ h'
    rw [h] at h'
    cases h'
    exact absurd rfl (hother name)

/-- Names that are known may be needed too. -/
theorem widen {step : Gen α} {needs' : List String} (h : Resolves needs adds step g)
    (hsubset : ∀ name ∈ needs, name ∈ needs')
    (hknown : ∀ name ∈ needs', g.Knows name ∨ name ∈ needs) : Resolves needs' adds step g where
  known := by
    intro a g' hran name hmem
    exact (hknown name hmem).elim id (h.known hran name)
  after := h.after
  undeclared := by
    intro name g' hfailed
    obtain ⟨hmem, hunknown⟩ := h.undeclared hfailed
    exact ⟨hsubset name hmem, hunknown⟩

/-- A name that is known may be needed too. -/
theorem cons {step : Gen α} {name : String} (h : Resolves needs adds step g)
    (hknown : g.Knows name) : Resolves (name :: needs) adds step g := by
  apply h.widen
  · exact fun other hmem => List.mem_cons_of_mem _ hmem
  · intro other hmem
    rcases List.mem_cons.1 hmem with rfl | hmem
    · exact .inl hknown
    · exact .inr hmem

/-- Only what the step does in this state matters. -/
theorem congr {step step' : Gen α} (h : Resolves needs adds step' g) (hsame : step g = step' g) :
    Resolves needs adds step g where
  known := by
    rw [hsame]
    exact h.known
  after := by
    rw [hsame]
    exact h.after
  undeclared := by
    rw [hsame]
    exact h.undeclared

end Resolves

theorem emit_quiet (instruction : Instruction) (g : Generator) :
    Resolves [] [] (emit instruction) g :=
  .of_ok (emit_apply instruction g) rfl

theorem emitAll_quiet (code : List Instruction) (g : Generator) :
    Resolves [] [] (emitAll code) g :=
  .of_ok (emitAll_apply code g) rfl

theorem newLabel_quiet (stem : String) (g : Generator) : Resolves [] [] (newLabel stem) g :=
  .of_ok (newLabel_apply stem) rfl

theorem reserveBy_quiet (candidates : List Register) (g : Generator) :
    Resolves [] [] (reserveBy (·.take candidates)) g := by
  rcases reserveBy_take candidates g with ⟨r, -, htaken⟩ | hexhausted
  · exact .of_ok htaken rfl
  · exact .of_error hexhausted (by simp)

theorem release_quiet (r : Register) (g : Generator) : Resolves [] [] (release r) g := by
  cases hfreed : g.registers.release r with
  | ok registers =>
    have hran : release r g = .ok () { g with registers } := by simp only [release, hfreed]
    exact .of_ok hran rfl
  | error e =>
    have hfailed : release r g = .error e g := by simp only [release, hfreed]
    refine .of_error hfailed ?_
    unfold RegisterFile.release at hfreed
    split at hfreed
    · cases hfreed
      simp
    · cases hfreed

theorem releaseAll_quiet (registers : List Register) (g : Generator) :
    Resolves [] [] (releaseAll registers) g := by
  induction registers generalizing g with
  | nil => exact .of_ok rfl rfl
  | cons r rest ih =>
    rw [releaseAll]
    exact (release_quiet r g).after_quiet fun _ g₁ _ => ih g₁

theorem checkArity_quiet (name : String) (expected found : Nat) (g : Generator) :
    Resolves [] [] (checkArity name expected found) g := by
  unfold checkArity
  split
  · exact .of_ok rfl rfl
  · exact .of_error rfl (by simp)

theorem throw_resolves {e : CodeError} (hother : ∀ name, e ≠ .undeclared name) :
    Resolves needs adds (throw e : Gen α) g :=
  .of_error rfl hother

end Steps

/-! ## Expressions -/

/-- The code of an expression needs the names of the expression, and adds none. -/
abbrev LooksUp (node : Node) : Prop :=
  ∀ (dst : Register) (g : Generator), Resolves node.needs [] (expression node dst) g

/-- A variable is looked up among the registers. -/
theorem registerOf_cases {g : Generator} {name : String} (index : Option Node)
    (property : Option String) (hnoDevice : g.device? name = none) :
    (g.registerOf name index property = .error (.undeclared name) ∧ ¬ g.Knows name) ∨
    g.registerOf name index property = .error (.propertyOnVariable name) ∨
    (∃ r, g.registerOf name index property = .ok r ∧ g.Knows name ∧ index = none) := by
  unfold Generator.registerOf
  cases hfound : g.variableTable.lookup name with
  | none => exact .inl ⟨rfl, Generator.not_knows.2 ⟨hnoDevice, hfound⟩⟩
  | some r =>
    right
    by_cases hbare : property.isSome || index.isSome
    · exact .inl (by simp [hbare])
    · refine .inr ⟨r, by simp [hbare], Generator.knows_of_register hfound, ?_⟩
      simp_all

theorem query_apply {α : Type} {ask : Generator → Except CodeError α} {g : Generator} {a : α}
    (h : ask g = .ok a) : query ask g = .ok a g := by
  simp [query, h]

theorem query_error {α : Type} {ask : Generator → Except CodeError α} {g : Generator}
    {e : CodeError} (h : ask g = .error e) : query ask g = .error e g := by
  simp [query, h]

/-- What needs no code is a literal, or a variable that is looked up. -/
theorem operand?_cases (g : Generator) (node : Node) :
    (∃ operand, g.operand? node = .ok (some operand) ∧ ∀ name ∈ node.needs, g.Knows name) ∨
    g.operand? node = .ok none ∨
    (∃ name, g.operand? node = .error (.undeclared name) ∧ name ∈ node.needs ∧ ¬ g.Knows name) ∨
    (∃ name, g.operand? node = .error (.propertyOnVariable name)) := by
  cases node with
  | number text => exact .inl ⟨_, rfl, by simp⟩
  | constant name => exact .inl ⟨_, rfl, by simp⟩
  | hash text => exact .inl ⟨_, rfl, by simp⟩
  | read name index property =>
    rw [Generator.operand?]
    -- A device is loaded, so it is no operand as it stands; a variable is one where it is bound and
    -- has no property.
    cases hdevice : g.device? name with
    | some config => exact .inr (.inl rfl)
    | none =>
      rcases registerOf_cases index property hdevice with
        ⟨hfailed, hunknown⟩ | hfailed | ⟨r, hfound, hknown, rfl⟩
      · exact .inr (.inr (.inl ⟨name, by simp [hfailed, Except.map], by simp, hunknown⟩))
      · exact .inr (.inr (.inr ⟨name, by simp [hfailed, Except.map]⟩))
      · refine .inl ⟨.register r, by simp [hfound, Except.map], ?_⟩
        simpa using hknown
  | _ => exact .inr (.inl rfl)

/-- An operand that needs no code is looked up, and every other one is computed. -/
theorem operand?_resolves {β : Type} {node : Node} {g : Generator} {f : Option Operand → Gen β}
    (hused : ∀ operand, Resolves [] [] (f (some operand)) g)
    (hcomputed : Resolves node.needs [] (f none) g) :
    Resolves node.needs [] (query (·.operand? node) >>= f) g := by
  rcases operand?_cases g node with
    ⟨operand, hplain, hknown⟩ | hneeded | ⟨name, hfailed, hmem, hunknown⟩ | ⟨name, hfailed⟩
  · apply Resolves.congr _ (bind_apply (query_apply hplain))
    exact (hused operand).widen (by simp) fun name hmem => .inl (hknown name hmem)
  · exact hcomputed.congr (bind_apply (query_apply hneeded))
  · have hstops : (query (·.operand? node) >>= f) g = .error (.undeclared name) g :=
      bind_error (query_error hfailed)
    exact ⟨by simp [hstops], by simp [hstops], by simp_all⟩
  · exact .of_error (bind_error (query_error hfailed)) (by simp)

theorem operandIn_resolves {node : Node} (hcomputes : LooksUp node) (scope : Scope)
    (g : Generator) : Resolves node.needs [] (operandIn scope node (expression node)) g := by
  apply operand?_resolves
  · exact fun operand => .of_ok rfl rfl
  · show Resolves node.needs [] (if scope.taken then _ else _) g
    split
    · apply (reserveBy_quiet Register.all g).after_quiet
      intro r g₁ _
      exact (hcomputes r g₁).before_quiet fun _ g₂ => .of_ok rfl rfl
    · exact (hcomputes scope.dst g).before_quiet fun _ g₁ => .of_ok rfl rfl

theorem operandsIn_resolves {nodes : List Node} (hcomputes : ∀ node ∈ nodes, LooksUp node)
    (scope : Scope) (g : Generator) :
    Resolves (Node.needsInEach nodes) [] (operandsIn scope nodes) g := by
  induction nodes generalizing scope g with
  | nil =>
    rw [operandsIn, Node.needsInEach]
    exact .of_ok rfl rfl
  | cons node rest ih =>
    rw [operandsIn, Node.needsInEach]
    have hlater : ∀ (scope : Scope) (g : Generator),
        Resolves (Node.needsInEach rest) [] (operandsIn scope rest) g :=
      ih fun n hmem => hcomputes n (List.mem_cons_of_mem _ hmem)
    apply (operandIn_resolves (hcomputes node (by simp)) scope g).seq
    exact fun gathered g₁ _ => (hlater gathered.2 g₁).before_quiet fun _ g₂ => .of_ok rfl rfl

theorem withOperands_resolves {nodes : List Node} (hcomputes : ∀ node ∈ nodes, LooksUp node)
    (dst : Register) (use : List Operand → List Instruction) (g : Generator) :
    Resolves (Node.needsInEach nodes) [] (withOperands dst nodes use) g := by
  apply (operandsIn_resolves hcomputes (.opened dst) g).before_quiet
  intro gathered g₁
  apply (emitAll_quiet _ g₁).after_quiet
  exact fun _ g₂ _ => releaseAll_quiet _ g₂

theorem materialize_resolves {node : Node} (hcomputes : LooksUp node) (dst : Register)
    (g : Generator) : Resolves node.needs [] (materialize node (expression node) dst) g := by
  apply operand?_resolves
  · exact fun operand => .of_ok rfl rfl
  · exact (hcomputes dst g).before_quiet fun _ g₁ => .of_ok rfl rfl

/-- A name that is no device is looked up as a variable, which has no index. -/
theorem registerOf_resolves {β : Type} {name : String} {index : Option Node}
    {property : Option String} {needs : List String} {g : Generator} {f : Register → Gen β}
    (hnoDevice : g.device? name = none) (hnext : ∀ r, index = none → Resolves needs [] (f r) g) :
    Resolves (name :: (needs ++ Node.needsInOption index)) []
      (query (·.registerOf name index property) >>= f) g := by
  rcases registerOf_cases index property hnoDevice with
    ⟨hfailed, hunknown⟩ | hfailed | ⟨r, hfound, hknown, rfl⟩
  · have hstops : (query (·.registerOf name index property) >>= f) g =
        .error (.undeclared name) g := bind_error (query_error hfailed)
    exact ⟨by simp [hstops], by simp [hstops], by simp_all⟩
  · exact .of_error (bind_error (query_error hfailed)) (by simp)
  · have hanswer : query (·.registerOf name none property) g = .ok r g := query_apply hfound
    apply Resolves.congr _ (bind_apply hanswer)
    simpa using (hnext r rfl).cons hknown

theorem read_resolves (name : String) {index : Option Node} (property : Option String)
    (hcomputes : ∀ node ∈ index.toList, LooksUp node) : LooksUp (.read name index property) := by
  intro dst g
  rw [Node.needs]
  -- The name of a device is known, and what follows it is looked up; any other name is one of a
  -- variable.
  cases hdevice : g.device? name with
  | some config =>
    have hknown := Generator.knows_of_device hdevice
    cases property with
    | none =>
      have hrefused : expression (.read name index none) dst g =
          .error (.missingProperty name) g := by
        rw [expression, bind_apply get_apply, hdevice]
        rfl
      exact .of_error hrefused (by simp)
    | some property =>
      have hgathered := withOperands_resolves hcomputes dst (loadCode dst config property) g
      rw [Node.needsInEach_toList] at hgathered
      exact (hgathered.congr (expression_load index property dst hdevice)).cons hknown
  | none =>
    have hlookup : expression (.read name index property) dst g =
        (query (·.registerOf name index property) >>= fun r =>
          emit (.move dst (.register r))) g := by
      rw [expression, bind_apply get_apply, hdevice]
    apply Resolves.congr _ hlookup
    exact registerOf_resolves hdevice fun r _ => emit_quiet _ g

/-- Both sides of a connective are computed, so that the names of both are looked up. -/
theorem connective_resolves (operator : Connective) {left right : Node}
    (hcomputesLeft : LooksUp left) (hcomputesRight : LooksUp right) :
    LooksUp (.connective operator left right) := by
  intro dst g
  have hfirst := materialize_resolves hcomputesLeft dst g
  have hsecond := materialize_resolves hcomputesRight
  rw [expression, Node.needs]
  apply hfirst.seq
  intro a g₁ _
  apply (reserveBy_quiet Register.all g₁).after_quiet
  intro r g₂ _
  apply (hsecond r g₂).before_quiet
  -- What is left emits code and frees the register, neither of which looks up a name.
  intro b g₃
  apply (emit_quiet _ g₃).before_quiet
  intro _ g₄
  apply (emit_quiet _ g₄).before_quiet
  intro _ g₅
  exact (emit_quiet _ g₅).before_quiet fun _ g₆ => release_quiet r g₆

theorem choice_resolves {condition thenValue elseValue : Node}
    (hcomputes : ∀ node ∈ (Node.choice condition thenValue elseValue).parts, LooksUp node) :
    LooksUp (.choice condition thenValue elseValue) := by
  intro dst g
  rw [Node.needs]
  cases hknown : condition.value? with
  | some value =>
    -- Only the names of the part that is chosen are looked up.
    rw [expression_choice_known _ _ _ hknown]
    dsimp only
    split
    · exact hcomputes thenValue (by simp [Node.parts]) dst g
    · exact hcomputes elseValue (by simp [Node.parts]) dst g
  | none =>
    have hoperands : condition.needs ++ (thenValue.needs ++ elseValue.needs) =
        Node.needsInEach [condition, thenValue, elseValue] := by simp
    rw [expression_choice _ _ _ hknown]
    dsimp only
    rw [hoperands]
    exact withOperands_resolves hcomputes dst _ g

theorem call_resolves (name : String) {arguments : List Node}
    (hcomputes : ∀ node ∈ arguments, LooksUp node) : LooksUp (.call name arguments) := by
  intro dst g
  rw [Node.needs]
  -- Commands and functions gather their arguments alike.
  have hgathered : ∀ arity (use : List Operand → List Instruction),
      Resolves (Node.needsInEach arguments) []
        (do checkArity name arity arguments.length; withOperands dst arguments use) g := by
    intro arity use
    apply (checkArity_quiet _ _ _ g).after_quiet
    exact fun _ g₁ _ => withOperands_resolves hcomputes dst _ g₁
  cases hcommand : Vocabulary.Command.ofName? name with
  | some kind =>
    rw [expression_command arguments dst hcommand]
    exact hgathered _ _
  | none =>
    cases hfunction : Vocabulary.functionArity? name with
    | some arity =>
      rw [expression_function arguments dst hcommand hfunction]
      exact hgathered _ _
    | none =>
      rw [expression, hcommand, hfunction]
      exact throw_resolves (by simp)

/-- **An expression needs its names.** -/
theorem expression_resolves (node : Node) : LooksUp node := by
  induction node using Node.partsInduction with
  | step node ih =>
    cases node with
    | arithmetic operator left right =>
      intro dst g
      -- The names of the operands are looked up in their order, which is that of the needs.
      have hoperands : (Node.arithmetic operator left right).needs =
          Node.needsInEach [left, right] := by simp
      rw [expression_arithmetic, hoperands]
      exact withOperands_resolves ih dst _ g
    | comparison operator left right =>
      intro dst g
      have hoperands : (Node.comparison operator left right).needs =
          Node.needsInEach [left, right] := by simp
      rw [expression_comparison, hoperands]
      exact withOperands_resolves ih dst _ g
    | connective operator left right =>
      exact connective_resolves operator (ih left (by simp [Node.parts]))
        (ih right (by simp [Node.parts]))
    | not operand =>
      intro dst g
      have hoperands : (Node.not operand).needs = Node.needsInEach [operand] := by
        simp
      rw [expression_not, hoperands]
      exact withOperands_resolves ih dst _ g
    | choice condition thenValue elseValue => exact choice_resolves ih
    | read name index property => exact read_resolves name property ih
    | call name arguments => exact call_resolves name ih
    | number text | constant text | hash text =>
      intro dst g
      rw [expression]
      exact emit_quiet _ g
    | device config =>
      intro dst g
      rw [expression]
      exact throw_resolves (by simp)
    | block _ | declare _ _ | assign _ _ _ _ | loop _ | whileLoop _ _ | branch _ _ _ | control _ =>
      intro dst g
      rw [expression]
      · exact throw_resolves (by simp)
      all_goals simp

theorem jumpUnless_resolves (condition : Node) (dst : Register) (label : String) (g : Generator) :
    Resolves condition.needs [] (jumpUnless condition dst label) g := by
  have htested : Node.needsInEach (tested condition) = condition.needs := by
    cases condition <;> simp [Gen.tested]
  rw [jumpUnless_eq, ← htested]
  exact withOperands_resolves (fun node _ => expression_resolves node) dst _ g

/-! ## Statements -/

theorem computeInto_resolves (r : Register) (value : Node) (g : Generator) :
    Resolves value.needs [] (computeInto r value) g := by
  apply operand?_resolves
  · exact fun operand => emit_quiet _ g
  · exact expression_resolves value r g

theorem knows_declareDevice (g : Generator) (name other : String) (config : DeviceConfig) :
    (g.declareDevice name config).Knows other ↔ g.Knows other ∨ other ∈ [name] := by
  rw [Generator.Knows, Generator.binding?_declareDevice]
  by_cases hsame : other = name
  · simp [hsame]
  · simp [hsame, Generator.Knows]

theorem knows_declareVariable {g : Generator} {name : String} (hnew : g.binding? name = none)
    (other : String) (r : Register) :
    (g.declareVariable name r).Knows other ↔ g.Knows other ∨ other ∈ [name] := by
  rw [Generator.Knows, Generator.binding?_declareVariable hnew]
  by_cases hsame : other = name
  · simp [hsame]
  · simp [hsame, Generator.Knows]

theorem declaration_resolves (name : String) (value : Node) (g : Generator) :
    Resolves value.needs [name] (declaration name value) g := by
  by_cases hnew : g.binding? name = none
  · have hchecked : checkNew name g = .ok () g := by
      obtain ⟨hnoDevice, hnoVariable⟩ := Generator.binding?_eq_none.1 hnew
      unfold checkNew
      rw [bind_apply get_apply]
      simp [hnoDevice, hnoVariable, pure, EStateM.pure]
    apply Resolves.congr _ (bind_apply hchecked)
    split
    · next config => exact .adding (modify_apply _) (knows_declareDevice g name · config)
    · apply (reserveBy_quiet Register.all.reverse g).after_quiet
      intro r g₁ hreserved
      obtain ⟨-, rfl⟩ := reserveBy_eq_ok hreserved
      have hcomputed := computeInto_resolves r value (g.hold [r])
      rw [← List.append_nil value.needs]
      apply hcomputed.seq
      intro _ g₂ hran
      -- The value is computed before its name is known.
      have hunknown : ¬ g₂.Knows name := by
        rw [hcomputed.after hran name]
        rintro (hknown | hadded)
        · exact hknown hnew
        · cases hadded
      exact .adding (modify_apply _)
        (knows_declareVariable (Decidable.not_not.1 hunknown) · r)
  · have hrefused : checkNew name g = .error (.redeclared name) g := by
      unfold checkNew
      rw [bind_apply get_apply, if_pos]
      · rfl
      · by_contra hfree
        simp only [Bool.or_eq_true, not_or, Bool.not_eq_true, Option.isSome_eq_false_iff,
          Option.isNone_iff_eq_none] at hfree
        exact hnew (Generator.binding?_eq_none.2 hfree)
    exact .of_error (bind_error hrefused) (by simp)

theorem deviceStore_resolves (config : DeviceConfig) (name : String) (index : Option Node)
    (property : Option String) (value : Node) (dst : Register) (g : Generator) :
    Resolves (value.needs ++ Node.needsInOption index) []
      (deviceStore config name index property value dst) g := by
  cases property with
  | none => exact throw_resolves (by simp)
  | some property =>
    -- A batch by name takes no index; in every other case the value and the index are the operands
    -- gathered.
    by_cases hunnamed :
        index = none ∨ ∀ deviceName mode, config.addressing ≠ .namedBatch deviceName mode
    · have hoperands : value.needs ++ Node.needsInOption index =
          Node.needsInEach (value :: index.toList) := by
        rw [Node.needsInEach, Node.needsInEach_toList]
      rw [deviceStore_eq config name index property value dst hunnamed, hoperands]
      exact withOperands_resolves (fun node _ => expression_resolves node) dst _ g
    · push Not at hunnamed
      obtain ⟨hindexed, deviceName, mode, haddress⟩ := hunnamed
      obtain ⟨node, rfl⟩ := Option.ne_none_iff_exists'.1 hindexed
      unfold deviceStore
      rw [haddress]
      exact throw_resolves (by simp)

theorem assignment_resolves (name : String) (index : Option Node) (property : Option String)
    (value : Node) (dst : Register) (g : Generator) :
    Resolves (name :: (value.needs ++ Node.needsInOption index)) []
      (assignment name index property value dst) g := by
  apply Resolves.congr _ (bind_apply get_apply)
  cases hdevice : g.device? name with
  | some config =>
    exact (deviceStore_resolves config name index property value dst g).cons
      (Generator.knows_of_device hdevice)
  | none =>
    apply registerOf_resolves hdevice
    intro r _
    -- A value that is an operand is moved.  Any other is computed, into the register itself or into
    -- a temporary that is moved there.
    apply operand?_resolves
    · exact fun operand => emit_quiet _ g
    · apply Resolves.congr _ (bind_apply get_apply)
      split
      · apply (reserveBy_quiet Register.all g).after_quiet
        intro temporary g₁ _
        apply (expression_resolves value temporary g₁).before_quiet
        intro _ g₂
        exact (emit_quiet _ g₂).before_quiet fun _ g₃ => release_quiet temporary g₃
      · exact expression_resolves value r g

theorem loopControl_resolves (kind : LoopControl) (g : Generator) :
    Resolves [] [] (loopControl kind) g := by
  apply Resolves.congr _ (bind_apply get_apply)
  split
  · exact emit_quiet _ g
  · exact throw_resolves (by simp)

theorem loopWith_resolves {startStem endStem : String} {test : String → Gen Unit} {body : Gen Unit}
    {needs needs' adds : List String} (htests : ∀ label g, Resolves needs [] (test label) g)
    (hruns : ∀ g, Resolves needs' adds body g) (g : Generator) :
    Resolves (needs ++ needs') adds (loopWith startStem endStem test body) g := by
  apply (newLabel_quiet startStem g).after_quiet
  intro startLabel g₁ _
  apply (newLabel_quiet endStem g₁).after_quiet
  intro endLabel g₂ _
  apply (Resolves.of_ok (modify_apply _) rfl).after_quiet
  intro _ g₃ _
  apply (emit_quiet _ g₃).after_quiet
  intro _ g₄ _
  -- Only the test and the body ask for names; labels, jumps and the loops around are quiet.
  apply (htests endLabel g₄).seq
  intro _ g₅ _
  apply (hruns g₅).before_quiet
  intro _ g₆
  apply (emit_quiet _ g₆).after_quiet
  intro _ g₇ _
  apply (emit_quiet _ g₇).after_quiet
  exact fun _ g₈ _ => .of_ok (modify_apply _) rfl

/-- A statement needs its names and introduces others, in every state. -/
abbrev Introduces (node : Node) : Prop :=
  ∀ (dst : Register) (g : Generator), Resolves node.needs node.introduced (statement node dst) g

theorem statements_resolve {nodes : List Node} (heach : ∀ node ∈ nodes, Introduces node)
    (dst : Register) (g : Generator) :
    Resolves (Node.needsInSequence nodes) (Node.introducedInAll nodes)
      (statements nodes dst) g := by
  induction nodes generalizing g with
  | nil =>
    rw [statements]
    exact .of_ok rfl rfl
  | cons node rest ih =>
    rw [statements, Node.needsInSequence, Node.introducedInAll]
    apply (heach node (by simp) dst g).chain
    exact fun _ g₁ => ih (fun n hmem => heach n (List.mem_cons_of_mem _ hmem)) g₁

theorem otherwise_resolves {node : Option Node} (heach : ∀ n ∈ node.toList, Introduces n)
    (dst : Register) (g : Generator) :
    Resolves (Node.needsInOption node) (Node.introducedInOption node) (otherwise node dst) g := by
  cases node with
  | none =>
    rw [otherwise]
    exact .of_ok rfl rfl
  | some n =>
    rw [otherwise]
    exact heach n (by simp) dst g

theorem branch_resolves {condition thenBranch : Node} {elseBranch : Option Node}
    (hfirst : Introduces thenBranch) (hsecond : ∀ n ∈ elseBranch.toList, Introduces n) :
    Introduces (.branch condition thenBranch elseBranch) := by
  intro dst g
  rw [statement]
  simp only [Node.needs, Node.introduced]
  have hother := otherwise_resolves hsecond dst
  cases hknown : condition.truth? with
  | some b =>
    cases b with
    | true => exact hfirst dst g
    | false => exact hother g
  | none =>
    dsimp only
    split
    · -- Labels and jumps look up no name, so that what is needed is what the test and the branches
      -- need.
      apply (newLabel_quiet "if_else" g).after_quiet
      intro elseLabel g₁ _
      apply (newLabel_quiet "if_end" g₁).after_quiet
      intro endLabel g₂ _
      apply (jumpUnless_resolves condition dst elseLabel g₂).seq
      intro _ g₃ _
      apply (hfirst dst g₃).chain
      intro _ g₄
      apply (emit_quiet _ g₄).after_quiet
      intro _ g₅ _
      apply (emit_quiet _ g₅).after_quiet
      exact fun _ g₆ _ => (hother g₆).before_quiet fun _ g₇ => emit_quiet _ g₇
    · next hmissing =>
      obtain rfl : elseBranch = none := by simpa using hmissing
      simp only [Node.needsInOption, Node.introducedInOption, List.filter_nil, List.append_nil]
      apply (newLabel_quiet "if" g).after_quiet
      intro endLabel g₁ _
      apply (jumpUnless_resolves condition dst endLabel g₁).seq
      intro _ g₂ _
      exact (hfirst dst g₂).before_quiet fun _ g₃ => emit_quiet _ g₃

theorem whileLoop_resolves {condition body : Node} (hruns : Introduces body) :
    Introduces (.whileLoop condition body) := by
  intro dst g
  rw [statement]
  simp only [Node.needs, Node.introduced]
  cases hknown : condition.truth? with
  | some b =>
    cases b with
    | true => exact loopWith_resolves (fun _ g => .of_ok rfl rfl) (hruns dst) g
    | false => exact .of_ok rfl rfl
  | none => exact loopWith_resolves (jumpUnless_resolves condition dst) (hruns dst) g

/-- **A statement needs its names**, and introduces those that it declares. -/
theorem statement_resolves (node : Node) : Introduces node := by
  induction node using Node.partsInduction with
  | step node ih =>
    -- Each kind of statement has its own lemma, and this is only the recursion over them.
    cases node with
    | block body =>
      intro dst g
      rw [statement]
      exact statements_resolve ih dst g
    | branch condition thenBranch elseBranch =>
      apply branch_resolves
      · exact ih thenBranch (by simp [Node.parts])
      · exact fun n hmem => ih n (by simp_all [Node.parts])
    | whileLoop condition body => exact whileLoop_resolves (ih body (by simp [Node.parts]))
    | loop body =>
      intro dst g
      rw [statement]
      exact loopWith_resolves (fun _ g => .of_ok rfl rfl) (ih body (by simp [Node.parts]) dst) g
    | control kind =>
      intro dst g
      rw [statement]
      exact loopControl_resolves kind g
    | declare name value =>
      intro dst g
      rw [statement]
      exact declaration_resolves name value g
    | assign name index property value =>
      intro dst g
      rw [statement]
      exact assignment_resolves name index property value dst g
    | _ =>
      intro dst g
      rw [statement]
      · exact expression_resolves _ dst g
      all_goals simp

/-! ## Scripts -/

theorem Resolves.ne_undeclared {α : Type} {step : Gen α} {adds : List String} {g g' : Generator}
    (h : Resolves [] adds step g) (name : String) : step g ≠ .error (.undeclared name) g' := by
  intro hfailed
  cases (h.undeclared hfailed).1

/-- What follows the statements of a script looks nothing up. -/
theorem program_undeclared {script : Program} {name : String} {g g' : Generator}
    (h : program script g = .error (.undeclared name) g') :
    name ∈ Node.needsInSequence script := by
  unfold program at h
  -- Of the five steps of a program only the statements look names up.
  rcases bind_eq_error.1 h with hfailed | ⟨scratch, g₁, -, h⟩
  · exact absurd hfailed ((reserveBy_quiet Register.all g).ne_undeclared name)
  rcases bind_eq_error.1 h with hfailed | ⟨_, g₂, -, h⟩
  · exact ((statements_resolve (fun node _ => statement_resolves node) scratch g₁).undeclared
      hfailed).1
  rcases bind_eq_error.1 h with hfailed | ⟨_, g₃, -, h⟩
  · exact absurd hfailed ((release_quiet scratch g₂).ne_undeclared name)
  rcases bind_eq_error.1 h with hfailed | ⟨_, g₄, -, h⟩
  · unfold dropVariables at hfailed
    rw [bind_apply get_apply, bind_apply (modify_apply _)] at hfailed
    exact absurd hfailed ((releaseAll_quiet _ _).ne_undeclared name)
  · rw [bind_apply get_apply] at h
    split at h
    · cases h
    · cases h

end Gen

namespace Program

variable {program : Program}

/-- **A name that is reported as undeclared is needed by the script.** -/
theorem needs_of_undeclared {name : String} (h : program.code = .error (.undeclared name)) :
    name ∈ Node.needsInSequence program := by
  unfold Program.code at h
  split at h
  · cases h
  · next hfailed =>
    cases h
    exact Gen.program_undeclared hfailed

/-- **A script with code needs no names from outside.** -/
theorem needs_of_code {code : List Instruction} (h : program.code = .ok code) :
    Node.needsInSequence program = [] := by
  unfold Program.code at h
  split at h
  · next hgenerated =>
    obtain ⟨scratch, g₁, -, hran, -⟩ := Gen.program_cases hgenerated
    have heach : ∀ node ∈ program, Gen.Introduces node := fun node _ => Gen.statement_resolves node
    have hresolved := Gen.statements_resolve heach scratch (Generator.empty.hold [scratch])
    -- Nothing is known at the start.
    apply List.eq_nil_iff_forall_not_mem.2
    intro name hmem
    exact hresolved.known hran name hmem rfl
  · cases h

end Program
end ChipScript
