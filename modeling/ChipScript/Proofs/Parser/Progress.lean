import ChipScript.Proofs.Grammar.Soundness

/-!
# Parsers go forward

Whatever a parser does and wherever it stops, the tokens that it leaves are the last of those that
it was given, names have only been added to the declared ones, and as many loops are around as
before (`ParserState.Onward`).  `Advances least p` says this of a parser, and also that it takes
`least` tokens at least when it succeeds.  There is one rule for sequences and one lemma for each
parser.

Main results: a statement takes a token (`advances_statement`), and so does an expression
(`advances_expression`).
-/

namespace ChipScript

namespace ParserState

/-- One state comes after another in the same reading. -/
structure Onward (s t : ParserState) : Prop where
  ahead : t.ahead <:+ s.ahead
  declared : s.declared <:+ t.declared
  loopDepth : t.loopDepth = s.loopDepth
  started : t.started = s.started

variable {s t u : ParserState}

theorem Onward.refl (s : ParserState) : s.Onward s :=
  ⟨List.suffix_rfl, List.suffix_rfl, rfl, rfl⟩

theorem Onward.trans (h : s.Onward t) (h' : t.Onward u) : s.Onward u where
  ahead := h'.ahead.trans h.ahead
  declared := h.declared.trans h'.declared
  loopDepth := h'.loopDepth.trans h.loopDepth
  started := h'.started.trans h.started

/-- The same holds of the tokens beyond the first one. -/
theorem Onward.tail (h : s.Onward t) : t.ahead.tail <:+ s.ahead.tail := by
  obtain ⟨taken, hwhole⟩ := h.ahead
  rw [← hwhole]
  cases taken with
  | nil => exact List.suffix_rfl
  | cons first rest => exact (List.tail_suffix _).trans (List.suffix_append _ _)

/-- A token has been taken, or there was none. -/
theorem onward_advance (s : ParserState) : s.Onward s.advance :=
  ⟨List.tail_suffix _, List.suffix_rfl, rfl, rfl⟩

theorem onward_declare (s : ParserState) (name : String) :
    s.Onward { s with declared := name :: s.declared } :=
  ⟨List.suffix_rfl, List.suffix_cons _ _, rfl, rfl⟩

end ParserState

namespace Parser

open ParserState Grammar

variable {α β : Type}

/-! ## Sequences and cases -/

/-- What a result says about the state that reading began in. -/
def Forward (least : Nat) (s : ParserState) : EStateM.Result ParseError ParserState α → Prop
  | .ok _ t => s.Onward t ∧ t.ahead.length + least ≤ s.ahead.length
  | .error _ t => s.Onward t

/-- Parsers that go forward, and take `least` tokens at least when they succeed. -/
def Advances (least : Nat) (p : Parser α) : Prop :=
  ∀ s, Forward least s (p s)

/-- Parsers that do so wherever a token is left. -/
def AdvancesNext (least : Nat) (p : Parser α) : Prop :=
  ∀ s, s.ahead ≠ [] → Forward least s (p s)

section Sequences

variable {least : Nat} {p : Parser α} {f : α → Parser β}

/-- **A sequence takes what its parts take.** -/
theorem Forward.bind {m n : Nat} {s : ParserState} (hfirst : Forward m s (p s))
    (hsecond : ∀ a, Advances n (f a)) : Forward (m + n) s ((p >>= f) s) := by
  -- What the second step does is asked only where the first has succeeded.
  cases hran : p s with
  | ok a t =>
    rw [hran] at hfirst
    rw [bind_apply hran]
    obtain ⟨hbefore, htaken⟩ := hfirst
    have hrest := hsecond a t
    cases hlater : f a t with
    | ok b u =>
      rw [hlater] at hrest
      obtain ⟨hafter, hmore⟩ := hrest
      exact ⟨hbefore.trans hafter, by omega⟩
    | error e u =>
      rw [hlater] at hrest
      exact hbefore.trans hrest
  | error e t =>
    rw [hran] at hfirst
    rw [bind_error hran]
    exact hfirst

/-- What is taken first has been taken, whatever follows. -/
theorem Advances.bind (hfirst : Advances least p) (hrest : ∀ a, Advances 0 (f a)) :
    Advances least (p >>= f) :=
  fun s => (hfirst s).bind hrest

/-- What is taken may be taken by the rest of a sequence. -/
theorem Advances.before (hfirst : Advances 0 p) (hrest : ∀ a, Advances least (f a)) :
    Advances least (p >>= f) := by
  intro s
  have hboth := (hfirst s).bind hrest
  rwa [Nat.zero_add] at hboth

/-- How much is taken need not matter. -/
theorem Advances.any (h : Advances least p) : Advances 0 p := by
  intro s
  have hforward := h s
  -- Only a success says anything about the number of tokens.
  cases hresult : p s with
  | ok a t =>
    rw [hresult] at hforward
    obtain ⟨honward, htaken⟩ := hforward
    exact ⟨honward, by omega⟩
  | error e t =>
    rw [hresult] at hforward
    exact hforward

theorem Advances.next (h : Advances least p) : AdvancesNext least p :=
  fun s _ => h s

theorem advances_pure (a : α) : Advances 0 (pure a) :=
  fun s => ⟨Onward.refl s, Nat.le_refl _⟩

/-- An error takes nothing, and need not: only a success is asked how much it took. -/
theorem advances_throw (e : ParseError) : Advances least (throw e : Parser α) :=
  fun s => Onward.refl s

theorem advances_ite {condition : Prop} [Decidable condition] {q : Parser α}
    (hthen : Advances least p) (helse : Advances least q) :
    Advances least (if condition then p else q) := by
  split
  · exact hthen
  · exact helse

/-- What goes on after a check that throws an error. -/
theorem advances_check {condition : Prop} [Decidable condition] {e : ParseError}
    {q : PUnit → Parser α} (h : Advances least (q ⟨⟩)) :
    Advances least (if condition then throw e >>= q else q ⟨⟩) :=
  advances_ite (fun s => Onward.refl s) h

/-- What is looked up in the state takes nothing. -/
theorem advances_get {f : ParserState → Parser β} (hrest : ∀ s, Advances least (f s)) :
    Advances least (get >>= f) :=
  fun s => hrest s s

/-- Of the next token it is known that it can be taken. -/
theorem advances_peek {f : Option PlacedToken → Parser β} (hnone : Advances least (f none))
    (hsome : ∀ t, AdvancesNext least (f (some t))) : Advances least (peek? >>= f) := by
  intro s
  rw [bind_apply peek?_apply]
  cases hleft : s.ahead with
  | nil => exact hnone s
  | cons t rest => exact hsome t s (by simp [hleft])

end Sequences

/-! ## Single tokens, declarations and loops -/

section Tokens

variable {least : Nat}

theorem advances_remaining : Advances 0 remaining :=
  advances_get fun _ => advances_pure _

theorem advances_advance : Advances 0 advance :=
  fun s => ⟨onward_advance s, by simp [ParserState.advance]⟩

/-- A token that is left is taken. -/
theorem advancesNext_advance {f : Unit → Parser β} (hrest : Advances 0 (f ())) :
    AdvancesNext 1 (advance >>= f) := by
  intro s hleft
  have htaken : Forward 1 s (advance s) := by
    refine ⟨onward_advance s, ?_⟩
    rw [ParserState.advance, List.length_tail]
    have hremains := List.length_pos_iff.2 hleft
    omega
  exact htaken.bind fun _ => hrest

theorem advances_unexpected (expected : Expectation) :
    Advances least (unexpected expected : Parser α) :=
  advances_peek (advances_throw _) fun _ => (advances_throw _).next

/-- An optional token may be taken or not. -/
theorem advances_accept? (sort? : Token → Option α) : Advances 0 (accept? sort?) := by
  intro s
  rw [accept?_apply]
  cases s.words.head?.bind sort? with
  | none => exact advances_pure _ s
  | some a => exact advances_advance s

/-- A token that has to be there is taken. -/
theorem advances_expect (sort? : Token → Option α) (expected : Expectation) :
    Advances 1 (expect sort? expected) := by
  intro s
  -- A success has found a token among those that are left.  Of an error only the direction is to be
  -- shown.
  cases hresult : expect sort? expected s with
  | ok a t =>
    obtain ⟨⟨token, hfirst, -⟩, rfl⟩ := expect_eq_ok.1 hresult
    obtain ⟨rest, hwords⟩ := List.head?_eq_some_iff.1 hfirst
    obtain ⟨position, hhead⟩ := ahead_of_words hwords
    refine ⟨onward_advance s, ?_⟩
    rw [ParserState.advance, List.length_tail]
    have hremains := List.length_pos_iff.2 (List.ne_nil_of_mem (List.mem_of_head? hhead))
    omega
  | error e t =>
    have hforward : Advances 0 (expect sort? expected) := by
      refine (advances_accept? sort?).bind fun found => ?_
      cases found with
      | none => exact advances_unexpected _
      | some a => exact advances_pure a
    have hs := hforward s
    rw [hresult] at hs
    exact hs

theorem advances_expectSymbol (sign : Symbol) : Advances 1 (expectSymbol sign) :=
  advances_expect _ _

theorem advances_accept (token : Token) : Advances 0 (accept token) :=
  (advances_accept? _).bind fun _ => advances_pure _

theorem advances_isDeclared (name : String) : Advances 0 (isDeclared name) :=
  advances_get fun _ => advances_pure _

theorem advances_declareName (name : String) : Advances 0 (declareName name) :=
  fun s => ⟨onward_declare s name, Nat.le_refl _⟩

/-- Behind a loop as many loops are around as before it, wherever reading stopped inside it. -/
theorem Advances.inLoop {p : Parser α} (h : Advances least p) :
    Advances least (Parser.inLoop p) := by
  intro s
  let deeper : ParserState := { s with loopDepth := s.loopDepth + 1 }
  have hinside := h deeper
  -- The depth is put back by one behind the body, whatever its outcome.
  have houtside : ∀ t, deeper.Onward t → s.Onward { t with loopDepth := t.loopDepth - 1 } := by
    intro t honward
    refine ⟨honward.ahead, honward.declared, ?_, honward.started⟩
    show t.loopDepth - 1 = s.loopDepth
    rw [honward.loopDepth]
    rfl
  unfold Parser.inLoop
  cases hresult : p deeper with
  | ok a t =>
    rw [hresult] at hinside
    exact ⟨houtside t hinside.1, hinside.2⟩
  | error e t =>
    rw [hresult] at hinside
    exact houtside t hinside

theorem advances_checkArity (name : String) (expected found : Nat) (position : Position) :
    Advances 0 (checkArity name expected found position) :=
  advances_ite (advances_pure ()) (advances_throw _)

end Tokens

/-! ## Expressions -/

section Expressions

variable {expression operand : Parser Node}

/-- The arguments of a device, of which there is one at least. -/
theorem advances_deviceArguments (position : Position) (room : Nat) :
    Advances 1 (deviceArguments position room) := by
  induction room with
  | zero => exact advances_throw _
  | succ room ih =>
    unfold deviceArguments
    refine (advances_expect _ _).bind fun first => ?_
    refine (advances_accept _).bind fun more => ?_
    exact advances_ite (ih.any.bind fun _ => advances_pure _) (advances_pure _)

theorem advances_device (position : Position) : Advances 1 (device position) := by
  refine (advances_expectSymbol _).bind fun _ => ?_
  refine (advances_deviceArguments position _).any.bind fun arguments => ?_
  refine (advances_expectSymbol _).any.bind fun _ => ?_
  cases deviceConfig arguments with
  | ok config => exact advances_pure _
  | error fault => exact advances_throw _

theorem advances_expressions (h : Advances 1 expression) (bound : Nat) :
    Advances 1 (expressions expression bound) := by
  induction bound with
  | zero => exact advances_unexpected _
  | succ bound ih =>
    unfold expressions
    refine h.bind fun first => ?_
    refine (advances_accept _).bind fun more => ?_
    exact advances_ite (ih.any.bind fun _ => advances_pure _) (advances_pure _)

/-- The arguments of a call.  If there are none, the closing parenthesis is taken. -/
theorem advances_arguments (h : Advances 1 expression) : Advances 1 (arguments expression) := by
  have hlist : Advances 1
      (do let list ← expressions expression (← remaining); expectSymbol .rightParen; return list) :=
    advances_remaining.before fun room => (advances_expressions h room).bind fun _ =>
      (advances_expectSymbol _).any.bind fun _ => advances_pure _
  -- Either the list takes a token or the parenthesis that ends it is one.
  refine advances_peek hlist ?_
  rintro ⟨t, position⟩
  cases t with
  | symbol sign =>
    cases sign with
    | rightParen => exact advancesNext_advance (advances_pure _)
    | _ => exact hlist.next
  | _ => exact hlist.next

theorem advances_propertyAfter (index : Option Node) (name : String) (position : Position) :
    Advances 0 (propertyAfter index name position) := by
  refine (advances_accept _).bind fun dotted => ?_
  exact advances_ite ((advances_expect _ _).any.bind fun _ => advances_pure _)
    (advances_ite (advances_throw _) (advances_pure _))

/-- A name may have nothing behind it. -/
theorem advances_suffix (h : Advances 1 expression) (name : String) (position : Position) :
    Advances 0 (suffix expression name position) := by
  rw [suffix_eq]
  refine (advances_accept _).bind fun indexed => ?_
  refine advances_ite ?_ (advances_propertyAfter none name position)
  refine h.any.bind fun index => ?_
  exact (advances_expectSymbol _).any.bind fun _ =>
    advances_propertyAfter (some index) name position

/-- Behind a name nothing need be taken: the name has been. -/
theorem advances_named (h : Advances 1 expression) (name : String) (position : Position) :
    Advances 0 (named expression name position) := by
  -- A name that is no call: a constant, or a variable or a device with what follows it.
  have hbare : Advances 0 (do
      if Vocabulary.isConstant name then return Node.constant name
      else if ← isDeclared name then
        let place ← suffix expression name position
        return Node.read name place.1 place.2
      else throw (.undeclared name position)) := by
    refine advances_ite (advances_pure _) ?_
    refine (advances_isDeclared name).bind fun declared => ?_
    exact advances_ite ((advances_suffix h name position).bind fun _ => advances_pure _)
      (advances_throw _)
  unfold named
  -- A parenthesis behind the name makes it a call.
  refine advances_peek hbare fun t => (advances_ite ?_ hbare).next
  cases Vocabulary.functionArity? name with
  | some arity =>
    refine advances_advance.bind fun _ => ?_
    refine (advances_arguments h).any.bind fun list => ?_
    exact (advances_checkArity _ _ _ _).bind fun _ => advances_pure _
  | none => exact advances_ite (advances_throw _) (advances_throw _)

theorem advances_primary (h : Advances 1 expression) : Advances 1 (primary expression) := by
  unfold primary
  refine advances_peek (advances_unexpected _) ?_
  rintro ⟨t, position⟩
  -- The next token decides what the operand is, and it is taken at once, so that the rest need not
  -- take any.
  cases t with
  | number text => exact advancesNext_advance (advances_pure _)
  | identifier name => exact advancesNext_advance (advances_named h name position)
  | symbol sign =>
    cases sign with
    | minus =>
      exact advancesNext_advance ((advances_expect _ _).any.bind fun _ => advances_pure _)
    | leftParen =>
      refine advancesNext_advance (h.any.bind fun inner => ?_)
      exact (advances_accept _).bind fun closed =>
        advances_ite (advances_pure _) (advances_throw _)
    | _ => exact (advances_unexpected _).next
  | keyword word =>
    cases word with
    | hash =>
      refine advancesNext_advance ((advances_expectSymbol _).any.bind fun _ => ?_)
      refine (advances_expect _ _).any.bind fun text => ?_
      exact (advances_expectSymbol _).any.bind fun _ => advances_pure _
    | device => exact advancesNext_advance (advances_device position).any
    | _ => exact (advances_unexpected _).next
  | string text | comment text => exact (advances_unexpected _).next

/-- The loop over the operators of one level may find none. -/
theorem advances_joinFrom (operator? : Token → Option Join) (h : Advances 1 operand) (bound : Nat)
    (left : Node) : Advances 0 (joinFrom operator? operand bound left) := by
  induction bound generalizing left with
  | zero => exact advances_pure left
  | succ bound ih =>
    unfold joinFrom
    refine (advances_accept? _).bind fun found => ?_
    -- An operator and an operand are taken in a round, but there may be no round.
    cases found with
    | none => exact advances_pure left
    | some join => exact h.any.bind fun right => ih (join left right)

/-- A level of operators takes its first operand. -/
theorem advances_joined (operator? : Token → Option Join) (h : Advances 1 operand) :
    Advances 1 (joined operator? operand) :=
  h.bind fun first => advances_remaining.bind fun room => advances_joinFrom operator? h room first

theorem advances_negation (h : Advances 1 (sum expression)) (bound : Nat) :
    Advances 1 (negation expression bound) := by
  induction bound with
  | zero => exact h
  | succ bound ih =>
    unfold negation
    -- The mark may be missing, but what follows it takes a token in any case.
    exact (advances_accept _).before fun negated =>
      advances_ite (ih.bind fun _ => advances_pure _) h

theorem advances_choice (h : Advances 1 expression)
    (hcondition : Advances 1 (connective expression)) : Advances 1 (choice expression) := by
  refine hcondition.bind fun test => ?_
  refine (advances_accept _).bind fun chosen => advances_ite ?_ (advances_pure _)
  refine h.any.bind fun thenValue => ?_
  refine (advances_expectSymbol _).any.bind fun _ => ?_
  exact h.any.bind fun _ => advances_pure _

/-- **An expression takes a token, at every level.** -/
theorem advances_level (h : Advances 1 expression) (level : Level) :
    Advances 1 (level.parser expression) := by
  have hproduct : Advances 1 (product expression) := advances_joined _ (advances_primary h)
  have hsum : Advances 1 (sum expression) := advances_joined _ hproduct
  have hnegation : Advances 1 (do negation expression (← remaining)) :=
    advances_remaining.before (advances_negation hsum)
  have hcomparison : Advances 1 (comparison expression) := advances_joined _ hnegation
  have hconnective : Advances 1 (connective expression) := advances_joined _ hcomparison
  -- Each level is read over the one below it, so all of them are built before one is chosen.
  cases level with
  | choice => exact advances_choice h hconnective
  | connective => exact hconnective
  | comparison => exact hcomparison
  | negation => exact hnegation
  | sum => exact hsum
  | product => exact hproduct
  | operand => exact advances_primary h

theorem advances_expressionWithin (bound : Nat) : Advances 1 (expressionWithin bound) := by
  induction bound with
  | zero => exact advances_unexpected _
  | succ bound ih => exact advances_level ih .choice

/-- **An expression takes a token.** -/
theorem advances_expression : Advances 1 Parser.expression :=
  advances_remaining.before advances_expressionWithin

end Expressions

/-! ## Statements -/

/-- A declaration takes the name that it declares, behind the keyword. -/
theorem advances_declaration : Advances 1 declaration := by
  unfold declaration
  refine advances_peek (advances_unexpected _) ?_
  rintro ⟨t, position⟩
  cases t with
  | identifier name =>
    refine advancesNext_advance ((advances_isDeclared name).bind fun declared => ?_)
    refine advances_check ?_
    refine (advances_expectSymbol _).any.bind fun _ => ?_
    refine advances_expression.any.bind fun value => ?_
    refine (advances_expectSymbol _).any.bind fun _ => ?_
    exact (advances_declareName name).bind fun _ => advances_pure _
  | _ => exact (advances_unexpected _).next

theorem advances_command (kind : Vocabulary.Command) (position : Position) :
    Advances 1 (command kind position) := by
  refine (advances_expectSymbol _).bind fun _ => ?_
  refine (advances_arguments advances_expression).any.bind fun list => ?_
  refine (advances_checkArity _ _ _ _).bind fun _ => ?_
  exact (advances_expectSymbol _).any.bind fun _ => advances_pure _

/-- An assignment takes its sign, behind the name and what belongs to it. -/
theorem advances_assignment (name : String) (position : Position) :
    Advances 1 (assignment name position) := by
  refine (advances_isDeclared name).before fun declared => ?_
  refine advances_check ?_
  -- What belongs to the name may be missing.  The sign behind it is the token that is sure to be
  -- taken.
  refine (advances_suffix advances_expression name position).before fun place => ?_
  refine (advances_expectSymbol _).bind fun _ => ?_
  refine advances_expression.any.bind fun value => ?_
  exact (advances_expectSymbol _).any.bind fun _ => advances_pure _

theorem advances_loopControl (kind : LoopControl) (position : Position) :
    Advances 1 (loopControl kind position) := by
  refine advances_get fun s => ?_
  exact advances_check ((advances_expectSymbol _).bind fun _ => advances_pure _)

theorem advances_deviceStatement (position : Position) :
    Advances 1 (deviceStatement position) :=
  (advances_device position).bind fun _ =>
    (advances_expectSymbol _).any.bind fun _ => advances_pure _

theorem advances_condition : Advances 1 condition :=
  (advances_expectSymbol _).bind fun _ => advances_expression.any.bind fun _ =>
    (advances_expectSymbol _).any.bind fun _ => advances_pure _

theorem advances_blockBody {statement : Parser Node} (h : Advances 1 statement) (bound : Nat) :
    Advances 1 (blockBody statement bound) := by
  induction bound with
  | zero => exact advances_unexpected _
  | succ bound ih =>
    unfold blockBody
    have hmore : Advances 1 (do
        let first ← statement
        let rest ← blockBody statement bound
        return first :: rest) :=
      h.bind fun _ => ih.any.bind fun _ => advances_pure _
    -- The block ends with the brace, which is a token, or goes on with a statement, which takes
    -- one.
    refine advances_peek (advances_unexpected _) ?_
    rintro ⟨t, position⟩
    cases t with
    | symbol sign =>
      cases sign with
      | rightBrace => exact advancesNext_advance (advances_pure _)
      | _ => exact hmore.next
    | _ => exact hmore.next

theorem advances_statementWithin_succ {bound : Nat}
    (hstatement : Advances 1 (statementWithin bound))
    (hbranch : Advances 1 (branchWithin bound)) : Advances 1 (statementWithin (bound + 1)) := by
  unfold statementWithin
  refine advances_peek (advances_unexpected _) ?_
  rintro ⟨t, position⟩
  -- The next token alone decides which statement is read, and that token is taken.
  cases t with
  | keyword word =>
    cases word with
    | var => exact advancesNext_advance advances_declaration.any
    | loop =>
      exact advancesNext_advance (hstatement.inLoop.any.bind fun _ => advances_pure _)
    | whileLoop =>
      refine advancesNext_advance (advances_condition.any.bind fun test => ?_)
      exact hstatement.inLoop.any.bind fun _ => advances_pure _
    | ifThen => exact advancesNext_advance hbranch.any
    | leave => exact advancesNext_advance (advances_loopControl _ position).any
    | again => exact advancesNext_advance (advances_loopControl _ position).any
    | device => exact advancesNext_advance (advances_deviceStatement position).any
    | _ => exact (advances_unexpected _).next
  | symbol sign =>
    cases sign with
    | leftBrace =>
      refine advancesNext_advance (advances_remaining.bind fun room => ?_)
      exact (advances_blockBody hstatement room).any.bind fun _ => advances_pure _
    | _ => exact (advances_unexpected _).next
  | identifier name =>
    cases hcalled : Vocabulary.Command.ofName? name with
    | some kind =>
      simp only [hcalled]
      exact advancesNext_advance (advances_command kind position).any
    | none =>
      simp only [hcalled]
      exact advancesNext_advance (advances_assignment name position).any
  | _ => exact (advances_unexpected _).next

theorem advances_branchWithin_succ {bound : Nat} (hstatement : Advances 1 (statementWithin bound))
    (hbranch : Advances 1 (branchWithin bound)) : Advances 1 (branchWithin (bound + 1)) := by
  unfold branchWithin
  refine advances_condition.bind fun test => ?_
  refine hstatement.any.bind fun thenBranch => ?_
  -- Behind the first branch stands `elif`, `else` or neither of them.
  refine (advances_accept _).bind fun further => ?_
  refine advances_ite (hbranch.any.bind fun _ => advances_pure _) ?_
  refine (advances_accept _).bind fun otherwise => ?_
  exact advances_ite (hstatement.any.bind fun _ => advances_pure _) (advances_pure _)

/-- Statements and the branches of choices call each other, one level of nesting further in. -/
theorem advances_statementWithin (bound : Nat) :
    Advances 1 (statementWithin bound) ∧ Advances 1 (branchWithin bound) := by
  induction bound with
  | zero => exact ⟨advances_unexpected _, advances_unexpected _⟩
  | succ bound ih =>
    obtain ⟨hstatement, hbranch⟩ := ih
    exact ⟨advances_statementWithin_succ hstatement hbranch,
      advances_branchWithin_succ hstatement hbranch⟩

/-- **A statement takes a token.** -/
theorem advances_statement : Advances 1 statement :=
  advances_remaining.before fun room => (advances_statementWithin room).1

/-- A script may be empty. -/
theorem advances_statements (bound : Nat) : Advances 0 (statements bound) := by
  induction bound with
  | zero => exact advances_pure []
  | succ bound ih =>
    unfold statements
    refine advances_peek (advances_pure []) fun t => ?_
    exact (advances_statement.any.bind fun _ => ih.bind fun _ => advances_pure _).next

end Parser
end ChipScript
