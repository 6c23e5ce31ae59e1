import ChipScript.Proofs.Parser.Reading

/-!
# Parsers come to an end

Readers without bounds come to an end in every state, and with the result of the bounded parsers: so
the bounds are never what stops a parser.

The proof is by induction on the number of tokens that are left.  Between one call and the next
inside it a token is taken, so that the call inside is made with fewer tokens; where a loop has been
bounded, its bound is met only behind the last token.

Main results: `Reading.comesTo_statement` and `Reading.comesTo_expression`.
-/

namespace ChipScript

open ChipScript.Grammar ChipScript.Parser ChipScript.ParserState

namespace Reading

/-! ## Behind the last token -/

section End

variable {α : Type} {s : ParserState} (hnothing : s.ahead = [])

include hnothing

/-- Behind the last token nothing is accepted. -/
theorem accept?_nil (sort? : Token → Option α) : accept? sort? s = .ok none s := by
  rw [accept?_apply, words, hnothing]
  rfl

theorem accept_nil (token : Token) : accept token s = .ok false s := by
  rw [accept_apply, words, hnothing]
  rfl

/-- Behind the last token the error is that the text has ended. -/
theorem unexpected_nil (expected : Expectation) :
    (unexpected expected : Parser α) s = .error (.unexpectedEnd expected) s := by
  rw [unexpected, bind_apply peek?_apply, hnothing]
  rfl

/-- Behind the last token a token is missing. -/
theorem expect_nil (sort? : Token → Option α) (expected : Expectation) :
    expect sort? expected s = .error (.unexpectedEnd expected) s := by
  rw [expect, bind_apply (accept?_nil hnothing sort?)]
  exact unexpected_nil hnothing expected

/-- There is no expression where there is no token, at whatever level. -/
theorem level_nil (e : Parser Node) (level : Level) :
    level.parser e s = .error (.unexpectedEnd .expression) s := by
  -- Every level begins with the next tighter one, down to the operand.
  have hoperand : primary e s = .error (.unexpectedEnd .expression) s := by
    rw [primary, bind_apply peek?_apply, hnothing]
    exact unexpected_nil hnothing _
  have hproduct : Parser.product e s = .error (.unexpectedEnd .expression) s := bind_error hoperand
  have hsum : Parser.sum e s = .error (.unexpectedEnd .expression) s := bind_error hproduct
  have hnegation : (do Parser.negation e (← remaining)) s =
      .error (.unexpectedEnd .expression) s := by
    rw [bind_apply remaining_apply, words, hnothing]
    exact hsum
  have hcomparison : Parser.comparison e s = .error (.unexpectedEnd .expression) s :=
    bind_error hnegation
  have hconnective : Parser.connective e s = .error (.unexpectedEnd .expression) s :=
    bind_error hcomparison
  cases level with
  | choice => exact bind_error hconnective
  | connective => exact hconnective
  | comparison => exact hcomparison
  | negation => exact hnegation
  | sum => exact hsum
  | product => exact hproduct
  | operand => exact hoperand

/-- There is no expression where there is no token, whatever the bound. -/
theorem expressionWithin_nil (bound : Nat) :
    expressionWithin bound s = .error (.unexpectedEnd .expression) s := by
  cases bound with
  | zero => exact unexpected_nil hnothing _
  | succ bound => exact level_nil hnothing _ .choice

end End

/-- Where the bound of a loop is met, no token is left. -/
theorem ahead_eq_nil {s : ParserState} {m : Nat} (hfew : s.ahead.length < m) (hnone : m ≤ 1) :
    s.ahead = [] :=
  List.length_eq_zero_iff.1 (by omega)

/-! ## Expressions -/

/-- A parser of expressions that is followed wherever fewer than `n` tokens are left. -/
structure ReadsValues (n : Nat) (e : Parser Node) : Prop where
  follows : Follows n (fun depth => value depth .choice) e
  advances : Advances 1 e
  ends : ∀ s, s.ahead = [] → e s = .error (.unexpectedEnd .expression) s

section Expressions

variable {n : Nat} {e : Parser Node}

theorem ReadsValues.mono {m : Nat} (h : ReadsValues n e) (hle : m ≤ n) : ReadsValues m e :=
  ⟨h.follows.mono hle, h.advances, h.ends⟩

/-- A list of expressions.  Every expression takes a token, so that a bound as large as the number
    of tokens is met only behind the last one. -/
theorem follows_expressions (h : ReadsValues n e) {bound : Nat} (henough : n ≤ bound + 1) :
    Follows n expressions (Parser.expressions e bound) := by
  induction bound generalizing n with
  | zero =>
    intro s hfew
    -- No token is left, so the first expression is refused by both.
    have hnothing := ahead_eq_nil hfew henough
    have hfailed := outcome_of_error (h.ends s hnothing)
    have hfirst := h.follows s hfew
    rw [hfailed] at hfirst
    rw [Parser.expressions, outcome_of_error (unexpected_nil hnothing _)]
    exact ComesTo.call hfirst.fail
  | succ bound ih =>
    cases n with
    | zero => exact follows_zero
    | succ n =>
      refine Follows.call ?_
      simp only [expressions]
      rw [Parser.expressions]
      refine h.follows.next h.advances fun first => ?_
      refine follows_step (advances_accept _) fun more => ?_
      refine follows_ite ?_ (follows_pure _)
      -- The first expression has taken a token, and the rest of the list is read with the smaller
      -- bound.
      exact (ih (h.mono (Nat.le_succ n)) (by omega)).bind (advances_expressions h.advances _).any
        fun rest => follows_pure _

theorem follows_arguments (h : ReadsValues n e) : Follows n arguments (Parser.arguments e) := by
  have hlist : Follows n
      (fun depth => do
        let list ← expressions depth
        expectSymbol .rightParen
        return list)
      (do
        let list ← Parser.expressions e (← remaining)
        expectSymbol .rightParen
        return list) := by
    refine follows_remaining fun bound m hle henough => ?_
    refine (follows_expressions (h.mono hle) henough).bind (advances_expressions h.advances _).any
      fun list => ?_
    exact follows_step (advances_expectSymbol _).any fun _ => follows_pure _
  refine Follows.call ?_
  simp only [arguments]
  rw [Parser.arguments]
  -- Both look at one token: a parenthesis ends an empty list.
  refine follows_peek hlist ?_
  rintro ⟨t, position⟩
  cases n with
  | zero => exact follows_zero.here
  | succ n =>
    cases t with
    | symbol sign =>
      cases sign with
      | rightParen => exact followsNext_advance (follows_pure _)
      | _ => exact hlist.here
    | _ => exact hlist.here

/-- What may follow a name: an index and a logic type. -/
theorem follows_suffix (h : ReadsValues n e) (name : String) (position : Position) :
    Follows n (fun depth => suffix depth name position) (Parser.suffix e name position) := by
  refine Follows.call ?_
  simp only [suffix]
  rw [suffix_eq]
  refine follows_step (advances_accept _) fun indexed => ?_
  refine follows_ite ?_ (follows_lift _)
  refine h.follows.bind h.advances.any fun index => ?_
  exact follows_step (advances_expectSymbol _).any fun _ => follows_lift _

/-- A value that begins with a name. -/
theorem follows_named (h : ReadsValues n e) (name : String) (position : Position) :
    Follows n (fun depth => named depth name position) (Parser.named e name position) := by
  -- A name that is no call: a constant, or a variable or a device with what follows it.
  have hbare : Follows n
      (fun depth => do
        if Vocabulary.isConstant name then return Node.constant name
        else if ← isDeclared name then
          let place ← suffix depth name position
          return Node.read name place.1 place.2
        else throw (.undeclared name position))
      (do
        if Vocabulary.isConstant name then return Node.constant name
        else if ← isDeclared name then
          let place ← Parser.suffix e name position
          return Node.read name place.1 place.2
        else throw (.undeclared name position)) := by
    refine follows_ite (follows_pure _) ?_
    refine follows_step (advances_isDeclared name) fun declared => ?_
    refine follows_ite ?_ (follows_throw _)
    exact (follows_suffix h name position).bind (advances_suffix h.advances name position)
      fun _ => follows_pure _
  refine Follows.call ?_
  simp only [named]
  rw [Parser.named]
  -- A parenthesis behind the name makes it a call, whether or not the name is declared.
  refine follows_peek hbare fun t => (follows_ite ?_ hbare).here
  cases Vocabulary.functionArity? name with
  | some arity =>
    refine follows_step advances_advance fun _ => ?_
    refine (follows_arguments h).bind (advances_arguments h.advances).any fun list => ?_
    exact follows_step (advances_checkArity _ _ _ _) fun _ => follows_pure _
  | none => exact follows_ite (follows_throw _) (follows_throw _)

/-- An operand takes its first token before it reads an expression, so it may have one token
    more. -/
theorem follows_operand (h : ReadsValues n e) : Follows (n + 1) operand (primary e) := by
  refine Follows.call ?_
  simp only [operand]
  rw [primary]
  -- The next token decides what the operand is, and it is taken before any call.
  refine follows_peek (follows_lift _) ?_
  rintro ⟨t, position⟩
  cases t with
  | number text => exact followsNext_advance (follows_pure _)
  | identifier name => exact followsNext_advance (follows_named h name position)
  | symbol sign =>
    cases sign with
    | minus =>
      refine followsNext_advance ?_
      exact follows_step (advances_expect _ _).any fun _ => follows_pure _
    | leftParen =>
      refine followsNext_advance (h.follows.bind h.advances.any fun inner => ?_)
      refine follows_step (advances_accept _) fun closed => ?_
      -- Without the closing parenthesis both stop with the same error.
      exact follows_ite (follows_pure _) (follows_throw _)
    | _ => exact (follows_lift _).here
  | keyword word =>
    cases word with
    | hash =>
      refine followsNext_advance (follows_step (advances_expectSymbol _).any fun _ => ?_)
      refine follows_step (advances_expect _ _).any fun text => ?_
      exact follows_step (advances_expectSymbol _).any fun _ => follows_pure _
    | device => exact followsNext_advance (follows_lift _)
    | _ => exact (follows_lift _).here
  | string text | comment text => exact (follows_lift _).here

/-- The loop over the operators of one level, which takes an operator and an operand in each
    round. -/
theorem follows_more {level tighter : Level} {operand : Parser Node}
    (hfollows : Follows n (fun depth => value depth tighter) operand)
    (hadvances : Advances 1 operand) {bound : Nat} (henough : n ≤ bound + 1) (left : Node) :
    Follows n (fun depth => more depth level tighter left)
      (joinFrom level.operator? operand bound left) := by
  induction bound generalizing n left with
  | zero =>
    intro s hfew
    -- Behind the last token no operator follows.
    have hpassed := accept?_nil (ahead_eq_nil hfew henough) level.operator?
    exact ComesTo.call (comesTo_of_lift hpassed (follows_pure left s hfew))
  | succ bound ih =>
    cases n with
    | zero => exact follows_zero
    | succ n =>
      refine Follows.call ?_
      simp only [more]
      rw [joinFrom]
      refine follows_accept? (follows_pure left) fun join => ?_
      have hinside := hfollows.mono (Nat.le_succ n)
      -- The operator has been taken, so that the operand and the rounds behind it are read with
      -- fewer tokens.
      exact hinside.bind hadvances.any fun right => ih hinside (by omega) (join left right)

theorem follows_joined {level tighter : Level} {operand : Parser Node}
    (hfollows : Follows n (fun depth => value depth tighter) operand)
    (hadvances : Advances 1 operand) :
    Follows n (fun depth => do let first ← value depth tighter; more depth level tighter first)
      (joined level.operator? operand) := by
  refine hfollows.bind hadvances.any fun first => ?_
  exact follows_remaining fun bound m hle henough =>
    follows_more (hfollows.mono hle) hadvances henough first

/-- Negations are counted by a loop with a bound, one for each mark. -/
theorem follows_negation (hfollows : Follows n (fun depth => value depth .sum) (Parser.sum e))
    (hadvances : Advances 1 (Parser.sum e)) {bound : Nat} (henough : n ≤ bound + 1) :
    Follows n (fun depth => value depth .negation) (Parser.negation e bound) := by
  induction bound generalizing n with
  | zero =>
    intro s hfew
    -- Behind the last token nothing is negated.
    have hpassed := accept_nil (ahead_eq_nil hfew henough) (.symbol .bang)
    exact ComesTo.call (comesTo_of_lift hpassed (hfollows s hfew))
  | succ bound ih =>
    cases n with
    | zero => exact follows_zero
    | succ n =>
      refine Follows.call ?_
      simp only [value]
      rw [Parser.negation]
      refine follows_accept hfollows ?_
      -- The mark has been taken, and what it negates may be negated again.
      have hinside := ih (hfollows.mono (Nat.le_succ n)) (by omega)
      exact hinside.bind (advances_negation hadvances _).any fun _ => follows_pure _

/-- A choice between two values.  Each of them may be any expression again. -/
theorem follows_choice (h : ReadsValues n e)
    (hcondition : Follows (n + 1) (fun depth => value depth .connective) (Parser.connective e)) :
    Follows (n + 1) (fun depth => value depth .choice) (Parser.choice e) := by
  refine Follows.call ?_
  simp only [value]
  rw [Parser.choice]
  -- The condition has taken a token, so that the values of the choice are read with fewer.
  refine hcondition.next (advances_level h.advances .connective) fun test => ?_
  refine follows_step (advances_accept _) fun chosen => ?_
  refine follows_ite ?_ (follows_pure _)
  refine h.follows.bind h.advances.any fun thenValue => ?_
  refine follows_step (advances_expectSymbol _).any fun _ => ?_
  exact h.follows.bind h.advances.any fun _ => follows_pure _

/-- **An expression with one token more is read without bounds**, at every level. -/
theorem follows_level (h : ReadsValues n e) (level : Level) :
    Follows (n + 1) (fun depth => value depth level) (level.parser e) := by
  have hadvances := advances_level h.advances
  have hoperand : Follows (n + 1) (fun depth => value depth .operand) (primary e) :=
    Follows.call <| follows_operand h
  have hproduct : Follows (n + 1) (fun depth => value depth .product) (Parser.product e) :=
    Follows.call <| follows_joined hoperand (hadvances .operand)
  have hsum : Follows (n + 1) (fun depth => value depth .sum) (Parser.sum e) :=
    Follows.call <| follows_joined hproduct (hadvances .product)
  have hnegation : Follows (n + 1) (fun depth => value depth .negation)
      (do Parser.negation e (← remaining)) :=
    follows_remaining fun bound m hle henough =>
      follows_negation (hsum.mono hle) (hadvances .sum) henough
  have hcomparison : Follows (n + 1) (fun depth => value depth .comparison) (Parser.comparison e) :=
    Follows.call <| follows_joined hnegation (hadvances .negation)
  have hconnective : Follows (n + 1) (fun depth => value depth .connective) (Parser.connective e) :=
    Follows.call <| follows_joined hcomparison (hadvances .comparison)
  -- Each level is read over the one below it, so all of them are built before one is chosen.
  cases level with
  | choice => exact follows_choice h hconnective
  | connective => exact hconnective
  | comparison => exact hcomparison
  | negation => exact hnegation
  | sum => exact hsum
  | product => exact hproduct
  | operand => exact hoperand

/-- By induction on the number of tokens that are left. -/
theorem readsValues_expressionWithin (n : Nat) {bound : Nat} (henough : n ≤ bound + 1) :
    ReadsValues n (expressionWithin bound) := by
  refine ⟨?_, advances_expressionWithin bound,
    fun s hnothing => expressionWithin_nil hnothing bound⟩
  -- The number of tokens is what decreases.  The bound only has to keep up with it, and is
  -- generalized for that reason.
  induction n generalizing bound with
  | zero => exact follows_zero
  | succ n ih =>
    cases bound with
    | zero =>
      -- No token is left, and then there is no expression in either way.
      intro s hfew
      have hnothing := ahead_eq_nil hfew henough
      have halone : ReadsValues 0 (expressionWithin 0) :=
        ⟨follows_zero, advances_expressionWithin 0,
          fun s hnothing => expressionWithin_nil hnothing 0⟩
      have hresult := follows_level halone .choice s (Nat.lt_of_lt_of_le hfew henough)
      rw [outcome_of_error (level_nil hnothing _ .choice)] at hresult
      rw [outcome_of_error (expressionWithin_nil hnothing 0)]
      exact hresult
    | succ bound =>
      have hinside : ReadsValues n (expressionWithin bound) :=
        ⟨ih (by omega), advances_expressionWithin bound,
          fun s hnothing => expressionWithin_nil hnothing bound⟩
      -- The expressions inside are read with one token less, and with the smaller bound.
      exact follows_level hinside .choice

/-- Expressions are read without bounds, since the bound that the parser takes is the number of
    tokens left. -/
theorem readsValues_expression (n : Nat) : ReadsValues n Parser.expression where
  follows := follows_remaining fun _ m _ henough => (readsValues_expressionWithin m henough).follows
  advances := advances_expression
  ends s hnothing := by
    rw [Parser.expression, bind_apply remaining_apply]
    exact expressionWithin_nil hnothing _

end Expressions

/-! ## Statements -/

section Statements

variable {n : Nat}

theorem follows_declaration : Follows n declaration Parser.declaration := by
  cases n with
  | zero => exact follows_zero
  | succ n =>
    unfold declaration
    rw [Parser.declaration]
    refine follows_peek (follows_lift _) ?_
    rintro ⟨t, position⟩
    cases t with
    | identifier name =>
      refine followsNext_advance (follows_step (advances_isDeclared name) fun declared => ?_)
      refine follows_check ?_
      refine follows_step (advances_expectSymbol _).any fun _ => ?_
      -- The value is read before the name is declared, so that it cannot refer to itself.
      refine (readsValues_expression n).follows.bind advances_expression.any fun value => ?_
      refine follows_step (advances_expectSymbol _).any fun _ => ?_
      exact follows_step (advances_declareName name) fun _ => follows_pure _
    | _ => exact (follows_lift _).here

theorem follows_command (kind : Vocabulary.Command) (position : Position) :
    Follows n (fun depth => command depth kind position) (Parser.command kind position) := by
  refine follows_step (advances_expectSymbol _).any fun _ => ?_
  refine (follows_arguments (readsValues_expression n)).bind
    (advances_arguments advances_expression).any fun list => ?_
  refine follows_step (advances_checkArity _ _ _ _) fun _ => ?_
  exact follows_step (advances_expectSymbol _).any fun _ => follows_pure _

theorem follows_assignment (name : String) (position : Position) :
    Follows n (fun depth => assignment depth name position)
      (Parser.assignment name position) := by
  refine follows_step (advances_isDeclared name) fun declared => ?_
  refine follows_check ?_
  refine (follows_suffix (readsValues_expression n) name position).bind
    (advances_suffix advances_expression name position) fun place => ?_
  refine follows_step (advances_expectSymbol _).any fun _ => ?_
  refine (readsValues_expression n).follows.bind advances_expression.any fun value => ?_
  exact follows_step (advances_expectSymbol _).any fun _ => follows_pure _

theorem follows_condition : Follows n condition Parser.condition := by
  refine follows_step (advances_expectSymbol _).any fun _ => ?_
  refine (readsValues_expression n).follows.bind advances_expression.any fun test => ?_
  exact follows_step (advances_expectSymbol _).any fun _ => follows_pure _

theorem follows_inLoop {p : Parser Node} (h : Follows n statement p) :
    Follows n (fun depth => inLoop (statement depth)) (Parser.inLoop p) := by
  intro s hfew
  -- As many tokens are left with one loop more around.
  obtain ⟨least, henough⟩ := h { s with loopDepth := s.loopDepth + 1 } hfew
  refine ⟨least, fun depth hdeep => ?_⟩
  show inLoop (statement depth) s = some ((Parser.inLoop p).outcome s)
  rw [inLoop, henough depth hdeep, outcome, outcome, Parser.inLoop]
  cases p { s with loopDepth := s.loopDepth + 1 } with
  | ok a t => rfl
  | error e t => rfl

/-- The statements of a block up to the brace that closes it. -/
theorem follows_blockBody {p : Parser Node} (h : Follows n statement p) (hadvances : Advances 1 p)
    {bound : Nat} (henough : n ≤ bound + 1) : Follows n blockBody (Parser.blockBody p bound) := by
  induction bound generalizing n with
  | zero =>
    intro s hfew
    -- Behind the last token the brace is missing.
    refine ComesTo.call (comesTo_of_lift peek?_apply ?_)
    rw [ahead_eq_nil hfew henough]
    exact follows_lift (unexpected (.symbol .rightBrace)) s hfew
  | succ bound ih =>
    cases n with
    | zero => exact follows_zero
    | succ n =>
      have hmore : Follows (n + 1)
          (fun depth => do
            let first ← statement depth
            let rest ← blockBody depth
            return first :: rest)
          (do
            let first ← p
            return first :: (← Parser.blockBody p bound)) := by
        -- The first statement takes a token, so that the rest of the block is read with fewer.
        refine h.next hadvances fun first => ?_
        exact (ih (h.mono (Nat.le_succ n)) (by omega)).bind (advances_blockBody hadvances _).any
          fun rest => follows_pure _
      refine Follows.call ?_
      simp only [blockBody]
      rw [Parser.blockBody]
      refine follows_peek (follows_lift _) ?_
      rintro ⟨t, position⟩
      cases t with
      | symbol sign =>
        cases sign with
        | rightBrace => exact followsNext_advance (follows_pure _)
        | _ => exact hmore.here
      | _ => exact hmore.here

/-- A statement takes its first token before the statements inside it are read, so it may have one
    token more than they. -/
theorem follows_statement_succ {bound : Nat}
    (hstatement : Follows n statement (statementWithin bound))
    (hbranch : Follows n branch (branchWithin bound)) :
    Follows (n + 1) statement (statementWithin (bound + 1)) := by
  have hadvances := (advances_statementWithin bound).1
  have hbody := follows_inLoop hstatement
  refine Follows.call ?_
  simp only [statement]
  rw [statementWithin]
  refine follows_peek (follows_lift _) ?_
  rintro ⟨t, position⟩
  -- The next token alone decides which statement is read, and that token is taken.
  cases t with
  | keyword word =>
    cases word with
    | var => exact followsNext_advance follows_declaration
    | loop => exact followsNext_advance (hbody.bind hadvances.inLoop.any fun _ => follows_pure _)
    | whileLoop =>
      refine followsNext_advance (follows_condition.bind advances_condition.any fun test => ?_)
      exact hbody.bind hadvances.inLoop.any fun _ => follows_pure _
    | ifThen => exact followsNext_advance hbranch
    | leave | again => exact followsNext_advance (follows_lift _)
    | device => exact followsNext_advance (follows_lift _)
    | _ => exact (follows_lift _).here
  | symbol sign =>
    cases sign with
    | leftBrace =>
      refine followsNext_advance (follows_remaining fun room m hle henough => ?_)
      -- The bound of the block is the number of tokens that are left behind the brace.
      exact (follows_blockBody (hstatement.mono hle) hadvances henough).bind
        (advances_blockBody hadvances room).any fun _ => follows_pure _
    | _ => exact (follows_lift _).here
  | identifier name =>
    cases hcalled : Vocabulary.Command.ofName? name with
    | some kind =>
      simp only [hcalled]
      exact followsNext_advance (follows_command kind position)
    | none =>
      simp only [hcalled]
      exact followsNext_advance (follows_assignment name position)
  | _ => exact (follows_lift _).here

/-- A choice between statements.  The parenthesis before the condition has been taken when the
    branches are read. -/
theorem follows_branch_succ {bound : Nat} (hstatement : Follows n statement (statementWithin bound))
    (hbranch : Follows n branch (branchWithin bound)) :
    Follows (n + 1) branch (branchWithin (bound + 1)) := by
  obtain ⟨hstatementAdvances, hbranchAdvances⟩ := advances_statementWithin bound
  refine Follows.call ?_
  simp only [branch]
  rw [branchWithin]
  refine follows_condition.next advances_condition fun test => ?_
  refine hstatement.bind hstatementAdvances.any fun thenBranch => ?_
  -- Behind the first branch stands `elif`, `else` or neither of them.
  refine follows_step (advances_accept _) fun further => ?_
  refine follows_ite (hbranch.bind hbranchAdvances.any fun _ => follows_pure _) ?_
  refine follows_step (advances_accept _) fun otherwise => ?_
  exact follows_ite
    (hstatement.bind hstatementAdvances.any fun _ => follows_pure _) (follows_pure _)

/-- Statements and the branches of choices call each other.  By induction on the number of tokens
    that are left. -/
theorem follows_statementWithin (n : Nat) {bound : Nat} (henough : n ≤ bound + 1) :
    Follows n statement (statementWithin bound) ∧ Follows n branch (branchWithin bound) := by
  induction n generalizing bound with
  | zero => exact ⟨follows_zero, follows_zero⟩
  | succ n ih =>
    cases bound with
    | zero =>
      refine ⟨fun s hfew => ?_, fun s hfew => ?_⟩
      · -- Behind the last token no statement begins.
        refine ComesTo.call (comesTo_of_lift peek?_apply ?_)
        rw [ahead_eq_nil hfew henough]
        exact follows_lift (unexpected .statement) s hfew
      · -- Without bounds a choice stops at its condition, with the error that the bound gives.
        have hmissing : Parser.condition s = .error (.unexpectedEnd (.symbol .leftParen)) s :=
          bind_error (expect_nil (ahead_eq_nil hfew henough) _ _)
        have hresult := follows_condition s hfew
        rw [outcome_of_error hmissing] at hresult
        rw [branchWithin, outcome_of_error (unexpected_nil (ahead_eq_nil hfew henough) _)]
        exact ComesTo.call hresult.fail
    | succ bound =>
      have hless : n ≤ bound + 1 := by omega
      obtain ⟨hstatement, hbranch⟩ := ih hless
      exact ⟨follows_statement_succ hstatement hbranch, follows_branch_succ hstatement hbranch⟩

theorem follows_statement : Follows n statement Parser.statement :=
  follows_remaining fun _ m _ henough => (follows_statementWithin m henough).1

/-- A whole script, statement by statement.  The end of the text is where it ends. -/
theorem follows_statements {bound : Nat} (henough : n ≤ bound + 1) :
    Follows n statements (Parser.statements bound) := by
  induction bound generalizing n with
  | zero =>
    intro s hfew
    -- Behind the last token the script is complete.
    refine ComesTo.call (comesTo_of_lift peek?_apply ?_)
    rw [ahead_eq_nil hfew henough]
    exact follows_pure [] s hfew
  | succ bound ih =>
    cases n with
    | zero => exact follows_zero
    | succ n =>
      refine Follows.call ?_
      simp only [statements]
      rw [Parser.statements]
      refine follows_peek (follows_pure _) fun t => Follows.here ?_
      refine follows_statement.next advances_statement fun first => ?_
      exact (ih (by omega)).bind (advances_statements bound) fun rest => follows_pure _

end Statements

/-! ## Results -/

/-- **A statement is read without bounds.** -/
theorem comesTo_statement (s : ParserState) :
    ComesTo statement s (Parser.statement.outcome s) :=
  follows_statement s (Nat.lt_succ_self _)

/-- **An expression is read without bounds.** -/
theorem comesTo_expression (s : ParserState) :
    ComesTo expression s (Parser.expression.outcome s) :=
  (readsValues_expression _).follows s (Nat.lt_succ_self _)

end Reading

end ChipScript
