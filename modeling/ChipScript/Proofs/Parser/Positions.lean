import ChipScript.Proofs.Grammar.Completeness
import ChipScript.Proofs.Token.Layout

/-!
# Layout does not matter

Two texts with the same tokens at other positions are read as the same script, or their errors are
the same but for the position.  `Agree p q` says so of two parsers, which are run on the same tokens
at whatever positions; there is one rule for sequences and one lemma for each parser.  A parser that
reports errors at a position of its own agrees with itself at any other.

Since a text that is laid out anew has the same tokens at other positions, its layout makes no
difference to the script: `layout_is_free`.
-/

namespace ChipScript

/-! ## What is left of errors and states -/

namespace ParseError

/-- The error without its position. -/
def unplaced : ParseError → ParseError
  | unexpectedToken expected found _ => unexpectedToken expected found .start
  | unexpectedEnd expected => unexpectedEnd expected
  | undeclared name _ => undeclared name .start
  | redeclared name _ => redeclared name .start
  | malformedDevice fault _ => malformedDevice fault .start
  | tooManyDeviceArguments _ => tooManyDeviceArguments .start
  | unterminatedGrouping _ => unterminatedGrouping .start
  | arityMismatch name expected found _ => arityMismatch name expected found .start
  | indexWithoutProperty name _ => indexWithoutProperty name .start
  | unknownFunction name _ => unknownFunction name .start
  | controlOutsideLoop kind _ => controlOutsideLoop kind .start

end ParseError

namespace ParserState

/-- States that differ in positions only. -/
structure Alike (s t : ParserState) : Prop where
  words : s.words = t.words
  started : s.started = t.started
  declared : s.declared = t.declared
  loopDepth : s.loopDepth = t.loopDepth

variable {s t : ParserState}

theorem Alike.advance (h : s.Alike t) : s.advance.Alike t.advance where
  words := by rw [words_advance, words_advance, h.words]
  started := h.started
  declared := h.declared
  loopDepth := h.loopDepth

theorem Alike.declare (h : s.Alike t) (name : String) :
    Alike { s with declared := name :: s.declared } { t with declared := name :: t.declared } where
  words := h.words
  started := h.started
  declared := by rw [h.declared]
  loopDepth := h.loopDepth

/-- Both sides may be moved to the same depth of loops, wherever they were. -/
theorem Alike.atDepth (h : s.Alike t) (depth : Nat) :
    Alike { s with loopDepth := depth } { t with loopDepth := depth } :=
  ⟨h.words, h.started, h.declared, rfl⟩

end ParserState

namespace Parser

open Grammar

variable {α β : Type}

/-- The same value, or errors that differ in their positions only. -/
inductive AlikeResults : EStateM.Result ParseError ParserState α →
    EStateM.Result ParseError ParserState α → Prop where
  | ok (a : α) {s t : ParserState} : s.Alike t → AlikeResults (.ok a s) (.ok a t)
  | error {e e' : ParseError} {s t : ParserState} :
      e.unplaced = e'.unplaced → s.Alike t → AlikeResults (.error e s) (.error e' t)

/-- Parsers that read the same from the same tokens, at whatever positions these stand. -/
def Agree (p q : Parser α) : Prop :=
  ∀ s t, s.Alike t → AlikeResults (p s) (q t)

/-! ## Sequences and cases -/

theorem agree_pure (a : α) : Agree (pure a) (pure a) :=
  fun _ _ h => .ok a h

/-- Errors agree if they are the same without their positions. -/
theorem agree_throw {e e' : ParseError} (he : e.unplaced = e'.unplaced) :
    Agree (throw e : Parser α) (throw e') :=
  fun _ _ h => .error he h

/-- **Sequences agree when their parts do.** -/
theorem Agree.bind {p q : Parser α} {f g : α → Parser β} (hp : Agree p q)
    (hf : ∀ a, Agree (f a) (g a)) : Agree (p >>= f) (q >>= g) := by
  intro s t h
  have hfirst := hp s t h
  -- The results are named, so that the cases on how they agree are cases on the runs.
  generalize hps : p s = first at hfirst
  generalize hqt : q t = other at hfirst
  cases hfirst with
  | ok a h' =>
      rw [bind_apply hps, bind_apply hqt]
      exact hf a _ _ h'
  | error he h' =>
      rw [bind_error hps, bind_error hqt]
      exact .error he h'

/-- A choice that is made on both sides agrees if both of its parsers do. -/
theorem agree_ite {condition : Prop} [Decidable condition] {p p' q q' : Parser α}
    (hthen : Agree p q) (helse : Agree p' q') :
    Agree (if condition then p else p') (if condition then q else q') := by
  split
  · exact hthen
  · exact helse

/-- What goes on after a check that throws an error. -/
theorem agree_check {condition : Prop} [Decidable condition] {e e' : ParseError}
    {p q : PUnit → Parser α} (he : e.unplaced = e'.unplaced) (h : Agree (p ⟨⟩) (q ⟨⟩)) :
    Agree (if condition then throw e >>= p else p ⟨⟩)
      (if condition then throw e' >>= q else q ⟨⟩) :=
  agree_ite ((agree_throw he).bind fun _ => h) h

/-- What is looked up in the state may differ in positions. -/
theorem agree_get {f g : ParserState → Parser β} (hf : ∀ s t, s.Alike t → Agree (f s) (g t)) :
    Agree (get >>= f) (get >>= g) := by
  intro s t h
  rw [bind_apply get_apply, bind_apply get_apply]
  exact hf s t h s t h

/-- A change of the state that keeps states alike. -/
theorem agree_modify {f g : ParserState → ParserState} (hf : ∀ s t, s.Alike t → (f s).Alike (g t)) :
    Agree (modify f : Parser Unit) (modify g) :=
  fun s t h => .ok () (hf s t h)

/-- The next token is the same, at whatever position. -/
theorem agree_peek {f g : Option PlacedToken → Parser β} (hnone : Agree (f none) (g none))
    (hsome : ∀ t position other, Agree (f (some ⟨t, position⟩)) (g (some ⟨t, other⟩))) :
    Agree (peek? >>= f) (peek? >>= g) := by
  intro s t h
  rw [bind_apply peek?_apply, bind_apply peek?_apply]
  -- What is ahead may be placed elsewhere, but its words are the same.
  have hheads : s.ahead.head?.map PlacedToken.token = t.ahead.head?.map PlacedToken.token := by
    rw [← ParserState.head?_words, ← ParserState.head?_words, h.words]
  cases hs : s.ahead.head? with
  | none =>
      rw [hs] at hheads
      rw [Option.map_eq_none_iff.mp hheads.symm]
      exact hnone s t h
  | some first =>
      rw [hs] at hheads
      obtain ⟨other, hother, htoken⟩ := Option.map_eq_some_iff.mp hheads.symm
      obtain ⟨token, position⟩ := first
      obtain ⟨token', position'⟩ := other
      cases htoken
      rw [hother]
      exact hsome token position position' s t h

/-! ## Single tokens, declarations and loops -/

/-- As many tokens are left on both sides, so bounds that are taken from them are the same. -/
theorem agree_remaining : Agree remaining remaining := by
  intro s t h
  rw [remaining_apply, remaining_apply, h.words]
  exact .ok _ h

theorem agree_advance : Agree advance advance :=
  agree_modify fun _ _ h => h.advance

/-- The error names the token that was found, which is the same, and its position, which may not
    be. -/
theorem agree_unexpected (expected : Expectation) :
    Agree (unexpected expected : Parser α) (unexpected expected) :=
  agree_peek (agree_throw rfl) fun _ _ _ => agree_throw rfl

/-- A token is accepted for its sort, which does not depend on its position. -/
theorem agree_accept? (sort? : Token → Option α) : Agree (accept? sort?) (accept? sort?) := by
  intro s t h
  rw [accept?_apply, accept?_apply, h.words]
  cases t.words.head?.bind sort? with
  | none => exact .ok none h
  | some a => exact .ok (some a) h.advance

/-- A token that is demanded is found on both sides or on neither. -/
theorem agree_expect (sort? : Token → Option α) (expected : Expectation) :
    Agree (expect sort? expected) (expect sort? expected) := by
  apply (agree_accept? sort?).bind
  intro found
  -- What was found is the same, so that both go on or both fail.
  cases found with
  | none => exact agree_unexpected expected
  | some a => exact agree_pure a

theorem agree_accept (token : Token) : Agree (accept token) (accept token) :=
  (agree_accept? _).bind fun _ => agree_pure _

theorem agree_expectSymbol (sign : Symbol) : Agree (expectSymbol sign) (expectSymbol sign) :=
  agree_expect _ _

theorem agree_isDeclared (name : String) : Agree (isDeclared name) (isDeclared name) := by
  apply agree_get
  intro s t h
  rw [h.declared]
  exact agree_pure _

theorem agree_declareName (name : String) : Agree (declareName name) (declareName name) :=
  agree_modify fun _ _ h => h.declare name

/-- Parsers that agree do so in the body of a loop. -/
theorem Agree.inLoop {p q : Parser α} (h : Agree p q) :
    Agree (Parser.inLoop p) (Parser.inLoop q) := by
  intro s t halike
  -- The body is read one loop further in, and the depth is put back behind it, after errors too.
  have hbody := h _ _ (halike.atDepth (t.loopDepth + 1))
  unfold Parser.inLoop
  rw [halike.loopDepth]
  -- The depth has been made the same, and the results are named for the cases on how they agree.
  generalize p { s with loopDepth := t.loopDepth + 1 } = result at hbody ⊢
  generalize q { t with loopDepth := t.loopDepth + 1 } = other at hbody ⊢
  cases hbody with
  | ok a h' => exact .ok a (h'.loopDepth ▸ h'.atDepth _)
  | error he h' => exact .error he (h'.loopDepth ▸ h'.atDepth _)

/-- The number of arguments is checked on both sides, each with its own position to blame. -/
theorem agree_checkArity (name : String) (expected found : Nat) (position other : Position) :
    Agree (checkArity name expected found position) (checkArity name expected found other) :=
  agree_ite (agree_pure ()) (agree_throw rfl)

/-! ## Expressions -/

section Expressions

variable {expression operand : Parser Node}

/-- The arguments of a device are bounded by their number, and not by what is left. -/
theorem agree_deviceArguments (position other : Position) (room : Nat) :
    Agree (deviceArguments position room) (deviceArguments other room) := by
  induction room with
  | zero => exact agree_throw rfl
  | succ room ih =>
      unfold deviceArguments
      apply (agree_expect _ _).bind
      intro first
      apply (agree_accept _).bind
      intro more
      apply agree_ite
      · exact ih.bind fun _ => agree_pure _
      · exact agree_pure _

/-- A device configuration.  What is wrong with it is told with the position of the keyword. -/
theorem agree_device (position other : Position) : Agree (device position) (device other) := by
  apply (agree_expectSymbol _).bind
  intro _
  apply (agree_deviceArguments position other _).bind
  intro arguments
  apply (agree_expectSymbol _).bind
  intro _
  cases deviceConfig arguments with
  | ok config => exact agree_pure _
  | error fault => exact agree_throw rfl

theorem agree_expressions (h : Agree expression expression) (bound : Nat) :
    Agree (expressions expression bound) (expressions expression bound) := by
  induction bound with
  | zero => exact agree_unexpected _
  | succ bound ih =>
      unfold expressions
      apply h.bind
      intro first
      apply (agree_accept _).bind
      intro more
      apply agree_ite
      · exact ih.bind fun _ => agree_pure _
      · exact agree_pure _

theorem agree_arguments (h : Agree expression expression) :
    Agree (arguments expression) (arguments expression) := by
  have hlist : Agree
      (do let list ← expressions expression (← remaining); expectSymbol .rightParen; return list)
      (do let list ← expressions expression (← remaining)
          expectSymbol .rightParen
          return list) := by
    apply agree_remaining.bind
    intro room
    apply (agree_expressions h room).bind
    intro list
    exact (agree_expectSymbol _).bind fun _ => agree_pure _
  -- Both look at one token: a parenthesis ends an empty list.
  apply agree_peek
  · exact hlist
  intro t position other
  cases t with
  | symbol sign =>
      cases sign with
      | rightParen => exact agree_advance.bind fun _ => agree_pure _
      | _ => exact hlist
  | _ => exact hlist

theorem agree_propertyAfter (index : Option Node) (name : String) (position other : Position) :
    Agree (propertyAfter index name position) (propertyAfter index name other) := by
  apply (agree_accept _).bind
  intro dotted
  apply agree_ite
  · exact (agree_expect _ _).bind fun _ => agree_pure _
  · exact agree_ite (agree_throw rfl) (agree_pure _)

theorem agree_suffix (h : Agree expression expression) (name : String)
    (position other : Position) :
    Agree (suffix expression name position) (suffix expression name other) := by
  -- The equation reads the logic type in both cases, with the index or without one.
  rw [suffix_eq, suffix_eq]
  apply (agree_accept _).bind
  intro indexed
  apply agree_ite
  · apply h.bind
    intro index
    exact (agree_expectSymbol _).bind fun _ => agree_propertyAfter (some index) name position other
  · exact agree_propertyAfter none name position other

/-- A value that begins with a name.  The position of the name is kept for the errors. -/
theorem agree_named (h : Agree expression expression) (name : String) (position other : Position) :
    Agree (named expression name position) (named expression name other) := by
  -- A name that is no call: a constant, or a variable or a device with what follows it.
  have hbare : Agree
      (do
        if Vocabulary.isConstant name then return Node.constant name
        else if ← isDeclared name then
          let place ← suffix expression name position
          return Node.read name place.1 place.2
        else throw (.undeclared name position))
      (do
        if Vocabulary.isConstant name then return Node.constant name
        else if ← isDeclared name then
          let place ← suffix expression name other
          return Node.read name place.1 place.2
        else throw (.undeclared name other)) := by
    apply agree_ite (agree_pure _)
    apply (agree_isDeclared name).bind
    intro declared
    apply agree_ite
    · exact (agree_suffix h name position other).bind fun _ => agree_pure _
    · exact agree_throw rfl
  unfold named
  -- A parenthesis behind the name makes it a call.
  apply agree_peek
  · exact hbare
  intro t _ _
  apply agree_ite _ hbare
  cases Vocabulary.functionArity? name with
  | some arity =>
      apply agree_advance.bind
      intro _
      apply (agree_arguments h).bind
      intro list
      exact (agree_checkArity _ _ _ _ _).bind fun _ => agree_pure _
  | none => exact agree_ite (agree_throw rfl) (agree_throw rfl)

theorem agree_primary (h : Agree expression expression) :
    Agree (primary expression) (primary expression) := by
  unfold primary
  apply agree_peek
  · exact agree_unexpected _
  intro t position other
  -- The next token decides what the operand is.  Its position goes into errors alone.
  cases t with
  | number text => exact agree_advance.bind fun _ => agree_pure _
  | identifier name => exact agree_advance.bind fun _ => agree_named h name position other
  | symbol sign =>
      cases sign with
      | minus =>
          apply agree_advance.bind
          intro _
          exact (agree_expect _ _).bind fun _ => agree_pure _
      | leftParen =>
          apply agree_advance.bind
          intro _
          apply h.bind
          intro inner
          -- If it is not closed, the error stands where the parenthesis was opened.
          apply (agree_accept _).bind
          intro closed
          exact agree_ite (agree_pure _) (agree_throw rfl)
      | _ => exact agree_unexpected _
  | keyword word =>
      cases word with
      | hash =>
          apply agree_advance.bind
          intro _
          apply (agree_expectSymbol _).bind
          intro _
          apply (agree_expect _ _).bind
          intro text
          exact (agree_expectSymbol _).bind fun _ => agree_pure _
      | device => exact agree_advance.bind fun _ => agree_device position other
      | _ => exact agree_unexpected _
  | string text => exact agree_unexpected _
  | comment text => exact agree_unexpected _

theorem agree_joinFrom (operator? : Token → Option Join) (h : Agree operand operand) (bound : Nat)
    (left : Node) :
    Agree (joinFrom operator? operand bound left) (joinFrom operator? operand bound left) := by
  induction bound generalizing left with
  | zero => exact agree_pure left
  | succ bound ih =>
      unfold joinFrom
      apply (agree_accept? _).bind
      intro found
      -- The operator has been read without its position, so the trees that are joined are the same.
      cases found with
      | none => exact agree_pure left
      | some join => exact h.bind fun right => ih (join left right)

theorem agree_joined (operator? : Token → Option Join) (h : Agree operand operand) :
    Agree (joined operator? operand) (joined operator? operand) :=
  h.bind fun first => agree_remaining.bind fun room => agree_joinFrom operator? h room first

theorem agree_sum (h : Agree expression expression) : Agree (sum expression) (sum expression) :=
  agree_joined _ (agree_joined _ (agree_primary h))

theorem agree_negation (h : Agree expression expression) (bound : Nat) :
    Agree (negation expression bound) (negation expression bound) := by
  induction bound with
  | zero => exact agree_sum h
  | succ bound ih =>
      unfold negation
      apply (agree_accept _).bind
      intro negated
      exact agree_ite (ih.bind fun _ => agree_pure _) (agree_sum h)

theorem agree_connective (h : Agree expression expression) :
    Agree (connective expression) (connective expression) :=
  agree_joined _ (agree_joined _ (agree_remaining.bind fun room => agree_negation h room))

theorem agree_choice (h : Agree expression expression) :
    Agree (choice expression) (choice expression) := by
  apply (agree_connective h).bind
  intro condition
  apply (agree_accept _).bind
  intro chosen
  apply agree_ite _ (agree_pure _)
  apply h.bind
  intro thenValue
  apply (agree_expectSymbol _).bind
  intro _
  exact h.bind fun _ => agree_pure _

/-- Expressions up to a depth of nesting.  By induction on the depth, since an operand may be an
    expression in parentheses. -/
theorem agree_expressionWithin (bound : Nat) :
    Agree (expressionWithin bound) (expressionWithin bound) := by
  induction bound with
  | zero => exact agree_unexpected _
  | succ bound ih => exact agree_choice ih

theorem agree_expression : Agree Parser.expression Parser.expression :=
  agree_remaining.bind agree_expressionWithin

end Expressions

/-! ## Statements -/

theorem agree_declaration : Agree declaration declaration := by
  unfold declaration
  apply agree_peek
  · exact agree_unexpected _
  intro t position other
  cases t with
  | identifier name =>
      apply agree_advance.bind
      intro _
      apply (agree_isDeclared name).bind
      intro declared
      -- A name that is declared already is refused at the position of this declaration.
      refine agree_check (by rfl) ?_
      apply (agree_expectSymbol _).bind
      intro _
      apply agree_expression.bind
      intro value
      apply (agree_expectSymbol _).bind
      intro _
      exact (agree_declareName name).bind fun _ => agree_pure _
  | _ => exact agree_unexpected _

theorem agree_command (kind : Vocabulary.Command) (position other : Position) :
    Agree (command kind position) (command kind other) := by
  apply (agree_expectSymbol _).bind
  intro _
  apply (agree_arguments agree_expression).bind
  intro list
  apply (agree_checkArity _ _ _ _ _).bind
  intro _
  exact (agree_expectSymbol _).bind fun _ => agree_pure _

theorem agree_assignment (name : String) (position other : Position) :
    Agree (assignment name position) (assignment name other) := by
  unfold assignment
  apply (agree_isDeclared name).bind
  intro declared
  refine agree_check (by rfl) ?_
  apply (agree_suffix agree_expression name position other).bind
  intro place
  apply (agree_expectSymbol _).bind
  intro _
  apply agree_expression.bind
  intro value
  exact (agree_expectSymbol _).bind fun _ => agree_pure _

/-- A loop control.  Whether a loop is around is the same on both sides. -/
theorem agree_loopControl (kind : LoopControl) (position other : Position) :
    Agree (loopControl kind position) (loopControl kind other) := by
  unfold loopControl
  apply agree_get
  intro s t h
  -- The check is made on the state, which has the same depth on both sides.
  rw [h.loopDepth]
  refine agree_check (by rfl) ?_
  exact (agree_expectSymbol _).bind fun _ => agree_pure _

theorem agree_deviceStatement (position other : Position) :
    Agree (deviceStatement position) (deviceStatement other) := by
  apply (agree_device position other).bind
  intro config
  exact (agree_expectSymbol _).bind fun _ => agree_pure _

theorem agree_condition : Agree condition condition := by
  apply (agree_expectSymbol _).bind
  intro _
  apply agree_expression.bind
  intro test
  exact (agree_expectSymbol _).bind fun _ => agree_pure _

theorem agree_blockBody {statement : Parser Node} (h : Agree statement statement) (bound : Nat) :
    Agree (blockBody statement bound) (blockBody statement bound) := by
  induction bound with
  | zero => exact agree_unexpected _
  | succ bound ih =>
      unfold blockBody
      apply agree_peek
      · exact agree_unexpected _
      intro t position other
      -- A statement and the rest of the block, whatever token comes next.
      have hmore : Agree
          (statement >>= fun first => blockBody statement bound >>= fun rest =>
            pure (first :: rest))
          (statement >>= fun first => blockBody statement bound >>= fun rest =>
            pure (first :: rest)) :=
        h.bind fun _ => ih.bind fun _ => agree_pure _
      cases t with
      | symbol sign =>
          cases sign with
          | rightBrace => exact agree_advance.bind fun _ => agree_pure _
          | _ => exact hmore
      | _ => exact hmore

theorem agree_statementWithin_succ {bound : Nat}
    (hstatement : Agree (statementWithin bound) (statementWithin bound))
    (hbranch : Agree (branchWithin bound) (branchWithin bound)) :
    Agree (statementWithin (bound + 1)) (statementWithin (bound + 1)) := by
  unfold statementWithin
  apply agree_peek
  · exact agree_unexpected _
  intro t position other
  -- The next token alone decides which statement is read.
  cases t with
  | keyword word =>
      cases word with
      | var => exact agree_advance.bind fun _ => agree_declaration
      | loop => exact agree_advance.bind fun _ => hstatement.inLoop.bind fun _ => agree_pure _
      | whileLoop =>
          apply agree_advance.bind
          intro _
          apply agree_condition.bind
          intro test
          exact hstatement.inLoop.bind fun _ => agree_pure _
      | ifThen => exact agree_advance.bind fun _ => hbranch
      | leave => exact agree_advance.bind fun _ => agree_loopControl _ position other
      | again => exact agree_advance.bind fun _ => agree_loopControl _ position other
      | device => exact agree_advance.bind fun _ => agree_deviceStatement position other
      | _ => exact agree_unexpected _
  | symbol sign =>
      cases sign with
      | leftBrace =>
          apply agree_advance.bind
          intro _
          apply agree_remaining.bind
          intro room
          exact (agree_blockBody hstatement room).bind fun _ => agree_pure _
      | _ => exact agree_unexpected _
  | identifier name =>
      apply agree_advance.bind
      intro _
      cases Vocabulary.Command.ofName? name with
      | some kind => exact agree_command kind position other
      | none => exact agree_assignment name position other
  | _ => exact agree_unexpected _

theorem agree_branchWithin_succ {bound : Nat}
    (hstatement : Agree (statementWithin bound) (statementWithin bound))
    (hbranch : Agree (branchWithin bound) (branchWithin bound)) :
    Agree (branchWithin (bound + 1)) (branchWithin (bound + 1)) := by
  unfold branchWithin
  apply agree_condition.bind
  intro test
  apply hstatement.bind
  intro thenBranch
  -- Behind the first branch stands `elif`, `else` or neither of them.
  apply (agree_accept _).bind
  intro further
  apply agree_ite
  · exact hbranch.bind fun _ => agree_pure _
  apply (agree_accept _).bind
  intro otherwise
  exact agree_ite (hstatement.bind fun _ => agree_pure _) (agree_pure _)

/-- Statements and the branches of choices call each other, one level of nesting further in. -/
theorem agree_statementWithin (bound : Nat) :
    Agree (statementWithin bound) (statementWithin bound) ∧
      Agree (branchWithin bound) (branchWithin bound) := by
  induction bound with
  | zero => exact ⟨agree_unexpected _, agree_unexpected _⟩
  | succ bound ih =>
      obtain ⟨hstatement, hbranch⟩ := ih
      exact ⟨agree_statementWithin_succ hstatement hbranch,
        agree_branchWithin_succ hstatement hbranch⟩

theorem agree_statements (bound : Nat) : Agree (statements bound) (statements bound) := by
  induction bound with
  | zero => exact agree_pure []
  | succ bound ih =>
      unfold statements
      apply agree_peek
      · exact agree_pure []
      intro _ _ _
      have hstatement : Agree statement statement :=
        agree_remaining.bind fun room => (agree_statementWithin room).1
      exact hstatement.bind fun _ => ih.bind fun _ => agree_pure _

/-- The first request starts the reading, and a later one goes past the token where it stopped. -/
theorem agree_start : Agree start start := by
  apply agree_modify
  intro s t h
  rw [h.started]
  -- A reading that has been started goes on past the token where it stopped.
  split
  · exact h.advance
  · exact ⟨h.words, rfl, h.declared, h.loopDepth⟩

/-- **Scripts are read in the same way at whatever positions their tokens stand.** -/
theorem agree_program : Agree program program :=
  agree_start.bind fun _ => agree_remaining.bind agree_statements

end Parser

/-! ## Whole texts -/

/-- **The script of a list of tokens does not depend on their positions**, and neither does the
    error, but for the position that it names. -/
theorem Program.ofTokens_agree {tokens others : List PlacedToken}
    (h : Grammar.uncommented others = Grammar.uncommented tokens) :
    (Program.ofTokens others).mapError ParseError.unplaced =
      (Program.ofTokens tokens).mapError ParseError.unplaced := by
  have hwords : (ParserState.ofTokens others).words = (ParserState.ofTokens tokens).words := by
    rw [Grammar.words_ofTokens, Grammar.words_ofTokens, h]
  have hresults :=
    Parser.agree_program (.ofTokens others) (.ofTokens tokens) ⟨hwords, rfl, rfl, rfl⟩
  unfold Program.ofTokens EStateM.run
  generalize Parser.program (.ofTokens others) = other at hresults ⊢
  generalize Parser.program (.ofTokens tokens) = result at hresults ⊢
  cases hresults with
  | ok program _ => rfl
  | error he _ => exact congrArg Except.error he

/-- The error without its position. -/
def LexError.unplaced : LexError → LexError
  | unexpectedCharacter char _ => unexpectedCharacter char .start
  | unterminatedString _ => unterminatedString .start

/-- The error without its position. -/
def CompileError.unplaced : CompileError → CompileError
  | lex error => lex error.unplaced
  | parse error => parse error.unplaced
  | code error => code error

/-- A text that has tokens has the errors of its tokens. -/
theorem Program.ofSource_unplaced {source : String} {tokens : List PlacedToken}
    (h : tokenize source = .ok tokens) :
    (Program.ofSource source).mapError CompileError.unplaced =
      ((Program.ofTokens tokens).mapError ParseError.unplaced).mapError .parse := by
  simp only [Program.ofSource, h]
  cases Program.ofTokens tokens with
  | ok program => rfl
  | error e => rfl

/-- **Layout does not matter.**  A text that has tokens is cut into lexemes; and any text that has
    the same lexemes in their order, with gaps of whatever blanks and comments between and around
    them, has the same tokens apart from comments, and forms the same script or fails with the same
    error at another position. -/
theorem layout_is_free {source : String} {tokens : List PlacedToken}
    (h : tokenize source = .ok tokens) :
    (∃ lexemes, Lexemes source lexemes) ∧
    ∀ lexemes other, Lexemes source lexemes → LaidOut lexemes other.toList →
      ∃ others, tokenize other = .ok others ∧
        Grammar.uncommented others = Grammar.uncommented tokens ∧
        (Program.ofSource other).mapError CompileError.unplaced =
          (Program.ofSource source).mapError CompileError.unplaced := by
  refine ⟨lexemes_of_tokenize h, ?_⟩
  intro lexemes other hlexemes hother
  -- The lexer finds the same tokens in both texts, and the parser sees no more of the texts.
  obtain ⟨others, hothers, hspoken⟩ := tokenize_of_laidOut h hlexemes hother
  have hwords : Grammar.uncommented others = Grammar.uncommented tokens := hspoken
  refine ⟨others, hothers, hwords, ?_⟩
  rw [Program.ofSource_unplaced hothers, Program.ofSource_unplaced h,
    Program.ofTokens_agree hwords]

/-- A name that is not declared, with a comment behind it. -/
def strayName : String := "a=$1;#b"

/-- The same lexemes, each on a line of its own. -/
def strayNameSpread : String := "#b\na #c\n=\t$1\n;"

theorem tokenize_strayName : ∃ tokens, tokenize strayName = .ok tokens := by
  have hsome : (tokenize strayName).toBool = true := by cbv
  cases h : tokenize strayName with
  | error e =>
      rw [h] at hsome
      cases hsome
  | ok tokens => exact ⟨tokens, rfl⟩

/-- The lexemes of the text.  The comment is none of them. -/
theorem lexemes_strayName : Lexemes strayName [['a'], ['='], ['$', '1'], [';']] := by
  have hempty : Blank [] := by simp [Blank]
  have hname : Reads (.identifier "a") ['a'] ['=', '$', '1', ';', '#', 'b'] :=
    .identifier ⟨'a', [], rfl, rfl, by simp⟩ (by decide) rfl
  have hsign : Reads (.symbol .assign) ['='] ['$', '1', ';', '#', 'b'] :=
    .symbol .assign (by simp [Token.EndsBefore])
  have hnumber : Reads (.number "$1") ['$', '1'] [';', '#', 'b'] :=
    .hexadecimal (by simp) (List.forall_mem_singleton.mpr rfl) rfl
  have hend : Reads (.symbol .semicolon) [';'] ['#', 'b'] := .symbol .semicolon trivial
  have hcomment : Reads (.comment (String.ofList (Text.trim ['b']))) ['#', 'b'] [] :=
    .comment (by decide) (by simp)
  have hcut := (((((Cut.start _).lexeme hempty hname).lexeme hempty hsign).lexeme hempty
    hnumber).lexeme hempty hend).lexeme hempty hcomment
  exact ⟨_, [], _, rfl, hcut, hempty, rfl⟩

/-- The other text has the same lexemes, with blanks and comments between them. -/
theorem laidOut_strayNameSpread :
    LaidOut [['a'], ['='], ['$', '1'], [';']] strayNameSpread.toList := by
  have hline : Gap ['\n'] := .blank rfl .nil
  have hmarked : ∀ c, c ≠ '\n' → Gap ('#' :: ([c] ++ ['\n'])) := by
    intro c hc
    exact .comment (by simpa using hc.symm) .nil
  have htab : Gap ['\t'] := .blank rfl .nil
  have hspaced : Gap (' ' :: ('#' :: (['c'] ++ ['\n']))) := .blank rfl (hmarked 'c' (by decide))
  exact .cons (hmarked 'b' (by decide)) (.cons hspaced (by simp) (.cons htab (by simp)
    (.cons hline (by simp) (.nil (.gap .nil)))))

/-- Both texts fail with the same error, each at its own position. -/
theorem layout_is_free_strayName :
    ∃ tokens others, tokenize strayName = .ok tokens ∧ tokenize strayNameSpread = .ok others ∧
      Grammar.uncommented others = Grammar.uncommented tokens ∧
      (Program.ofSource strayNameSpread).mapError CompileError.unplaced =
        (Program.ofSource strayName).mapError CompileError.unplaced := by
  obtain ⟨tokens, htokens⟩ := tokenize_strayName
  obtain ⟨others, hothers, hsame⟩ :=
    (layout_is_free htokens).2 _ _ lexemes_strayName laidOut_strayNameSpread
  exact ⟨tokens, others, htokens, hothers, hsame⟩

end ChipScript
