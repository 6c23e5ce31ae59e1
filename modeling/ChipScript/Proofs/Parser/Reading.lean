import ChipScript.Proofs.Parser.Progress

/-!
# Reading without bounds on tokens

The parsers that run are bounded by the number of tokens that are left.  Here they are written again
without such bounds, as calls of one another, and a loop calls itself.  Every call is given how deep
calls may still be nested inside it; where that is not enough, reading is cut off and has no result.

Reading comes to a result if there is a depth from which on it has this result (`ComesTo`).
`Follows n u p` says that it comes to the result of a parser wherever fewer than `n` tokens are
left.  There is one rule for sequences; the parts behind a token have to follow with fewer tokens
alone.
-/

namespace ChipScript

open ChipScript.Grammar ChipScript.Parser ChipScript.ParserState

/-- What a parser makes of a state. -/
def Parser.outcome {α : Type} (p : Parser α) (s : ParserState) :
    Except ParseError α × ParserState :=
  match p s with
  | .ok a t => (.ok a, t)
  | .error e t => (.error e, t)

/-- A reader of tokens that may be cut off before it has a result. -/
abbrev Reading := ExceptT ParseError (StateT ParserState Option)

namespace Reading

/-- A parser as a reader, which is never cut off. -/
def ofParser {α : Type} (p : Parser α) : Reading α := fun s =>
  some (p.outcome s)

instance : MonadLift Parser Reading := ⟨ofParser⟩

/-- Calls are nested too deep. -/
def cutOff {α : Type} : Reading α := fun _ =>
  none

/-! ## Expressions -/

mutual

/-- An expression at a level. -/
def value : (depth : Nat) → Level → Reading Node
  | 0, _ => cutOff
  | depth + 1, .choice => do
    let condition ← value depth .connective
    if ← accept (.symbol .question) then
      let thenValue ← value depth .choice
      expectSymbol .colon
      let elseValue ← value depth .choice
      return .choice condition thenValue elseValue
    else return condition
  | depth + 1, .connective => do
    let first ← value depth .comparison
    more depth .connective .comparison first
  | depth + 1, .comparison => do
    let first ← value depth .negation
    more depth .comparison .negation first
  | depth + 1, .negation => do
    if ← accept (.symbol .bang) then
      let negated ← value depth .negation
      return .not negated
    else value depth .sum
  | depth + 1, .sum => do
    let first ← value depth .product
    more depth .sum .product first
  | depth + 1, .product => do
    let first ← value depth .operand
    more depth .product .operand first
  | depth + 1, .operand => operand depth

/-- Operands joined from the left to `left`, as long as an operator of the level follows. -/
def more : (depth : Nat) → (level tighter : Level) → (left : Node) → Reading Node
  | 0, _, _, _ => cutOff
  | depth + 1, level, tighter, left => do
    match ← accept? level.operator? with
    | some join =>
      let right ← value depth tighter
      more depth level tighter (join left right)
    | none => return left

/-- An operand. -/
def operand : (depth : Nat) → Reading Node
  | 0 => cutOff
  | depth + 1 => do
    match ← peek? with
    | some ⟨.number text, _⟩ =>
      advance
      return .number text
    | some ⟨.symbol .minus, _⟩ =>
      advance
      let text ← expect numberText? .number
      return negated text
    | some ⟨.keyword .hash, _⟩ =>
      advance
      expectSymbol .leftParen
      let text ← expect stringText? .string
      expectSymbol .rightParen
      return .hash text
    | some ⟨.keyword .device, position⟩ =>
      advance
      device position
    | some ⟨.symbol .leftParen, position⟩ =>
      advance
      let inner ← value depth .choice
      if ← accept (.symbol .rightParen) then return inner
      else throw (.unterminatedGrouping position)
    | some ⟨.identifier name, position⟩ =>
      advance
      named depth name position
    | _ => unexpected .expression

/-- What a name that has been read stands for. -/
def named : (depth : Nat) → (name : String) → Position → Reading Node
  | 0, _, _ => cutOff
  | depth + 1, name, position => do
    if (← peek?).any fun t => t.token = .symbol .leftParen then
      match Vocabulary.functionArity? name with
      | some arity =>
        advance
        let list ← arguments depth
        checkArity name arity list.length position
        return .call name list
      | none =>
        if Vocabulary.isCommand name then
          throw (.unexpectedToken .expression (.identifier name) position)
        else throw (.unknownFunction name position)
    else if Vocabulary.isConstant name then return .constant name
    else if ← isDeclared name then
      let place ← suffix depth name position
      return .read name place.1 place.2
    else throw (.undeclared name position)

/-- The index and the logic type that may follow a name. -/
def suffix : (depth : Nat) → (name : String) → Position → Reading (Option Node × Option String)
  | 0, _, _ => cutOff
  | depth + 1, name, position => do
    if ← accept (.symbol .leftBracket) then
      let index ← value depth .choice
      expectSymbol .rightBracket
      propertyAfter (some index) name position
    else propertyAfter none name position

/-- The arguments of a call, whose opening parenthesis has been read. -/
def arguments : (depth : Nat) → Reading (List Node)
  | 0 => cutOff
  | depth + 1 => do
    match (← peek?).map PlacedToken.token with
    | some (.symbol .rightParen) =>
      advance
      return []
    | _ =>
      let list ← expressions depth
      expectSymbol .rightParen
      return list

/-- Expressions with commas between them. -/
def expressions : (depth : Nat) → Reading (List Node)
  | 0 => cutOff
  | depth + 1 => do
    let first ← value depth .choice
    if ← accept (.symbol .comma) then
      let rest ← expressions depth
      return first :: rest
    else return [first]

end

/-- An expression. -/
def expression (depth : Nat) : Reading Node :=
  value depth .choice

/-! ## Statements -/

/-- A declaration, whose keyword has been read. -/
def declaration (depth : Nat) : Reading Node := do
  match ← peek? with
  | some ⟨.identifier name, position⟩ =>
    advance
    if (← isDeclared name) || Vocabulary.isConstant name || Vocabulary.isCommand name then
      throw (.redeclared name position)
    expectSymbol .assign
    let value ← expression depth
    expectSymbol .semicolon
    declareName name
    return .declare name value
  | _ => unexpected .variableName

/-- The call of a command, whose name has been read. -/
def command (depth : Nat) (kind : Vocabulary.Command) (position : Position) : Reading Node := do
  expectSymbol .leftParen
  let list ← arguments depth
  checkArity kind.name kind.arity list.length position
  expectSymbol .semicolon
  return .call kind.name list

/-- An assignment, whose first name has been read. -/
def assignment (depth : Nat) (name : String) (position : Position) : Reading Node := do
  if !(← isDeclared name) then throw (.undeclared name position)
  let (index, property) ← suffix depth name position
  expectSymbol .assign
  let value ← expression depth
  expectSymbol .semicolon
  return .assign name index property value

/-- A condition in parentheses. -/
def condition (depth : Nat) : Reading Node := do
  expectSymbol .leftParen
  let condition ← expression depth
  expectSymbol .rightParen
  return condition

/-- Reads with one loop more around, and restores their number whether reading succeeds or fails. -/
def inLoop {α : Type} (body : Reading α) : Reading α := fun s =>
  (body { s with loopDepth := s.loopDepth + 1 }).map fun (result, t) =>
    (result, { t with loopDepth := t.loopDepth - 1 })

mutual

/-- A statement. -/
def statement : (depth : Nat) → Reading Node
  | 0 => cutOff
  | depth + 1 => do
    match ← peek? with
    | some ⟨.keyword .var, _⟩ =>
      advance
      declaration depth
    | some ⟨.keyword .loop, _⟩ =>
      advance
      let body ← inLoop (statement depth)
      return .loop body
    | some ⟨.keyword .whileLoop, _⟩ =>
      advance
      let test ← condition depth
      let body ← inLoop (statement depth)
      return .whileLoop test body
    | some ⟨.keyword .ifThen, _⟩ =>
      advance
      branch depth
    | some ⟨.keyword .leave, position⟩ =>
      advance
      loopControl .leave position
    | some ⟨.keyword .again, position⟩ =>
      advance
      loopControl .again position
    | some ⟨.keyword .device, position⟩ =>
      advance
      deviceStatement position
    | some ⟨.symbol .leftBrace, _⟩ =>
      advance
      let body ← blockBody depth
      return .block body
    | some ⟨.identifier name, position⟩ =>
      advance
      match Vocabulary.Command.ofName? name with
      | some kind => command depth kind position
      | none => assignment depth name position
    | _ => unexpected .statement

/-- The condition and the branches of a choice, whose keyword has been read. -/
def branch : (depth : Nat) → Reading Node
  | 0 => cutOff
  | depth + 1 => do
    let test ← condition depth
    let thenBranch ← statement depth
    if ← accept (.keyword .elseIf) then
      let elseBranch ← branch depth
      return .branch test thenBranch (some elseBranch)
    else if ← accept (.keyword .otherwise) then
      let elseBranch ← statement depth
      return .branch test thenBranch (some elseBranch)
    else return .branch test thenBranch none

/-- The statements of a block and its closing brace. -/
def blockBody : (depth : Nat) → Reading (List Node)
  | 0 => cutOff
  | depth + 1 => do
    match (← peek?).map PlacedToken.token with
    | some (.symbol .rightBrace) =>
      advance
      return []
    | none => unexpected (.symbol .rightBrace)
    | _ =>
      let first ← statement depth
      let rest ← blockBody depth
      return first :: rest

end

/-- The statements up to the end. -/
def statements : (depth : Nat) → Reading (List Node)
  | 0 => cutOff
  | depth + 1 => do
    match ← peek? with
    | none => return []
    | some _ =>
      let first ← statement depth
      let rest ← statements depth
      return first :: rest

/-- A script, from the next token to the end. -/
def program (depth : Nat) : Reading Program := do
  start
  statements depth

/-! ## Results -/

/-- Reading comes to a result: from some depth on it is not cut off before. -/
def ComesTo {α : Type} (u : Nat → Reading α) (s : ParserState)
    (result : Except ParseError α × ParserState) : Prop :=
  ∃ least, ∀ depth, least ≤ depth → u depth s = some result

/-- A reader that comes to the result of a parser wherever fewer than `n` tokens are left. -/
def Follows {α : Type} (n : Nat) (u : Nat → Reading α) (p : Parser α) : Prop :=
  ∀ s, s.ahead.length < n → ComesTo u s (p.outcome s)

/-- A reader that does so where at least one token is left. -/
def FollowsNext {α : Type} (n : Nat) (u : Nat → Reading α) (p : Parser α) : Prop :=
  ∀ s, s.ahead ≠ [] → s.ahead.length < n → ComesTo u s (p.outcome s)

section Sequences

variable {α β : Type} {n : Nat} {s t : ParserState} {u : Nat → Reading α}
  {v : α → Nat → Reading β} {p : Parser α} {f : α → Parser β}
  {result : Except ParseError β × ParserState}

theorem outcome_of_ok {a : α} (h : p s = .ok a t) : p.outcome s = (.ok a, t) := by
  rw [outcome, h]

theorem outcome_of_error {e : ParseError} (h : p s = .error e t) :
    p.outcome s = (.error e, t) := by
  rw [outcome, h]

theorem outcome_bind_of_ok {a : α} (h : p s = .ok a t) :
    (p >>= f).outcome s = (f a).outcome t := by
  rw [outcome, outcome, bind_apply h]

theorem bind_of_ok {x : Reading α} {g : α → Reading β} {a : α} (h : x s = some (.ok a, t)) :
    (x >>= g) s = g a t := by
  show (x s).bind _ = _
  rw [h]
  rfl

theorem bind_of_error {x : Reading α} {g : α → Reading β} {e : ParseError}
    (h : x s = some (.error e, t)) : (x >>= g) s = some (.error e, t) := by
  show (x s).bind _ = _
  rw [h]
  rfl

/-- A step of a parser, and what goes on after it. -/
theorem lift_bind_of_ok {g : α → Reading β} {a : α} (h : p s = .ok a t) :
    ((liftM p : Reading α) >>= g) s = g a t :=
  bind_of_ok (congrArg some (outcome_of_ok h))

theorem comesTo_of_lift {a : α} (h : p s = .ok a t) (hrest : ComesTo (v a) t result) :
    ComesTo (fun depth => liftM p >>= fun a => v a depth) s result := by
  obtain ⟨least, henough⟩ := hrest
  exact ⟨least, fun depth hdeep => (lift_bind_of_ok h).trans (henough depth hdeep)⟩

/-- What fails, fails whatever would go on after it. -/
theorem ComesTo.fail {e : ParseError} (h : ComesTo u s (.error e, t)) :
    ComesTo (fun depth => u depth >>= fun a => v a depth) s (.error e, t) := by
  obtain ⟨least, henough⟩ := h
  exact ⟨least, fun depth hdeep => bind_of_error (henough depth hdeep)⟩

/-- **A call is nested one level further in.** -/
theorem ComesTo.call {r : Except ParseError α × ParserState}
    (h : ComesTo (fun depth => u (depth + 1)) s r) : ComesTo u s r := by
  obtain ⟨least, henough⟩ := h
  refine ⟨least + 1, fun depth hdeep => ?_⟩
  obtain ⟨depth, rfl⟩ := Nat.exists_eq_add_of_le' (Nat.le_of_add_left_le hdeep)
  exact henough depth (Nat.le_of_add_le_add_right hdeep)

/-- **A sequence follows a sequence if its parts follow the parts**, the second one with the tokens
    that the first one has left. -/
theorem ComesTo.bind {least : Nat} (hfirst : ComesTo u s (p.outcome s))
    (htakes : Forward least s (p s))
    (hrest : ∀ a t, t.ahead.length + least ≤ s.ahead.length → ComesTo (v a) t ((f a).outcome t)) :
    ComesTo (fun depth => u depth >>= fun a => v a depth) s ((p >>= f).outcome s) := by
  cases hran : p s with
  | ok a t =>
    rw [outcome_of_ok hran] at hfirst
    rw [hran] at htakes
    obtain ⟨depth₁, henough₁⟩ := hfirst
    obtain ⟨depth₂, henough₂⟩ := hrest a t htakes.2
    -- Deep enough for both parts.
    refine ⟨max depth₁ depth₂, fun depth hdeep => ?_⟩
    refine (bind_of_ok (henough₁ depth (le_of_max_le_left hdeep))).trans ?_
    rw [outcome_bind_of_ok hran]
    exact henough₂ depth (le_of_max_le_right hdeep)
  | error e t =>
    rw [outcome_of_error hran] at hfirst
    rw [outcome_of_error (bind_error hran)]
    exact hfirst.fail

theorem Follows.call (h : Follows n (fun depth => u (depth + 1)) p) : Follows n u p :=
  fun s hfew => (h s hfew).call

theorem Follows.mono {m : Nat} (h : Follows n u p) (hle : m ≤ n) : Follows m u p :=
  fun s hfew => h s (Nat.lt_of_lt_of_le hfew hle)

theorem Follows.here (h : Follows n u p) : FollowsNext n u p :=
  fun s _ hfew => h s hfew

/-- Nothing is left to show if no state has so few tokens. -/
theorem follows_zero : Follows 0 u p :=
  fun _ hfew => absurd hfew (Nat.not_lt_zero _)

theorem Follows.bind (hfirst : Follows n u p) (htakes : Advances 0 p)
    (hrest : ∀ a, Follows n (v a) (f a)) :
    Follows n (fun depth => u depth >>= fun a => v a depth) (p >>= f) :=
  fun s hfew => (hfirst s hfew).bind (htakes s) fun a t hleft => hrest a t (by omega)

/-- Behind a token fewer are left. -/
theorem Follows.next (hfirst : Follows (n + 1) u p) (htakes : Advances 1 p)
    (hrest : ∀ a, Follows n (v a) (f a)) :
    Follows (n + 1) (fun depth => u depth >>= fun a => v a depth) (p >>= f) :=
  fun s hfew => (hfirst s hfew).bind (htakes s) fun a t hleft => hrest a t (by omega)

theorem follows_lift (p : Parser α) : Follows n (fun _ => liftM p) p :=
  fun _ _ => ⟨0, fun _ _ => rfl⟩

theorem follows_pure (a : α) : Follows n (fun _ => pure a) (pure a) :=
  follows_lift (pure a)

theorem follows_throw (e : ParseError) :
    Follows n (fun _ => (throw e : Reading α)) (throw e) :=
  follows_lift (throw e)

theorem follows_ite {condition : Prop} [Decidable condition] {u' : Nat → Reading α}
    {p' : Parser α} (hthen : Follows n u p) (helse : Follows n u' p') :
    Follows n (fun depth => if condition then u depth else u' depth)
      (if condition then p else p') := by
  by_cases hholds : condition
  · simpa only [hholds, if_true] using hthen
  · simpa only [hholds, if_false] using helse

/-- What goes on after a check that throws an error. -/
theorem follows_check {condition : Prop} [Decidable condition] {e : ParseError}
    {w : PUnit → Nat → Reading α} {q : PUnit → Parser α} (h : Follows n (w ⟨⟩) (q ⟨⟩)) :
    Follows n (fun depth => if condition then throw e >>= fun a => w a depth else w ⟨⟩ depth)
      (if condition then throw e >>= q else q ⟨⟩) := by
  refine follows_ite ?_ h
  exact fun _ _ => ⟨0, fun _ _ => rfl⟩

/-- A step of a parser, and what goes on after it. -/
theorem follows_step (htakes : Advances 0 p) (hrest : ∀ a, Follows n (v a) (f a)) :
    Follows n (fun depth => liftM p >>= fun a => v a depth) (p >>= f) :=
  (follows_lift p).bind htakes hrest

theorem follows_peek {w : Option PlacedToken → Nat → Reading β}
    {q : Option PlacedToken → Parser β} (hnone : Follows n (w none) (q none))
    (hsome : ∀ t, FollowsNext n (w (some t)) (q (some t))) :
    Follows n (fun depth => liftM peek? >>= fun next => w next depth) (peek? >>= q) := by
  intro s hfew
  rw [outcome_bind_of_ok peek?_apply]
  refine comesTo_of_lift peek?_apply ?_
  cases hleft : s.ahead with
  | nil => exact hnone s hfew
  | cons t rest => exact hsome t s (by simp [hleft]) hfew

/-- A token that is left is taken. -/
theorem followsNext_advance {w : Unit → Nat → Reading β} {q : Unit → Parser β}
    (hrest : Follows n (w ()) (q ())) :
    FollowsNext (n + 1) (fun depth => liftM advance >>= fun a => w a depth) (advance >>= q) := by
  intro s hleft hfew
  rw [outcome_bind_of_ok advance_apply]
  refine comesTo_of_lift advance_apply (hrest _ ?_)
  have hremains := List.length_pos_iff.2 hleft
  rw [ParserState.advance, List.length_tail]
  omega

/-- A step that takes a token or leaves everything as it is.  Behind the token fewer are left. -/
theorem follows_option (hstep : ∀ s, (∃ a, p s = .ok a s ∧ Follows (n + 1) (v a) (f a)) ∨
      (s.ahead ≠ [] ∧ ∃ a, p s = .ok a s.advance ∧ Follows n (v a) (f a))) :
    Follows (n + 1) (fun depth => liftM p >>= fun a => v a depth) (p >>= f) := by
  intro s hfew
  rcases hstep s with ⟨a, hpassed, hrest⟩ | ⟨hleft, a, htaken, hrest⟩
  · rw [outcome_bind_of_ok hpassed]
    exact comesTo_of_lift hpassed (hrest s hfew)
  · rw [outcome_bind_of_ok htaken]
    refine comesTo_of_lift htaken (hrest _ ?_)
    have hremains := List.length_pos_iff.2 hleft
    rw [ParserState.advance, List.length_tail]
    omega

theorem ahead_ne_nil_of_word {word : Token} (h : s.words.head? = some word) : s.ahead ≠ [] := by
  rintro hnothing
  rw [words, hnothing] at h
  cases h

theorem follows_accept? {sort? : Token → Option α} {w : Option α → Nat → Reading β}
    {q : Option α → Parser β} (hnone : Follows (n + 1) (w none) (q none))
    (hsome : ∀ a, Follows n (w (some a)) (q (some a))) :
    Follows (n + 1) (fun depth => liftM (accept? sort?) >>= fun found => w found depth)
      (accept? sort? >>= q) := by
  refine follows_option fun s => ?_
  rw [accept?_apply]
  cases hfound : s.words.head?.bind sort? with
  | none => exact .inl ⟨none, rfl, hnone⟩
  | some a =>
    obtain ⟨token, hfirst, -⟩ := Option.bind_eq_some_iff.1 hfound
    exact .inr ⟨ahead_ne_nil_of_word hfirst, some a, rfl, hsome a⟩

theorem follows_accept {token : Token} {w : Bool → Nat → Reading β} {q : Bool → Parser β}
    (hno : Follows (n + 1) (w false) (q false)) (hyes : Follows n (w true) (q true)) :
    Follows (n + 1) (fun depth => liftM (accept token) >>= fun found => w found depth)
      (accept token >>= q) := by
  refine follows_option fun s => ?_
  rw [accept_apply]
  by_cases hfirst : s.words.head? = some token
  · exact .inr ⟨ahead_ne_nil_of_word hfirst, true, by rw [if_pos hfirst], hyes⟩
  · exact .inl ⟨false, by rw [if_neg hfirst], hno⟩

/-- A loop that is bounded by the number of tokens that are left. -/
theorem follows_remaining {q : Nat → Parser α}
    (heach : ∀ bound m, m ≤ n → m ≤ bound + 1 → Follows m u (q bound)) :
    Follows n u (remaining >>= q) := by
  intro s hfew
  rw [outcome_bind_of_ok remaining_apply]
  have hcounted : s.words.length = s.ahead.length := List.length_map _
  refine heach _ (s.ahead.length + 1) hfew ?_ s (Nat.lt_succ_self _)
  rw [hcounted]

end Sequences

end Reading

end ChipScript
