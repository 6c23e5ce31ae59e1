import ChipScript.Proofs.Parser.Termination

/-!
# What can be asked of a parser

A parser can be asked for a script and for an expression, in any order and again after it has
failed.  Each request comes to an end, and the parser keeps account of what it has read: the tokens
that it leaves end those that it had, names have only been added, and as many loops are around.

Main result: `requests_progress`.
-/

namespace ChipScript

open ChipScript.Parser ChipScript.ParserState

/-! ## Asking -/

/-- What can be asked of a parser. -/
inductive Request where
  | script
  | expression
deriving DecidableEq, Repr

/-- The expression at the current token (`Parser.expressionHere`), read without bounds on tokens. -/
def Reading.expressionHere (depth : Nat) : Reading Node := do
  if (← (get : Parser ParserState)).started then Reading.expression depth
  else throw (.unexpectedEnd .expression)

namespace ParserState

/-- The tokens beyond the current one. -/
def queue (s : ParserState) : List PlacedToken :=
  if s.started then s.ahead.tail else s.ahead

/-- The state at the next token, where a script begins. -/
def begun (s : ParserState) : ParserState :=
  if s.started then s.advance else { s with started := true }

/-- The state behind a request, whether it succeeds or fails. -/
def after (s : ParserState) : Request → ParserState
  | .script => (Parser.program.outcome s).2
  | .expression => (Parser.expressionHere.outcome s).2

/-- The state behind several requests. -/
def afterAll (s : ParserState) (requests : List Request) : ParserState :=
  requests.foldl after s

end ParserState

/-! ## Requests come to an end -/

namespace Reading

/-- **A script is read without bounds.** -/
theorem comesTo_program (s : ParserState) : ComesTo program s (Parser.program.outcome s) := by
  have hbegan : start s = .ok () s.begun := rfl
  have hfollows : Follows (s.begun.ahead.length + 1) statements
      (do Parser.statements (← remaining)) :=
    follows_remaining fun _ _ _ henough => follows_statements henough
  rw [Parser.program, outcome_bind_of_ok hbegan]
  exact comesTo_of_lift hbegan (hfollows s.begun (Nat.lt_succ_self _))

theorem comesTo_expressionHere (s : ParserState) :
    ComesTo expressionHere s (Parser.expressionHere.outcome s) := by
  have hfollows : Follows (s.ahead.length + 1)
      (fun depth => if s.started then expression depth else throw (.unexpectedEnd .expression))
      (if s.started then Parser.expression else throw (.unexpectedEnd .expression)) :=
    follows_ite (readsValues_expression _).follows (follows_throw _)
  rw [Parser.expressionHere, outcome_bind_of_ok get_apply]
  exact comesTo_of_lift get_apply (hfollows s (Nat.lt_succ_self _))

end Reading

/-! ## What a request leaves -/

theorem Parser.Advances.onward {α : Type} {least : Nat} {p : Parser α} (h : Advances least p)
    (s : ParserState) : s.Onward (p.outcome s).2 := by
  have hforward := h s
  rw [Parser.outcome]
  cases hresult : p s with
  | ok a t =>
    rw [hresult] at hforward
    exact hforward.1
  | error e t =>
    rw [hresult] at hforward
    exact hforward

/-- What has succeeded has taken as many tokens as it says. -/
theorem Parser.Advances.takes {α : Type} {least : Nat} {p : Parser α} (h : Advances least p)
    {s t : ParserState} {a : α} (hran : p s = .ok a t) :
    t.ahead.length + least ≤ s.ahead.length := by
  have hforward := h s
  rw [hran] at hforward
  exact hforward.2

theorem onward_program (s : ParserState) : s.begun.Onward (s.after .script) := by
  have hbegan : start s = .ok () s.begun := rfl
  rw [ParserState.after, Parser.program, Reading.outcome_bind_of_ok hbegan]
  exact (advances_remaining.bind fun bound => advances_statements bound).onward s.begun

theorem onward_expressionHere (s : ParserState) : s.Onward (s.after .expression) := by
  have hforward : Advances 0 Parser.expressionHere :=
    advances_get fun _ => advances_ite advances_expression.any (advances_throw _)
  exact hforward.onward s

theorem queue_of_started {s : ParserState} (h : s.started = true) : s.queue = s.ahead.tail := by
  rw [queue, if_pos h]

theorem begun_ahead (s : ParserState) : s.begun.ahead = s.queue := by
  unfold begun queue
  split <;> rfl

theorem begun_started (s : ParserState) : s.begun.started = true := by
  unfold begun
  split
  · next hstarted => exact hstarted
  · rfl

/-- **A request keeps account of what has been read**, whether it succeeds or fails. -/
theorem after_keeps (s : ParserState) (request : Request) :
    (s.after request).queue <:+ s.queue ∧ s.declared <:+ (s.after request).declared ∧
      (s.after request).loopDepth = s.loopDepth := by
  cases request with
  | script =>
    have honward := onward_program s
    have hstarted : (s.after .script).started = true := honward.started.trans (begun_started s)
    have hsame : s.begun.declared = s.declared ∧ s.begun.loopDepth = s.loopDepth := by
      unfold begun
      split <;> exact ⟨rfl, rfl⟩
    refine ⟨?_, hsame.1 ▸ honward.declared, honward.loopDepth.trans hsame.2⟩
    -- A script begins behind the token at which reading stopped before.
    rw [queue_of_started hstarted, ← begun_ahead]
    exact (List.tail_suffix _).trans honward.ahead
  | expression =>
    have honward := onward_expressionHere s
    refine ⟨?_, honward.declared, honward.loopDepth⟩
    cases hreached : s.started with
    | true =>
      rw [queue_of_started hreached, queue_of_started (honward.started.trans hreached)]
      exact honward.tail
    | false =>
      have hunchanged : s.after .expression = s := by
        rw [ParserState.after, Parser.expressionHere,
          Reading.outcome_bind_of_ok get_apply, hreached]
        rfl
      rw [hunchanged]

/-- However often a parser is asked, the tokens that it has left end those that it began with, and
    no loop is around. -/
theorem afterAll_keeps (tokens : List PlacedToken) (requests : List Request) :
    let start := ParserState.ofTokens tokens
    (start.afterAll requests).queue <:+ start.ahead ∧ (start.afterAll requests).loopDepth = 0 := by
  intro start
  induction requests using List.reverseRecOn with
  | nil => exact ⟨List.suffix_rfl, rfl⟩
  | append_singleton requests request ih =>
    rw [afterAll, List.foldl_append, ← afterAll]
    obtain ⟨hleft, -, hdepth⟩ := after_keeps (start.afterAll requests) request
    exact ⟨hleft.trans ih.1, hdepth.trans ih.2⟩

/-- **Parsers come to an end and keep account of what they have read.**  In every state, and so
    after whatever has been asked before, reading a script comes to an end without any bounds on
    tokens, and so does reading an expression.  The tokens beyond the current one end those from
    before, names have only been added to the declared ones, and as many loops are around, whether
    reading succeeds or fails.  A statement that has been read has taken a token, and so has an
    expression. -/
theorem requests_progress (s : ParserState) :
    (Reading.ComesTo Reading.program s (Parser.program.outcome s) ∧
      Reading.ComesTo Reading.expressionHere s (Parser.expressionHere.outcome s)) ∧
    (∀ request : Request, (s.after request).queue <:+ s.queue ∧
      s.declared <:+ (s.after request).declared ∧ (s.after request).loopDepth = s.loopDepth) ∧
    (Reading.ComesTo Reading.statement s (Parser.statement.outcome s) ∧
      ∀ node t, Parser.statement s = .ok node t → t.ahead.length < s.ahead.length) ∧
    (Reading.ComesTo Reading.expression s (Parser.expression.outcome s) ∧
      ∀ node t, Parser.expression s = .ok node t → t.ahead.length < s.ahead.length) := by
  refine ⟨⟨Reading.comesTo_program s, Reading.comesTo_expressionHere s⟩, after_keeps s,
    ⟨Reading.comesTo_statement s, fun node t hran => ?_⟩,
    ⟨Reading.comesTo_expression s, fun node t hran => ?_⟩⟩
  · exact advances_statement.takes hran
  · exact advances_expression.takes hran

end ChipScript
