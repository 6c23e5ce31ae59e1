import ChipScript.Parser.Statement
import ChipScript.Proofs.Step

/-!
# What parsers take

Parsers look at tokens and not at their positions, apart from the errors that they report.  This
module says what the parsers for single tokens do with the tokens that are left, and composes the
steps of a longer run: `Passed ts after s s'` when the tokens `ts` have been taken from `s`, with
the names `after` declared behind them.
-/

namespace ChipScript

namespace ParserState

/-- The tokens that are left, without their positions. -/
def words (s : ParserState) : List Token :=
  s.ahead.map PlacedToken.token

@[simp] theorem words_advance (s : ParserState) : s.advance.words = s.words.tail := by
  simp [words, advance]

@[simp] theorem advance_declared (s : ParserState) : s.advance.declared = s.declared := rfl

@[simp] theorem advance_loopDepth (s : ParserState) : s.advance.loopDepth = s.loopDepth := rfl

/-- The next token is the first of those that are left. -/
theorem head?_words (s : ParserState) : s.words.head? = s.ahead.head?.map PlacedToken.token := by
  simp [words]

theorem word_of_head {s : ParserState} {t : Token} {position : Position}
    (h : s.ahead.head? = some ⟨t, position⟩) : s.words.head? = some t := by
  rw [head?_words, h]
  rfl

theorem head?_of_words {s : ParserState} {t : Token} {rest : List Token}
    (h : s.words = t :: rest) : s.words.head? = some t := by
  rw [h]
  rfl

/-- The test that a parser makes of the next token, which looks at no position. -/
theorem any_head?_iff {s : ParserState} {token : Token} :
    (s.ahead.head?.any fun t => t.token = token) = true ↔ s.words.head? = some token := by
  rw [head?_words]
  cases s.ahead.head? with
  | none => simp
  | some t => simp

theorem ahead_of_words {s : ParserState} {t : Token} {rest : List Token} (h : s.words = t :: rest) :
    ∃ position, s.ahead.head? = some ⟨t, position⟩ := by
  have hhead : s.ahead.head?.map PlacedToken.token = some t := by
    rw [← head?_words, h]
    rfl
  -- The token among the words has lost its position, which the token ahead still has.
  obtain ⟨⟨token, position⟩, hplaced, htoken⟩ := Option.map_eq_some_iff.mp hhead
  subst htoken
  exact ⟨position, hplaced⟩

/-- The tokens `ts` have been taken, and the names in `after` are declared behind them. -/
structure Passed (ts : List Token) (after : List String) (s s' : ParserState) : Prop where
  words : s.words = ts ++ s'.words
  declared : s'.declared = after
  loopDepth : s'.loopDepth = s.loopDepth

/-- The tokens `ts` have been taken, without a declaration. -/
abbrev Took (ts : List Token) (s s' : ParserState) : Prop :=
  Passed ts s.declared s s'

variable {s t u : ParserState} {ts us : List Token} {between after : List String}

theorem Passed.append (h : Passed ts between s t) (h' : Passed us after t u) :
    Passed (ts ++ us) after s u where
  words := by rw [h.words, h'.words, List.append_assoc]
  declared := h'.declared
  loopDepth := h'.loopDepth.trans h.loopDepth

theorem Took.nil (s : ParserState) : Took [] s s :=
  ⟨rfl, rfl, rfl⟩

theorem Took.append (h : Took ts s t) (h' : Took us t u) : Took (ts ++ us) s u := by
  -- The second step begins with the names of the first one, so none is declared by either.
  have hdeclared : t.declared = s.declared := h.declared
  have happend := Passed.append h h'
  rwa [hdeclared] at happend

/-- A step without a declaration may stand before one that declares names. -/
theorem Took.before (h : Took ts s t) (h' : Passed us after t u) :
    Passed (ts ++ us) after s u :=
  Passed.append h h'

theorem Took.advance {t : Token} (h : s.words.head? = some t) : Took [t] s s.advance where
  words := by
    obtain ⟨rest, hwords⟩ := List.head?_eq_some_iff.mp h
    rw [words_advance, hwords]
    rfl
  declared := rfl
  loopDepth := rfl

/-- What is left is what followed. -/
theorem Passed.rest (h : Passed ts after s t) (hs : s.words = ts ++ us) : t.words = us := by
  have happend : ts ++ t.words = ts ++ us := h.words.symm.trans hs
  exact List.append_cancel_left happend

end ParserState

namespace Parser

open ParserState

variable {α β : Type} {s s' : ParserState}

/-! ## Runs -/

@[simp] theorem peek?_apply : peek? s = .ok s.ahead.head? s := rfl

@[simp] theorem remaining_apply : remaining s = .ok s.words.length s := by
  show EStateM.Result.ok s.ahead.length s = _
  simp [words]

@[simp] theorem advance_apply : advance s = .ok () s.advance := rfl

@[simp] theorem isDeclared_apply (name : String) :
    isDeclared name s = .ok (s.declared.contains name) s := rfl

/-- A token that is not expected is an error, whether there is one or the text has ended. -/
@[simp] theorem unexpected_ne_ok {expected : Expectation} {a : α} :
    unexpected expected s ≠ .ok a s' := by
  intro h
  obtain ⟨next, t, hpeek, hthrow⟩ := bind_eq_ok.mp h
  cases next with
  | none => exact throw_ne_ok hthrow
  | some t => exact throw_ne_ok hthrow

/-- What a run goes on with, as a parser of its own that can be looked at by cases. -/
theorem exists_next {p : Parser α} {f : α → Parser β} {a : α} {b : β} {t : ParserState}
    (hp : p s = .ok a t) (h : (p >>= f) s = .ok b s') : ∃ q, f a = q ∧ q t = .ok b s' := by
  rw [bind_apply hp] at h
  exact ⟨f a, rfl, h⟩

/-- A parser that succeeds in a loop has succeeded with one loop more around it.  The count of loops
    is put back behind it. -/
theorem inLoop_eq_ok {p : Parser α} {a : α} :
    inLoop p s = .ok a s' ↔
      ∃ t, p { s with loopDepth := s.loopDepth + 1 } = .ok a t ∧
        s' = { t with loopDepth := t.loopDepth - 1 } := by
  unfold inLoop
  -- The state is changed before and behind, and an error is passed on as it is.
  cases p { s with loopDepth := s.loopDepth + 1 } with
  | ok b t =>
      constructor
      · intro h
        cases h
        exact ⟨t, rfl, rfl⟩
      · intro h
        obtain ⟨t', ht', hs'⟩ := h
        cases ht'
        rw [hs']
  | error fault t => simp

/-! ## Single tokens -/

/-- An optional token is taken if it is of the sort that is asked for, and is left where it is
    otherwise. -/
theorem accept?_apply (sort? : Token → Option α) :
    accept? sort? s =
      match s.words.head?.bind sort? with
      | some a => .ok (some a) s.advance
      | none => .ok none s := by
  have hhead : (s.ahead.head?.bind fun t => sort? t.token) = s.words.head?.bind sort? := by
    rw [head?_words, Option.bind_map]
    rfl
  rw [accept?, bind_apply peek?_apply, hhead]
  cases s.words.head?.bind sort? with
  | none => rfl
  | some a => rfl

/-- What is found is the next token, which is of the sort. -/
theorem accept?_eq_some {sort? : Token → Option α} {a : α} :
    accept? sort? s = .ok (some a) s' ↔
      (∃ t, s.words.head? = some t ∧ sort? t = some a) ∧ s' = s.advance := by
  rw [accept?_apply, ← Option.bind_eq_some_iff]
  cases s.words.head?.bind sort? with
  | none => simp
  | some b => simp [eq_comm]

/-- Where nothing is found, the next token is of another sort or there is none, and nothing is
    taken. -/
theorem accept?_eq_none {sort? : Token → Option α} :
    accept? sort? s = .ok none s' ↔ (∀ t, s.words.head? = some t → sort? t = none) ∧ s' = s := by
  rw [accept?_apply, ← Option.bind_eq_none_iff]
  cases s.words.head?.bind sort? with
  | none => simp [eq_comm]
  | some b => simp

/-- A token that is demanded has been found.  Without it there is no result. -/
theorem expect_eq_ok {sort? : Token → Option α} {expected : Expectation} {a : α} :
    expect sort? expected s = .ok a s' ↔
      (∃ t, s.words.head? = some t ∧ sort? t = some a) ∧ s' = s.advance := by
  rw [← accept?_eq_some, expect, bind_eq_ok]
  constructor
  · intro h
    obtain ⟨found, t, haccept, hrest⟩ := h
    -- The answer that nothing was found becomes an error, which is no success.
    cases found with
    | none => exact absurd hrest unexpected_ne_ok
    | some b =>
        obtain ⟨hb, ht⟩ := pure_eq_ok.mp hrest
        rw [haccept, hb, ht]
  · intro h
    exact ⟨some a, s', h, rfl⟩

theorem accept_apply (token : Token) :
    accept token s =
      if s.words.head? = some token then .ok true s.advance else .ok false s := by
  -- The answer is made a Boolean behind `accept?`, which is one more step of the run.
  show EStateM.bind (accept? _) _ s = _
  unfold EStateM.bind
  rw [accept?_apply]
  cases hhead : s.words.head? with
  | none => rfl
  | some t =>
      by_cases ht : t = token
      · simp [ht]
      · simp [ht]

/-- A run that goes on in one way after a token, and in another without it. -/
theorem ifAccept_apply {token : Token} {p q : Parser α} :
    (accept token >>= fun found => if found = true then p else q) s =
      if s.words.head? = some token then p s.advance else q s := by
  by_cases hhead : s.words.head? = some token
  · have haccept : accept token s = .ok true s.advance := by simp [accept_apply, hhead]
    rw [bind_apply haccept, if_pos hhead]
    rfl
  · have haccept : accept token s = .ok false s := by simp [accept_apply, hhead]
    rw [bind_apply haccept, if_neg hhead]
    rfl

/-- A run that begins with a token that is demanded, and goes on behind it. -/
theorem bind_expect_eq_ok {sort? : Token → Option α} {expected : Expectation}
    {f : α → Parser β} {b : β} :
    (expect sort? expected >>= f) s = .ok b s' ↔
      ∃ t a, s.words.head? = some t ∧ sort? t = some a ∧ f a s.advance = .ok b s' := by
  rw [bind_eq_ok]
  constructor
  · intro h
    obtain ⟨a, s₁, hexpect, h⟩ := h
    obtain ⟨⟨t, hhead, hsort⟩, rfl⟩ := expect_eq_ok.mp hexpect
    exact ⟨t, a, hhead, hsort, h⟩
  · intro h
    obtain ⟨t, a, hhead, hsort, h⟩ := h
    exact ⟨a, s.advance, expect_eq_ok.mpr ⟨⟨t, hhead, hsort⟩, rfl⟩, h⟩

theorem bind_expectSymbol_eq_ok {sign : Symbol} {f : Unit → Parser β} {b : β} :
    (expectSymbol sign >>= f) s = .ok b s' ↔
      s.words.head? = some (.symbol sign) ∧ f () s.advance = .ok b s' := by
  rw [expectSymbol, bind_expect_eq_ok]
  constructor
  · intro h
    obtain ⟨t, ⟨⟩, hhead, hsort, h⟩ := h
    -- A sign is of no sort but its own, so the token that was found is this sign.
    have ht : t = .symbol sign := by simpa using hsort
    exact ⟨ht ▸ hhead, h⟩
  · intro h
    exact ⟨_, (), h.1, by simp, h.2⟩

end Parser
end ChipScript
