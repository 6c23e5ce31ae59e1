import ChipScript.Compile
import ChipScript.Proofs.Grammar.Soundness

/-!
# What is in the grammar is accepted

A parser takes as much as it can, so that it reads a phrase only where nothing follows that it would
take in.  `Level.takes` says which tokens a level would take in after a phrase of its own, and
`Ends level rest` that none of them follows.  Under that condition every derivation is read back,
and what is left is what followed.

The levels with operators are left-recursive in the grammar and loops in the parser.
`joinFrom_reaches` ties the two: after the tokens of a derivation the loop has built its tree and
goes on from there, with as much room left as it started with less the operators that it took.
-/

namespace ChipScript.Grammar

open ChipScript.Parser ChipScript.ParserState

/-! ## First tokens -/

/-- The place of a level among the levels, from the loosest on. -/
def Level.rank : Level → Nat
  | choice => 0
  | connective => 1
  | comparison => 2
  | negation => 3
  | sum => 4
  | product => 5
  | operand => 6

/-- The tokens that a phrase of a level can start with. -/
def Level.starts (level : Level) : Token → Bool
  | .number _ | .identifier _ | .keyword .hash | .keyword .device => true
  | .symbol .minus | .symbol .leftParen => true
  | .symbol .bang => level.rank ≤ negation.rank
  | _ => false

theorem Level.starts_of_tighter {level tighter : Level} (hlevel : level.tighter? = some tighter)
    {t : Token} (h : tighter.starts t = true) : level.starts t = true := by
  cases level <;> cases hlevel <;>
    (unfold starts at h ⊢; split at h <;> simp_all [rank])

/-- A value has words, and the first of them is one that its level starts with. -/
theorem Derives.exists_cons {declared : List String} {level : Level} {node : Node}
    {ts : List Token} (h : Derives declared (.value level node) ts) :
    ∃ t us, ts = t :: us ∧ level.starts t = true := by
  generalize hphrase : Phrase.value level node = phrase at h
  -- A value begins as its first part does, down to an operand, which begins with a token of its
  -- own.
  induction h generalizing level node with
  | lift hlevel h ih =>
      cases hphrase
      obtain ⟨t, us, rfl, ht⟩ := ih rfl
      exact ⟨t, us, rfl, Level.starts_of_tighter hlevel ht⟩
  | join hlevel hjoins hleft hright ihleft ihright =>
      cases hphrase
      obtain ⟨t, us, rfl, ht⟩ := ihleft rfl
      exact ⟨t, _, rfl, ht⟩
  | choice hc ht hu ihc iht ihu =>
      cases hphrase
      obtain ⟨t, us, rfl, ht⟩ := ihc rfl
      have hchoice : Level.choice.tighter? = some .connective := rfl
      exact ⟨t, _, rfl, Level.starts_of_tighter hchoice ht⟩
  | _ =>
      cases hphrase <;> exact ⟨_, _, rfl, rfl⟩

/-! ## What may follow -/

/-- The level that takes a symbol in after a phrase of its own. -/
def taker? : Symbol → Option Level
  | .leftParen | .leftBracket | .dot => some .operand
  | .star | .slash => some .product
  | .plus | .minus => some .sum
  | .equal | .notEqual | .less | .lessEqual | .greater | .greaterEqual => some .comparison
  | .both | .either => some .connective
  | .question => some .choice
  | _ => none

/-- Whether the parser of a level would take in a token after a phrase of its own.  The last phrase
    of a tighter level would take it in just as well. -/
def Level.takes (level : Level) : Token → Bool
  | .symbol sign => (taker? sign).any fun taker => level.rank ≤ taker.rank
  | _ => false

/-- Nothing follows that the parser of a level would take in. -/
def Ends (level : Level) (rest : List Token) : Prop :=
  ∀ t, rest.head? = some t → level.takes t = false

theorem ends_cons {level : Level} {t : Token} {rest : List Token} (h : level.takes t = false) :
    Ends level (t :: rest) := by
  intro u hu
  cases hu
  exact h

/-- What ends a value ends the tighter values in it. -/
theorem Ends.tighter {level tighter : Level} {rest : List Token} (h : Ends level rest)
    (hlevel : level.tighter? = some tighter) : Ends tighter rest := by
  intro t ht
  have hrank : tighter.rank = level.rank + 1 := by
    cases level <;> cases hlevel <;> rfl
  have htakes := h t ht
  cases t with
  | symbol sign =>
      simp only [Level.takes, Option.any_eq_false, decide_eq_false_iff_not, hrank] at htakes ⊢
      intro taker htaker
      have := htakes taker htaker
      omega
  | _ => rfl

theorem Ends.head?_ne {level : Level} {rest : List Token} (h : Ends level rest) {t : Token}
    (ht : level.takes t = true) : rest.head? ≠ some t := by
  intro hhead
  rw [h t hhead] at ht
  cases ht

theorem takes_of_joins {level : Level} {sign : Symbol} {build : Join}
    (h : Joins level sign build) : level.takes (.symbol sign) = true := by
  cases h <;> rfl

/-- The sign of a level joins nothing at the tighter one, so an operand ends before it. -/
theorem tighter_takes_of_joins {level tighter : Level} {sign : Symbol} {build : Join}
    (h : Joins level sign build) (hlevel : level.tighter? = some tighter) :
    tighter.takes (.symbol sign) = false := by
  cases h <;> cases hlevel <;> rfl

theorem Ends.operator?_eq_none {level : Level} {rest : List Token} (h : Ends level rest)
    {t : Token} (ht : rest.head? = some t) : level.operator? t = none := by
  cases hoperator : level.operator? t with
  | none => rfl
  | some build =>
      obtain ⟨sign, rfl, hjoins⟩ := operator?_eq_some.mp hoperator
      exact absurd ht (h.head?_ne (takes_of_joins hjoins))

/-! ## Completeness of parsers -/

/-- A parser reads `a` from the tokens `ts` wherever what follows is as `ends` asks. -/
def Reads {α : Type} (p : Parser α) (ends : List Token → Prop) (declared : List String) (a : α)
    (ts : List Token) : Prop :=
  ∀ ⦃s rest⦄, s.words = ts ++ rest → s.declared = declared → ends rest →
    ∃ s', p s = .ok a s' ∧ Took ts s s'

/-- A parser reads every phrase of a level with at most `bound` tokens. -/
def CompleteTo (bound : Nat) (p : Parser Node) (level : Level) (declared : List String) : Prop :=
  ∀ ⦃node ts⦄, ts.length ≤ bound → Derives declared (.value level node) ts →
    Reads p (Ends level) declared node ts

variable {e : Parser Node} {declared : List String} {bound : Nat}

/-! ## Operators -/

/-- **The loop follows the left-recursive rule.**  After the first operand, the loop goes through
    the state in which it has built the tree of the derivation and stands behind its tokens. -/
theorem joinFrom_reaches {level tighter : Level} (hlevel : level.Joined tighter)
    (hoperand : CompleteTo bound (tighter.parser e) tighter declared) {node : Node}
    {ts : List Token} (hbound : ts.length ≤ bound) (h : Derives declared (.value level node) ts) :
    ∀ ⦃s rest⦄, s.words = ts ++ rest → s.declared = declared → Ends tighter rest →
      ∃ first s₁ s₂ taken, tighter.parser e s = .ok first s₁ ∧ Took ts s s₂ ∧
        s₂.words.length + taken ≤ s₁.words.length ∧
        ∀ room, joinFrom level.operator? (tighter.parser e) (room + taken) first s₁ =
          joinFrom level.operator? (tighter.parser e) room node s₂ := by
  generalize hphrase : Phrase.value level node = phrase at h
  induction h generalizing node with
  | lift htighter hts ih =>
      cases hphrase
      cases hlevel.tighter?_eq.symm.trans htighter
      intro s rest hwords hdeclared hrest
      obtain ⟨s₁, hrun, htook⟩ := hoperand hbound hts hwords hdeclared hrest
      exact ⟨_, s₁, s₁, 0, hrun, htook, Nat.le_refl _, fun room => rfl⟩
  | @join _ _ sign build left right ls rs htighter hjoins hleft hright ihleft ihright =>
      cases hphrase
      cases hlevel.tighter?_eq.symm.trans htighter
      intro s rest hwords hdeclared hrest
      rw [List.length_append, List.length_cons] at hbound
      rw [List.append_assoc] at hwords
      -- The left operand ends before the operator, which no tighter level takes in.
      have hsign := tighter_takes_of_joins hjoins htighter
      obtain ⟨first, s₁, s₂, taken, hfirst, htook, hroom, hgo⟩ :=
        ihleft (by omega) rfl hwords hdeclared (ends_cons hsign)
      have hwords₂ : s₂.words = .symbol sign :: (rs ++ rest) := htook.rest hwords
      have haccept : accept? level.operator? s₂ = .ok (some build) s₂.advance := by
        rw [accept?_eq_some]
        exact ⟨⟨.symbol sign, head?_of_words hwords₂,
          operator?_eq_some.mpr ⟨sign, rfl, hjoins⟩⟩, rfl⟩
      have htook₂ : Took [.symbol sign] s₂ s₂.advance := Took.advance (head?_of_words hwords₂)
      have hdeclared₂ : s₂.advance.declared = declared := htook.declared.trans hdeclared
      obtain ⟨s₃, hrun, htook₃⟩ :=
        hoperand (by omega) hright (htook₂.rest hwords₂) hdeclared₂ hrest
      have htooks := htook.append (htook₂.append htook₃)
      refine ⟨first, s₁, s₃, taken + 1, hfirst, htooks, ?_, ?_⟩
      · have hlength := congrArg List.length (htook₂.append htook₃).words
        rw [List.length_append] at hlength
        simp only [List.length_append, List.length_cons, List.length_nil] at hlength
        omega
      · intro room
        rw [show room + (taken + 1) = room + 1 + taken by omega, hgo, joinFrom,
          bind_apply haccept]
        exact bind_apply hrun
  | _ => cases hphrase <;> cases hlevel

/-- A level whose operands are read is read: operands and signs, from the left. -/
theorem joined_complete {level tighter : Level} (hlevel : level.Joined tighter)
    (hoperand : CompleteTo bound (tighter.parser e) tighter declared) :
    CompleteTo bound (level.parser e) level declared := by
  intro node ts hbound h s rest hwords hdeclared hrest
  obtain ⟨first, s₁, s₂, taken, hfirst, htook, hroom, hgo⟩ :=
    joinFrom_reaches hlevel hoperand hbound h hwords hdeclared (hrest.tighter hlevel.tighter?_eq)
  refine ⟨s₂, ?_, htook⟩
  rw [hlevel.parser_eq, joined, bind_apply hfirst, bind_apply remaining_apply]
  have hlength : s₁.words.length = s₁.words.length - taken + taken := by omega
  rw [hlength, hgo]
  -- No operator of the level follows, so that the loop ends here.
  cases s₁.words.length - taken with
  | zero => rfl
  | succ room =>
      have hnone : accept? level.operator? s₂ = .ok none s₂ := by
        rw [accept?_eq_none]
        refine ⟨?_, rfl⟩
        intro t ht
        rw [htook.rest hwords] at ht
        exact hrest.operator?_eq_none ht
      rw [joinFrom, bind_apply hnone]
      rfl

theorem negation_complete (hsum : CompleteTo bound (Parser.sum e) .sum declared) {node : Node}
    {ts : List Token} (hbound : ts.length ≤ bound)
    (h : Derives declared (.value .negation node) ts) :
    ∀ (room : Nat), ts.length ≤ room →
      Reads (Parser.negation e room) (Ends .negation) declared node ts := by
  generalize hphrase : Phrase.value .negation node = phrase at h
  induction h generalizing node with
  | lift htighter hts ih =>
      cases hphrase
      cases htighter
      intro room hroom s rest hwords hdeclared hrest
      cases room with
      | zero => exact hsum hbound hts hwords hdeclared (hrest.tighter rfl)
      | succ room =>
          -- No phrase of a tighter level starts with the sign of a negation.
          obtain ⟨t, us, rfl, ht⟩ := hts.exists_cons
          have hbang : s.words.head? ≠ some (.symbol .bang) := by
            rw [hwords]
            intro hhead
            cases hhead
            cases ht
          rw [Parser.negation, ifAccept_apply, if_neg hbang]
          exact hsum hbound hts hwords hdeclared (hrest.tighter rfl)
  | join htighter hjoins =>
      cases hphrase
      cases hjoins
  | @not operand ts hts ih =>
      cases hphrase
      intro room hroom s rest hwords hdeclared hrest
      rw [List.length_cons] at hbound hroom
      obtain ⟨room, rfl⟩ : ∃ less, room = less + 1 := ⟨room - 1, by omega⟩
      have hbang : s.words.head? = some (.symbol .bang) := head?_of_words hwords
      have htook := Took.advance hbang
      obtain ⟨s₁, hrun, htook₁⟩ :=
        ih (by omega) rfl room (by omega) (htook.rest hwords) hdeclared hrest
      refine ⟨s₁, ?_, htook.append htook₁⟩
      rw [Parser.negation, ifAccept_apply, if_pos hbang, bind_apply hrun]
      rfl
  | _ => cases hphrase

/-! ## Operands -/

/-- Arguments of a device with commas between them are read up to the last. -/
theorem deviceArguments_complete (position : Position) (arguments : List DeviceArgument) :
    ∀ (room : Nat), arguments ≠ [] → arguments.length ≤ room →
      Reads (deviceArguments position room) (fun rest => rest.head? ≠ some (.symbol .comma))
        declared arguments (argumentTokens arguments) := by
  induction arguments with
  | nil =>
      intro room hnonempty
      exact absurd rfl hnonempty
  | cons first others ih =>
      intro room hnonempty hroom s rest hwords hdeclared hrest
      rw [List.length_cons] at hroom
      obtain ⟨room, rfl⟩ : ∃ less, room = less + 1 := ⟨room - 1, by omega⟩
      have hfirst : deviceArgument? (argumentToken first) = some first :=
        deviceArgument?_eq_some.mpr rfl
      cases others with
      | nil =>
          have hhead : s.words.head? = some (argumentToken first) := head?_of_words hwords
          have htook := Took.advance hhead
          refine ⟨s.advance, ?_, htook⟩
          rw [deviceArguments, bind_expect_eq_ok]
          refine ⟨_, first, hhead, hfirst, ?_⟩
          -- No comma follows the last argument.
          rw [ifAccept_apply, htook.rest hwords, if_neg hrest]
          rfl
      | cons second others =>
          have hhead : s.words.head? = some (argumentToken first) := head?_of_words hwords
          have hwords₁ : s.advance.words =
              .symbol .comma :: (argumentTokens (second :: others) ++ rest) :=
            (Took.advance hhead).rest hwords
          have hcomma := head?_of_words hwords₁
          obtain ⟨s₁, hrun, htook⟩ := ih room (List.cons_ne_nil _ _) (by omega)
            ((Took.advance hcomma).rest hwords₁) hdeclared hrest
          refine ⟨s₁, ?_, (Took.advance hhead).append ((Took.advance hcomma).append htook)⟩
          rw [deviceArguments, bind_expect_eq_ok]
          refine ⟨_, first, hhead, hfirst, ?_⟩
          rw [ifAccept_apply, if_pos hcomma, bind_apply hrun]
          rfl

theorem device_complete (position : Position) {us : List Token} {config : DeviceConfig}
    (h : DeviceArguments us config) :
    Reads (Parser.device position) (fun _ => True) declared (.device config)
      (.symbol .leftParen :: (us ++ [.symbol .rightParen])) := by
  intro s rest hwords hdeclared _
  obtain ⟨arguments, hlength, rfl, hconfig⟩ := deviceArguments_iff.mp h
  -- Without an argument there is no configuration.
  have hnonempty : arguments ≠ [] := by
    intro hempty
    subst hempty
    cases hconfig
  have hleft : s.words.head? = some (.symbol .leftParen) := head?_of_words hwords
  have hwords₁ : s.advance.words = argumentTokens arguments ++ (.symbol .rightParen :: rest) := by
    simpa using (Took.advance hleft).rest hwords
  obtain ⟨s₁, hrun, htook⟩ := deviceArguments_complete position arguments _ hnonempty hlength
    hwords₁ hdeclared (by simp)
  have hright := head?_of_words (htook.rest hwords₁)
  refine ⟨s₁.advance, ?_, (Took.advance hleft).append (htook.append (Took.advance hright))⟩
  -- The arguments have been read, and they are the ones that make the configuration.
  rw [Parser.device, bind_expectSymbol_eq_ok]
  refine ⟨hleft, ?_⟩
  rw [bind_apply hrun, bind_expectSymbol_eq_ok]
  refine ⟨hright, ?_⟩
  rw [hconfig]
  rfl

/-- Values with commas between them are read up to the closing bracket. -/
theorem expressions_complete (he : CompleteTo bound e .choice declared) {nodes : List Node}
    {ts : List Token} (hbound : ts.length ≤ bound) (h : Derives declared (.list nodes) ts) :
    ∀ (room : Nat), ts.length ≤ room →
      Reads (expressions e room) (fun rest => ∃ us, rest = .symbol .rightParen :: us) declared
        nodes ts := by
  generalize hphrase : Phrase.list nodes = phrase at h
  induction h generalizing nodes with
  | one hts ih =>
      cases hphrase
      intro room hroom s rest hwords hdeclared hrest
      obtain ⟨us, rfl⟩ := hrest
      obtain ⟨t, ts, rfl, -⟩ := hts.exists_cons
      obtain ⟨room, rfl⟩ : ∃ less, room = less + 1 := ⟨room - 1, by simp at hroom; omega⟩
      obtain ⟨s₁, hrun, htook⟩ := he hbound hts hwords hdeclared (ends_cons rfl)
      -- The list ends at its parenthesis, and so does the expression before it.
      have hcomma : s₁.words.head? ≠ some (.symbol .comma) := by
        rw [htook.rest hwords]
        simp
      refine ⟨s₁, ?_, htook⟩
      rw [expressions, bind_apply hrun, ifAccept_apply, if_neg hcomma]
      rfl
  | @more node nodes ts us hts hus ihfirst ih =>
      cases hphrase
      intro room hroom s rest hwords hdeclared hrest
      rw [List.length_append, List.length_cons] at hbound hroom
      rw [List.append_assoc] at hwords
      obtain ⟨room, rfl⟩ : ∃ less, room = less + 1 := ⟨room - 1, by omega⟩
      obtain ⟨s₁, hrun, htook⟩ := he (by omega) hts hwords hdeclared (ends_cons rfl)
      have hwords₁ : s₁.words = .symbol .comma :: (us ++ rest) := htook.rest hwords
      have hcomma := head?_of_words hwords₁
      have hdeclared₁ : s₁.advance.declared = declared := htook.declared.trans hdeclared
      obtain ⟨s₂, hrun₂, htook₂⟩ := ih (by omega) rfl room (by omega)
        ((Took.advance hcomma).rest hwords₁) hdeclared₁ hrest
      refine ⟨s₂, ?_, htook.append ((Took.advance hcomma).append htook₂)⟩
      rw [expressions, bind_apply hrun, ifAccept_apply, if_pos hcomma, bind_apply hrun₂]
      rfl
  | _ => cases hphrase

theorem arguments_apply_of_ne {s : ParserState}
    (h : s.words.head? ≠ some (.symbol .rightParen)) :
    arguments e s =
      (expressions e s.words.length >>= fun list =>
        expectSymbol .rightParen >>= fun _ => pure list) s := by
  have hgo : arguments e s = (remaining >>= fun bound => expressions e bound >>= fun list =>
      expectSymbol .rightParen >>= fun _ => pure list) s := by
    rw [arguments, bind_apply peek?_apply, ← head?_words]
    refine congrFun ?_ s
    split
    · contradiction
    · rfl
  rw [hgo, bind_apply remaining_apply]

theorem arguments_complete (he : CompleteTo bound e .choice declared) {nodes : List Node}
    {ts : List Token} (hbound : ts.length ≤ bound) (h : Derives declared (.arguments nodes) ts) :
    Reads (arguments e) (fun _ => True) declared nodes (ts ++ [.symbol .rightParen]) := by
  intro s rest hwords hdeclared _
  rw [List.append_assoc] at hwords
  cases h with
  | noArguments =>
      have hright : s.words.head? = some (.symbol .rightParen) := head?_of_words hwords
      refine ⟨s.advance, ?_, Took.advance hright⟩
      rw [arguments, bind_apply peek?_apply, ← head?_words, hright]
      rfl
  | someArguments hts =>
      obtain ⟨s₁, hrun, htook⟩ := expressions_complete he hbound hts s.words.length
        (by rw [hwords]; simp) hwords hdeclared ⟨_, rfl⟩
      have hright := head?_of_words (htook.rest hwords)
      refine ⟨s₁.advance, ?_, htook.append (Took.advance hright)⟩
      -- The first token of an expression is no closing parenthesis.
      obtain ⟨t, us, rfl, ht⟩ : ∃ t us, ts = t :: us ∧ Level.choice.starts t = true := by
        cases hts with
        | one hfirst => exact hfirst.exists_cons
        | more hfirst hothers =>
            obtain ⟨t, us, rfl, ht⟩ := hfirst.exists_cons
            exact ⟨t, _, rfl, ht⟩
      have hnotRight : s.words.head? ≠ some (.symbol .rightParen) := by
        rw [hwords]
        intro hhead
        cases hhead
        cases ht
      rw [arguments_apply_of_ne hnotRight, bind_apply hrun, bind_expectSymbol_eq_ok]
      exact ⟨hright, rfl⟩

/-- What follows a name is read: an index and a logic type, a logic type, or nothing. -/
theorem suffix_complete (he : CompleteTo bound e .choice declared) (name : String)
    (position : Position) {index : Option Node} {property : Option String} {ts : List Token}
    (hbound : ts.length ≤ bound) (h : Derives declared (.suffix index property) ts) :
    Reads (suffix e name position) (Ends .operand) declared (index, property) ts := by
  intro s rest hwords hdeclared hrest
  rw [suffix_eq, ifAccept_apply]
  cases h with
  | bare =>
      rw [List.nil_append] at hwords
      rw [← hwords] at hrest
      -- A bare name ends where no bracket and no dot follows.
      have hbracket : s.words.head? ≠ some (.symbol .leftBracket) := hrest.head?_ne rfl
      have hdot : s.words.head? ≠ some (.symbol .dot) := hrest.head?_ne rfl
      rw [if_neg hbracket]
      exact ⟨s, propertyAfter_eq_ok.mpr (Or.inr ⟨hdot, rfl, rfl, rfl⟩), Took.nil s⟩
  | property property =>
      have hdot : s.words.head? = some (.symbol .dot) := head?_of_words hwords
      have hname : s.advance.words.head? = some (.identifier property) :=
        head?_of_words ((Took.advance hdot).rest hwords)
      have hbracket : s.words.head? ≠ some (.symbol .leftBracket) := by simp [hdot]
      rw [if_neg hbracket]
      refine ⟨s.advance.advance, ?_, (Took.advance hdot).append (Took.advance hname)⟩
      exact propertyAfter_eq_ok.mpr (Or.inl ⟨property, hdot, hname, rfl, rfl⟩)
  | @indexed index ts property hts =>
      have hlength : ts.length ≤ bound := by
        simp only [List.length_cons, List.length_append] at hbound
        omega
      have hbracket : s.words.head? = some (.symbol .leftBracket) := head?_of_words hwords
      have hwords₁ : s.advance.words = ts ++
          (.symbol .rightBracket :: .symbol .dot :: .identifier property :: rest) := by
        simpa using (Took.advance hbracket).rest hwords
      obtain ⟨s₁, hrun, htook⟩ := he hlength hts hwords₁ hdeclared (ends_cons rfl)
      have hwords₂ := htook.rest hwords₁
      have hright := head?_of_words hwords₂
      have hwords₃ := (Took.advance hright).rest hwords₂
      have hdot := head?_of_words hwords₃
      have hname := head?_of_words ((Took.advance hdot).rest hwords₃)
      rw [if_pos hbracket, indexThenProperty, bind_apply hrun]
      refine ⟨_, bind_expectSymbol_eq_ok.mpr ⟨hright, propertyAfter_eq_ok.mpr
        (Or.inl ⟨property, hdot, hname, rfl, rfl⟩)⟩, ?_⟩
      have htooks := (Took.advance hbracket).append (htook.append
        ((Took.advance hright).append ((Took.advance hdot).append (Took.advance hname))))
      simpa using htooks

/-- What follows a name in an operand. -/
theorem named_complete (he : CompleteTo bound e .choice declared) (name : String)
    (position : Position) {node : Node} {ts : List Token} (hbound : ts.length ≤ bound)
    (h : Derives declared (.value .operand node) (.identifier name :: ts)) :
    Reads (named e name position) (Ends .operand) declared node ts := by
  intro s rest hwords hdeclared hrest
  -- Only three forms of operands start with a name.
  generalize htokens : Token.identifier name :: ts = tokens at h
  cases h with
  | lift hlevel => cases hlevel
  | join hlevel => cases hlevel
  | number => cases htokens
  | negative => cases htokens
  | hash => cases htokens
  | device => cases htokens
  | group => cases htokens
  | constant hconstant =>
      cases htokens
      rw [List.nil_append] at hwords
      rw [← hwords] at hrest
      have hparen : ¬ (s.ahead.head?.any fun t => t.token = .symbol .leftParen) = true :=
        fun h => hrest.head?_ne rfl (any_head?_iff.mp h)
      refine ⟨s, ?_, Took.nil s⟩
      rw [named, bind_apply peek?_apply, if_neg hparen, if_pos hconstant]
      rfl
  | @call _ nodes ts harity hts =>
      cases htokens
      have hparen : s.words.head? = some (.symbol .leftParen) := head?_of_words hwords
      have hlength : ts.length ≤ bound := by
        simp only [List.length_cons, List.length_append] at hbound
        omega
      obtain ⟨s₁, hrun, htook⟩ := arguments_complete he hlength hts
        ((Took.advance hparen).rest hwords) hdeclared trivial
      refine ⟨s₁, ?_, (Took.advance hparen).append htook⟩
      rw [named, bind_apply peek?_apply, if_pos (any_head?_iff.mpr hparen), harity]
      show (Parser.advance >>= _) s = _
      rw [bind_apply advance_apply, bind_apply hrun, bind_eq_ok]
      exact ⟨(), s₁, checkArity_eq_ok.mpr ⟨rfl, rfl⟩, rfl⟩
  | read hconstant hmem hts =>
      cases htokens
      -- A name that has been declared is read as such unless a parenthesis follows, which its
      -- suffix never starts with.
      have hparen : ¬ (s.ahead.head?.any fun t => t.token = .symbol .leftParen) = true := by
        rw [any_head?_iff, hwords]
        cases hts with
        | bare => exact hrest.head?_ne rfl
        | property property => simp
        | indexed property hindex => simp
      have hcontains : s.declared.contains name = true := by
        rw [hdeclared]
        simpa using hmem
      obtain ⟨s₁, hrun, htook⟩ :=
        suffix_complete he name position hbound hts hwords hdeclared hrest
      refine ⟨s₁, ?_, htook⟩
      rw [named, bind_apply peek?_apply, if_neg hparen, if_neg (by simp [hconstant]),
        bind_apply (isDeclared_apply name), if_pos hcontains, bind_apply hrun]
      rfl

/-- Operands are read where the expressions in them are. -/
theorem primary_complete (he : CompleteTo bound e .choice declared) :
    CompleteTo (bound + 1) (primary e) .operand declared := by
  intro node ts hbound h s rest hwords hdeclared hrest
  -- The first token decides which case of the parser is taken.
  obtain ⟨t, us, hts, -⟩ := h.exists_cons
  rw [hts] at hwords hbound
  obtain ⟨position, hahead⟩ := ahead_of_words hwords
  have hhead := head?_of_words hwords
  have hwords₁ : s.advance.words = us ++ rest := (Took.advance hhead).rest hwords
  have hlength : us.length ≤ bound := Nat.le_of_succ_le_succ hbound
  rw [primary, bind_apply peek?_apply, hahead]
  cases h with
  | lift hlevel => cases hlevel
  | join hlevel => cases hlevel
  | number text =>
      cases hts
      exact ⟨s.advance, rfl, Took.advance hhead⟩
  | negative text =>
      cases hts
      have hnumber := head?_of_words hwords₁
      refine ⟨s.advance.advance, ?_, (Took.advance hhead).append (Took.advance hnumber)⟩
      show (Parser.advance >>= _) s = _
      rw [bind_apply advance_apply, bind_expect_eq_ok]
      exact ⟨_, text, hnumber, rfl, rfl⟩
  | constant hconstant =>
      cases hts
      obtain ⟨s₁, hrun, htook⟩ := named_complete he _ position hlength
        (.constant hconstant) hwords₁ hdeclared hrest
      exact ⟨s₁, (bind_apply advance_apply).trans hrun, (Took.advance hhead).append htook⟩
  | hash text =>
      cases hts
      have hleft := head?_of_words hwords₁
      have hwords₂ := (Took.advance hleft).rest hwords₁
      have htext := head?_of_words hwords₂
      have hwords₃ := (Took.advance htext).rest hwords₂
      have hright := head?_of_words hwords₃
      refine ⟨s.advance.advance.advance.advance, ?_, (Took.advance hhead).append
        ((Took.advance hleft).append ((Took.advance htext).append (Took.advance hright)))⟩
      show (Parser.advance >>= _) s = _
      rw [bind_apply advance_apply, bind_expectSymbol_eq_ok]
      refine ⟨hleft, ?_⟩
      rw [bind_expect_eq_ok]
      refine ⟨_, text, htext, rfl, ?_⟩
      rw [bind_expectSymbol_eq_ok]
      exact ⟨hright, rfl⟩
  | device hus =>
      cases hts
      obtain ⟨s₁, hrun, htook⟩ := device_complete position hus hwords₁ hdeclared trivial
      exact ⟨s₁, (bind_apply advance_apply).trans hrun, (Took.advance hhead).append htook⟩
  | @group node ts hnode =>
      cases hts
      rw [List.append_assoc] at hwords₁
      rw [List.length_append] at hlength
      obtain ⟨s₁, hrun, htook⟩ := he (by omega) hnode hwords₁ hdeclared (ends_cons rfl)
      have hright := head?_of_words (htook.rest hwords₁)
      refine ⟨s₁.advance, ?_, (Took.advance hhead).append (htook.append (Took.advance hright))⟩
      show (Parser.advance >>= _) s = _
      rw [bind_apply advance_apply, bind_apply hrun, ifAccept_apply, if_pos hright]
      rfl
  | call harity hnodes =>
      cases hts
      obtain ⟨s₁, hrun, htook⟩ := named_complete he _ position hlength
        (.call harity hnodes) hwords₁ hdeclared hrest
      exact ⟨s₁, (bind_apply advance_apply).trans hrun, (Took.advance hhead).append htook⟩
  | read hconstant hmem hsuffix =>
      cases hts
      obtain ⟨s₁, hrun, htook⟩ := named_complete he _ position hlength
        (.read hconstant hmem hsuffix) hwords₁ hdeclared hrest
      exact ⟨s₁, (bind_apply advance_apply).trans hrun, (Took.advance hhead).append htook⟩

/-! ## Expressions -/

/-- A choice is read where its condition and the expressions in its parts are. -/
theorem choice_complete (he : CompleteTo bound e .choice declared)
    (hconnective : CompleteTo (bound + 1) (Parser.connective e) .connective declared) :
    CompleteTo (bound + 1) (Parser.choice e) .choice declared := by
  intro node ts hbound h s rest hwords hdeclared hrest
  cases h with
  | lift hlevel hts =>
      cases hlevel
      obtain ⟨s₁, hrun, htook⟩ := hconnective hbound hts hwords hdeclared (hrest.tighter rfl)
      -- A condition alone is followed by no question mark.
      have hquestion : s₁.words.head? ≠ some (.symbol .question) := by
        rw [htook.rest hwords]
        exact hrest.head?_ne rfl
      refine ⟨s₁, ?_, htook⟩
      rw [Parser.choice, bind_apply hrun, ifAccept_apply, if_neg hquestion]
      rfl
  | join hlevel hjoins => cases hjoins
  | @choice condition thenValue elseValue cs ts us hcs hts hus =>
      rw [List.append_assoc, List.cons_append, List.append_assoc] at hwords
      simp only [List.length_append, List.length_cons] at hbound
      obtain ⟨s₁, hrun₁, htook₁⟩ :=
        hconnective (by omega) hcs hwords hdeclared (ends_cons rfl)
      have hwords₁ := htook₁.rest hwords
      have hquestion := head?_of_words hwords₁
      have hdeclared₁ : s₁.advance.declared = declared := htook₁.declared.trans hdeclared
      obtain ⟨s₂, hrun₂, htook₂⟩ :=
        he (by omega) hts ((Took.advance hquestion).rest hwords₁) hdeclared₁ (ends_cons rfl)
      have hwords₂ := htook₂.rest ((Took.advance hquestion).rest hwords₁)
      have hcolon := head?_of_words hwords₂
      have hdeclared₂ : s₂.advance.declared = declared := htook₂.declared.trans hdeclared₁
      obtain ⟨s₃, hrun₃, htook₃⟩ :=
        he (by omega) hus ((Took.advance hcolon).rest hwords₂) hdeclared₂ hrest
      refine ⟨s₃, ?_, htook₁.append ((Took.advance hquestion).append
        (htook₂.append ((Took.advance hcolon).append htook₃)))⟩
      rw [Parser.choice, bind_apply hrun₁, ifAccept_apply, if_pos hquestion, bind_apply hrun₂,
        bind_expectSymbol_eq_ok]
      refine ⟨hcolon, ?_⟩
      rw [bind_apply hrun₃]
      rfl

/-- Every level reads one token more than the parser for the expressions inside. -/
theorem parser_complete (he : CompleteTo bound e .choice declared) (level : Level) :
    CompleteTo (bound + 1) (level.parser e) level declared := by
  have hproduct : CompleteTo (bound + 1) (Level.product.parser e) .product declared :=
    joined_complete .product (primary_complete he)
  have hsum : CompleteTo (bound + 1) (Level.sum.parser e) .sum declared :=
    joined_complete .sum hproduct
  have hnegation : CompleteTo (bound + 1) (Level.negation.parser e) .negation declared := by
    intro node ts hbound h s rest hwords hdeclared hrest
    rw [Level.parser, bind_apply remaining_apply]
    have hroom : ts.length ≤ s.words.length := by simp [hwords]
    exact negation_complete hsum hbound h _ hroom hwords hdeclared hrest
  have hcomparison : CompleteTo (bound + 1) (Level.comparison.parser e) .comparison declared :=
    joined_complete .comparison hnegation
  have hconnective : CompleteTo (bound + 1) (Level.connective.parser e) .connective declared :=
    joined_complete .connective hcomparison
  -- Each level is complete because the one below it is, so all of them are shown before one is
  -- chosen.
  cases level with
  | choice => exact choice_complete he hconnective
  | connective => exact hconnective
  | comparison => exact hcomparison
  | negation => exact hnegation
  | sum => exact hsum
  | product => exact hproduct
  | operand => exact primary_complete he

/-- Expressions are read, by induction on the number of words that they may have. -/
theorem expressionWithin_complete (bound : Nat) :
    CompleteTo bound (expressionWithin bound) .choice declared := by
  induction bound with
  | zero =>
      intro node ts hbound h
      obtain ⟨t, us, rfl, -⟩ := h.exists_cons
      cases hbound
  | succ bound ih => exact parser_complete ih .choice

theorem expression_complete {bound : Nat} : CompleteTo bound expression .choice declared := by
  intro node ts hbound h s rest hwords hdeclared hrest
  rw [expression, bind_apply remaining_apply]
  have hroom : ts.length ≤ s.words.length := by simp [hwords]
  exact expressionWithin_complete _ hroom h hwords hdeclared hrest

/-! ## Simple statements -/

/-- A parser reads a statement from the tokens `ts` wherever no `else` follows that the statement
    could take, and declares the names `after`. -/
def ReadsStatement (p : Parser Node) (declared : List String) (inLoop : Bool) (node : Node)
    (ts : List Token) (after : List String) : Prop :=
  ∀ ⦃s rest⦄, s.words = ts ++ rest → s.declared = declared → decide (0 < s.loopDepth) = inLoop →
    Settled node rest → ∃ s', p s = .ok node s' ∧ Passed ts after s s'

variable {inLoop : Bool}

theorem declaration_complete {name : String} {value : Node} {ts : List Token}
    (hfresh : name ∉ declared) (hconstant : Vocabulary.isConstant name = false)
    (hcommand : Vocabulary.isCommand name = false)
    (hvalue : Derives declared (.value .choice value) ts) :
    ReadsStatement declaration declared inLoop (.declare name value)
      (.identifier name :: .symbol .assign :: (ts ++ [.symbol .semicolon])) (name :: declared) := by
  intro s rest hwords hdeclared hloop _
  obtain ⟨position, hahead⟩ := ahead_of_words hwords
  have hname := head?_of_words hwords
  have hwords₁ := (Took.advance hname).rest hwords
  have hassign := head?_of_words hwords₁
  have hwords₂ : s.advance.advance.words = ts ++ (.symbol .semicolon :: rest) := by
    simpa using (Took.advance hassign).rest hwords₁
  obtain ⟨s₁, hrun, htook⟩ :=
    expression_complete (Nat.le_refl _) hvalue hwords₂ hdeclared (ends_cons rfl)
  have hsemicolon := head?_of_words (htook.rest hwords₂)
  have htooks := (Took.advance hname).append ((Took.advance hassign).append
    (htook.append (Took.advance hsemicolon)))
  have hgood : ¬ (s.advance.declared.contains name || Vocabulary.isConstant name ||
      Vocabulary.isCommand name) = true := by
    simpa [hdeclared, hconstant, hcommand] using hfresh
  -- The name is known only behind the declaration, and not yet in its value.
  refine ⟨{ s₁.advance with declared := name :: s₁.advance.declared }, ?_,
    ⟨htooks.words, ?_, htooks.loopDepth⟩⟩
  · rw [declaration, bind_apply peek?_apply, hahead]
    show (Parser.advance >>= _) s = _
    rw [bind_apply advance_apply, bind_apply (isDeclared_apply name), if_neg hgood,
      bind_expectSymbol_eq_ok]
    refine ⟨hassign, ?_⟩
    rw [bind_apply hrun, bind_expectSymbol_eq_ok]
    exact ⟨hsemicolon, rfl⟩
  · rw [← hdeclared]
    exact congrArg (List.cons name) htooks.declared

theorem command_complete {kind : Vocabulary.Command} (position : Position) {nodes : List Node}
    {ts : List Token} (harity : kind.arity = nodes.length)
    (hnodes : Derives declared (.arguments nodes) ts) :
    ReadsStatement (command kind position) declared inLoop (.call kind.name nodes)
      (.symbol .leftParen :: (ts ++ [.symbol .rightParen, .symbol .semicolon])) declared := by
  intro s rest hwords hdeclared hloop _
  have hleft := head?_of_words hwords
  have hwords₁ :
      s.advance.words = (ts ++ [.symbol .rightParen]) ++ (.symbol .semicolon :: rest) := by
    simpa using (Took.advance hleft).rest hwords
  obtain ⟨s₁, hrun, htook⟩ := arguments_complete expression_complete (Nat.le_refl _) hnodes
    hwords₁ hdeclared trivial
  have hsemicolon := head?_of_words (htook.rest hwords₁)
  have htooks := (Took.advance hleft).append (htook.append (Took.advance hsemicolon))
  refine ⟨s₁.advance, ?_, ?_⟩
  · -- The number of arguments is the one that is checked.
    rw [command, bind_expectSymbol_eq_ok]
    refine ⟨hleft, ?_⟩
    rw [bind_apply hrun, bind_apply (checkArity_eq_ok.mpr ⟨harity, rfl⟩), bind_expectSymbol_eq_ok]
    exact ⟨hsemicolon, rfl⟩
  · rw [← hdeclared]
    simpa using htooks

theorem assignment_complete {name : String} (position : Position) {index : Option Node}
    {property : Option String} {value : Node} {ss ts : List Token} (hmem : name ∈ declared)
    (hsuffix : Derives declared (.suffix index property) ss)
    (hvalue : Derives declared (.value .choice value) ts) :
    ReadsStatement (assignment name position) declared inLoop (.assign name index property value)
      (ss ++ .symbol .assign :: (ts ++ [.symbol .semicolon])) declared := by
  intro s rest hwords hdeclared hloop _
  -- The tokens are split as the parser takes them: what follows the name, the sign, the value, the
  -- semicolon.
  have hmatch : s.words = ss ++ (.symbol .assign :: (ts ++ (.symbol .semicolon :: rest))) := by
    simpa using hwords
  obtain ⟨s₁, hrun₁, htook₁⟩ := suffix_complete expression_complete name position (Nat.le_refl _)
    hsuffix hmatch hdeclared (ends_cons rfl)
  have hwords₁ := htook₁.rest hmatch
  have hassign := head?_of_words hwords₁
  have hwords₂ := (Took.advance hassign).rest hwords₁
  have hdeclared₁ : s₁.advance.declared = declared := htook₁.declared.trans hdeclared
  obtain ⟨s₂, hrun₂, htook₂⟩ :=
    expression_complete (Nat.le_refl _) hvalue hwords₂ hdeclared₁ (ends_cons rfl)
  have hsemicolon := head?_of_words (htook₂.rest hwords₂)
  have htooks := htook₁.append ((Took.advance hassign).append
    (htook₂.append (Took.advance hsemicolon)))
  have hcontains : ¬ (!s.declared.contains name) = true := by
    simpa [hdeclared] using hmem
  -- All parts have been read, and the run is put together from them.
  refine ⟨s₂.advance, ?_, hdeclared ▸ htooks⟩
  rw [assignment, bind_apply (isDeclared_apply name), if_neg hcontains]
  show (suffix expression name position >>= _) s = _
  rw [bind_apply hrun₁]
  show (expectSymbol .assign >>= _) s₁ = _
  rw [bind_expectSymbol_eq_ok]
  refine ⟨hassign, ?_⟩
  rw [bind_apply hrun₂, bind_expectSymbol_eq_ok]
  exact ⟨hsemicolon, rfl⟩

theorem loopControl_complete (kind : LoopControl) (position : Position) :
    ReadsStatement (loopControl kind position) declared true (.control kind)
      [.symbol .semicolon] declared := by
  intro s rest hwords hdeclared hloop _
  have hdepth : ¬ s.loopDepth = 0 := by
    have hpositive := of_decide_eq_true hloop
    omega
  have hsemicolon := head?_of_words hwords
  refine ⟨s.advance, ?_, hdeclared ▸ Took.advance hsemicolon⟩
  have hget : (get : Parser ParserState) s = .ok s s := rfl
  rw [loopControl, bind_apply hget, if_neg hdepth, bind_expectSymbol_eq_ok]
  exact ⟨hsemicolon, rfl⟩

theorem deviceStatement_complete (position : Position) {ts : List Token} {config : DeviceConfig}
    (h : DeviceArguments ts config) :
    ReadsStatement (deviceStatement position) declared inLoop (.device config)
      (.symbol .leftParen :: (ts ++ [.symbol .rightParen, .symbol .semicolon])) declared := by
  intro s rest hwords hdeclared hloop _
  have hmatch : s.words = (.symbol .leftParen :: (ts ++ [.symbol .rightParen])) ++
      (.symbol .semicolon :: rest) := by
    simpa using hwords
  obtain ⟨s₁, hrun, htook⟩ := device_complete position h hmatch hdeclared trivial
  have hsemicolon := head?_of_words (htook.rest hmatch)
  have htooks := htook.append (Took.advance hsemicolon)
  refine ⟨s₁.advance, ?_, ?_⟩
  · rw [deviceStatement, bind_apply hrun, bind_expectSymbol_eq_ok]
    exact ⟨hsemicolon, rfl⟩
  · rw [← hdeclared]
    simpa using htooks

/-- A condition is read with its parentheses. -/
theorem condition_complete {node : Node} {cs : List Token}
    (h : Derives declared (.value .choice node) cs) :
    Reads condition (fun _ => True) declared node
      (.symbol .leftParen :: (cs ++ [.symbol .rightParen])) := by
  intro s rest hwords hdeclared _
  have hleft := head?_of_words hwords
  have hwords₁ : s.advance.words = cs ++ (.symbol .rightParen :: rest) := by
    simpa using (Took.advance hleft).rest hwords
  obtain ⟨s₁, hrun, htook⟩ :=
    expression_complete (Nat.le_refl _) h hwords₁ hdeclared (ends_cons rfl)
  have hright := head?_of_words (htook.rest hwords₁)
  refine ⟨s₁.advance, ?_, (Took.advance hleft).append (htook.append (Took.advance hright))⟩
  rw [condition, bind_expectSymbol_eq_ok]
  refine ⟨hleft, ?_⟩
  rw [bind_apply hrun, bind_expectSymbol_eq_ok]
  exact ⟨hright, rfl⟩

/-! ## Compound statements -/

/-- No statement starts with the words that go on with a choice. -/
theorem Forms.exists_cons {after : List String} {node : Node} {ts : List Token}
    (h : Forms declared inLoop (.statement node) ts after) :
    ∃ t us, ts = t :: us ∧ t ≠ .keyword .elseIf ∧ t ≠ .keyword .otherwise ∧
      t ≠ .symbol .rightBrace := by
  cases h <;> exact ⟨_, _, rfl, by simp, by simp, by simp⟩

/-- In a sequence no statement is followed by an `else`. -/
theorem Forms.settled {after : List String} {nodes : List Node} {us rest : List Token}
    (h : Forms declared inLoop (.sequence nodes) us after) (node : Node)
    (hrest : rest.head? ≠ some (.keyword .elseIf) ∧ rest.head? ≠ some (.keyword .otherwise)) :
    Settled node (us ++ rest) := by
  intro _
  cases h with
  | done => exact hrest
  | next hfirst hothers =>
      obtain ⟨t, us, rfl, helseIf, hotherwise, -⟩ := hfirst.exists_cons
      simp [helseIf, hotherwise]

/-- A body is read inside of the loop, and afterwards as many loops are around as before. -/
theorem inLoop_complete {p : Parser Node} {node : Node} {ts : List Token} {after : List String}
    (h : ReadsStatement p declared true node ts after) {s : ParserState} {rest : List Token}
    (hwords : s.words = ts ++ rest) (hdeclared : s.declared = declared)
    (hrest : Settled node rest) :
    ∃ s', Parser.inLoop p s = .ok node s' ∧ Passed ts after s s' := by
  obtain ⟨t, hrun, hpassed⟩ := h (s := { s with loopDepth := s.loopDepth + 1 }) hwords hdeclared
    (decide_eq_true (Nat.succ_pos _)) hrest
  have hdepth : t.loopDepth = s.loopDepth + 1 := hpassed.loopDepth
  refine ⟨{ t with loopDepth := t.loopDepth - 1 }, inLoop_eq_ok.mpr ⟨t, hrun, rfl⟩,
    ⟨hpassed.words, hpassed.declared, ?_⟩⟩
  show t.loopDepth - 1 = s.loopDepth
  omega

/-- What it means that a sentence is read, whatever room there is beyond what its tokens need.  A
    choice is also read from behind its keyword, as it is after `elif`. -/
def Accepted (declared : List String) (inLoop : Bool) (ts : List Token) (after : List String) :
    Sentence → Prop
  | .statement node =>
      (∀ bound, ts.length ≤ bound →
        ReadsStatement (statementWithin bound) declared inLoop node ts after) ∧
      (∀ us, ts = .keyword .ifThen :: us → ∀ bound, us.length ≤ bound →
        ReadsStatement (branchWithin bound) declared inLoop node us after)
  | .sequence nodes =>
      ∀ bound room, ts.length ≤ bound → ts.length < room → ∀ ⦃s rest⦄,
        s.words = ts ++ (.symbol .rightBrace :: rest) → s.declared = declared →
        decide (0 < s.loopDepth) = inLoop →
        ∃ s', blockBody (statementWithin bound) room s = .ok nodes s' ∧
          Passed (ts ++ [.symbol .rightBrace]) after s s'

/-- A statement is read if the parser that its first token leads to reads the rest of it. -/
theorem statement_complete {t : Token} {us : List Token} {after : List String} {node : Node}
    {p : Nat → Position → Parser Node}
    (hleads : ∀ (bound : Nat) (position : Position) (s : ParserState),
      s.ahead.head? = some ⟨t, position⟩ →
      statementWithin (bound + 1) s = p bound position s.advance)
    (h : ∀ (bound : Nat) (position : Position), us.length ≤ bound →
      ReadsStatement (p bound position) declared inLoop node us after) (bound : Nat)
    (hbound : (t :: us).length ≤ bound) :
    ReadsStatement (statementWithin bound) declared inLoop node (t :: us) after := by
  intro s rest hwords hdeclared hloop hrest
  rw [List.length_cons] at hbound
  obtain ⟨bound, rfl⟩ : ∃ less, bound = less + 1 := ⟨bound - 1, by omega⟩
  obtain ⟨position, hahead⟩ := ahead_of_words hwords
  have htook := Took.advance (head?_of_words hwords)
  obtain ⟨s', hrun, hpassed⟩ :=
    h bound position (by omega) (htook.rest hwords) hdeclared hloop hrest
  rw [hleads bound position s hahead]
  exact ⟨s', hrun, htook.before hpassed⟩

/-- A statement other than a choice is read only from its first token on. -/
theorem accepted_of_lead {t : Token} {us : List Token} {after : List String} {node : Node}
    (p : Nat → Position → Parser Node) (ht : t ≠ .keyword .ifThen)
    (hleads : ∀ (bound : Nat) (position : Position) (s : ParserState),
      s.ahead.head? = some ⟨t, position⟩ →
      statementWithin (bound + 1) s = p bound position s.advance)
    (h : ∀ (bound : Nat) (position : Position), us.length ≤ bound →
      ReadsStatement (p bound position) declared inLoop node us after) :
    Accepted declared inLoop (t :: us) after (.statement node) := by
  refine ⟨statement_complete hleads h, ?_⟩
  intro vs hvs
  cases hvs
  exact absurd rfl ht

/-- A choice is read if it is read from behind its keyword. -/
theorem accepted_of_branch {us : List Token} {after : List String} {node : Node}
    (h : ∀ bound, us.length ≤ bound →
      ReadsStatement (branchWithin bound) declared inLoop node us after) :
    Accepted declared inLoop (.keyword .ifThen :: us) after (.statement node) := by
  constructor
  · apply statement_complete
    · intro bound position s hahead
      rw [statementWithin, bind_apply peek?_apply, hahead]
      rfl
    · intro bound position hbound
      exact h bound hbound
  · intro vs hvs bound hbound
    cases hvs
    exact h bound hbound

/-- What is read after the first branch of a choice. -/
def otherBranch (bound : Nat) (test thenBranch : Node) : Parser Node := do
  if ← accept (.keyword .elseIf) then
    return .branch test thenBranch (some (← branchWithin bound))
  else if ← accept (.keyword .otherwise) then
    return .branch test thenBranch (some (← statementWithin bound))
  else return .branch test thenBranch none

/-- The condition and the first branch of a choice, before tokens `vs` that complete it. -/
theorem branch_complete {between after : List String} {test thenBranch node : Node}
    {cs ts vs : List Token} (hcs : Derives declared (.value .choice test) cs)
    (hts : Accepted declared inLoop ts between (.statement thenBranch))
    (hsettled : ∀ rest, Settled node rest → Settled thenBranch (vs ++ rest))
    (hvs : ∀ bound, vs.length ≤ bound →
      ReadsStatement (otherBranch bound test thenBranch) between inLoop node vs after) :
    Accepted declared inLoop
      (.keyword .ifThen :: .symbol .leftParen :: (cs ++ .symbol .rightParen :: (ts ++ vs))) after
      (.statement node) := by
  apply accepted_of_branch
  intro bound hbound s rest hwords hdeclared hloop hrest
  simp only [List.length_cons, List.length_append] at hbound
  -- The choice has used up one level of nesting, and its branches are read with the rest.
  obtain ⟨bound, rfl⟩ : ∃ less, bound = less + 1 := ⟨bound - 1, by omega⟩
  have hmatch : s.words = (.symbol .leftParen :: (cs ++ [.symbol .rightParen])) ++
      (ts ++ (vs ++ rest)) := by
    simpa using hwords
  obtain ⟨s₁, hrun₁, htook⟩ := condition_complete hcs hmatch hdeclared trivial
  have hwords₁ := htook.rest hmatch
  have hdeclared₁ : s₁.declared = declared := htook.declared.trans hdeclared
  have hloop₁ : decide (0 < s₁.loopDepth) = inLoop := by rw [htook.loopDepth, hloop]
  obtain ⟨s₂, hrun₂, hpassed₂⟩ :=
    hts.1 bound (by omega) hwords₁ hdeclared₁ hloop₁ (hsettled rest hrest)
  have hloop₂ : decide (0 < s₂.loopDepth) = inLoop := by rw [hpassed₂.loopDepth, hloop₁]
  obtain ⟨s₃, hrun₃, hpassed₃⟩ :=
    hvs bound (by omega) (hpassed₂.rest hwords₁) hpassed₂.declared hloop₂ hrest
  refine ⟨s₃, ?_, ?_⟩
  · -- Condition, branch and what follows are read one behind the other, each from where the last
    -- has stopped.
    rw [branchWithin, bind_apply hrun₁, bind_apply hrun₂]
    exact hrun₃
  · have hpassed := htook.before (hpassed₂.append hpassed₃)
    simpa using hpassed

theorem loop_accepted {after : List String} {body : Node} {ts : List Token}
    (hbody : Accepted declared true ts after (.statement body)) :
    Accepted declared inLoop (.keyword .loop :: ts) after (.statement (.loop body)) := by
  refine accepted_of_lead (fun bound _ => .loop <$> Parser.inLoop (statementWithin bound))
    (by simp) ?_ ?_
  · intro bound position s hahead
    rw [statementWithin, bind_apply peek?_apply, hahead]
    rfl
  · intro bound position hbound s rest hwords hdeclared hloop hrest
    obtain ⟨s₁, hrun, hpassed⟩ := inLoop_complete (hbody.1 bound hbound) hwords hdeclared hrest
    exact ⟨s₁, bind_apply hrun, hpassed⟩

theorem whileLoop_accepted {after : List String} {test body : Node} {cs ts : List Token}
    (hcs : Derives declared (.value .choice test) cs)
    (hbody : Accepted declared true ts after (.statement body)) :
    Accepted declared inLoop
      (.keyword .whileLoop :: .symbol .leftParen :: (cs ++ .symbol .rightParen :: ts)) after
      (.statement (.whileLoop test body)) := by
  refine accepted_of_lead (fun bound _ => condition >>= fun test =>
    .whileLoop test <$> Parser.inLoop (statementWithin bound)) (by simp) ?_ ?_
  · intro bound position s hahead
    rw [statementWithin, bind_apply peek?_apply, hahead]
    rfl
  · intro bound position hbound s rest hwords hdeclared hloop hrest
    simp only [List.length_cons, List.length_append] at hbound
    have hmatch : s.words =
        (.symbol .leftParen :: (cs ++ [.symbol .rightParen])) ++ (ts ++ rest) := by
      simpa using hwords
    -- The condition declares nothing, so that the body is read with the names from before.
    obtain ⟨s₁, hrun₁, htook⟩ := condition_complete hcs hmatch hdeclared trivial
    have hdeclared₁ : s₁.declared = declared := htook.declared.trans hdeclared
    obtain ⟨s₂, hrun₂, hpassed⟩ := inLoop_complete (hbody.1 bound (by omega))
      (htook.rest hmatch) hdeclared₁ hrest
    refine ⟨s₂, ?_, ?_⟩
    · rw [bind_apply hrun₁]
      exact bind_apply hrun₂
    · simpa using htook.before hpassed

/-- A choice without an `else` ends with its branch, since nothing follows that would go on with
    it. -/
theorem branch_accepted {after : List String} {test thenBranch : Node} {cs ts : List Token}
    (hcs : Derives declared (.value .choice test) cs)
    (hthen : Accepted declared inLoop ts after (.statement thenBranch)) :
    Accepted declared inLoop
      (.keyword .ifThen :: .symbol .leftParen :: (cs ++ .symbol .rightParen :: ts)) after
      (.statement (.branch test thenBranch none)) := by
  have hsettled : ∀ rest, Settled (.branch test thenBranch none) rest →
      Settled thenBranch ([] ++ rest) := by
    intro rest hrest _
    exact hrest rfl
  have hbranch := branch_complete hcs hthen hsettled <| by
    intro bound hbound s rest hwords hdeclared hloop hrest
    obtain ⟨helseIf, hotherwise⟩ := hrest rfl
    rw [List.nil_append] at hwords
    rw [← hwords] at helseIf hotherwise
    refine ⟨s, ?_, ⟨rfl, hdeclared, rfl⟩⟩
    rw [otherBranch, ifAccept_apply, if_neg helseIf, ifAccept_apply, if_neg hotherwise]
    rfl
  simpa using hbranch

theorem branchElse_accepted {between after : List String} {test thenBranch elseBranch : Node}
    {cs ts us : List Token} (hcs : Derives declared (.value .choice test) cs)
    (hthen : Accepted declared inLoop ts between (.statement thenBranch))
    (hclosed : thenBranch.isOpen = false)
    (helse : Accepted between inLoop us after (.statement elseBranch)) :
    Accepted declared inLoop
      (.keyword .ifThen :: .symbol .leftParen ::
        (cs ++ .symbol .rightParen :: (ts ++ .keyword .otherwise :: us))) after
      (.statement (.branch test thenBranch (some elseBranch))) := by
  apply branch_complete hcs hthen
  · intro rest hrest
    exact settled_of_closed hclosed
  · intro bound hbound s rest hwords hdeclared hloop hrest
    rw [List.length_cons] at hbound
    have hotherwise := head?_of_words hwords
    have helseIf : s.words.head? ≠ some (.keyword .elseIf) := by simp [hotherwise]
    obtain ⟨s₁, hrun, hpassed⟩ := helse.1 bound (by omega)
      ((Took.advance hotherwise).rest hwords) hdeclared hloop hrest
    refine ⟨s₁, ?_, (Took.advance hotherwise).before hpassed⟩
    rw [otherBranch, ifAccept_apply, if_neg helseIf, ifAccept_apply, if_pos hotherwise,
      bind_apply hrun]
    rfl

/-- The choice behind an `elif` is read without the keyword that starts its derivation. -/
theorem branchElseIf_accepted {between after : List String} {test thenBranch elseBranch : Node}
    {cs ts us : List Token} (hcs : Derives declared (.value .choice test) cs)
    (hthen : Accepted declared inLoop ts between (.statement thenBranch))
    (hclosed : thenBranch.isOpen = false)
    (helse : Accepted between inLoop (.keyword .ifThen :: us) after (.statement elseBranch)) :
    Accepted declared inLoop
      (.keyword .ifThen :: .symbol .leftParen ::
        (cs ++ .symbol .rightParen :: (ts ++ .keyword .elseIf :: us))) after
      (.statement (.branch test thenBranch (some elseBranch))) := by
  apply branch_complete hcs hthen
  · intro rest hrest
    exact settled_of_closed hclosed
  · intro bound hbound s rest hwords hdeclared hloop hrest
    rw [List.length_cons] at hbound
    have helseIf := head?_of_words hwords
    obtain ⟨s₁, hrun, hpassed⟩ := helse.2 us rfl bound (by omega)
      ((Took.advance helseIf).rest hwords) hdeclared hloop hrest
    refine ⟨s₁, ?_, (Took.advance helseIf).before hpassed⟩
    rw [otherBranch, ifAccept_apply, if_pos helseIf, bind_apply hrun]
    rfl

theorem block_accepted {after : List String} {nodes : List Node} {ts : List Token}
    (hnodes : Accepted declared inLoop ts after (.sequence nodes)) :
    Accepted declared inLoop (.symbol .leftBrace :: (ts ++ [.symbol .rightBrace])) after
      (.statement (.block nodes)) := by
  refine accepted_of_lead (fun bound _ => remaining >>= fun room =>
    .block <$> blockBody (statementWithin bound) room) (by simp) ?_ ?_
  · intro bound position s hahead
    rw [statementWithin, bind_apply peek?_apply, hahead]
    rfl
  · intro bound position hbound s rest hwords hdeclared hloop hrest
    rw [List.length_append] at hbound
    rw [List.append_assoc] at hwords
    have hroom : ts.length < s.words.length := by simp [hwords]
    obtain ⟨s₁, hrun, hpassed⟩ :=
      hnodes bound s.words.length (by omega) hroom hwords hdeclared hloop
    refine ⟨s₁, ?_, hpassed⟩
    rw [bind_apply remaining_apply]
    exact bind_apply hrun

theorem nil_accepted : Accepted declared inLoop [] declared (.sequence []) := by
  intro bound room hbound hroom s rest hwords hdeclared hloop
  obtain ⟨room, rfl⟩ : ∃ less, room = less + 1 := ⟨room - 1, by omega⟩
  have hbrace := head?_of_words hwords
  refine ⟨s.advance, ?_, hdeclared ▸ Took.advance hbrace⟩
  rw [blockBody, bind_apply peek?_apply, ← head?_words, hbrace]
  rfl

/-- A statement and the ones behind it are accepted where each of both is. -/
theorem sequence_complete {between after : List String} {node : Node} {nodes : List Node}
    {ts us : List Token} (hts : Accepted declared inLoop ts between (.statement node))
    (hus : Accepted between inLoop us after (.sequence nodes))
    (hfirst : Forms declared inLoop (.statement node) ts between)
    (hothers : Forms between inLoop (.sequence nodes) us after) :
    Accepted declared inLoop (ts ++ us) after (.sequence (node :: nodes)) := by
  intro bound room hbound hroom s rest hwords hdeclared hloop
  rw [List.length_append] at hbound hroom
  rw [List.append_assoc] at hwords
  obtain ⟨room, rfl⟩ : ∃ less, room = less + 1 := ⟨room - 1, by omega⟩
  obtain ⟨t, vs, hcons, -, -, hbrace⟩ := hfirst.exists_cons
  have hpositive : 0 < ts.length := by simp [hcons]
  have hsettled : Settled node (us ++ (.symbol .rightBrace :: rest)) :=
    hothers.settled node (by simp)
  obtain ⟨s₁, hrun₁, hpassed₁⟩ := hts.1 bound (by omega) hwords hdeclared hloop hsettled
  have hloop₁ : decide (0 < s₁.loopDepth) = inLoop := by rw [hpassed₁.loopDepth, hloop]
  obtain ⟨s₂, hrun₂, hpassed₂⟩ :=
    hus bound room (by omega) (by omega) (hpassed₁.rest hwords) hpassed₁.declared hloop₁
  refine ⟨s₂, ?_, ?_⟩
  · have hhead : s.words.head? = some t := by simp [hwords, hcons]
    -- A block goes on with a statement wherever no closing brace stands.
    have hgo : blockBody (statementWithin bound) (room + 1) s =
        (statementWithin bound >>= fun first =>
          blockBody (statementWithin bound) room >>= fun rest => pure (first :: rest)) s := by
      rw [blockBody, bind_apply peek?_apply, ← head?_words, hhead]
      refine congrFun ?_ s
      split
      · next h => exact absurd (Option.some.inj h) hbrace
      · next h => cases h
      · rfl
    rw [hgo, bind_apply hrun₁, bind_apply hrun₂]
    rfl
  · have hpassed := hpassed₁.append hpassed₂
    simpa using hpassed

/-- **Every sentence of the grammar is read.**  By induction on its derivation. -/
theorem Forms.accepted {after : List String} {sentence : Sentence} {ts : List Token}
    (h : Forms declared inLoop sentence ts after) :
    Accepted declared inLoop ts after sentence := by
  induction h with
  | declare hfresh hconstant hcommand hvalue =>
      refine accepted_of_lead (fun _ _ => declaration) (by simp) ?_ ?_
      · intro bound position s hahead
        rw [statementWithin, bind_apply peek?_apply, hahead]
        rfl
      · intro bound position hbound
        exact declaration_complete hfresh hconstant hcommand hvalue
  | @assign declared inLoop name index property value ss ts hmem hcommand hsuffix hvalue =>
      refine accepted_of_lead (fun _ position => assignment name position) (by simp) ?_ ?_
      · intro bound position s hahead
        -- A name starts an assignment unless it is that of a command.
        have hname : Vocabulary.Command.ofName? name = none := by
          simpa [Vocabulary.isCommand] using hcommand
        rw [statementWithin, bind_apply peek?_apply, hahead]
        show (Parser.advance >>= _) s = _
        rw [bind_apply advance_apply, hname]
      · intro bound position hbound
        exact assignment_complete position hmem hsuffix hvalue
  | loop _ ih => exact loop_accepted ih
  | whileLoop hcs _ ih => exact whileLoop_accepted hcs ih
  | branch hcs _ ih => exact branch_accepted hcs ih
  | branchElse hcs _ hclosed _ ihthen ihelse =>
      exact branchElse_accepted hcs ihthen hclosed ihelse
  | branchElseIf hcs _ hclosed _ ihthen ihelse =>
      exact branchElseIf_accepted hcs ihthen hclosed ihelse
  | leave =>
      refine accepted_of_lead (fun _ position => loopControl .leave position) (by simp) ?_ ?_
      · intro bound position s hahead
        rw [statementWithin, bind_apply peek?_apply, hahead]
        rfl
      · intro bound position hbound
        exact loopControl_complete .leave position
  | again =>
      refine accepted_of_lead (fun _ position => loopControl .again position) (by simp) ?_ ?_
      · intro bound position s hahead
        rw [statementWithin, bind_apply peek?_apply, hahead]
        rfl
      · intro bound position hbound
        exact loopControl_complete .again position
  | device hts =>
      refine accepted_of_lead (fun _ position => deviceStatement position) (by simp) ?_ ?_
      · intro bound position s hahead
        rw [statementWithin, bind_apply peek?_apply, hahead]
        rfl
      · intro bound position hbound
        exact deviceStatement_complete position hts
  | @command declared inLoop kind nodes ts harity hnodes =>
      refine accepted_of_lead (fun _ position => Parser.command kind position) (by simp) ?_ ?_
      · intro bound position s hahead
        rw [statementWithin, bind_apply peek?_apply, hahead]
        show (Parser.advance >>= _) s = _
        rw [bind_apply advance_apply, Vocabulary.Command.ofName?_name]
      · intro bound position hbound
        exact command_complete position harity hnodes
  | block _ ih => exact block_accepted ih
  | done => exact nil_accepted
  | next hfirst hothers ihfirst ihothers =>
    exact sequence_complete ihfirst ihothers hfirst hothers

/-! ## Scripts -/

theorem statements_complete (nodes : List Node) :
    ∀ {declared after : List String} {ts : List Token} {s : ParserState} (bound : Nat),
      Forms declared inLoop (.sequence nodes) ts after → s.words = ts → s.declared = declared →
      decide (0 < s.loopDepth) = inLoop → ts.length ≤ bound →
      ∃ s', statements bound s = .ok nodes s' := by
  induction nodes with
  | nil =>
      intro declared after ts s bound h hwords hdeclared hloop hbound
      cases h
      refine ⟨s, ?_⟩
      cases bound with
      | zero => rfl
      | succ bound =>
          have hahead : s.ahead.head? = none := by
            simpa [ParserState.words] using hwords
          rw [statements, bind_apply peek?_apply, hahead]
          rfl
  | cons node nodes ih =>
      intro declared after ts s bound h hwords hdeclared hloop hbound
      cases h with
      | @next _ between _ _ _ _ ts us hfirst hothers =>
          obtain ⟨t, vs, hcons, -⟩ := hfirst.exists_cons
          rw [List.length_append, hcons, List.length_cons] at hbound
          obtain ⟨bound, rfl⟩ : ∃ less, bound = less + 1 := ⟨bound - 1, by omega⟩
          -- At the end of the script nothing follows that a choice could take.
          have hsettled : Settled node us := by
            have hend : Settled node (us ++ []) := hothers.settled node (by simp)
            rwa [List.append_nil] at hend
          have hlength : ts.length ≤ s.words.length := by simp [hwords]
          obtain ⟨s₁, hrun₁, hpassed⟩ :=
            hfirst.accepted.1 s.words.length hlength hwords hdeclared hloop hsettled
          have hloop₁ : decide (0 < s₁.loopDepth) = inLoop := by rw [hpassed.loopDepth, hloop]
          obtain ⟨s₂, hrun₂⟩ := ih bound hothers (hpassed.rest hwords) hpassed.declared hloop₁
            (by omega)
          refine ⟨s₂, ?_⟩
          obtain ⟨position, hahead⟩ : ∃ position, s.ahead.head? = some ⟨t, position⟩ :=
            ahead_of_words (by rw [hwords, hcons]; rfl)
          have hstatement : statement s = .ok node s₁ := by
            rw [statement, bind_apply remaining_apply, hrun₁]
          rw [statements, bind_apply peek?_apply, hahead]
          show (statement >>= _) s = _
          rw [bind_apply hstatement, bind_apply hrun₂]
          rfl

/-- What the grammar derives is read to the end of the words. -/
theorem program_complete {tokens : List PlacedToken} {nodes : List Node}
    (h : Script (ofTokens tokens).words nodes) :
    ∃ s', Parser.program (ofTokens tokens) = .ok nodes s' := by
  obtain ⟨after, hforms⟩ := h
  have hstart : Parser.start (ofTokens tokens) = .ok () { ofTokens tokens with started := true } :=
    rfl
  rw [program, bind_apply hstart, bind_apply remaining_apply]
  exact statements_complete nodes _ hforms rfl rfl rfl (Nat.le_refl _)

/-- The tokens that a parser sees. -/
def uncommented (tokens : List PlacedToken) : List Token :=
  (tokens.map PlacedToken.token).filter fun t => !t.isComment

theorem words_ofTokens (tokens : List PlacedToken) :
    (ofTokens tokens).words = uncommented tokens := by
  simp [ParserState.words, ofTokens, uncommented, List.filter_map, Function.comp_def]

theorem ofTokens_sound {tokens : List PlacedToken} {program : Program}
    (h : Program.ofTokens tokens = .ok program) : Script (uncommented tokens) program := by
  unfold Program.ofTokens at h
  split at h
  · next nodes s' hrun =>
    cases h
    rw [← words_ofTokens]
    exact program_sound hrun
  · cases h

theorem ofTokens_complete {tokens : List PlacedToken} {program : Program}
    (h : Script (uncommented tokens) program) : Program.ofTokens tokens = .ok program := by
  rw [← words_ofTokens] at h
  obtain ⟨s', hrun⟩ := program_complete h
  have hresult : Parser.program.run (ofTokens tokens) = .ok program s' := hrun
  rw [Program.ofTokens, hresult]

/-- **The parser accepts exactly its grammar.**  Tokens form a script if and only if, without their
    comments, they derive it. -/
theorem ofTokens_eq_ok_iff (tokens : List PlacedToken) (program : Program) :
    Program.ofTokens tokens = .ok program ↔ Script (uncommented tokens) program :=
  ⟨ofTokens_sound, ofTokens_complete⟩

end ChipScript.Grammar
