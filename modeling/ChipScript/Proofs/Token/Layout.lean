import ChipScript.Proofs.Token.Partition

/-!
# Layout of lexemes

A text may be laid out anew: its lexemes stay, in their order, and any blanks and comments take the
place of those that stood between them.

* `Gap` and `LastGap` are what may stand between two lexemes and behind the last one.
* `Lexemes source xs` are the lexemes that a text is cut into, without its comments.
* `LaidOut xs text` says that a text has these lexemes, with a gap between any two of them.

A lexeme that stands before a gap determines the token that it determined where it was found
(`Reads.before_gap`): each class of tokens is ended by a blank, by the mark of a comment and by the
end of the text.  Hence a text that is laid out anew has the same tokens, but for comments
(`LaidOut.says`).
-/

namespace ChipScript

open Text Lexer

/-! ## Blanks are no part of a lexeme -/

/-- The codes of the blanks. -/
def blankCodes : List Nat :=
  [9, 10, 11, 12, 13, 32, 0x85, 0xa0, 0x1680, 0x2000, 0x2001, 0x2002, 0x2003, 0x2004, 0x2005,
    0x2006, 0x2007, 0x2008, 0x2009, 0x200a, 0x2028, 0x2029, 0x202f, 0x205f, 0x3000]

theorem mem_blankCodes {c : Char} (h : isBlank c = true) : c.toNat ∈ blankCodes := by
  have hcode : ∀ {d : Char}, (c == d) = true → c.toNat = d.toNat := by
    intro d hd
    rw [beq_iff_eq.mp hd]
  have hrange : ∀ {low high : Char}, (decide (low ≤ c) && decide (c ≤ high)) = true →
      low.toNat ≤ c.toNat ∧ c.toNat ≤ high.toNat := by
    intro low high hc
    simpa [Char.le_def, UInt32.le_iff_toNat_le] using hc
  -- Blanks are given by characters and by ranges of them, and both have codes on the list.
  simp only [isBlank, Bool.or_eq_true] at h
  simp only [blankCodes, List.mem_cons, List.not_mem_nil, or_false]
  rcases h with (((((((((h | h) | h) | h) | h) | h) | h) | h) | h) | h) | h
  · have hc := hrange h
    simp only [Char.reduceToNat] at hc
    omega
  all_goals first
    | (have hc := hcode h
       simp only [Char.reduceToNat] at hc
       omega)
    | (have hc := hrange h
       simp only [Char.reduceToNat] at hc
       omega)

/-- A blank ends a word. -/
theorem isBlank_not_isWord {c : Char} (h : isBlank c = true) : isWord c = false := by
  have hall : ∀ code ∈ blankCodes, isWord (Char.ofNat code) = false := by decide +kernel
  rw [← Char.ofNat_toNat c]
  exact hall _ (mem_blankCodes h)

theorem not_isDigit_of_not_isWord {c : Char} (h : isWord c = false) : c.isDigit = false := by
  by_contra hdigit
  rw [isDigit_isWord (Bool.not_eq_false _ ▸ hdigit)] at h
  cases h

/-! ## Gaps -/

/-- Blanks, and comments with the ends of their lines. -/
inductive Gap : List Char → Prop where
  | nil : Gap []
  | blank {c : Char} {cs : List Char} : isBlank c = true → Gap cs → Gap (c :: cs)
  | comment {body cs : List Char} :
      '\n' ∉ body → Gap cs → Gap ('#' :: (body ++ '\n' :: cs))

/-- What may stand behind the last lexeme.  There the end of the text can end a comment. -/
inductive LastGap : List Char → Prop where
  | gap {cs : List Char} : Gap cs → LastGap cs
  | comment {cs body : List Char} : Gap cs → '\n' ∉ body → LastGap (cs ++ '#' :: body)

/-- Further lexemes behind a lexeme, with a gap before each of them, and the last gap. -/
inductive Spaced : List (List Char) → List Char → Prop where
  | nil {cs : List Char} : LastGap cs → Spaced [] cs
  | cons {gap lexeme rest : List Char} {lexemes : List (List Char)} :
      Gap gap → gap ≠ [] → Spaced lexemes rest →
      Spaced (lexeme :: lexemes) (gap ++ (lexeme ++ rest))

/-- A text with the given lexemes in their order.  There is a gap between any two of them, and there
    may be one before the first and one behind the last. -/
inductive LaidOut : List (List Char) → List Char → Prop where
  | nil {cs : List Char} : LastGap cs → LaidOut [] cs
  | cons {gap lexeme rest : List Char} {lexemes : List (List Char)} :
      Gap gap → Spaced lexemes rest → LaidOut (lexeme :: lexemes) (gap ++ (lexeme ++ rest))

/-- Nothing is left, or a blank or a comment comes next. -/
def StartsGap (rest : List Char) : Prop :=
  ∀ c, rest.head? = some c → isBlank c = true ∨ c = '#'

theorem Gap.startsGap {gap : List Char} (h : Gap gap) (hne : gap ≠ []) (rest : List Char) :
    StartsGap (gap ++ rest) := by
  intro c hc
  cases h with
  | nil => exact absurd rfl hne
  | blank hblank _ =>
      cases hc
      exact .inl hblank
  | comment _ _ =>
      cases hc
      exact .inr rfl

theorem LastGap.startsGap {gap : List Char} (h : LastGap gap) : StartsGap gap := by
  cases h with
  | gap h =>
      by_cases hne : gap = []
      · subst hne
        intro c hc
        cases hc
      · have hstarts := h.startsGap hne []
        rwa [List.append_nil] at hstarts
  | @comment cs body h _ =>
      by_cases hne : cs = []
      · subst hne
        intro c hc
        cases hc
        exact .inr rfl
      · exact h.startsGap hne _

theorem Spaced.startsGap {lexemes : List (List Char)} {text : List Char} (h : Spaced lexemes text) :
    StartsGap text := by
  cases h with
  | nil h => exact h.startsGap
  | cons h hne _ => exact h.startsGap hne _

/-! ## Lexemes before a gap -/

namespace StartsGap

variable {rest : List Char}

theorem not_isWord (h : StartsGap rest) {c : Char} (hc : rest.head? = some c) :
    isWord c = false := by
  rcases h c hc with hblank | rfl
  · exact isBlank_not_isWord hblank
  · rfl

theorem head?_ne (h : StartsGap rest) {c : Char} (hblank : isBlank c = false) (hmark : c ≠ '#') :
    rest.head? ≠ some c := by
  intro hc
  rcases h c hc with hblank' | hmark'
  · rw [hblank] at hblank'
    cases hblank'
  · exact hmark hmark'

theorem startsNoWord (h : StartsGap rest) : startsNoWord rest = true := by
  cases rest with
  | nil => rfl
  | cons c rest => simp [Text.startsNoWord, h.not_isWord rfl]

theorem startsNoDigit (h : StartsGap rest) : StartsNoDigit rest :=
  fun _ hc => not_isDigit_of_not_isWord (h.not_isWord hc)

theorem startsNoFraction (h : StartsGap rest) : StartsNoFraction rest := by
  rintro c cs rfl
  exact absurd rfl (h.head?_ne (c := '.') (by decide) (by decide))

theorem endsSymbol (h : StartsGap rest) (sign : Symbol) : (Token.symbol sign).EndsBefore rest := by
  cases sign with
  -- A point goes on with a digit, and four symbols with an equals sign.
  | dot => exact h.startsNoDigit
  | assign | bang | less | greater => exact h.head?_ne (by decide) (by decide)
  | _ => trivial

end StartsGap

/-- **A lexeme before a gap determines the same token.** -/
theorem Reads.before_gap {t : Token} {text rest other : List Char} (h : Reads t text rest)
    (hcomment : t.isComment = false) (hgap : StartsGap other) : Reads t text other := by
  cases h with
  | comment => cases hcomment
  | string hquote => exact .string hquote
  | keyword word => exact .keyword word hgap.startsNoWord
  | identifier hname hkeyword => exact .identifier hname hkeyword hgap.startsNoWord
  | hexadecimal hne hds => exact .hexadecimal hne hds hgap.startsNoWord
  | binary hne hds => exact .binary hne hds hgap.startsNoWord
  | whole hne hds => exact .whole hne hds hgap.startsNoDigit hgap.startsNoFraction
  | fraction hds hne hes => exact .fraction hds hne hes hgap.startsNoDigit
  | symbol sign => exact .symbol sign (hgap.endsSymbol sign)

/-! ## Tokens of a text that is laid out -/

/-- The tokens that are no comments. -/
def spoken (ts : List Token) : List Token :=
  ts.filter fun t => !t.isComment

/-- A text is read as tokens, apart from comments, at whatever position it starts. -/
def Says (cs : List Char) (ts : List Token) : Prop :=
  ∃ all, Lexes cs all ∧ spoken all = ts

theorem Lexes.reads {t : Token} {text rest : List Char} {ts : List Token} (h : Reads t text rest)
    (hrest : Lexes rest ts) : Lexes (text ++ rest) (t :: ts) := by
  intro position
  obtain ⟨placed, hplaced, hts⟩ := hrest (position.afterAll text)
  have hempty : Blank [] := by simp [Blank]
  have hnext := Cursor.next_of_reads position hempty h
  refine ⟨⟨t, position⟩ :: placed, Cursor.tokens_of_next_ok hnext hplaced, ?_⟩
  rw [List.map_cons, hts]

namespace Says

variable {rest : List Char} {ts : List Token}

theorem nil : Says [] [] :=
  ⟨[], lexes_nil, rfl⟩

theorem blank {c : Char} (hc : isBlank c = true) (h : Says rest ts) : Says (c :: rest) ts := by
  obtain ⟨all, hall, hts⟩ := h
  exact ⟨all, hall.blank hc, hts⟩

theorem comment {body : List Char} (hbody : '\n' ∉ body)
    (hends : ∀ c, rest.head? = some c → c = '\n') (h : Says rest ts) :
    Says ('#' :: (body ++ rest)) ts := by
  obtain ⟨all, hall, hts⟩ := h
  exact ⟨_ :: all, hall.reads (.comment hbody hends), hts⟩

theorem lexeme {t : Token} {text : List Char} (hreads : Reads t text rest)
    (hcomment : t.isComment = false) (h : Says rest ts) : Says (text ++ rest) (t :: ts) := by
  obtain ⟨all, hall, hts⟩ := h
  refine ⟨t :: all, hall.reads hreads, ?_⟩
  rw [spoken, List.filter_cons_of_pos (by simp [hcomment]), ← hts]
  rfl

end Says

/-- A gap says nothing. -/
theorem Gap.says {gap rest : List Char} {ts : List Token} (h : Gap gap) (hrest : Says rest ts) :
    Says (gap ++ rest) ts := by
  induction h with
  | nil => exact hrest
  | blank hblank _ ih => exact ih.blank hblank
  | @comment body cs hbody _ ih =>
      -- The end of the line is no part of the comment, but a blank behind it.
      have hline : Says ('\n' :: (cs ++ rest)) ts := ih.blank isBlank_newline
      have hmarked := hline.comment hbody (by simp)
      simpa using hmarked

theorem LastGap.says {gap : List Char} (h : LastGap gap) : Says gap [] := by
  cases h with
  | gap h =>
      have hgap := h.says .nil
      rwa [List.append_nil] at hgap
  | @comment cs body h hbody =>
      have hmarked : Says ('#' :: (body ++ [])) [] := Says.nil.comment hbody (by simp)
      rw [List.append_nil] at hmarked
      exact h.says hmarked

/-- A lexeme with the token that it determines, which is no comment. -/
def Names (t : Token) (text : List Char) : Prop :=
  t.isComment = false ∧ ∃ rest, Reads t text rest

theorem Spaced.says {lexemes : List (List Char)} {text : List Char} (h : Spaced lexemes text)
    {ts : List Token} (hts : List.Forall₂ Names ts lexemes) : Says text ts := by
  induction h generalizing ts with
  | nil hgap =>
      cases hts
      exact hgap.says
  | cons hgap _ hspaced ih =>
      cases hts with
      | cons hname hnames =>
          -- The lexeme was read before another text, and before this one it reads the same.
          obtain ⟨hcomment, _, hreads⟩ := hname
          have hlexeme := hreads.before_gap hcomment hspaced.startsGap
          exact hgap.says ((ih hnames).lexeme hlexeme hcomment)

/-- **A text that is laid out says the tokens of its lexemes.** -/
theorem LaidOut.says {lexemes : List (List Char)} {text : List Char} (h : LaidOut lexemes text)
    {ts : List Token} (hts : List.Forall₂ Names ts lexemes) : Says text ts := by
  cases h with
  | nil hgap =>
      cases hts
      exact hgap.says
  | cons hgap hspaced =>
      cases hts with
      | cons hname hnames =>
          obtain ⟨hcomment, _, hreads⟩ := hname
          have hrest := hspaced.says hnames
          exact hgap.says (hrest.lexeme (hreads.before_gap hcomment hspaced.startsGap) hcomment)

/-! ## The lexemes of a text -/

/-- The lexemes of a cut that are no comments. -/
def lexemesOf (pieces : List (PlacedToken × List Char)) : List (List Char) :=
  (pieces.filter fun piece => !piece.1.token.isComment).map Prod.snd

/-- The lexemes that a text is cut into, without its comments. -/
def Lexemes (source : String) (lexemes : List (List Char)) : Prop :=
  ∃ before rest pieces, source.toList = before ++ rest ∧ Cut before rest pieces ∧ Blank rest ∧
    lexemes = lexemesOf pieces

/-- The tokens of a text, comments left out, are those of its lexemes. -/
theorem Cut.names {before rest : List Char} {pieces : List (PlacedToken × List Char)}
    (h : Cut before rest pieces) :
    List.Forall₂ Names (spoken ((tokensOf pieces).map PlacedToken.token)) (lexemesOf pieces) := by
  induction h with
  | start => exact .nil
  | @lexeme before blanks text rest t pieces _ _ hreads ih =>
      by_cases hcomment : t.isComment = true
      · simpa [tokensOf, lexemesOf, spoken, hcomment] using ih
      · have hname : Names t text := ⟨by simpa using hcomment, rest, hreads⟩
        have hlast := List.rel_append ih (List.Forall₂.cons hname .nil)
        simpa [tokensOf, lexemesOf, spoken, hcomment] using hlast

theorem lexemes_of_tokenize {source : String} {tokens : List PlacedToken}
    (h : tokenize source = .ok tokens) : ∃ lexemes, Lexemes source lexemes := by
  cases Cursor.run_cases (Cursor.ofText source.toList) (.start _) rfl with
  | completed hdone hcut hblank _ _ => exact ⟨_, _, _, _, hdone, hcut, hblank, rfl⟩
  | stopped _ _ _ _ _ htokens _ => cases htokens.symm.trans h

/-- **Layout makes no difference to the tokens.** -/
theorem tokenize_of_laidOut {source other : String} {tokens : List PlacedToken}
    {lexemes : List (List Char)} (h : tokenize source = .ok tokens)
    (hlexemes : Lexemes source lexemes) (hother : LaidOut lexemes other.toList) :
    ∃ others, tokenize other = .ok others ∧
      spoken (others.map PlacedToken.token) = spoken (tokens.map PlacedToken.token) := by
  obtain ⟨before, rest, pieces, hsource, hcut, hblank, rfl⟩ := hlexemes
  cases (hcut.tokenize_eq hblank hsource).symm.trans h
  -- The other text is read from its start, with whatever comments it has.
  obtain ⟨all, hall, hspoken⟩ := hother.says hcut.names
  obtain ⟨others, hothers, hmap⟩ := hall Position.start
  refine ⟨others, hothers, ?_⟩
  rw [hmap, hspoken]

end ChipScript
