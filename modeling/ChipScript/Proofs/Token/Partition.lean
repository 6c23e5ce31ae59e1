import ChipScript.Proofs.Token.Spelling

/-!
# A text is cut into lexemes

The lexer cuts a text into lexemes with blanks between them and says where each of them stands.

* `Reads` says, rule by rule and without a lexer, which lexeme stands at the start of a text and
  which token it determines.  What follows the lexeme takes part: it must not belong to it.
* `Position.behind` counts lines and columns in the text before a place.
* `Cut` puts the two together: a text up to a place, cut into lexemes, with the tokens and their
  positions.

One step of the cursor is described by `Cursor.next_cases`, and a whole run by
`Cursor.run_cases`, which goes along the cut.  Main result: `tokenize_partitions`.
-/

namespace ChipScript

open Text Lexer

/-! ## Positions -/

/-- The position behind a text: one line more than it has line ends, and one column more than it has
    characters after the last of them. -/
def Position.behind (before : List Char) : Position :=
  ⟨1 + before.count '\n', 1 + (before.reverse.takeWhile (· ≠ '\n')).length⟩

/-- Moving on character by character counts lines and columns. -/
theorem Position.afterAll_start (before : List Char) :
    Position.start.afterAll before = Position.behind before := by
  induction before using List.reverseRecOn with
  | nil => rfl
  | append_singleton before c ih =>
      rw [Position.afterAll_append, ih]
      show (Position.behind before).after c = _
      by_cases hline : c = '\n'
      · subst hline
        simp [Position.after, Position.behind]
        omega
      · simp [Position.after, Position.behind, hline]
        omega

/-! ## Lexemes -/

/-- A text that does not start with a digit. -/
def StartsNoDigit (rest : List Char) : Prop :=
  ∀ c, rest.head? = some c → c.isDigit = false

/-- A text that does not start with a point and a digit. -/
def StartsNoFraction (rest : List Char) : Prop :=
  ∀ c cs, rest = '.' :: c :: cs → c.isDigit = false

/-- Which lexeme, with what behind it, determines which token. -/
inductive Reads : Token → (text rest : List Char) → Prop where
  /-- A comment goes on to the end of the line. -/
  | comment {body rest : List Char} :
      '\n' ∉ body → (∀ c, rest.head? = some c → c = '\n') →
      Reads (.comment (String.ofList (trim body))) ('#' :: body) rest
  /-- A string goes on to the next quote, over line ends too. -/
  | string {body rest : List Char} :
      '"' ∉ body → Reads (.string (String.ofList body)) ('"' :: (body ++ ['"'])) rest
  | keyword (word : Keyword) {rest : List Char} :
      startsNoWord rest = true → Reads (.keyword word) word.spelling.toList rest
  | identifier {name : String} {rest : List Char} :
      NameText name.toList → Keyword.ofSpelling? name = none → startsNoWord rest = true →
      Reads (.identifier name) name.toList rest
  | hexadecimal {ds rest : List Char} :
      ds ≠ [] → (∀ c ∈ ds, Lexer.isHexDigit c = true) → startsNoWord rest = true →
      Reads (.number (String.ofList ('$' :: ds))) ('$' :: ds) rest
  | binary {ds rest : List Char} :
      ds ≠ [] → (∀ c ∈ ds, isBinaryDigit c = true) → startsNoWord rest = true →
      Reads (.number (String.ofList ('%' :: ds))) ('%' :: ds) rest
  /-- A decimal number may be followed by a letter, but not by more of itself. -/
  | whole {ds rest : List Char} :
      ds ≠ [] → (∀ c ∈ ds, c.isDigit = true) → StartsNoDigit rest → StartsNoFraction rest →
      Reads (.number (String.ofList ds)) ds rest
  | fraction {ds es rest : List Char} :
      (∀ c ∈ ds, c.isDigit = true) → es ≠ [] → (∀ c ∈ es, c.isDigit = true) →
      StartsNoDigit rest → Reads (.number (String.ofList (ds ++ '.' :: es))) (ds ++ '.' :: es) rest
  /-- Of two symbols that fit, the longer one is read, and a point before a digit is none. -/
  | symbol (sign : Symbol) {rest : List Char} :
      (Token.symbol sign).EndsBefore rest → Reads (.symbol sign) sign.spelling.toList rest

/-! ### Lexemes are scanned -/

theorem scan_comment {body rest : List Char} (hbody : '\n' ∉ body)
    (hrest : ∀ c, rest.head? = some c → c = '\n') :
    scan '#' (body ++ rest) =
      .lexeme ⟨.comment (String.ofList (trim body)), '#' :: body, rest⟩ := by
  have hinside : ∀ c ∈ body, decide (c ≠ '\n') = true := by
    intro c hc
    apply decide_eq_true
    intro hline
    subst hline
    exact hbody hc
  have hline : ∀ c, rest.head? = some c → decide (c ≠ '\n') = false := by
    intro c hc
    simp [hrest c hc]
  have hwhole := takeWhile_eq_of_all hinside hline
  simp only [scan, Lexer.comment, hwhole.1, hwhole.2]
  rfl

theorem fraction?_eq_none_iff {rest : List Char} :
    fraction? rest = none ↔ StartsNoFraction rest := by
  constructor
  · intro h c cs hrest
    subst hrest
    simpa [fraction?] using h
  · intro h
    unfold fraction?
    split
    · next c cs => simp [h c cs rfl]
    · rfl

/-- **A lexeme is scanned.** -/
theorem Reads.scan_eq {t : Token} {text rest : List Char} (h : Reads t text rest) :
    ∃ first others, text ++ rest = first :: others ∧ isBlank first = false ∧
      scan first others = .lexeme ⟨t, text, rest⟩ := by
  -- Every kind of lexeme is scanned by its own part of the lexer.
  cases h with
  | @comment body _ hbody hrest =>
      exact ⟨'#', body ++ rest, rfl, by decide, scan_comment hbody hrest⟩
  | @string body _ hquote =>
      exact ⟨'"', body ++ '"' :: rest, by simp, by decide, scan_string hquote⟩
  | keyword word hrest =>
      obtain ⟨first, others, heq, hblank, hscan⟩ := scan_name (nameText_spelling word) hrest
      rw [Keyword.ofSpelling?_spelling] at hscan
      exact ⟨first, others, heq, hblank, hscan⟩
  | identifier hname hkeyword hrest =>
      obtain ⟨first, others, heq, hblank, hscan⟩ := scan_name hname hrest
      rw [hkeyword] at hscan
      exact ⟨first, others, heq, hblank, hscan⟩
  | @hexadecimal ds _ hne hds hrest =>
      exact ⟨'$', ds ++ rest, rfl, by decide, scan_hexadecimal hne hds hrest⟩
  | @binary ds _ hne hds hrest =>
      exact ⟨'%', ds ++ rest, rfl, by decide, scan_binary hne hds hrest⟩
  | whole hne hds hdigit hpoint =>
      exact scan_whole hne hds hdigit (fraction?_eq_none_iff.mpr hpoint)
  | fraction hds hne hes hdigit => exact scan_fraction hds hne hes hdigit
  | symbol sign hrest => exact scan_symbol sign hrest

/-! ### What is scanned is a lexeme -/

theorem head?_dropWhile {p : Char → Bool} {cs : List Char} {c : Char}
    (h : (cs.dropWhile p).head? = some c) : p c = false := by
  have hhead := List.head?_dropWhile_not p cs
  rw [h] at hhead
  exact hhead

theorem of_dropWhile_eq_cons {p : Char → Bool} {cs rest : List Char} {c : Char}
    (h : cs.dropWhile p = c :: rest) : p c = false := by
  apply head?_dropWhile (p := p)
  rw [h]
  rfl

theorem startsNoWord_dropWhile (cs : List Char) : startsNoWord (cs.dropWhile isWord) = true := by
  cases hrest : cs.dropWhile isWord with
  | nil => rfl
  | cons c rest => simp [startsNoWord, of_dropWhile_eq_cons hrest]

theorem markedNumber_reads {mark : Char} {isDigit : Char → Bool} {cs : List Char} {found : Lexeme}
    (h : markedNumber mark isDigit cs = .lexeme found)
    (hrule : ∀ ds rest, ds ≠ [] → (∀ c ∈ ds, isDigit c = true) → startsNoWord rest = true →
      Reads (.number (String.ofList (mark :: ds))) (mark :: ds) rest) :
    Reads found.token found.text found.rest := by
  unfold markedNumber at h
  simp only at h
  split at h
  · next hdigits =>
    cases h
    rw [Bool.and_eq_true, Bool.not_eq_true', List.isEmpty_eq_false_iff] at hdigits
    exact hrule _ _ hdigits.1 (fun c hc => mem_takeWhile hc) hdigits.2
  · cases h

theorem fraction?_startsNoDigit {cs text rest : List Char}
    (h : fraction? cs = some (text, rest)) : StartsNoDigit rest := by
  unfold fraction? at h
  split at h
  · split at h
    · cases h
      exact fun c hc => head?_dropWhile hc
    · cases h
  · cases h

theorem decimal_reads {d : Char} (hd : d.isDigit = true) (cs : List Char) :
    Reads (decimal d cs).token (decimal d cs).text (decimal d cs).rest := by
  have hwhole : ∀ c ∈ d :: cs.takeWhile Char.isDigit, c.isDigit = true :=
    List.forall_mem_cons.mpr ⟨hd, fun c hc => mem_takeWhile hc⟩
  unfold decimal
  simp only
  split
  · next fraction rest hfraction =>
    obtain ⟨es, rfl, hne, hes⟩ := fraction?_spelled hfraction
    exact .fraction hwhole hne hes (fraction?_startsNoDigit hfraction)
  · next hfraction =>
    have hdigit : StartsNoDigit (cs.dropWhile Char.isDigit) := fun c hc => head?_dropWhile hc
    exact .whole (List.cons_ne_nil _ _) hwhole hdigit (fraction?_eq_none_iff.mp hfraction)

theorem word_reads {c : Char} (hc : isNameStart c = true) (cs : List Char) :
    Reads (word c cs).token (word c cs).text (word c cs).rest := by
  have hends := startsNoWord_dropWhile cs
  unfold word
  simp only
  split
  · next keyword hkeyword =>
    -- The word is the one that it was found by.
    have hfound := List.find?_some hkeyword
    have hspelling : c :: cs.takeWhile isWord = keyword.spelling.toList := by
      rw [of_decide_eq_true hfound, String.toList_ofList]
    rw [hspelling]
    exact .keyword keyword hends
  · next hkeyword =>
    have hname : NameText (String.ofList (c :: cs.takeWhile isWord)).toList := by
      rw [String.toList_ofList]
      exact ⟨c, _, rfl, hc, fun d hd => mem_takeWhile hd⟩
    have hreads := Reads.identifier hname hkeyword hends
    rwa [String.toList_ofList] at hreads

/-- A symbol is the longest that fits, and a point is one only where no fraction starts. -/
theorem symbol?_reads {cs text rest : List Char} {sign : Symbol}
    (h : symbol? cs = some (sign, text, rest)) (hpoint : fraction? cs = none) :
    Reads (.symbol sign) text rest := by
  have hends : (Token.symbol sign).EndsBefore rest → text = sign.spelling.toList →
      Reads (.symbol sign) text rest := by
    rintro hends rfl
    exact .symbol sign hends
  unfold symbol? at h
  split at h
  all_goals first
    | (simp only [Option.some.injEq, Prod.mk.injEq] at h
       obtain ⟨rfl, rfl, rfl⟩ := h
       apply hends _ rfl)
    | cases h
  all_goals simp only [Token.EndsBefore]
  -- What is left are the point and the four symbols that an equals sign would make longer.
  case _ =>
    intro c hc
    obtain ⟨cs, rfl⟩ := List.head?_eq_some_iff.mp hc
    exact fraction?_eq_none_iff.mp hpoint c cs rfl
  all_goals
    intro hc
    obtain ⟨cs, rfl⟩ := List.head?_eq_some_iff.mp hc
    simp_all

/-- **What is scanned is a lexeme.** -/
theorem scan_reads {c : Char} {cs : List Char} {found : Lexeme} (h : scan c cs = .lexeme found) :
    Reads found.token found.text found.rest := by
  unfold scan at h
  -- A comment ends before the next line, and a string at the next quote.
  split at h
  · cases h
    apply Reads.comment
    · intro hline
      simpa using mem_takeWhile hline
    · intro c hc
      simpa using head?_dropWhile hc
  split at h
  · unfold Lexer.string at h
    split at h
    · cases h
    · next quote rest htail =>
      cases h
      have hquote : quote = '"' := by simpa using of_dropWhile_eq_cons htail
      subst hquote
      apply Reads.string
      intro hinside
      simpa using mem_takeWhile hinside
  -- Numbers with a mark, the one before hexadecimal and the one before binary digits.
  split at h
  · exact markedNumber_reads h fun ds rest hne hds hrest => .hexadecimal hne hds hrest
  split at h
  · exact markedNumber_reads h fun ds rest hne hds hrest => .binary hne hds hrest
  split at h
  · next hdigit =>
    cases h
    exact decimal_reads hdigit cs
  split at h
  · next hname =>
    cases h
    exact word_reads hname cs
  -- A point before a digit starts a fraction, and every other point is a symbol.
  split at h
  · next text rest hfraction =>
    cases h
    obtain ⟨es, rfl, hne, hes⟩ := fraction?_spelled hfraction
    have hempty : ∀ c ∈ ([] : List Char), c.isDigit = true := by simp
    exact .fraction hempty hne hes (fraction?_startsNoDigit hfraction)
  · next hfraction =>
    split at h
    · next hsymbol =>
      cases h
      exact symbol?_reads hsymbol hfraction
    · cases h

/-! ## Steps of the cursor -/

/-- Nothing but blanks. -/
def Blank (cs : List Char) : Prop :=
  ∀ c ∈ cs, isBlank c = true

/-- No lexeme stands at the start of a text. -/
def StartsNoToken (cs : List Char) : Prop :=
  ∀ t text rest, cs = text ++ rest → ¬ Reads t text rest

/-- An error says what is wrong with the text `first :: others` at a position: a string is not
    closed, or no token starts with the first character. -/
def LexError.Explains (first : Char) (others : List Char) (position : Position) : LexError → Prop
  | unterminatedString place => place = position ∧ first = '"' ∧ '"' ∉ others
  | unexpectedCharacter char place =>
    place = position ∧ char = first ∧ StartsNoToken (first :: others)

theorem startsNoToken_of_scan {first : Char} {others : List Char}
    (h : ∀ found, scan first others ≠ .lexeme found) : StartsNoToken (first :: others) := by
  intro t text rest heq hreads
  obtain ⟨first', others', heq', -, hscan⟩ := hreads.scan_eq
  rw [← heq] at heq'
  cases heq'
  exact h _ hscan

theorem scan_unterminated {first : Char} {others : List Char}
    (h : scan first others = .unterminated) : first = '"' ∧ '"' ∉ others := by
  -- Of all rules only the one for strings ends so.
  have hquote : first = '"' := by
    by_contra hquote
    unfold scan at h
    simp only [hquote, if_false] at h
    repeat' split at h
    all_goals first
      | cases h
      | (unfold markedNumber at h
         simp only at h
         split at h <;> cases h)
  subst hquote
  refine ⟨rfl, ?_⟩
  intro hmem
  have hstring : Lexer.string others = .unterminated := h
  unfold Lexer.string at hstring
  split at hstring
  · next hnone =>
    have hall := List.dropWhile_eq_nil_iff.mp hnone '"' hmem
    simp at hall
  · cases hstring

theorem scan_unexpected {first char : Char} {others : List Char}
    (h : scan first others = .unexpected char) : char = first := by
  -- A mark without digits is itself what is not expected.
  have hmarked : ∀ {mark : Char} {isDigit : Char → Bool},
      markedNumber mark isDigit others = .unexpected char → char = mark := by
    intro mark isDigit h
    unfold markedNumber at h
    simp only at h
    split at h
    · cases h
    · cases h
      rfl
  unfold scan at h
  split at h
  · cases h
  split at h
  · unfold Lexer.string at h
    split at h <;> cases h
  split at h
  · next hmark =>
    rw [hmark]
    exact hmarked h
  split at h
  · next hmark =>
    rw [hmark]
    exact hmarked h
  repeat' split at h
  all_goals cases h
  rfl

namespace Cursor

theorem next_of_blank {c : Cursor} (h : Blank c.rest) :
    c.next = (none, ⟨[], c.position.afterAll c.rest⟩) := by
  have hdrop : c.rest.dropWhile isBlank = [] := List.dropWhile_eq_nil_iff.mpr h
  have htake : c.rest.takeWhile isBlank = c.rest := List.takeWhile_eq_self_iff.mpr h
  simp [next, skipBlanks, hdrop, htake]

/-- The cursor passes over blanks and a lexeme, and places the token between them. -/
theorem next_of_reads {blanks text rest : List Char} {t : Token} (position : Position)
    (hblank : Blank blanks) (h : Reads t text rest) :
    (Cursor.mk (blanks ++ (text ++ rest)) position).next =
      (some (.ok ⟨t, position.afterAll blanks⟩),
        ⟨rest, (position.afterAll blanks).afterAll text⟩) := by
  obtain ⟨first, others, heq, hfirst, hscan⟩ := h.scan_eq
  have hhead : ∀ c, (first :: others).head? = some c → isBlank c = false := by
    intro c hc
    cases hc
    exact hfirst
  have hskip := takeWhile_eq_of_all hblank hhead
  simp only [next, skipBlanks, heq, hskip.1, hskip.2, hscan]

/-- **One step of the cursor.**  There are only blanks left; or, behind blanks, there stands a
    lexeme; or there stands what an error explains, and nothing is read behind it. -/
theorem next_cases (c : Cursor) :
    (Blank c.rest ∧ c.next = (none, ⟨[], c.position.afterAll c.rest⟩)) ∨
    (∃ blanks text rest t, c.rest = blanks ++ (text ++ rest) ∧ Blank blanks ∧ Reads t text rest ∧
      c.next = (some (.ok ⟨t, c.position.afterAll blanks⟩),
        ⟨rest, (c.position.afterAll blanks).afterAll text⟩)) ∨
    (∃ blanks first others e, c.rest = blanks ++ first :: others ∧ Blank blanks ∧
      isBlank first = false ∧ e.Explains first others (c.position.afterAll blanks) ∧
      c.next = (some (.error e), ⟨[], c.position.afterAll blanks⟩)) := by
  have hblank : Blank (c.rest.takeWhile isBlank) := fun d hd => mem_takeWhile hd
  have hwhole : c.rest.takeWhile isBlank ++ c.rest.dropWhile isBlank = c.rest :=
    List.takeWhile_append_dropWhile
  -- By what stands behind the blanks, and then by what is scanned there.
  cases hrest : c.rest.dropWhile isBlank with
  | nil =>
      left
      have hall : Blank c.rest := List.dropWhile_eq_nil_iff.mp hrest
      exact ⟨hall, next_of_blank hall⟩
  | cons first others =>
      right
      have hfirst : isBlank first = false := of_dropWhile_eq_cons hrest
      rw [hrest] at hwhole
      cases hscan : scan first others with
      | lexeme found =>
          left
          have hreads := scan_reads hscan
          obtain ⟨htext, -⟩ := scan_text_append_rest hscan
          refine ⟨_, found.text, found.rest, found.token, ?_, hblank, hreads, ?_⟩
          · rw [htext, hwhole]
          · simp only [next, skipBlanks, hrest, hscan]
      | unexpected char =>
          right
          refine ⟨_, first, others, .unexpectedCharacter char _, hwhole.symm, hblank, hfirst,
            ⟨rfl, scan_unexpected hscan, ?_⟩, ?_⟩
          · apply startsNoToken_of_scan
            simp [hscan]
          · simp only [next, skipBlanks, hrest, hscan]
      | unterminated =>
          right
          refine ⟨_, first, others, .unterminatedString _, hwhole.symm, hblank, hfirst,
            ⟨rfl, scan_unterminated hscan⟩, ?_⟩
          simp only [next, skipBlanks, hrest, hscan]

theorem tokens_of_next_error {c after : Cursor} {e : LexError}
    (h : c.next = (some (.error e), after)) : c.tokens = .error e := by
  rw [tokens]
  split
  · next h' => rw [h] at h'; cases h'
  · next h' => rw [h] at h'; cases h'; rfl
  · next h' => rw [h] at h'; cases h'

theorem tokens_of_later_error {c after : Cursor} {token : PlacedToken} {e : LexError}
    (h : c.next = (some (.ok token), after)) (hrest : after.tokens = .error e) :
    c.tokens = .error e := by
  rw [tokens]
  split
  · next h' => rw [h] at h'; cases h'
  · next h' => rw [h] at h'; cases h'
  · next h' =>
    rw [h] at h'
    cases h'
    rw [hrest]

/-- What is given when the cursor has been asked for the next token `n` times before. -/
def item (c : Cursor) : Nat → Option (Except LexError PlacedToken)
  | 0 => c.next.1
  | n + 1 => c.next.2.item n

/-- What the next step gives comes first, and then what the steps behind it give. -/
theorem item_of_next {c after : Cursor} {x : Except LexError PlacedToken}
    {xs : List (Except LexError PlacedToken)} (h : c.next = (some x, after))
    (hafter : ∀ n, after.item n = xs[n]?) (n : Nat) : c.item n = (x :: xs)[n]? := by
  cases n with
  | zero =>
      rw [item, h]
      rfl
  | succ n =>
      rw [item, h]
      exact hafter n

/-- At the end of a text there is nothing any more. -/
theorem item_of_blank {c : Cursor} (h : Blank c.rest) (n : Nat) : c.item n = none := by
  induction n generalizing c with
  | zero => rw [item, next_of_blank h]
  | succ n ih =>
      rw [item, next_of_blank h]
      exact ih (by simp [Blank])

end Cursor

/-! ## Whole texts -/

/-- The text `before`, with `rest` behind it, is cut into lexemes with blanks between them.  Each
    lexeme is listed with the token that it determines, at the position behind all that stands
    before it. -/
inductive Cut : (before rest : List Char) → List (PlacedToken × List Char) → Prop where
  | start (rest : List Char) : Cut [] rest []
  | lexeme {before blanks text rest : List Char} {t : Token}
      {pieces : List (PlacedToken × List Char)} :
      Cut before (blanks ++ (text ++ rest)) pieces → Blank blanks → Reads t text rest →
      Cut (before ++ blanks ++ text) rest
        (pieces ++ [(⟨t, Position.behind (before ++ blanks)⟩, text)])

theorem Position.behind_append (before more : List Char) :
    (Position.behind before).afterAll more = Position.behind (before ++ more) := by
  rw [← Position.afterAll_start, ← Position.afterAll_start, Position.afterAll_append]

/-- The tokens of a cut. -/
def tokensOf (pieces : List (PlacedToken × List Char)) : List PlacedToken :=
  pieces.map Prod.fst

/-- What a cursor gives for the tokens of a cut. -/
def itemsOf (pieces : List (PlacedToken × List Char)) : List (Except LexError PlacedToken) :=
  pieces.map fun piece => .ok piece.1

/-- A run of the cursor, which began where a cut ends, has gone on with the cut to a place behind
    which there are only blanks, or to a place at which an error stops it. -/
inductive Cursor.Runs (c : Cursor) (before : List Char)
    (pieces : List (PlacedToken × List Char)) : Prop where
  | completed {done rest : List Char} {more : List (PlacedToken × List Char)} :
      before ++ c.rest = done ++ rest → Cut done rest (pieces ++ more) → Blank rest →
      c.tokens = .ok (tokensOf more) → (∀ n, c.item n = (itemsOf more)[n]?) →
      Runs c before pieces
  | stopped {done blanks others : List Char} {first : Char} {e : LexError}
      {more : List (PlacedToken × List Char)} :
      before ++ c.rest = done ++ (blanks ++ first :: others) →
      Cut done (blanks ++ first :: others) (pieces ++ more) → Blank blanks →
      isBlank first = false → e.Explains first others (Position.behind (done ++ blanks)) →
      c.tokens = .error e → (∀ n, c.item n = (itemsOf more ++ [.error e])[n]?) →
      Runs c before pieces

/-- **A run of the cursor goes along the cut.**  By induction on what is left of the text: every
    step extends the cut by one lexeme, or is the last one. -/
theorem Cursor.run_cases (c : Cursor) {before : List Char}
    {pieces : List (PlacedToken × List Char)} (hcut : Cut before c.rest pieces)
    (hposition : c.position = Position.behind before) : c.Runs before pieces := by
  induction hlength : c.rest.length using Nat.strongRecOn generalizing c before pieces with
  | ind n ih =>
      subst hlength
      rcases c.next_cases with ⟨hblank, hnext⟩ |
        ⟨blanks, text, rest, t, hrest, hblank, hreads, hnext⟩ |
        ⟨blanks, first, others, e, hrest, hblank, hfirst, hexplains, hnext⟩
      · -- Nothing is left.
        rw [← List.append_nil pieces] at hcut
        refine .completed rfl hcut hblank (tokens_of_next_none hnext) ?_
        intro n
        rw [item_of_blank hblank]
        rfl
      · -- A lexeme is read, and the run goes on behind it.
        rw [hposition, Position.behind_append] at hnext
        rw [Position.behind_append] at hnext
        rw [hrest] at hcut
        -- The induction is on the length of the text left, which the lexeme has made shorter.
        have hlonger := Cut.lexeme hcut hblank hreads
        have hshorter := next_length_lt hnext
        have hrun := ih _ hshorter _ hlonger rfl rfl
        have hassoc : before ++ blanks ++ text ++ rest = before ++ c.rest := by
          simp [hrest]
        cases hrun with
        | completed hdone hcut hblank htokens hitems =>
            rw [List.append_assoc] at hcut
            rw [hassoc] at hdone
            exact .completed hdone hcut hblank (tokens_of_next_ok hnext htokens)
              (item_of_next hnext hitems)
        | stopped hdone hcut hblank hfirst hexplains htokens hitems =>
            rw [List.append_assoc] at hcut
            rw [hassoc] at hdone
            exact .stopped hdone hcut hblank hfirst hexplains
              (tokens_of_later_error hnext htokens) (item_of_next hnext hitems)
      · -- An error stops the run, and nothing is left behind it.
        rw [hposition, Position.behind_append] at hexplains
        rw [hrest, ← List.append_nil pieces] at hcut
        have hnothing : Blank (Cursor.mk [] (c.position.afterAll blanks)).rest := by simp [Blank]
        exact .stopped (by rw [hrest]) hcut hblank hfirst hexplains (tokens_of_next_error hnext)
          (item_of_next hnext fun n => item_of_blank hnothing n)

/-- The tokens of a text go along its cut. -/
theorem Cut.tokens {before rest : List Char} {pieces : List (PlacedToken × List Char)}
    (h : Cut before rest pieces) {more : List PlacedToken}
    (hrest : (Cursor.mk rest (Position.behind before)).tokens = .ok more) :
    (Cursor.ofText (before ++ rest)).tokens = .ok (tokensOf pieces ++ more) := by
  induction h generalizing more with
  | start rest => exact hrest
  | @lexeme before blanks text rest t pieces hcut hblank hreads ih =>
      have hnext := Cursor.next_of_reads (Position.behind before) hblank hreads
      rw [Position.behind_append, Position.behind_append] at hnext
      have hwhole := ih (Cursor.tokens_of_next_ok hnext hrest)
      simpa [tokensOf] using hwhole

/-- A text that is cut to the end has the tokens of the cut. -/
theorem Cut.tokenize_eq {source : String} {before rest : List Char}
    {pieces : List (PlacedToken × List Char)} (h : Cut before rest pieces) (hblank : Blank rest)
    (hsource : source.toList = before ++ rest) : tokenize source = .ok (tokensOf pieces) := by
  have hend := Cursor.tokens_of_next_none
    (Cursor.next_of_blank (c := ⟨rest, Position.behind before⟩) hblank)
  have hwhole := h.tokens hend
  rw [tokenize, hsource, hwhole, List.append_nil]

/-- **The lexer cuts a text into lexemes, with exact positions.**  A text has tokens if and only if
    it is cut into lexemes up to some blanks, and the tokens are those of the lexemes.  If it has
    none, then a part of it is cut so, and behind it and some blanks stands what the error explains
    at that position.  The cursor gives the tokens of the cut one by one, then the error if there is
    one, and nothing from then on. -/
theorem tokenize_partitions (source : String) :
    (∀ tokens, tokenize source = .ok tokens ↔
      ∃ before rest pieces, source.toList = before ++ rest ∧ Cut before rest pieces ∧ Blank rest ∧
        tokens = tokensOf pieces) ∧
    (∀ tokens, tokenize source = .ok tokens →
      ∀ n, (Cursor.ofText source.toList).item n = (tokens[n]?).map .ok) ∧
    (∀ e, tokenize source = .error e →
      ∃ before blanks first others pieces,
        source.toList = before ++ (blanks ++ first :: others) ∧
        Cut before (blanks ++ first :: others) pieces ∧ Blank blanks ∧ isBlank first = false ∧
        e.Explains first others (Position.behind (before ++ blanks)) ∧
        ∀ n, (Cursor.ofText source.toList).item n = (itemsOf pieces ++ [.error e])[n]?) := by
  -- One run of the cursor from the start settles all three parts.
  have hrun := Cursor.run_cases (Cursor.ofText source.toList) (.start _) rfl
  refine ⟨?_, ?_, ?_⟩
  · intro tokens
    constructor
    · intro h
      cases hrun with
      | completed hdone hcut hblank htokens =>
          cases htokens.symm.trans h
          exact ⟨_, _, _, hdone, hcut, hblank, rfl⟩
      | stopped _ _ _ _ _ htokens => cases htokens.symm.trans h
    · -- A cut of the whole text determines what the lexer gives.
      rintro ⟨before, rest, pieces, hsource, hcut, hblank, rfl⟩
      exact hcut.tokenize_eq hblank hsource
  · intro tokens h n
    cases hrun with
    | completed _ _ _ htokens hitems =>
        cases htokens.symm.trans h
        rw [hitems, itemsOf, tokensOf, List.getElem?_map, List.getElem?_map, Option.map_map]
        rfl
    | stopped _ _ _ _ _ htokens => cases htokens.symm.trans h
  · intro e h
    cases hrun with
    | completed _ _ _ htokens => cases htokens.symm.trans h
    | stopped hdone hcut hblank hfirst hexplains htokens hitems =>
        cases htokens.symm.trans h
        exact ⟨_, _, _, _, _, hdone, hcut, hblank, hfirst, hexplains, hitems⟩

end ChipScript
