import ChipScript.Token.Basic
import ChipScript.Text.Blank

/-!
# Lexer

Tokens are read off a text from left to right.  Blanks before a lexeme are skipped; the first
character of a lexeme decides its class, and within its class a lexeme is as long as it can be.

`Lexer.scan` reads one lexeme, `Cursor.next` one token with its position, and `tokenize` all of
them.  `Lexer.scan_text_append_rest` says that a scan splits the text after a lexeme that is not
empty, which is why reading ends.
-/

namespace ChipScript

/-! ## Errors -/

/-- Why a text is no sequence of tokens. -/
inductive LexError where
  /-- No lexeme starts with the character. -/
  | unexpectedCharacter (char : Char) (position : Position)
  /-- A string has no closing quote. -/
  | unterminatedString (position : Position)
deriving DecidableEq, Repr

/-- The error as it is shown. -/
def LexError.message : LexError → String
  | unexpectedCharacter char position =>
    position.text ++ ": unexpected character '" ++ char.toString ++ "'"
  | unterminatedString position => position.text ++ ": unterminated string literal"

/-! ## Lexemes -/

/-- A lexeme at the start of a text, with the token that it spells and what follows it. -/
structure Lexeme where
  token : Token
  text : List Char
  rest : List Char
deriving DecidableEq, Repr

/-- What stands at the start of a text that is neither empty nor starts with a blank. -/
inductive Scan where
  | lexeme (found : Lexeme)
  | unexpected (char : Char)
  | unterminated
deriving DecidableEq, Repr

namespace Lexer

/-- A comment, whose mark has been read, up to the end of the line. -/
def comment (cs : List Char) : Lexeme :=
  let body := cs.takeWhile (· ≠ '\n')
  ⟨.comment (String.ofList (Text.trim body)), '#' :: body, cs.dropWhile (· ≠ '\n')⟩

/-- A string, whose opening quote has been read, up to the next quote. -/
def string (cs : List Char) : Scan :=
  match cs.dropWhile (· ≠ '"') with
  | [] => .unterminated
  | quote :: rest =>
    let body := cs.takeWhile (· ≠ '"')
    .lexeme ⟨.string (String.ofList body), '"' :: body ++ [quote], rest⟩

/-- A name or reserved word that starts with `c`. -/
def word (c : Char) (cs : List Char) : Lexeme :=
  let text := c :: cs.takeWhile Text.isWord
  let token := match Keyword.ofSpelling? (String.ofList text) with
    | some keyword => .keyword keyword
    | none => .identifier (String.ofList text)
  ⟨token, text, cs.dropWhile Text.isWord⟩

/-- A number made of a mark and digits, which no word character may follow. -/
def markedNumber (mark : Char) (isDigit : Char → Bool) (cs : List Char) : Scan :=
  let digits := cs.takeWhile isDigit
  let rest := cs.dropWhile isDigit
  if !digits.isEmpty && Text.startsNoWord rest then
    .lexeme ⟨.number (String.ofList (mark :: digits)), mark :: digits, rest⟩
  else .unexpected mark

/-- A hexadecimal digit. -/
def isHexDigit (c : Char) : Bool :=
  c.isDigit || ('a' ≤ c && c ≤ 'f') || ('A' ≤ c && c ≤ 'F')

/-- A binary digit or an underscore between such digits. -/
def isBinaryDigit (c : Char) : Bool :=
  c == '0' || c == '1' || c == '_'

/-- A point and at least one digit at the start of a text, with what follows them. -/
def fraction? : List Char → Option (List Char × List Char)
  | '.' :: c :: cs =>
    if c.isDigit then
      some ('.' :: c :: cs.takeWhile Char.isDigit, cs.dropWhile Char.isDigit)
    else none
  | _ => none

/-- A decimal number that starts with the digit `c`: digits, and a fraction if one follows. -/
def decimal (c : Char) (cs : List Char) : Lexeme :=
  let whole := c :: cs.takeWhile Char.isDigit
  let after := cs.dropWhile Char.isDigit
  match fraction? after with
  | some (fraction, rest) => ⟨.number (String.ofList (whole ++ fraction)), whole ++ fraction, rest⟩
  | none => ⟨.number (String.ofList whole), whole, after⟩

/-- The symbol at the start of a text, the longer of two that fit. -/
def symbol? : List Char → Option (Symbol × List Char × List Char)
  | '=' :: '=' :: cs => some (.equal, ['=', '='], cs)
  | '!' :: '=' :: cs => some (.notEqual, ['!', '='], cs)
  | '>' :: '=' :: cs => some (.greaterEqual, ['>', '='], cs)
  | '<' :: '=' :: cs => some (.lessEqual, ['<', '='], cs)
  | '&' :: '&' :: cs => some (.both, ['&', '&'], cs)
  | '|' :: '|' :: cs => some (.either, ['|', '|'], cs)
  | '+' :: cs => some (.plus, ['+'], cs)
  | '-' :: cs => some (.minus, ['-'], cs)
  | '*' :: cs => some (.star, ['*'], cs)
  | '/' :: cs => some (.slash, ['/'], cs)
  | '(' :: cs => some (.leftParen, ['('], cs)
  | ')' :: cs => some (.rightParen, [')'], cs)
  | '\x7b' :: cs => some (.leftBrace, ['\x7b'], cs)
  | '\x7d' :: cs => some (.rightBrace, ['\x7d'], cs)
  | '[' :: cs => some (.leftBracket, ['['], cs)
  | ']' :: cs => some (.rightBracket, [']'], cs)
  | ',' :: cs => some (.comma, [','], cs)
  | '.' :: cs => some (.dot, ['.'], cs)
  | ';' :: cs => some (.semicolon, [';'], cs)
  | ':' :: cs => some (.colon, [':'], cs)
  | '?' :: cs => some (.question, ['?'], cs)
  | '!' :: cs => some (.bang, ['!'], cs)
  | '=' :: cs => some (.assign, ['='], cs)
  | '<' :: cs => some (.less, ['<'], cs)
  | '>' :: cs => some (.greater, ['>'], cs)
  | _ => none

/-- What stands at the start of the text `c :: cs`. -/
def scan (c : Char) (cs : List Char) : Scan :=
  if c = '#' then .lexeme (comment cs)
  else if c = '"' then string cs
  else if c = '$' then markedNumber '$' isHexDigit cs
  else if c = '%' then markedNumber '%' isBinaryDigit cs
  else if c.isDigit then .lexeme (decimal c cs)
  else if Text.isNameStart c then .lexeme (word c cs)
  else
    match fraction? (c :: cs) with
    | some (text, rest) => .lexeme ⟨.number (String.ofList text), text, rest⟩
    | none =>
      match symbol? (c :: cs) with
      | some (symbol, text, rest) => .lexeme ⟨.symbol symbol, text, rest⟩
      | none => .unexpected c

/-! ## What a scan leaves -/

private theorem fraction?_append {cs text rest : List Char}
    (h : fraction? cs = some (text, rest)) : text ++ rest = cs ∧ text ≠ [] := by
  unfold fraction? at h
  split at h
  · split at h
    · obtain ⟨rfl, rfl⟩ := by simpa using h
      simp
    · simp at h
  · simp at h

private theorem symbol?_append {cs text rest : List Char} {symbol : Symbol}
    (h : symbol? cs = some (symbol, text, rest)) : text ++ rest = cs ∧ text ≠ [] := by
  unfold symbol? at h
  split at h <;> first
    | (simp only [Option.some.injEq, Prod.mk.injEq] at h
       obtain ⟨-, rfl, rfl⟩ := h
       simp)
    | simp at h

private theorem string_append {cs : List Char} {found : Lexeme} (h : string cs = .lexeme found) :
    found.text ++ found.rest = '"' :: cs ∧ found.text ≠ [] := by
  unfold string at h
  split at h
  · simp at h
  · rename_i quote rest htail
    obtain rfl := by simpa using h
    have hwhole := List.takeWhile_append_dropWhile (p := fun c => decide (c ≠ '"')) (l := cs)
    rw [htail] at hwhole
    simpa using hwhole

private theorem markedNumber_append {mark : Char} {isDigit : Char → Bool} {cs : List Char}
    {found : Lexeme} (h : markedNumber mark isDigit cs = .lexeme found) :
    found.text ++ found.rest = mark :: cs ∧ found.text ≠ [] := by
  unfold markedNumber at h
  simp only at h
  split at h
  · obtain rfl := by simpa using h
    simp
  · simp at h

private theorem decimal_append (c : Char) (cs : List Char) :
    (decimal c cs).text ++ (decimal c cs).rest = c :: cs ∧ (decimal c cs).text ≠ [] := by
  unfold decimal
  simp only
  split
  · rename_i fraction rest hafter
    simp [(fraction?_append hafter).1]
  · simp

/-- A lexeme and what follows it make up the text. -/
theorem scan_text_append_rest {c : Char} {cs : List Char} {found : Lexeme}
    (h : scan c cs = .lexeme found) : found.text ++ found.rest = c :: cs ∧ found.text ≠ [] := by
  unfold scan at h
  split at h
  · rename_i hc
    obtain rfl := by simpa using h
    simp [comment, hc]
  split at h
  · rename_i hc
    rw [hc]
    exact string_append h
  split at h
  · rename_i hc
    rw [hc]
    exact markedNumber_append h
  split at h
  · rename_i hc
    rw [hc]
    exact markedNumber_append h
  split at h
  · obtain rfl := by simpa using h
    exact decimal_append c cs
  split at h
  · obtain rfl := by simpa using h
    simp [word]
  split at h
  · rename_i hf
    obtain rfl := by simpa using h
    exact fraction?_append hf
  split at h
  · rename_i hs
    obtain rfl := by simpa using h
    exact symbol?_append hs
  · simp at h

/-- A scan leaves less than it was given. -/
theorem scan_rest_length_lt {c : Char} {cs : List Char} {found : Lexeme}
    (h : scan c cs = .lexeme found) : found.rest.length < (c :: cs).length := by
  obtain ⟨hwhole, hnonempty⟩ := scan_text_append_rest h
  rw [← hwhole, List.length_append]
  have := List.length_pos_iff.2 hnonempty
  omega

end Lexer

/-! ## Cursors -/

/-- A place in a text, with the text that is left. -/
structure Cursor where
  rest : List Char
  position : Position
deriving DecidableEq, Repr

namespace Cursor

/-- The start of a text. -/
def ofText (cs : List Char) : Cursor := ⟨cs, .start⟩

/-- Past the blanks. -/
def skipBlanks (c : Cursor) : Cursor :=
  ⟨c.rest.dropWhile Text.isBlank, c.position.afterAll (c.rest.takeWhile Text.isBlank)⟩

/-- The next token, if there is one, and the cursor after it.  An error is reported once: nothing is
left after it. -/
def next (c : Cursor) : Option (Except LexError PlacedToken) × Cursor :=
  let c := c.skipBlanks
  match c.rest with
  | [] => (none, c)
  | first :: others =>
    match Lexer.scan first others with
    | .lexeme found =>
      (some (.ok ⟨found.token, c.position⟩), ⟨found.rest, c.position.afterAll found.text⟩)
    | .unexpected char => (some (.error (.unexpectedCharacter char c.position)), ⟨[], c.position⟩)
    | .unterminated => (some (.error (.unterminatedString c.position)), ⟨[], c.position⟩)

theorem skipBlanks_length_le (c : Cursor) : c.skipBlanks.rest.length ≤ c.rest.length := by
  have hwhole := congrArg List.length
    (List.takeWhile_append_dropWhile (p := Text.isBlank) (l := c.rest))
  rw [List.length_append] at hwhole
  simp only [skipBlanks]
  omega

/-- Every token shortens the text that is left. -/
theorem next_length_lt {c after : Cursor} {token : PlacedToken}
    (h : c.next = (some (.ok token), after)) : after.rest.length < c.rest.length := by
  have hskipped := c.skipBlanks_length_le
  unfold next at h
  simp only at h
  split at h
  · simp at h
  · rename_i first others hrest
    rw [hrest] at hskipped
    split at h
    · rename_i found hscanned
      simp only [Prod.mk.injEq] at h
      have hshorter := Lexer.scan_rest_length_lt hscanned
      rw [← h.2]
      exact Nat.lt_of_lt_of_le hshorter hskipped
    · simp at h
    · simp at h

/-- All tokens from the cursor to the end of the text, or the first error. -/
def tokens (c : Cursor) : Except LexError (List PlacedToken) :=
  match _ : c.next with
  | (none, _) => .ok []
  | (some (.error error), _) => .error error
  | (some (.ok token), after) =>
    match after.tokens with
    | .ok rest => .ok (token :: rest)
    | .error error => .error error
termination_by c.rest.length
decreasing_by exact next_length_lt (by assumption)

end Cursor

/-- The tokens of a script, or the first error. -/
def tokenize (source : String) : Except LexError (List PlacedToken) :=
  (Cursor.ofText source.toList).tokens

end ChipScript
