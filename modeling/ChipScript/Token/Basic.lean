import ChipScript.Text.Quoted

/-!
# Tokens

The tokens of a script, the positions they stand at, and the texts in which listings and messages
show them.
-/

namespace ChipScript

/-! ## Positions -/

/-- A place in a script.  Lines and columns count from one, columns in characters. -/
structure Position where
  line : Nat
  column : Nat
deriving DecidableEq, Repr

namespace Position

/-- The place of the first character. -/
def start : Position := ⟨1, 1⟩

/-- The place after a character. -/
def after (p : Position) (c : Char) : Position :=
  if c = '\n' then ⟨p.line + 1, 1⟩ else ⟨p.line, p.column + 1⟩

/-- The place after a text. -/
def afterAll (p : Position) (cs : List Char) : Position :=
  cs.foldl after p

/-- A place as messages show it. -/
def text (p : Position) : String :=
  toString p.line ++ ":" ++ toString p.column

@[simp] theorem afterAll_nil (p : Position) : p.afterAll [] = p := rfl

@[simp] theorem afterAll_append (p : Position) (cs ds : List Char) :
    p.afterAll (cs ++ ds) = (p.afterAll cs).afterAll ds := by
  simp [afterAll]

end Position

/-! ## Keywords -/

/-- The reserved words. -/
inductive Keyword where
  | var
  | loop
  | whileLoop
  | ifThen
  | elseIf
  | otherwise
  | leave
  | again
  | device
  | hash
deriving DecidableEq, Repr

namespace Keyword

/-- A reserved word as it is written. -/
def spelling : Keyword → String
  | var => "var"
  | loop => "loop"
  | whileLoop => "while"
  | ifThen => "if"
  | elseIf => "elif"
  | otherwise => "else"
  | leave => "break"
  | again => "continue"
  | device => "Device"
  | hash => "HASH"

/-- The name of a reserved word in a listing. -/
def kind : Keyword → String
  | var => "Var"
  | loop => "Loop"
  | whileLoop => "While"
  | ifThen => "If"
  | elseIf => "Elif"
  | otherwise => "Else"
  | leave => "Break"
  | again => "Continue"
  | device => "Device"
  | hash => "Hash"

/-- All reserved words. -/
def all : List Keyword :=
  [var, loop, whileLoop, ifThen, elseIf, otherwise, leave, again, device, hash]

/-- The reserved word with a spelling. -/
def ofSpelling? (word : String) : Option Keyword :=
  all.find? (·.spelling = word)

@[simp] theorem ofSpelling?_spelling (k : Keyword) : ofSpelling? k.spelling = some k := by
  cases k <;> decide

end Keyword

/-! ## Symbols -/

/-- Operators and punctuation. -/
inductive Symbol where
  | leftParen
  | rightParen
  | leftBrace
  | rightBrace
  | leftBracket
  | rightBracket
  | comma
  | dot
  | semicolon
  | colon
  | question
  | bang
  | assign
  | equal
  | notEqual
  | less
  | lessEqual
  | greater
  | greaterEqual
  | plus
  | minus
  | star
  | slash
  | both
  | either
deriving DecidableEq, Repr

namespace Symbol

/-- A symbol as it is written. -/
def spelling : Symbol → String
  | leftParen => "("
  | rightParen => ")"
  | leftBrace => "\x7b"
  | rightBrace => "\x7d"
  | leftBracket => "["
  | rightBracket => "]"
  | comma => ","
  | dot => "."
  | semicolon => ";"
  | colon => ":"
  | question => "?"
  | bang => "!"
  | assign => "="
  | equal => "=="
  | notEqual => "!="
  | less => "<"
  | lessEqual => "<="
  | greater => ">"
  | greaterEqual => ">="
  | plus => "+"
  | minus => "-"
  | star => "*"
  | slash => "/"
  | both => "&&"
  | either => "||"

/-- The name of a symbol in a listing. -/
def kind : Symbol → String
  | leftParen => "LParen"
  | rightParen => "RParen"
  | leftBrace => "LBrace"
  | rightBrace => "RBrace"
  | leftBracket => "LBracket"
  | rightBracket => "RBracket"
  | comma => "Comma"
  | dot => "Dot"
  | semicolon => "Semicolon"
  | colon => "Colon"
  | question => "QuestionMark"
  | bang => "Bang"
  | assign => "Equal"
  | equal => "DoubleEqual"
  | notEqual => "BangEqual"
  | less => "Less"
  | lessEqual => "LessEqual"
  | greater => "Greater"
  | greaterEqual => "GreaterEqual"
  | plus => "Plus"
  | minus => "Hyphen"
  | star => "Star"
  | slash => "Slash"
  | both => "DoubleAmpersand"
  | either => "DoublePipe"

/-- All symbols. -/
def all : List Symbol :=
  [leftParen, rightParen, leftBrace, rightBrace, leftBracket, rightBracket, comma, dot, semicolon,
    colon, question, bang, assign, equal, notEqual, less, lessEqual, greater, greaterEqual, plus,
    minus, star, slash, both, either]

end Symbol

/-! ## Tokens -/

/-- A token.  Numbers keep their text, strings lose their quotes, comments lose their mark and the
blanks around them. -/
inductive Token where
  | keyword (word : Keyword)
  | symbol (sign : Symbol)
  | identifier (name : String)
  | number (text : String)
  | string (text : String)
  | comment (text : String)
deriving DecidableEq, Repr

namespace Token

/-- A token as messages describe it. -/
def describe : Token → String
  | keyword word => "'" ++ word.spelling ++ "'"
  | symbol sign => "'" ++ sign.spelling ++ "'"
  | identifier name => "identifier '" ++ name ++ "'"
  | number text => "number '" ++ text ++ "'"
  | string text => "string \"" ++ text ++ "\""
  | comment _ => "comment"

/-- The name of a token's kind in a listing. -/
def kind : Token → String
  | keyword word => word.kind
  | symbol sign => sign.kind
  | identifier _ => "Identifier"
  | number _ => "Number"
  | string _ => "StringLiteral"
  | comment _ => "Comment"

/-- The text of a token that has one. -/
def content? : Token → Option String
  | keyword _ => none
  | symbol _ => none
  | identifier name => some name
  | number text => some text
  | string text => some text
  | comment text => some text

/-- A token as a listing shows it: its kind and, in parentheses, its quoted text. -/
def listing (t : Token) : String :=
  match t.content? with
  | none => t.kind
  | some text => t.kind ++ "(" ++ Text.quote text ++ ")"

/-- Whether a token is a comment, which no construct takes notice of. -/
def isComment : Token → Bool
  | comment _ => true
  | _ => false

end Token

/-- A token and the place of its first character. -/
structure PlacedToken where
  token : Token
  position : Position
deriving DecidableEq, Repr

/-- A placed token as a line of a listing. -/
def PlacedToken.listing (t : PlacedToken) : String :=
  t.position.text ++ " " ++ t.token.listing ++ "\n"

end ChipScript
