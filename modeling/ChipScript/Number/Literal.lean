import ChipScript.Number.Decimal

/-!
# Number literals

A literal is a decimal, a `$` followed by hexadecimal digits, or a `%` followed by binary digits
among which underscores do not count, each with an optional minus sign in front.  Hexadecimal and
binary digits name a 64-bit word that is read as a signed number.

Main definitions: `Literal.read?` gives the number a text denotes, `Literal.write` the shortest text
of a finite number.
-/

namespace ChipScript.Literal

/-! ## Digits -/

/-- The value of a digit in a base up to sixteen, in either case. -/
def digitValue? (base : Nat) (c : Char) : Option Nat :=
  let value? :=
    if '0' ≤ c ∧ c ≤ '9' then some (c.toNat - '0'.toNat)
    else if 'a' ≤ c ∧ c ≤ 'f' then some (c.toNat - 'a'.toNat + 10)
    else if 'A' ≤ c ∧ c ≤ 'F' then some (c.toNat - 'A'.toNat + 10)
    else none
  value?.filter (· < base)

/-- The number that a sequence of digits denotes after the digits of `acc`; `none` at the first
character that is no digit. -/
def digitsValue? (base : Nat) : Nat → List Char → Option Nat
  | acc, [] => some acc
  | acc, c :: cs =>
    match digitValue? base c with
    | some d => digitsValue? base (acc * base + d) cs
    | none => none

/-- The number that decimal digits denote. -/
def decimalValue (ds : List Char) : Nat :=
  ds.foldl (fun acc c => acc * 10 + (c.toNat - '0'.toNat)) 0

/-! ## Words -/

/-- The number of values of a word. -/
def wordSize : Nat := 0x10000000000000000

/-- A 64-bit word written in a base.  One plus sign may precede the digits, of which there is at
least one. -/
def word? (base : Nat) (cs : List Char) : Option UInt64 :=
  let ds := match cs with
    | '+' :: rest => rest
    | _ => cs
  if ds.isEmpty then none
  else
    match digitsValue? base 0 ds with
    | some n => if n < wordSize then some (UInt64.ofNat n) else none
    | none => none

/-- The number that a word stands for as a signed integer. -/
def wordValue (word : UInt64) : Float :=
  Binary64.ofInt word.toInt64.toInt

/-! ## Decimals -/

/-- The largest exponent to which another digit is still appended.  Above it an exponent no longer
matters: a literal would need as many digits to come back into range. -/
def exponentLimit : Nat := 0x10000

/-- The number that the digits of an exponent denote, which stops growing beyond `exponentLimit`. -/
def exponentValue (ds : List Char) : Nat :=
  ds.foldl (fun acc c => if acc < exponentLimit then acc * 10 + (c.toNat - '0'.toNat) else acc) 0

/-- The digits of an exponent, which are all that is left of the text. -/
def exponentDigits? (cs : List Char) : Option Nat :=
  if !cs.isEmpty && cs.all Char.isDigit then some (exponentValue cs) else none

/-- An exponent after its mark, with an optional sign. -/
def exponent? : List Char → Option Int
  | '-' :: cs => (exponentDigits? cs).map fun n => -(n : Int)
  | '+' :: cs => (exponentDigits? cs).map fun n => (n : Int)
  | cs => (exponentDigits? cs).map fun n => (n : Int)

/-- What follows the digits of a decimal: nothing, or a mark and an exponent. -/
def scale? : List Char → Option Int
  | [] => some 0
  | c :: cs => if c = 'e' ∨ c = 'E' then exponent? cs else none

/-- A decimal: digits with at most one point among or around them, at least one digit, and an
optional exponent. -/
def decimal? (cs : List Char) : Option Decimal :=
  let whole := cs.takeWhile Char.isDigit
  let (fraction, rest) := match cs.dropWhile Char.isDigit with
    | '.' :: after => (after.takeWhile Char.isDigit, after.dropWhile Char.isDigit)
    | rest => ([], rest)
  if whole.isEmpty && fraction.isEmpty then none
  else
    (scale? rest).map fun scale =>
      ⟨decimalValue (whole ++ fraction), scale - (fraction.length : Int)⟩

/-! ## Literals -/

/-- The number that an unsigned literal denotes. -/
def unsigned? : List Char → Option Float
  | '%' :: cs => (word? 2 (cs.filter (· ≠ '_'))).map wordValue
  | '$' :: cs => (word? 16 cs).map wordValue
  | cs => (decimal? cs).map fun d => Binary64.ofOrdinal false d.nearestOrdinal

/-- The number that a literal denotes. -/
def read? (text : String) : Option Float :=
  match text.toList with
  | '-' :: cs => (unsigned? cs).map fun value => -value
  | cs => unsigned? cs

/-- The shortest text that denotes a finite number.  Zero keeps its sign. -/
def write (value : Float) : String :=
  let magnitude := Binary64.ordinal value
  let text := if magnitude = 0 then ['0'] else (Decimal.shortest magnitude).stripZeros.positional
  String.ofList (if Binary64.isNegative value then '-' :: text else text)

end ChipScript.Literal
