/-!
# Blank characters

The characters that separate lexemes: those with the Unicode property White_Space, twenty-five in
all.
-/

namespace ChipScript.Text

/-- A character with the White_Space property. -/
def isBlank (c : Char) : Bool :=
  ('\t' ≤ c && c ≤ '\r') || c == ' ' || c == '\u0085' || c == '\u00a0' || c == '\u1680' ||
    ('\u2000' ≤ c && c ≤ '\u200a') || c == '\u2028' || c == '\u2029' || c == '\u202f' ||
    c == '\u205f' || c == '\u3000'

/-- A text without the blanks at both of its ends. -/
def trim (cs : List Char) : List Char :=
  ((cs.dropWhile isBlank).reverse.dropWhile isBlank).reverse

/-- A line ends with a blank. -/
theorem isBlank_newline : isBlank '\n' = true := by decide

end ChipScript.Text
