import ChipScript.Text.Printable

/-!
# Quoted texts

The form in which a listing of tokens shows a text: between double quotes, with a backslash before
a quote or a backslash, the four short escapes for tab, line feed, carriage return and NUL, and the
code point in lowercase hexadecimal for any other character that is not printable.
-/

namespace ChipScript.Text

/-- One character as it stands between quotes. -/
def escape (c : Char) : String :=
  if c = '"' then "\\\""
  else if c = '\\' then "\\\\"
  else if c = '\t' then "\\t"
  else if c = '\n' then "\\n"
  else if c = '\r' then "\\r"
  else if c = '\x00' then "\\0"
  else if isPrintable c then c.toString
  else "\\u\x7b" ++ String.ofList (Nat.toDigits 16 c.toNat) ++ "\x7d"

/-- A text between double quotes. -/
def quote (s : String) : String :=
  "\"" ++ String.join (s.toList.map escape) ++ "\""

end ChipScript.Text
