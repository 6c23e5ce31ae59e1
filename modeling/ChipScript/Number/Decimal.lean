import ChipScript.Number.Binary64

/-!
# Decimal numbers

A decimal number `digits * 10 ^ exponent`, the binary64 number nearest to it, and the shortest
decimal that is read back as a given binary64 number.

A finite magnitude of `u` units is `u * 5 ^ 1074 * 10 ^ (-1074)`, so it has an exact decimal
expansion.  The shortest decimal is found by cutting that expansion at ever lower places: at each
place the two neighbours of the value are tried, the nearer one first, and the first neighbour that
is read back as the number is the answer.  At the lowest place the expansion itself is left, so an
answer always exists.
-/

namespace ChipScript

/-- The number `digits * 10 ^ exponent`. -/
structure Decimal where
  digits : Nat
  exponent : Int
deriving DecidableEq, Repr

namespace Decimal

/-- The numerator of the decimal as a fraction. -/
def numerator (d : Decimal) : Nat :=
  d.digits * Nat.pow 10 d.exponent.toNat

/-- The denominator of the decimal as a fraction. -/
def denominator (d : Decimal) : Nat :=
  Nat.pow 10 (-d.exponent).toNat

/-- The ordinal of the binary64 magnitude nearest to the decimal. -/
def nearestOrdinal (d : Decimal) : Nat :=
  Binary64.nearest d.numerator d.denominator

/-! ## The shortest decimal -/

/-- The number whose last digit stands at the place `10 ^ (cut - 1074)`. -/
def atPlace (cut digits : Nat) : Decimal :=
  ⟨digits, (cut : Int) - (Binary64.unitBits : Int)⟩

/-- The two neighbours of an expansion among the numbers with `cut` digits less, the nearer one
first.  Half way between them the upper one comes first. -/
def neighbours (exact cut : Nat) : List Decimal :=
  let unit := Nat.pow 10 cut
  let below := atPlace cut (exact / unit)
  let above := atPlace cut (exact / unit + 1)
  if 2 * (exact % unit) < unit then [below, above] else [above, below]

/-- The shortest decimal accepted by a test, among the neighbours of an expansion with at most `cut`
digits less; the expansion itself if there is none. -/
def shortestAccepted (accepts : Decimal → Bool) (exact : Nat) : Nat → Decimal
  | 0 => atPlace 0 exact
  | cut + 1 =>
    match (neighbours exact (cut + 1)).find? accepts with
    | some d => d
    | none => shortestAccepted accepts exact cut

/-- The digits of the exact expansion of a finite magnitude, whose last digit stands at the place
`10 ^ (-1074)`. -/
def expansion (ordinal : Nat) : Nat :=
  Binary64.units ordinal * Nat.pow 5 Binary64.unitBits

/-- The shortest decimal that is read back as `ordinal`, and of those the nearest to it. -/
def shortest (ordinal : Nat) : Decimal :=
  let exact := expansion ordinal
  shortestAccepted (·.nearestOrdinal = ordinal) exact ((Nat.toDigits 10 exact).length - 1)

/-! ## Positional text -/

/-- The same number without zeros at the end of its digits. -/
def stripZeros (d : Decimal) : Decimal :=
  if h : 0 < d.digits ∧ d.digits % 10 = 0 then
    stripZeros ⟨d.digits / 10, d.exponent + 1⟩
  else d
termination_by d.digits
decreasing_by exact Nat.div_lt_self h.1 (by decide)

/-- The number in positional notation: never an exponent, no point after a whole number, a zero
before the point of a fraction below one. -/
def positional (d : Decimal) : List Char :=
  let ds := Nat.toDigits 10 d.digits
  let places := (-d.exponent).toNat
  if places = 0 then ds ++ List.replicate d.exponent.toNat '0'
  else
    let padded := List.replicate (places + 1 - ds.length) '0' ++ ds
    padded.take (padded.length - places) ++ '.' :: padded.drop (padded.length - places)

/-! ## Elementary facts -/

/-- The decimal found is accepted, given that the expansion itself is. -/
theorem accepts_shortestAccepted {accepts : Decimal → Bool} {exact : Nat}
    (h : accepts (atPlace 0 exact) = true) (cut : Nat) :
    accepts (shortestAccepted accepts exact cut) = true := by
  induction cut with
  | zero => exact h
  | succ cut ih =>
    unfold shortestAccepted
    split
    · rename_i d hfound
      exact List.find?_some hfound
    · exact ih

end Decimal
end ChipScript
