import ChipScript.Proofs.Number.Nearest
import ChipScript.Proofs.Token.Spelling

/-!
# What numbers denote

The text of a number denotes a rational number (`denoted?`), said without the reader of literals:
a decimal denotes its digits in base ten, and hexadecimal and binary digits denote a word of 64
bits, taken as a signed integer.  Digits that do not fit into a word denote nothing, and neither
does a binary mark with underscores alone behind it.

Main result: `read?_numberText`, a number is read as the nearest binary64 number, if it denotes one.
-/

namespace ChipScript

open Binary64

/-! ## Digits -/

/-- The value of a digit, in either case. -/
def digit (c : Char) : Nat :=
  if c.isDigit then c.toNat - '0'.toNat
  else if 'a' ≤ c then c.toNat - 'a'.toNat + 10
  else c.toNat - 'A'.toNat + 10

/-- The number that digits denote, the most significant one first. -/
def numeral (base : Nat) (ds : List Char) : Nat :=
  Nat.ofDigits base (ds.map digit).reverse

/-! ## Numbers -/

/-- The signed integer that digits of a word denote. -/
def wordDenoted? (base : Nat) (ds : List Char) : Option ℚ :=
  if ds ≠ [] ∧ numeral base ds < Literal.wordSize then
    some (((numeral base ds : Int).bmod Literal.wordSize : Int) : ℚ)
  else none

/-- The number that the text of a literal without a sign denotes. -/
def denoted? : List Char → Option ℚ
  | '$' :: ds => wordDenoted? 16 ds
  | '%' :: ds => wordDenoted? 2 (ds.filter (· ≠ '_'))
  | cs =>
    let whole := cs.takeWhile (· ≠ '.')
    let fraction := cs.drop (whole.length + 1)
    some ((numeral 10 whole : ℚ) + numeral 10 fraction / 10 ^ fraction.length)

/-- A binary64 number is the one nearest to a rational number, with its sign. -/
def Rounds (x : ℚ) (value : Float) : Prop :=
  ∃ n, IsNearest |x| n ∧ value = ofOrdinal (x < 0) n

/-- At most one number is the nearest. -/
theorem Rounds.unique {x : ℚ} {v v' : Float} (h : Rounds x v) (h' : Rounds x v') : v = v' := by
  obtain ⟨n, hnearest, rfl⟩ := h
  obtain ⟨n', hnearest', rfl⟩ := h'
  rw [hnearest.unique hnearest']

/-! ## Digits are read -/

theorem numeral_append (base : Nat) (ds es : List Char) :
    numeral base (ds ++ es) = numeral base ds * base ^ es.length + numeral base es := by
  simp only [numeral, List.map_append, List.reverse_append, Nat.ofDigits_append,
    List.length_reverse, List.length_map]
  ring

theorem numeral_concat (base : Nat) (ds : List Char) (c : Char) :
    numeral base (ds ++ [c]) = numeral base ds * base + digit c := by
  rw [numeral_append]
  simp [numeral]

theorem decimalValue_eq_numeral {ds : List Char} (hdigits : ∀ c ∈ ds, c.isDigit = true) :
    Literal.decimalValue ds = numeral 10 ds := by
  induction ds using List.reverseRecOn with
  | nil => rfl
  | append_singleton ds c ih =>
    have hlast : c.isDigit = true := hdigits c (by simp)
    rw [Literal.decimalValue, List.foldl_append, ← Literal.decimalValue, numeral_concat,
      ih fun c hmem => hdigits c (by simp [hmem])]
    simp [digit, hlast]

theorem digitsValue?_eq_numeral {base : Nat} {ds : List Char}
    (hdigits : ∀ c ∈ ds, Literal.digitValue? base c = some (digit c)) (acc : Nat) :
    Literal.digitsValue? base acc ds = some (acc * base ^ ds.length + numeral base ds) := by
  -- On the digits that are left, whatever those before them have come to.
  induction ds generalizing acc with
  | nil => simp [Literal.digitsValue?, numeral]
  | cons c ds ih =>
    have hfirst := hdigits c List.mem_cons_self
    have hsplit : numeral base (c :: ds) = digit c * base ^ ds.length + numeral base ds := by
      simpa [numeral] using numeral_append base [c] ds
    rw [Literal.digitsValue?, hfirst]
    simp only
    rw [ih fun c hmem => hdigits c (List.mem_cons_of_mem _ hmem), hsplit, List.length_cons,
      Nat.pow_succ]
    congr 1
    ring

theorem digitValue?_hexadecimal {c : Char} (h : Lexer.isHexDigit c = true) :
    Literal.digitValue? 16 c = some (digit c) := by
  have hle_iff : ∀ a b : Char, a ≤ b ↔ a.toNat ≤ b.toNat := fun a b => UInt32.le_iff_toNat_le
  have hdecimal : c.isDigit = true ↔ '0' ≤ c ∧ c ≤ '9' := by
    rw [isDigit_iff, hle_iff, hle_iff]
    rfl
  simp only [Lexer.isHexDigit, Bool.or_eq_true, Bool.and_eq_true, decide_eq_true_eq, hdecimal] at h
  simp only [Literal.digitValue?, digit, hdecimal]
  simp only [hle_iff] at h ⊢
  simp only [Char.reduceToNat] at h ⊢
  -- A digit, a small letter or a capital letter.
  rcases h with (h | h) | h
  · have hbelow : c.toNat - 48 < 16 := by omega
    simp [h, hbelow]
  · have habove : ¬ c.toNat ≤ 57 := by omega
    have hbelow : c.toNat - 97 + 10 < 16 := by omega
    simp [h, habove, hbelow]
  · have habove : ¬ c.toNat ≤ 57 ∧ ¬ 97 ≤ c.toNat := by omega
    have hbelow : c.toNat - 65 + 10 < 16 := by omega
    simp [h, habove, hbelow]

theorem digitValue?_binary {c : Char} (h : Lexer.isBinaryDigit c = true) (hother : c ≠ '_') :
    Literal.digitValue? 2 c = some (digit c) := by
  simp only [Lexer.isBinaryDigit, Bool.or_eq_true, beq_iff_eq, or_assoc] at h
  rcases h with rfl | rfl | rfl
  · rfl
  · rfl
  · exact absurd rfl hother

/-! ## Words are read -/

theorem word?_eq {base : Nat} {ds : List Char}
    (hdigits : ∀ c ∈ ds, Literal.digitValue? base c = some (digit c)) :
    Literal.word? base ds = if ds ≠ [] ∧ numeral base ds < Literal.wordSize then
      some (UInt64.ofNat (numeral base ds)) else none := by
  have hwhole := digitsValue?_eq_numeral hdigits 0
  rw [Nat.zero_mul, Nat.zero_add] at hwhole
  cases ds with
  | nil => rfl
  | cons c cs =>
    -- The reader of words would skip a plus, but no digit is one.
    have hnoSign : c ≠ '+' := by
      rintro rfl
      cases hdigits '+' List.mem_cons_self
    unfold Literal.word?
    split
    · next rest hsigned => exact absurd (List.cons.inj hsigned).1 hnoSign
    · simp [hwhole]

/-- An integer is rounded with its sign. -/
theorem rounds_ofInt (n : Int) : Rounds n (ofInt n) := by
  have hmagnitude : |(n : ℚ)| = (n.natAbs : ℚ) / (1 : Nat) := by
    rw [Nat.cast_one, div_one, Nat.cast_natAbs, Int.cast_abs]
  refine ⟨nearest n.natAbs 1, hmagnitude ▸ nearest_isNearest n.natAbs one_pos, ?_⟩
  simp only [ofInt, Int.cast_lt_zero]

theorem wordDenoted?_rel {base : Nat} {ds : List Char}
    (hdigits : ∀ c ∈ ds, Literal.digitValue? base c = some (digit c)) :
    Option.Rel Rounds (wordDenoted? base ds) ((Literal.word? base ds).map Literal.wordValue) := by
  rw [word?_eq hdigits, wordDenoted?]
  split
  · have hsigned : (UInt64.ofNat (numeral base ds)).toInt64.toInt =
        (numeral base ds : Int).bmod Literal.wordSize := by
      simp [Literal.wordSize]
    rw [Option.map_some, Literal.wordValue, hsigned]
    exact .some (rounds_ofInt _)
  · exact .none

/-! ## Decimals are read -/

theorem rounds_nearestOrdinal {x : ℚ} {d : Decimal}
    (hvalue : x = (d.numerator : ℚ) / d.denominator) :
    Rounds x (ofOrdinal false d.nearestOrdinal) := by
  have hpositive : 0 < d.denominator := Nat.pow_pos (by decide)
  have hnonneg : 0 ≤ x := hvalue ▸ div_nonneg (Nat.cast_nonneg _) (Nat.cast_nonneg _)
  refine ⟨d.nearestOrdinal, ?_, ?_⟩
  · rw [abs_of_nonneg hnonneg, hvalue]
    exact nearest_isNearest d.numerator hpositive
  · rw [decide_eq_false (not_lt.2 hnonneg)]

/-- Digits, and a point and more digits behind them, denote a decimal. -/
theorem denoted?_decimal {ds : List Char} (cs : List Char) (hdigits : ∀ c ∈ ds, c.isDigit = true)
    (hpoint : ∀ c, cs.head? = some c → c = '.') :
    denoted? (ds ++ cs) =
      some ((numeral 10 ds : ℚ) + numeral 10 cs.tail / 10 ^ cs.tail.length) := by
  -- Neither a digit nor the point is one of the marks of the other bases.
  have hunmarked : ∀ mark rest, ds ++ cs = mark :: rest → mark ≠ '$' ∧ mark ≠ '%' := by
    intro mark rest hsame
    have hfirst : mark.isDigit = true ∨ mark = '.' := by
      cases ds with
      | nil =>
        rw [List.nil_append] at hsame
        exact .inr (hpoint mark (by rw [hsame]; rfl))
      | cons d ds =>
        obtain rfl := (List.cons.inj hsame).1
        exact .inl (hdigits d List.mem_cons_self)
    constructor <;> rintro rfl <;> rcases hfirst with hfirst | hfirst <;> cases hfirst
  have hinside : ∀ c ∈ ds, decide (c ≠ '.') = true := by
    intro c hmem
    apply decide_eq_true
    rintro rfl
    cases hdigits '.' hmem
  have houtside : ∀ c, cs.head? = some c → decide (c ≠ '.') = false := by
    intro c hfirst
    simp [hpoint c hfirst]
  unfold denoted?
  split
  · next rest hsame => exact absurd rfl (hunmarked _ rest hsame).1
  · next rest hsame => exact absurd rfl (hunmarked _ rest hsame).2
  · simp only [(takeWhile_eq_of_all hinside houtside).1, List.drop_length_add_append, List.drop_one]

theorem unsigned?_numberText {cs : List Char} (h : NumberText cs) :
    Option.Rel Rounds (denoted? cs) (Literal.unsigned? cs) := by
  cases h with
  | hexadecimal _ hdigits =>
    exact wordDenoted?_rel fun c hmem => digitValue?_hexadecimal (hdigits c hmem)
  | binary _ hdigits =>
    refine wordDenoted?_rel fun c hmem => ?_
    obtain ⟨hmem, hnoUnderscore⟩ := List.mem_filter.1 hmem
    exact digitValue?_binary (hdigits c hmem) (of_decide_eq_true hnoUnderscore)
  | whole hnonempty hdigits =>
    have hdenoted := denoted?_decimal [] hdigits (by simp)
    rw [List.append_nil] at hdenoted
    rw [hdenoted, Literal.unsigned?_decimal (Literal.decimal?_digits hdigits hnonempty)]
    refine .some (rounds_nearestOrdinal ?_)
    simp [Decimal.numerator, Decimal.denominator, decimalValue_eq_numeral hdigits, numeral]
  | @fraction ds es hdigits hnonempty hdigits' =>
    have hboth : ∀ c ∈ ds ++ es, c.isDigit = true := List.forall_mem_append.2 ⟨hdigits, hdigits'⟩
    rw [denoted?_decimal ('.' :: es) hdigits (by simp [eq_comm]),
      Literal.unsigned?_decimal (Literal.decimal?_point hdigits hdigits' (.inr hnonempty))]
    refine .some (rounds_nearestOrdinal ?_)
    -- Over the common denominator, the digits on both sides of the point are one numeral.
    simp only [Decimal.numerator, Decimal.denominator, decimalValue_eq_numeral hboth,
      numeral_append, List.tail_cons, neg_neg, Int.toNat_natCast, Int.toNat_neg_natCast,
      Nat.pow_eq, Nat.pow_zero, Nat.mul_one]
    push_cast
    field_simp

/-- The text of a number has no sign. -/
theorem not_numberText_minus {cs : List Char} : ¬ NumberText ('-' :: cs) := by
  generalize hsame : '-' :: cs = text
  intro h
  cases h with
  | hexadecimal | binary => cases hsame
  | whole _ hdigits => cases hdigits '-' (hsame ▸ List.mem_cons_self)
  | @fraction ds es hdigits =>
    cases ds with
    | nil => cases hsame
    | cons d ds =>
      obtain rfl := (List.cons.inj hsame).1
      cases hdigits '-' List.mem_cons_self

/-- **A number is read as the nearest binary64 number**, if it denotes a number at all. -/
theorem read?_numberText {text : String} (h : NumberText text.toList) :
    Option.Rel Rounds (denoted? text.toList) (Literal.read? text) := by
  have hunsigned := unsigned?_numberText h
  unfold Literal.read?
  split
  · next cs hsigned =>
    rw [hsigned] at h
    exact absurd h not_numberText_minus
  · exact hunsigned

end ChipScript
