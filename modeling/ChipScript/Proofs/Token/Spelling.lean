import ChipScript.Token.Lexer
import Mathlib

/-!
# Spellings of tokens

Every token that the lexer finds is spelled as `Token.Spelled` says, and a token so spelled is
found again wherever nothing follows that would belong to it (`scan_text`).  Comments are left
out: nothing but the end of a line ends them.
-/

namespace ChipScript

open Text Lexer

/-! ## Characters -/

/-- Digits are the ten ASCII digits. -/
theorem isDigit_iff {c : Char} : c.isDigit = true ↔ 48 ≤ c.toNat ∧ c.toNat ≤ 57 := by
  simp [Char.isDigit, UInt32.le_iff_toNat_le]

/-- A name starts with an ASCII letter or an underscore. -/
theorem isNameStart_iff {c : Char} :
    isNameStart c = true ↔
      (65 ≤ c.toNat ∧ c.toNat ≤ 90) ∨ (97 ≤ c.toNat ∧ c.toNat ≤ 122) ∨ c.toNat = 95 := by
  have hunderscore : c = '_' ↔ c.toNat = 95 := by
    constructor
    · intro h
      subst h
      rfl
    · intro h
      exact Char.toNat_inj.mp h
  simp [isNameStart, Char.isAlpha, Char.isUpper, Char.isLower, UInt32.le_iff_toNat_le, or_assoc,
    hunderscore]

/-- Printable ASCII characters are not blank. -/
theorem not_isBlank {c : Char} (hlow : 32 < c.toNat) (hhigh : c.toNat < 128) :
    isBlank c = false := by
  have hne : ∀ d : Char, d.toNat ≤ 32 ∨ 128 ≤ d.toNat → (c == d) = false := by
    intro d hd
    rw [beq_eq_false_iff_ne]
    intro hcd
    subst hcd
    omega
  have hle : ∀ low high : Char, high.toNat ≤ 32 ∨ 128 ≤ low.toNat →
      (decide (low ≤ c) && decide (c ≤ high)) = false := by
    intro low high hrange
    simp only [Char.le_def, UInt32.le_iff_toNat_le, Bool.and_eq_false_iff, decide_eq_false_iff_not]
    simp only [Char.toNat] at hlow hhigh hrange
    omega
  -- Every blank character is a control character, the space, or beyond ASCII, so that the tests
  -- fail one by one.
  simp only [isBlank]
  rw [hle '\t' '\r' (by decide), hle '\u2000' '\u200a' (by decide), hne ' ' (by decide),
    hne '\u0085' (by decide), hne '\u00a0' (by decide), hne '\u1680' (by decide),
    hne '\u2028' (by decide), hne '\u2029' (by decide), hne '\u202f' (by decide),
    hne '\u205f' (by decide), hne '\u3000' (by decide)]
  rfl

theorem isDigit_not_isBlank {c : Char} (h : c.isDigit = true) : isBlank c = false := by
  obtain ⟨hlow, hhigh⟩ := isDigit_iff.mp h
  exact not_isBlank (by omega) (by omega)

theorem isNameStart_not_isBlank {c : Char} (h : isNameStart c = true) : isBlank c = false := by
  have hrange := isNameStart_iff.mp h
  exact not_isBlank (by omega) (by omega)

theorem isNameStart_not_isDigit {c : Char} (h : isNameStart c = true) : c.isDigit = false := by
  have hrange := isNameStart_iff.mp h
  rw [← Bool.not_eq_true, isDigit_iff]
  omega

/-- Digits are word characters, and so they belong to a name before them. -/
theorem isDigit_isWord {c : Char} (h : c.isDigit = true) : isWord c = true := by
  have hrange := isDigit_iff.mp h
  have hascii : c.toNat < 128 := by omega
  simp [isWord, hascii, Char.isAlphanum, h]

theorem isHexDigit_isWord {c : Char} (h : Lexer.isHexDigit c = true) : isWord c = true := by
  simp only [Lexer.isHexDigit, Bool.or_eq_true, Bool.and_eq_true, decide_eq_true_eq, Char.le_def,
    UInt32.le_iff_toNat_le] at h
  -- A digit, a small letter or a capital letter.
  rcases h with (h | h) | h
  · exact isDigit_isWord h
  · have hlower : c.isLower = true := by
      simp only [Char.isLower, Bool.and_eq_true, decide_eq_true_eq, ge_iff_le,
        UInt32.le_iff_toNat_le]
      exact ⟨h.1, Nat.le_trans h.2 (by decide)⟩
    have hascii : c.toNat < 128 := Nat.lt_of_le_of_lt h.2 (by decide)
    simp [isWord, hascii, Char.isAlphanum, Char.isAlpha, hlower]
  · have hupper : c.isUpper = true := by
      simp only [Char.isUpper, Bool.decide_and, Bool.and_eq_true, decide_eq_true_eq, ge_iff_le,
        UInt32.le_iff_toNat_le]
      exact ⟨h.1, Nat.le_trans h.2 (by decide)⟩
    have hascii : c.toNat < 128 := Nat.lt_of_le_of_lt h.2 (by decide)
    simp [isWord, hascii, Char.isAlphanum, Char.isAlpha, hupper]

theorem isBinaryDigit_isWord {c : Char} (h : Lexer.isBinaryDigit c = true) : isWord c = true := by
  simp only [Lexer.isBinaryDigit, Bool.or_eq_true, beq_iff_eq] at h
  rcases h with (rfl | rfl) | rfl <;> decide

/-! ## Spellings -/

/-- The texts of names and reserved words. -/
def NameText (cs : List Char) : Prop :=
  ∃ first others, cs = first :: others ∧ isNameStart first = true ∧ ∀ c ∈ others, isWord c = true

/-- The texts of numbers, which have no sign. -/
inductive NumberText : List Char → Prop where
  | hexadecimal {ds : List Char} :
      ds ≠ [] → (∀ c ∈ ds, Lexer.isHexDigit c = true) → NumberText ('$' :: ds)
  | binary {ds : List Char} :
      ds ≠ [] → (∀ c ∈ ds, isBinaryDigit c = true) → NumberText ('%' :: ds)
  | whole {ds : List Char} : ds ≠ [] → (∀ c ∈ ds, c.isDigit = true) → NumberText ds
  | fraction {ds es : List Char} :
      (∀ c ∈ ds, c.isDigit = true) → es ≠ [] → (∀ c ∈ es, c.isDigit = true) →
      NumberText (ds ++ '.' :: es)

namespace Token

/-- The text of a token. -/
def text : Token → List Char
  | keyword word => word.spelling.toList
  | symbol sign => sign.spelling.toList
  | identifier name => name.toList
  | number text => text.toList
  | string text => '"' :: (text.toList ++ ['"'])
  | comment text => '#' :: text.toList

/-- A token that the lexer can find and that is no comment. -/
def Spelled : Token → Prop
  | keyword _ | symbol _ => True
  | identifier name => NameText name.toList ∧ Keyword.ofSpelling? name = none
  | number text => NumberText text.toList
  | string text => '"' ∉ text.toList
  | comment _ => False

/-- Nothing follows that would belong to the token. -/
def EndsBefore (rest : List Char) : Token → Prop
  | keyword _ | identifier _ => startsNoWord rest = true
  | number _ => startsNoWord rest = true ∧ rest.head? ≠ some '.'
  | symbol .assign | symbol .bang | symbol .less | symbol .greater => rest.head? ≠ some '='
  | symbol .dot => ∀ c, rest.head? = some c → c.isDigit = false
  | symbol _ | string _ | comment _ => True

/-- Whether a token is a quoted text. -/
def isQuoted : Token → Bool
  | string _ => true
  | _ => false

end Token

/-! ## Lexemes are found again -/

/-- Characters of a kind are taken as far as they go, when the next one is of another kind. -/
theorem takeWhile_eq_of_all {p : Char → Bool} {ds rest : List Char} (hds : ∀ c ∈ ds, p c = true)
    (hrest : ∀ c, rest.head? = some c → p c = false) :
    (ds ++ rest).takeWhile p = ds ∧ (ds ++ rest).dropWhile p = rest := by
  rw [List.takeWhile_append_of_pos hds, List.dropWhile_append_of_pos hds]
  cases rest with
  | nil => simp
  | cons c rest => simp [hrest c rfl]

/-- Where no word character follows, no character follows of a kind that belongs to words. -/
theorem not_of_startsNoWord {p : Char → Bool} (hp : ∀ {c : Char}, p c = true → isWord c = true)
    {rest : List Char} (hrest : startsNoWord rest = true) :
    ∀ c, rest.head? = some c → p c = false := by
  intro c hc
  cases rest with
  | nil => cases hc
  | cons d rest =>
      cases hc
      rw [← Bool.not_eq_true]
      intro h
      have hword := hp h
      simp [startsNoWord, hword] at hrest

/-- A word is scanned to its end. -/
theorem scan_word {first : Char} {others rest : List Char} (hfirst : isNameStart first = true)
    (hothers : ∀ c ∈ others, isWord c = true) (hrest : startsNoWord rest = true) :
    scan first (others ++ rest) = .lexeme
      ⟨match Keyword.ofSpelling? (String.ofList (first :: others)) with
        | some word => .keyword word
        | none => .identifier (String.ofList (first :: others)), first :: others, rest⟩ := by
  -- The tests for marks come first, and the start of a name is none of them.
  have hne : ∀ c : Char, isNameStart c = false → first ≠ c := by
    intro c hc h
    subst h
    rw [hfirst] at hc
    cases hc
  have hwords := takeWhile_eq_of_all hothers (not_of_startsNoWord id hrest)
  have hscan : scan first (others ++ rest) = .lexeme (word first (others ++ rest)) := by
    simp [scan, hne '#' (by decide), hne '"' (by decide), hne '$' (by decide), hne '%' (by decide),
      isNameStart_not_isDigit hfirst, hfirst]
  rw [hscan]
  unfold word
  rw [hwords.1]
  -- What is left is the only part of the lexeme that the words do not settle.
  exact congrArg (fun tail => Scan.lexeme ⟨_, first :: others, tail⟩) hwords.2

theorem scan_digit {d : Char} (hd : d.isDigit = true) (cs : List Char) :
    scan d cs = .lexeme (decimal d cs) := by
  have hne : ∀ c : Char, c.isDigit = false → d ≠ c := by
    intro c hc h
    subst h
    rw [hd] at hc
    cases hc
  simp [scan, hne '#' (by decide), hne '"' (by decide), hne '$' (by decide),
    hne '%' (by decide), hd]

/-- A point and digits are a fraction, up to the last digit. -/
theorem fraction?_digits {ds rest : List Char} (hne : ds ≠ []) (hds : ∀ c ∈ ds, c.isDigit = true)
    (hrest : ∀ c, rest.head? = some c → c.isDigit = false) :
    fraction? ('.' :: (ds ++ rest)) = some ('.' :: ds, rest) := by
  cases ds with
  | nil => exact absurd rfl hne
  | cons d ds =>
      obtain ⟨hd, hothers⟩ := List.forall_mem_cons.mp hds
      have hdigits := takeWhile_eq_of_all hothers hrest
      simp [fraction?, hd, hdigits]

theorem scan_hexadecimal {ds rest : List Char} (hne : ds ≠ [])
    (hds : ∀ c ∈ ds, Lexer.isHexDigit c = true) (hrest : startsNoWord rest = true) :
    scan '$' (ds ++ rest) =
      .lexeme ⟨.number (String.ofList ('$' :: ds)), '$' :: ds, rest⟩ := by
  have hdigits := takeWhile_eq_of_all hds (not_of_startsNoWord isHexDigit_isWord hrest)
  simp [scan, markedNumber, hdigits, hne, hrest]

theorem scan_binary {ds rest : List Char} (hne : ds ≠ [])
    (hds : ∀ c ∈ ds, isBinaryDigit c = true) (hrest : startsNoWord rest = true) :
    scan '%' (ds ++ rest) =
      .lexeme ⟨.number (String.ofList ('%' :: ds)), '%' :: ds, rest⟩ := by
  have hdigits := takeWhile_eq_of_all hds (not_of_startsNoWord isBinaryDigit_isWord hrest)
  simp [scan, markedNumber, hdigits, hne, hrest]

/-- Digits end where neither a digit nor a fraction follows. -/
theorem scan_whole {ds rest : List Char} (hne : ds ≠ []) (hds : ∀ c ∈ ds, c.isDigit = true)
    (hdigit : ∀ c, rest.head? = some c → c.isDigit = false) (hfraction : fraction? rest = none) :
    ∃ first others, ds ++ rest = first :: others ∧ isBlank first = false ∧
      scan first others = .lexeme ⟨.number (String.ofList ds), ds, rest⟩ := by
  cases ds with
  | nil => exact absurd rfl hne
  | cons d ds =>
      obtain ⟨hd, hothers⟩ := List.forall_mem_cons.mp hds
      have hdigits := takeWhile_eq_of_all hothers hdigit
      refine ⟨d, ds ++ rest, rfl, isDigit_not_isBlank hd, ?_⟩
      rw [scan_digit hd, decimal, hdigits.1, hdigits.2, hfraction]

/-- A fraction ends where no digit follows. -/
theorem scan_fraction {ds es rest : List Char} (hds : ∀ c ∈ ds, c.isDigit = true) (hne : es ≠ [])
    (hes : ∀ c ∈ es, c.isDigit = true) (hdigit : ∀ c, rest.head? = some c → c.isDigit = false) :
    ∃ first others, ds ++ '.' :: es ++ rest = first :: others ∧ isBlank first = false ∧
      scan first others =
        .lexeme ⟨.number (String.ofList (ds ++ '.' :: es)), ds ++ '.' :: es, rest⟩ := by
  have hafter : fraction? ('.' :: (es ++ rest)) = some ('.' :: es, rest) :=
    fraction?_digits hne hes hdigit
  cases ds with
  | nil =>
      -- Without digits before it the point comes first, and a scan tries a fraction before a sign.
      refine ⟨'.', es ++ rest, rfl, by decide, ?_⟩
      have hname : isNameStart '.' = false := by decide
      simp [scan, hafter, hname]
  | cons d ds =>
      obtain ⟨hd, hothers⟩ := List.forall_mem_cons.mp hds
      -- With digits the whole part ends at the point, which is no digit.
      have hpoint : ∀ c, ('.' :: (es ++ rest)).head? = some c → c.isDigit = false := by
        intro c hc
        cases hc
        decide
      have hdigits := takeWhile_eq_of_all hothers hpoint
      refine ⟨d, ds ++ '.' :: (es ++ rest), by simp, isDigit_not_isBlank hd, ?_⟩
      rw [scan_digit hd, decimal, hdigits.1, hdigits.2, hafter]

theorem fraction?_eq_none {rest : List Char} (hdot : rest.head? ≠ some '.') :
    fraction? rest = none := by
  unfold fraction?
  split
  · exact absurd rfl hdot
  · rfl

/-- **A number is scanned to its end**, where neither a word character nor a point follows. -/
theorem scan_number {cs rest : List Char} (h : NumberText cs) (hrest : startsNoWord rest = true)
    (hdot : rest.head? ≠ some '.') :
    ∃ first others, cs ++ rest = first :: others ∧ isBlank first = false ∧
      scan first others = .lexeme ⟨.number (String.ofList cs), cs, rest⟩ := by
  have hdigit := not_of_startsNoWord isDigit_isWord hrest
  cases h with
  | @hexadecimal ds hne hds =>
      exact ⟨'$', ds ++ rest, rfl, by decide, scan_hexadecimal hne hds hrest⟩
  | @binary ds hne hds => exact ⟨'%', ds ++ rest, rfl, by decide, scan_binary hne hds hrest⟩
  | whole hne hds => exact scan_whole hne hds hdigit (fraction?_eq_none hdot)
  | fraction hds hne hes => exact scan_fraction hds hne hes hdigit

theorem scan_string {cs rest : List Char} (h : '"' ∉ cs) :
    scan '"' (cs ++ '"' :: rest) =
      .lexeme ⟨.string (String.ofList cs), '"' :: (cs ++ ['"']), rest⟩ := by
  -- The text is taken up to a quote, and it has none inside.
  have hcs : ∀ c ∈ cs, decide (c ≠ '"') = true := by
    intro c hc
    apply decide_eq_true
    intro heq
    subst heq
    exact h hc
  have hquote : ∀ c, ('"' :: rest).head? = some c → decide (c ≠ '"') = false := by
    intro c hc
    cases hc
    rfl
  have hbody := takeWhile_eq_of_all hcs hquote
  simp only [scan, Lexer.string, hbody.1, hbody.2]
  rfl

/-- Four signs are scanned as they stand, where no equals sign follows. -/
theorem symbol?_single {c : Char} {sign : Symbol} {rest : List Char}
    (hsign : (c, sign) ∈ [('=', Symbol.assign), ('!', .bang), ('<', .less), ('>', .greater)])
    (hrest : rest.head? ≠ some '=') : symbol? (c :: rest) = some (sign, [c], rest) := by
  simp only [List.mem_cons, Prod.mk.injEq, List.not_mem_nil, or_false] at hsign
  cases rest with
  | nil => rcases hsign with ⟨rfl, rfl⟩ | ⟨rfl, rfl⟩ | ⟨rfl, rfl⟩ | ⟨rfl, rfl⟩ <;> rfl
  | cons d rest =>
      -- The sign with an equals sign behind it is tried first, and it is not there.
      have hd : d ≠ '=' := by simpa using hrest
      rcases hsign with ⟨rfl, rfl⟩ | ⟨rfl, rfl⟩ | ⟨rfl, rfl⟩ | ⟨rfl, rfl⟩ <;> simp [symbol?, hd]

/-- **A sign is scanned as itself**, where nothing follows that would make another sign or a number
    of it. -/
theorem scan_symbol (sign : Symbol) {rest : List Char} (h : (Token.symbol sign).EndsBefore rest) :
    ∃ first others, sign.spelling.toList ++ rest = first :: others ∧ isBlank first = false ∧
      scan first others = .lexeme ⟨.symbol sign, sign.spelling.toList, rest⟩ := by
  -- Four symbols would grow by an equals sign, and a point by digits.
  have hplain : ∀ {first : Char} {others : List Char},
      first ∉ ['#', '"', '$', '%'] → first.isDigit = false → isNameStart first = false →
      fraction? (first :: others) = none →
      symbol? (first :: others) = some (sign, sign.spelling.toList, rest) →
      scan first others = .lexeme ⟨.symbol sign, sign.spelling.toList, rest⟩ := by
    intro first others hmark hdigit hname hfraction hsymbol
    simp only [List.mem_cons, List.not_mem_nil, or_false, not_or] at hmark
    simp [scan, hmark, hdigit, hname, hfraction, hsymbol]
  cases sign with
  | dot =>
      refine ⟨'.', rest, rfl, by decide, hplain (by decide) rfl rfl ?_ rfl⟩
      cases rest with
      | nil => rfl
      | cons c rest => simp [fraction?, h c rfl]
  | assign =>
      refine ⟨'=', rest, rfl, by decide, hplain (by decide) rfl rfl rfl ?_⟩
      exact symbol?_single (by simp) h
  | bang =>
      refine ⟨'!', rest, rfl, by decide, hplain (by decide) rfl rfl rfl ?_⟩
      exact symbol?_single (by simp) h
  | less =>
      refine ⟨'<', rest, rfl, by decide, hplain (by decide) rfl rfl rfl ?_⟩
      exact symbol?_single (by simp) h
  | greater =>
      refine ⟨'>', rest, rfl, by decide, hplain (by decide) rfl rfl rfl ?_⟩
      exact symbol?_single (by simp) h
  | _ => exact ⟨_, _, rfl, by decide, hplain (by decide) rfl rfl rfl rfl⟩

/-- A name, if its characters are tested together. -/
theorem nameText_of_all {first : Char} {others : List Char} (hfirst : isNameStart first = true)
    (hothers : others.all isWord = true) : NameText (first :: others) :=
  ⟨first, others, rfl, hfirst, List.all_eq_true.1 hothers⟩

/-- Reserved words are spelled like names. -/
theorem nameText_spelling (word : Keyword) : NameText word.spelling.toList := by
  cases word <;> exact nameText_of_all (by decide) (by decide)

/-- A name is scanned as the keyword that it spells, and else as an identifier. -/
theorem scan_name {name : String} {rest : List Char} (h : NameText name.toList)
    (hrest : startsNoWord rest = true) :
    ∃ first others, name.toList ++ rest = first :: others ∧ isBlank first = false ∧
      scan first others = .lexeme
        ⟨match Keyword.ofSpelling? name with
          | some word => .keyword word
          | none => .identifier name, name.toList, rest⟩ := by
  obtain ⟨first, others, hname, hfirst, hothers⟩ := h
  have hscan := scan_word hfirst hothers hrest
  rw [← hname, String.ofList_toList] at hscan
  exact ⟨first, others ++ rest, by rw [hname]; rfl, isNameStart_not_isBlank hfirst, hscan⟩

/-- **A spelled token is found.**  At the start of a text that goes on with nothing that would
    belong to it, the lexer finds the token, and leaves what follows it. -/
theorem scan_text {t : Token} (ht : t.Spelled) {rest : List Char} (hrest : t.EndsBefore rest) :
    ∃ first others, t.text ++ rest = first :: others ∧ isBlank first = false ∧
      ∃ text, scan first others = .lexeme ⟨t, text, rest⟩ := by
  -- Each kind of token has its own scan, and what must not follow depends on the kind.
  cases t with
  | keyword word =>
      obtain ⟨first, others, heq, hblank, hscan⟩ := scan_name (nameText_spelling word) hrest
      rw [Keyword.ofSpelling?_spelling] at hscan
      exact ⟨first, others, heq, hblank, _, hscan⟩
  | symbol sign =>
      obtain ⟨first, others, heq, hblank, hscan⟩ := scan_symbol sign hrest
      exact ⟨first, others, heq, hblank, _, hscan⟩
  | identifier name =>
      obtain ⟨hname, hkeyword⟩ := ht
      obtain ⟨first, others, heq, hblank, hscan⟩ := scan_name hname hrest
      rw [hkeyword] at hscan
      exact ⟨first, others, heq, hblank, _, hscan⟩
  | number text =>
      obtain ⟨first, others, heq, hblank, hscan⟩ := scan_number ht hrest.1 hrest.2
      rw [String.ofList_toList] at hscan
      exact ⟨first, others, heq, hblank, _, hscan⟩
  | string text =>
      have hscan : scan '"' (text.toList ++ '"' :: rest) = _ := scan_string ht
      rw [String.ofList_toList] at hscan
      exact ⟨'"', text.toList ++ '"' :: rest, by simp [Token.text], by decide, _, hscan⟩
  | comment text => exact absurd ht id

/-! ## Lexemes are spelled -/

theorem mem_takeWhile {p : Char → Bool} {cs : List Char} {c : Char} (h : c ∈ cs.takeWhile p) :
    p c = true :=
  List.all_eq_true.mp List.all_takeWhile c h

theorem markedNumber_spelled {mark : Char} {isDigit : Char → Bool} {cs : List Char}
    {found : Lexeme} (h : markedNumber mark isDigit cs = .lexeme found)
    (htext : ∀ ds : List Char, ds ≠ [] → (∀ c ∈ ds, isDigit c = true) → NumberText (mark :: ds)) :
    found.token.Spelled := by
  unfold markedNumber at h
  simp only at h
  split at h
  · next hdigits =>
    cases h
    -- A mark without digits is no lexeme, so there is a digit.
    rw [Bool.and_eq_true, Bool.not_eq_true', List.isEmpty_eq_false_iff] at hdigits
    show NumberText (String.ofList _).toList
    rw [String.toList_ofList]
    exact htext _ hdigits.1 fun c hc => mem_takeWhile hc
  · cases h

theorem fraction?_spelled {cs text rest : List Char} (h : fraction? cs = some (text, rest)) :
    ∃ es, text = '.' :: es ∧ es ≠ [] ∧ ∀ c ∈ es, c.isDigit = true := by
  unfold fraction? at h
  split at h
  · next c cs =>
    split at h
    · next hc =>
      cases h
      refine ⟨_, rfl, List.cons_ne_nil _ _, ?_⟩
      exact List.forall_mem_cons.mpr ⟨hc, fun d hd => mem_takeWhile hd⟩
    · cases h
  · cases h

/-- A number that starts with a digit is whole, or has a fraction. -/
theorem decimal_spelled {d : Char} (hd : d.isDigit = true) (cs : List Char) :
    (decimal d cs).token.Spelled := by
  have hwhole : ∀ c ∈ d :: cs.takeWhile Char.isDigit, c.isDigit = true :=
    List.forall_mem_cons.mpr ⟨hd, fun c hc => mem_takeWhile hc⟩
  unfold decimal
  simp only
  split
  · next fraction rest hfraction =>
    -- A fraction has been found behind the whole part.
    obtain ⟨es, rfl, hne, hes⟩ := fraction?_spelled hfraction
    show NumberText (String.ofList _).toList
    rw [String.toList_ofList]
    exact .fraction hwhole hne hes
  · show NumberText (String.ofList _).toList
    rw [String.toList_ofList]
    exact .whole (List.cons_ne_nil _ _) hwhole

theorem word_spelled {c : Char} (hc : isNameStart c = true) (cs : List Char) :
    (word c cs).token.Spelled := by
  unfold word
  simp only
  split
  · -- Any reserved word is spelled.
    trivial
  · next hkeyword =>
    refine ⟨?_, hkeyword⟩
    rw [String.toList_ofList]
    exact ⟨c, _, rfl, hc, fun d hd => mem_takeWhile hd⟩

/-- **Every token that is found is spelled**, but for comments. -/
theorem scan_spelled {c : Char} {cs : List Char} {found : Lexeme} (h : scan c cs = .lexeme found)
    (hcomment : found.token.isComment = false) : found.token.Spelled := by
  -- The tests of a scan one after another, from the marks to the signs.
  unfold scan at h
  split at h
  · cases h
    cases hcomment
  split at h
  · unfold Lexer.string at h
    split at h
    · cases h
    · cases h
      show '"' ∉ (String.ofList _).toList
      rw [String.toList_ofList]
      intro hquote
      simpa using mem_takeWhile hquote
  split at h
  · exact markedNumber_spelled h fun ds hne hds => .hexadecimal hne hds
  split at h
  · exact markedNumber_spelled h fun ds hne hds => .binary hne hds
  split at h
  · next hdigit =>
    cases h
    exact decimal_spelled hdigit cs
  split at h
  · next hname =>
    cases h
    exact word_spelled hname cs
  split at h
  · next text rest hfraction =>
    cases h
    obtain ⟨es, rfl, hne, hes⟩ := fraction?_spelled hfraction
    show NumberText (String.ofList _).toList
    rw [String.toList_ofList]
    -- A number may begin with its point, and then its whole part is empty.
    have hempty : ∀ c ∈ ([] : List Char), c.isDigit = true := by simp
    exact .fraction hempty hne hes
  split at h
  · cases h
    trivial
  · cases h

/-! ## Whole texts -/

namespace Cursor

theorem tokens_of_next_none {c after : Cursor} (h : c.next = (none, after)) :
    c.tokens = .ok [] := by
  rw [tokens]
  split
  · rfl
  · next h' => rw [h] at h'; cases h'
  · next h' => rw [h] at h'; cases h'

theorem tokens_of_next_ok {c after : Cursor} {token : PlacedToken} {rest : List PlacedToken}
    (h : c.next = (some (.ok token), after)) (hrest : after.tokens = .ok rest) :
    c.tokens = .ok (token :: rest) := by
  rw [tokens]
  split
  · next h' => rw [h] at h'; cases h'
  · next h' => rw [h] at h'; cases h'
  · next h' =>
    rw [h] at h'
    cases h'
    rw [hrest]

/-- Tokens depend on what is next, and not on the blanks before it. -/
theorem tokens_congr {c d : Cursor} {placed : List PlacedToken} (h : c.next = d.next)
    (hd : d.tokens = .ok placed) : c.tokens = .ok placed := by
  -- By the cases of the other text, which has tokens.
  rw [tokens] at hd
  split at hd
  · next hnext =>
    cases hd
    exact tokens_of_next_none (h.trans hnext)
  · cases hd
  · next hnext =>
    split at hd
    · next hrest =>
      cases hd
      exact tokens_of_next_ok (h.trans hnext) hrest
    · cases hd

theorem next_token {c after : Cursor} {token : PlacedToken}
    (h : c.next = (some (.ok token), after)) :
    ∃ found first others, Lexer.scan first others = .lexeme found ∧ token.token = found.token := by
  unfold next at h
  simp only at h
  split at h
  · cases h
  · next first others _ =>
    split at h
    · next found hscan =>
      cases h
      exact ⟨found, first, others, hscan, rfl⟩
    · cases h
    · cases h

/-- Every token of a text is spelled, but for comments. -/
theorem tokens_spelled (c : Cursor) {placed : List PlacedToken} (h : c.tokens = .ok placed) :
    ∀ t ∈ placed, t.token.isComment = false → t.token.Spelled := by
  -- Every token shortens the text, so the induction is on its length.
  induction hlength : c.rest.length using Nat.strongRecOn generalizing c placed with
  | ind n ih =>
      subst hlength
      rw [tokens] at h
      split at h
      · cases h
        simp
      · cases h
      · next token after hnext =>
        split at h
        · next rest hrest =>
          cases h
          have hothers := ih _ (next_length_lt hnext) after hrest rfl
          apply List.forall_mem_cons.mpr ⟨?_, hothers⟩
          intro hcomment
          obtain ⟨found, first, others, hscan, htoken⟩ := next_token hnext
          rw [htoken] at hcomment ⊢
          exact scan_spelled hscan hcomment
        · cases h

end Cursor

/-- A text is read as tokens, at whatever position it starts. -/
def Lexes (cs : List Char) (ts : List Token) : Prop :=
  ∀ position, ∃ placed, (Cursor.mk cs position).tokens = .ok placed ∧
    placed.map PlacedToken.token = ts

theorem lexes_nil : Lexes [] [] := by
  intro position
  exact ⟨[], Cursor.tokens_of_next_none rfl, rfl⟩

/-- A blank before a text makes no difference to its tokens. -/
theorem Lexes.blank {c : Char} (hc : isBlank c = true) {cs : List Char} {ts : List Token}
    (h : Lexes cs ts) : Lexes (c :: cs) ts := by
  intro position
  obtain ⟨placed, hplaced, hts⟩ := h (position.after c)
  have hskip : (Cursor.mk (c :: cs) position).skipBlanks =
      (Cursor.mk cs (position.after c)).skipBlanks := by
    simp [Cursor.skipBlanks, hc, Position.afterAll]
  have hnext : (Cursor.mk (c :: cs) position).next = (Cursor.mk cs (position.after c)).next := by
    rw [Cursor.next, hskip]
    rfl
  exact ⟨placed, Cursor.tokens_congr hnext hplaced, hts⟩

/-- **A spelled token before a text is read with it**, where nothing follows that would belong to
    the token. -/
theorem Lexes.token {t : Token} (ht : t.Spelled) {rest : List Char} (hrest : t.EndsBefore rest)
    {ts : List Token} (h : Lexes rest ts) : Lexes (t.text ++ rest) (t :: ts) := by
  obtain ⟨first, others, heq, hblank, text, hscan⟩ := scan_text ht hrest
  rw [heq]
  intro position
  obtain ⟨placed, hplaced, hts⟩ := h (position.afterAll text)
  refine ⟨⟨t, position⟩ :: placed, ?_, by rw [List.map_cons, hts]⟩
  -- The token starts with no blank, so that the scan begins with it.
  apply Cursor.tokens_of_next_ok _ hplaced
  simp [Cursor.next, Cursor.skipBlanks, hblank, hscan]

theorem Lexes.symbol (sign : Symbol) {rest : List Char} {ts : List Token}
    (hrest : (Token.symbol sign).EndsBefore rest) (h : Lexes rest ts) :
    Lexes (sign.spelling.toList ++ rest) (.symbol sign :: ts) :=
  Lexes.token (t := .symbol sign) trivial hrest h

/-- A reserved word before a text is read with it, where no word character follows. -/
theorem Lexes.keyword (word : Keyword) {rest : List Char} {ts : List Token}
    (hrest : startsNoWord rest = true) (h : Lexes rest ts) :
    Lexes (word.spelling.toList ++ rest) (.keyword word :: ts) :=
  Lexes.token (t := .keyword word) trivial hrest h

theorem Lexes.space {rest : List Char} {ts : List Token} (h : Lexes rest ts) :
    Lexes (' ' :: rest) ts :=
  h.blank rfl

end ChipScript
