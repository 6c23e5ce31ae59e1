import ChipScript.Proofs.Node.Folding
import ChipScript.Proofs.Node.Legible
import ChipScript.Proofs.Node.Rewriting
import ChipScript.Proofs.Number.Denotation
import ChipScript.Proofs.Token.Partition

/-!
# Numbers of scripts

Every number token of a text is read as the binary64 number nearest to what it denotes, and the
numbers in a script come from such tokens: a number is the text of a token, or what becomes of it
behind a minus sign.  So a number in a script has a value, unless it comes from a token that denotes
nothing: hexadecimal or binary digits that do not fit into a word, or a binary mark without a digit.

Main result: `number_tokens_denote`.
-/

namespace ChipScript

open Node

/-! ## Tokens -/

/-- Whatever token the cursor gives is spelled, unless it is a comment. -/
theorem Cursor.item_spelled {c : Cursor} {n : Nat} {placed : PlacedToken}
    (h : c.item n = some (.ok placed)) (hnoComment : placed.token.isComment = false) :
    placed.token.Spelled := by
  induction n generalizing c with
  | zero =>
    have hgiven : c.next = (some (.ok placed), c.next.2) := Prod.ext h rfl
    obtain ⟨found, first, others, hscanned, hsame⟩ := Cursor.next_token hgiven
    rw [hsame] at hnoComment ⊢
    exact scan_spelled hscanned hnoComment
  | succ n ih => exact ih h

/-! ## Trees with a property throughout -/

namespace Node

/-- Whether a tree is a number as it is written. -/
def isNumber : Node → Bool
  | .number _ => true
  | _ => false

/-- Trees of which everything at a root is true, as far as they go. -/
inductive Throughout (P : Node → Prop) : Node → Prop where
  | intro {node : Node} : P node → (∀ part ∈ node.parts, Throughout P part) → Throughout P node

variable {P : Node → Prop}

theorem Throughout.occurs {node inner : Node} (h : Throughout P node)
    (hoccurs : Occurs inner node) : P inner := by
  induction hoccurs with
  | here =>
    obtain ⟨hroot, -⟩ := h
    exact hroot
  | within hmem _ ih =>
    obtain ⟨-, hwithin⟩ := h
    exact ih (hwithin _ hmem)

theorem Throughout.number {text : String} (h : P (.number text)) : Throughout P (.number text) :=
  .intro h (by simp [parts])

theorem Throughout.constant {name : String} (h : P (.constant name)) :
    Throughout P (.constant name) :=
  .intro h (by simp [parts])

end Node

namespace Grammar

section Throughout

/-- What a phrase stands for has a property throughout. -/
def Phrase.Throughout (P : Node → Prop) : Phrase → Prop
  | .value _ node => node.Throughout P
  | .list nodes => ∀ node ∈ nodes, node.Throughout P
  | .arguments nodes => ∀ node ∈ nodes, node.Throughout P
  | .suffix index _ => ∀ node ∈ index.toList, node.Throughout P

/-- What a sentence stands for has a property throughout. -/
def Sentence.Throughout (P : Node → Prop) : Sentence → Prop
  | .statement node => node.Throughout P
  | .sequence nodes => ∀ node ∈ nodes, node.Throughout P

/-- A property of numbers that holds of the numbers that are read from some tokens. -/
structure HoldsOf (P : Node → Prop) (ts : List Token) : Prop where
  other : ∀ node, node.isNumber = false → P node
  number : ∀ text, .number text ∈ ts → P (.number text) ∧ P (Parser.negated text)

variable {P : Node → Prop}

theorem HoldsOf.mono {ts us : List Token} (h : HoldsOf P ts) (hsub : us ⊆ ts) : HoldsOf P us :=
  ⟨h.other, fun text hmem => h.number text (hsub hmem)⟩

theorem HoldsOf.left {ts us : List Token} (h : HoldsOf P (ts ++ us)) : HoldsOf P ts :=
  h.mono (List.subset_append_left ts us)

theorem HoldsOf.right {ts us : List Token} (h : HoldsOf P (ts ++ us)) : HoldsOf P us :=
  h.mono (List.subset_append_right ts us)

theorem HoldsOf.tail {t : Token} {ts : List Token} (h : HoldsOf P (t :: ts)) : HoldsOf P ts :=
  h.mono (List.subset_cons_self t ts)

/-- A negated number is a leaf. -/
theorem parts_negated (text : String) : (Parser.negated text).parts = [] :=
  Parser.negated_cases text (fun _ => rfl) (fun _ => rfl)

/-- **What is read from tokens has a property throughout** if the numbers of the tokens have it. -/
theorem Derives.throughout {declared : List String} {phrase : Phrase} {ts : List Token}
    (h : Derives declared phrase ts) (hholds : HoldsOf P ts) : phrase.Throughout P := by
  induction h with
  | lift _ _ ih => exact ih hholds
  | join _ hjoins _ _ hleft hright =>
    have hfirst := hleft hholds.left
    have hsecond := hright hholds.right.tail
    cases hjoins <;>
      exact .intro (hholds.other _ rfl) (by simpa [Node.parts] using ⟨hfirst, hsecond⟩)
  | choice _ _ _ hfirst hsecond hthird =>
    have hcondition := hfirst hholds.left
    have hthenValue := hsecond hholds.right.tail.left
    have helseValue := hthird hholds.right.tail.right.tail
    exact .intro (hholds.other _ rfl)
      (by simpa [Node.parts] using ⟨hcondition, hthenValue, helseValue⟩)
  | not _ ih =>
    refine .intro (hholds.other _ rfl) fun part hmem => ?_
    exact List.mem_singleton.1 hmem ▸ ih hholds.tail
  | number text => exact .number (hholds.number text (by simp)).1
  | negative text =>
    -- A minus sign and a number make one leaf.
    refine .intro (hholds.number text (by simp)).2 ?_
    rw [parts_negated]
    exact List.forall_mem_nil _
  | constant => exact .constant (hholds.other _ rfl)
  | hash | device => exact .intro (hholds.other _ rfl) (by simp [Node.parts])
  | group _ ih => exact ih hholds.tail.left
  | call _ _ ih => exact .intro (hholds.other _ rfl) (ih hholds.tail.tail.left)
  | read _ _ _ ih => exact .intro (hholds.other _ rfl) (ih hholds.tail)
  | one _ ih =>
    intro node hmem
    exact List.mem_singleton.1 hmem ▸ ih hholds
  | more _ _ hfirst hrest =>
    exact List.forall_mem_cons.2 ⟨hfirst hholds.left, hrest hholds.right.tail⟩
  | someArguments _ ih => exact ih hholds
  | indexed _ _ ih =>
    intro node hmem
    exact List.mem_singleton.1 hmem ▸ ih hholds.tail.left
  | noArguments | bare | property => exact fun node hmem => by simp at hmem

theorem Forms.throughout {declared after : List String} {inLoop : Bool} {sentence : Sentence}
    {ts : List Token} (h : Forms declared inLoop sentence ts after) (hholds : HoldsOf P ts) :
    sentence.Throughout P := by
  induction h with
  | declare _ _ _ hvalue =>
    have hvalue := hvalue.throughout hholds.tail.tail.tail.left
    exact .intro (hholds.other _ rfl) fun part hmem => List.mem_singleton.1 hmem ▸ hvalue
  | assign _ _ hsuffix hvalue =>
    have hindex := hsuffix.throughout hholds.tail.left
    have hvalue := hvalue.throughout hholds.tail.right.tail.left
    exact .intro (hholds.other _ rfl) (List.forall_mem_cons.2 ⟨hvalue, hindex⟩)
  | loop _ ih =>
    refine .intro (hholds.other _ rfl) fun part hmem => ?_
    exact List.mem_singleton.1 hmem ▸ ih hholds.tail
  | whileLoop hcondition _ ih | branch hcondition _ ih =>
    have htested := hcondition.throughout hholds.tail.tail.left
    have hbody := ih hholds.tail.tail.right.tail
    exact .intro (hholds.other _ rfl) (by simpa [Node.parts] using ⟨htested, hbody⟩)
  | branchElse hcondition _ _ _ hfirst hsecond =>
    have htested := hcondition.throughout hholds.tail.tail.left
    have hbefore := hfirst hholds.tail.tail.right.tail.left
    have hbehind := hsecond hholds.tail.tail.right.tail.right.tail
    exact .intro (hholds.other _ rfl) (by simpa [Node.parts] using ⟨htested, hbefore, hbehind⟩)
  | branchElseIf hcondition _ _ _ hfirst hsecond =>
    have htested := hcondition.throughout hholds.tail.tail.left
    have hbefore := hfirst hholds.tail.tail.right.tail.left
    -- The word that is added for the derivation is no number.
    have hrest := hholds.tail.tail.right.tail.right.tail
    have hbehind := hsecond ⟨hrest.other, fun text hmem => hrest.number text (by simpa using hmem)⟩
    exact .intro (hholds.other _ rfl) (by simpa [Node.parts] using ⟨htested, hbefore, hbehind⟩)
  | leave | again | device => exact .intro (hholds.other _ rfl) (by simp [Node.parts])
  | command _ harguments =>
    exact .intro (hholds.other _ rfl) (harguments.throughout hholds.tail.tail.left)
  | block _ ih => exact .intro (hholds.other _ rfl) (ih hholds.tail.left)
  | done => exact fun node hmem => by simp at hmem
  | next _ _ hfirst hrest => exact List.forall_mem_cons.2 ⟨hfirst hholds.left, hrest hholds.right⟩

end Throughout

/-! ## Numbers behind a minus sign -/

/-- A negated number has the opposite value. -/
theorem value?_negated {text : String} (h : NumberText text.toList) :
    (Parser.negated text).value? = (Literal.read? text).map fun value => -value := by
  have hminus : Literal.read? ("-" ++ text) = (Literal.read? text).map fun value => -value := by
    have hwhole : ("-" ++ text).toList = '-' :: text.toList := by
      rw [String.toList_append]
      rfl
    -- A number token has no sign of its own, so that the sign in front of it is the only one.
    have hunsigned : Literal.read? text = Literal.unsigned? text.toList := by
      unfold Literal.read?
      split
      · next cs hsigned => exact absurd (hsigned ▸ h) not_numberText_minus
      · rfl
    rw [hunsigned, Literal.read?, hwhole]
    rfl
  unfold Parser.negated
  split
  · next hread => rw [value?_ofValue, hread, Option.map_some]
  · next hread => rw [value?_ofValue, hread, Option.map_some]
  · exact hminus

/-- A number whose value is not known comes from one that denotes nothing. -/
def Accounted (ts : List Token) (node : Node) : Prop :=
  ∀ text, node = .number text → (∃ value, Literal.read? text = some value) ∨
    ∃ source, .number source ∈ ts ∧ denoted? source.toList = none ∧
      (text = source ∨ text = "-" ++ source)

theorem holdsOf_accounted {ts : List Token} (hspelled : ∀ t ∈ ts, t.Spelled) :
    HoldsOf (Accounted ts) ts := by
  refine ⟨fun node hother text hsame => ?_, fun text hmem => ?_⟩
  · rw [hsame] at hother
    cases hother
  · have hnumber : NumberText text.toList := hspelled _ hmem
    have hvalue := value?_negated hnumber
    have hrounded := read?_numberText hnumber
    cases hread : Literal.read? text with
    | some v =>
      constructor
      · rintro _ ⟨⟩
        exact .inl ⟨v, hread⟩
      · intro negative hsame
        rw [hsame, hread] at hvalue
        exact .inl ⟨_, hvalue⟩
    | none =>
      -- What is not read denotes nothing, and a minus sign is only put in front of it.
      rw [hread] at hrounded
      generalize hdenotes : denoted? text.toList = denoted at hrounded
      cases hrounded
      have hnegated : Parser.negated text = .number ("-" ++ text) := by
        unfold Parser.negated
        rw [hread]
        split <;> first | rfl | contradiction
      constructor
      · rintro _ ⟨⟩
        exact .inr ⟨text, hmem, hdenotes, .inl rfl⟩
      · intro negative hsame
        obtain rfl := Node.number.inj (hnegated.symm.trans hsame)
        exact .inr ⟨text, hmem, hdenotes, .inr rfl⟩

end Grammar

/-! ## Scripts -/

/-- **Numbers denote what their digits say.**  Every number token that a text gives is read as the
    binary64 number nearest to what it denotes, and has no value if it denotes nothing.  Every
    number in a script that has been read has a value, unless it is such a token, or such a token
    behind a minus sign. -/
theorem number_tokens_denote (source : String) :
    (∀ n placed text, (Cursor.ofText source.toList).item n = some (.ok placed) →
      placed.token = .number text →
      Option.Rel Rounds (denoted? text.toList) (Literal.read? text)) ∧
    ∀ tokens program, tokenize source = .ok tokens → Program.ofSource source = .ok program →
      ∀ node ∈ program, ∀ text, Occurs (.number text) node →
        (∃ value, Literal.read? text = some value) ∨
        ∃ placed ∈ tokens, ∃ token, placed.token = .number token ∧ denoted? token.toList = none ∧
          (text = token ∨ text = "-" ++ token) := by
  constructor
  · intro n placed text hgiven hnumber
    have hspelled := Cursor.item_spelled hgiven (by rw [hnumber]; rfl)
    rw [hnumber] at hspelled
    exact read?_numberText hspelled
  · intro tokens program hscanned hread node hmem text hoccurs
    obtain ⟨tokens', hscanned', hparsed⟩ := ofSource_eq_ok.1 hread
    cases hscanned.symm.trans hscanned'
    obtain ⟨declared, hforms⟩ := Grammar.ofTokens_sound hparsed
    have haccounted := (hforms.throughout (Grammar.holdsOf_accounted fun t hmem =>
      Grammar.spelled_of_mem_uncommented hscanned hmem) node hmem).occurs hoccurs
    refine (haccounted text rfl).imp_right ?_
    rintro ⟨number, hmem, hdenoted, hsame⟩
    obtain ⟨placed, hfound, htoken⟩ := List.mem_map.1 (List.mem_filter.1 hmem).1
    exact ⟨placed, hfound, number, htoken, hdenoted, hsame⟩

/-- A script with a word, a word behind a minus sign, and digits that are no word. -/
def wordsSource : String :=
  "var a = %1_01 + -$FFFFFFFFFFFFFFFE * $10000000000000000;"

/-- `$FFFFFFFFFFFFFFFE` is minus two, and becomes a two behind the minus sign. -/
def wordsScript : Program :=
  [.declare "a" (.arithmetic .add (.number "%1_01")
    (.arithmetic .mul (.number "2") (.number "$10000000000000000")))]

theorem number_tokens_denote_words :
    Program.ofSource wordsSource = .ok wordsScript ∧
    (∃ value, Literal.read? "%1_01" = some value ∧ Rounds 5 value) ∧
    Literal.read? "$10000000000000000" = none ∧
    ∃ tokens, tokenize wordsSource = .ok tokens ∧
      ((∃ value, Literal.read? "2" = some value) ∨
        ∃ placed ∈ tokens, ∃ token, placed.token = .number token ∧
          denoted? token.toList = none ∧ ("2" = token ∨ "2" = "-" ++ token)) := by
  have hread : Program.ofSource wordsSource = .ok wordsScript := by decide +kernel
  obtain ⟨tokens, hscanned, -⟩ := ofSource_eq_ok.1 hread
  obtain ⟨hitems, hnumbers⟩ := number_tokens_denote wordsSource
  have hfits := hitems 3 ⟨.number "%1_01", ⟨1, 9⟩⟩ "%1_01" (by decide +kernel) rfl
  have hexceeds := hitems 8 ⟨.number "$10000000000000000", ⟨1, 38⟩⟩ "$10000000000000000"
    (by decide +kernel) rfl
  have hfive : denoted? "%1_01".toList = some 5 := by decide +kernel
  have hnothing : denoted? "$10000000000000000".toList = none := by decide +kernel
  -- One of the two numbers denotes a value and is rounded to it, and the other denotes none.
  rw [hfive] at hfits
  rw [hnothing] at hexceeds
  refine ⟨hread, ?_, ?_, tokens, hscanned,
    hnumbers tokens _ hscanned hread _ List.mem_cons_self "2" ?_⟩
  · generalize Literal.read? "%1_01" = value at hfits ⊢
    cases hfits with
    | some hrounds => exact ⟨_, rfl, hrounds⟩
  · generalize Literal.read? "$10000000000000000" = value at hexceeds ⊢
    cases hexceeds
    rfl
  · exact .within List.mem_cons_self
      (.within (List.mem_cons_of_mem _ List.mem_cons_self)
        (.within List.mem_cons_self (.here _)))

/-- **Not every number token has a value**, and not every number in a script: digits for more than
    64 bits are read neither alone nor behind a minus sign, and neither is a binary mark with an
    underscore alone behind it. -/
theorem unread_numbers :
    Program.ofSource "var a = -$1FFFFFFFFFFFFFFFF; var b = %_;" =
      .ok [.declare "a" (.number "-$1FFFFFFFFFFFFFFFF"), .declare "b" (.number "%_")] ∧
    (Cursor.ofText "var a = -$1FFFFFFFFFFFFFFFF; var b = %_;".toList).item 4 =
      some (.ok ⟨.number "$1FFFFFFFFFFFFFFFF", ⟨1, 10⟩⟩) ∧
    (Cursor.ofText "var a = -$1FFFFFFFFFFFFFFFF; var b = %_;".toList).item 9 =
      some (.ok ⟨.number "%_", ⟨1, 38⟩⟩) ∧
    ∀ text ∈ ["$1FFFFFFFFFFFFFFFF", "-$1FFFFFFFFFFFFFFFF", "%_"], Literal.read? text = none := by
  refine ⟨by decide +kernel, by decide +kernel, by decide +kernel, by decide +kernel⟩

end ChipScript
