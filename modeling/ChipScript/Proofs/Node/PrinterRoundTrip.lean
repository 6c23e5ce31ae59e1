import ChipScript.Proofs.Grammar.Completeness
import ChipScript.Proofs.Token.Spelling

/-!
# Printing undoes parsing

The text of a script that has been read is read as the same script.

The proof goes through the grammar.  From a derivation of a tree, `Printed` finds another one whose
tokens are those of the printed text: operations are derived in parentheses, `elif` as `else` and
`if`.  What cannot be printed back is a device type that was quoted, because types are printed bare;
`BareTypes` leaves those out.
-/

namespace ChipScript.Grammar

open Text Node

/-! ## Texts that spell tokens -/

/-- A text spells tokens when it is read as them before every text that satisfies `follow`. -/
def Spells (cs : List Char) (ts : List Token) (follow : List Char → Prop) : Prop :=
  ∀ ⦃rest us⦄, follow rest → Lexes rest us → Lexes (cs ++ rest) (ts ++ us)

/-- A text before which every value ends. -/
def Boundary (rest : List Char) : Prop :=
  startsNoWord rest = true ∧ rest.head? ≠ some '.'

/-- Any text. -/
def Anything (_ : List Char) : Prop :=
  True

/-- A text that an exclamation mark can stand before. -/
def Opens (cs : List Char) : Prop :=
  ∃ c ds, cs = c :: ds ∧ c ≠ '='

theorem boundary_cons {c : Char} (hword : isWord c = false) (hdot : c ≠ '.') (rest : List Char) :
    Boundary (c :: rest) := by
  simp [Boundary, startsNoWord, hword, hdot]

theorem Spells.token {t : Token} (ht : t.Spelled) {follow : List Char → Prop}
    (hfollow : ∀ rest, follow rest → t.EndsBefore rest) : Spells t.text [t] follow := by
  intro rest us hrest h
  exact h.token ht (hfollow rest hrest)

/-! ## Values -/

/-- The text of a value spells a derivation of it as an operand, and between the parentheses of a
    condition a derivation of it as an expression. -/
def PrintedValue (declared : List String) (node : Node) : Prop :=
  (∃ ts, Derives declared (.value .operand node) ts ∧
    Spells (node.textIn .value).toList ts Boundary ∧ Opens (node.textIn .value).toList) ∧
  (∃ cs, Derives declared (.value .choice node) cs ∧
    Spells (node.conditionText (node.textIn .value)).toList
      (.symbol .leftParen :: (cs ++ [.symbol .rightParen])) Anything)

variable {declared : List String} {node : Node}

attribute [local simp] Node.textIn Place.finish

/-- An operand is an expression at every level. -/
theorem Derives.at_level {ts : List Token} (h : Derives declared (.value .operand node) ts)
    (level : Level) : Derives declared (.value level node) ts := by
  have hproduct : Derives declared (.value .product node) ts := .lift rfl h
  have hsum : Derives declared (.value .sum node) ts := .lift rfl hproduct
  have hnegation : Derives declared (.value .negation node) ts := .lift rfl hsum
  have hcomparison : Derives declared (.value .comparison node) ts := .lift rfl hnegation
  have hconnective : Derives declared (.value .connective node) ts := .lift rfl hcomparison
  cases level with
  | choice => exact .lift rfl hconnective
  | connective => exact hconnective
  | comparison => exact hcomparison
  | negation => exact hnegation
  | sum => exact hsum
  | product => exact hproduct
  | operand => exact h

/-- Parentheses around a text spell theirs, and nothing that follows changes that. -/
theorem Spells.parenthesized {text : String} {cs : List Token}
    (h : Spells text.toList cs Boundary) :
    Spells ("(" ++ text ++ ")").toList (.symbol .leftParen :: (cs ++ [.symbol .rightParen]))
      Anything := by
  intro rest us _ hrest
  have hright : Lexes (')' :: rest) _ := Lexes.symbol .rightParen trivial hrest
  have hinner := h (boundary_cons (by decide) (by decide) rest) hright
  have hleft : Lexes ('(' :: _) _ := Lexes.symbol .leftParen trivial hinner
  simpa using hleft

theorem Spells.anywhere {cs : List Char} {ts : List Token} {follow : List Char → Prop}
    (h : Spells cs ts Anything) : Spells cs ts follow := by
  intro rest us _ hrest
  exact h trivial hrest

/-- A value that is printed without parentheses gets them in a condition. -/
theorem printed_of_operand {ts : List Token} (hparen : node.isParenthesized = false)
    (hts : Derives declared (.value .operand node) ts)
    (hspells : Spells (node.textIn .value).toList ts Boundary)
    (hopens : Opens (node.textIn .value).toList) : PrintedValue declared node := by
  refine ⟨⟨ts, hts, hspells, hopens⟩, ⟨ts, hts.at_level .choice, ?_⟩⟩
  have htext : node.conditionText (node.textIn .value) = "(" ++ node.textIn .value ++ ")" := by
    simp [conditionText, hparen]
  rw [htext]
  exact hspells.parenthesized

/-- A value that is printed in parentheses needs no more of them. -/
theorem printed_of_parenthesized {text : String} {cs : List Token}
    (hparen : node.isParenthesized = true) (htext : node.textIn .value = "(" ++ text ++ ")")
    (hcs : Derives declared (.value .choice node) cs) (hspells : Spells text.toList cs Boundary) :
    PrintedValue declared node := by
  have hwhole : Spells (node.textIn .value).toList
      (.symbol .leftParen :: (cs ++ [.symbol .rightParen])) Anything := by
    rw [htext]
    exact hspells.parenthesized
  have hopens : Opens (node.textIn .value).toList := by
    rw [htext]
    exact ⟨'(', text.toList ++ [')'], by simp, by decide⟩
  refine ⟨⟨_, .group hcs, hwhole.anywhere, hopens⟩, ⟨cs, hcs, ?_⟩⟩
  have hcondition : node.conditionText (node.textIn .value) = node.textIn .value := by
    simp [conditionText, hparen]
  rw [hcondition]
  exact hwhole

/-! ## Numbers -/

theorem NameText.opens {cs : List Char} (h : NameText cs) : Opens cs := by
  obtain ⟨c, ds, rfl, hc, -⟩ := h
  refine ⟨c, ds, rfl, ?_⟩
  intro heq
  subst heq
  cases hc

theorem NumberText.opens {cs : List Char} (h : NumberText cs) : Opens cs := by
  have hdigit : ∀ c : Char, c.isDigit = true → c ≠ '=' := by
    intro c hc heq
    subst heq
    cases hc
  cases h with
  | hexadecimal => exact ⟨'$', _, rfl, by decide⟩
  | binary => exact ⟨'%', _, rfl, by decide⟩
  | whole hne hds =>
      cases cs with
      | nil => exact absurd rfl hne
      | cons d ds => exact ⟨d, ds, rfl, hdigit d (hds d List.mem_cons_self)⟩
  | @fraction ds es hds =>
      cases ds with
      | nil => exact ⟨'.', _, rfl, by decide⟩
      | cons d ds => exact ⟨d, _, rfl, hdigit d (hds d List.mem_cons_self)⟩

theorem numberText_ofList {cs : List Char} (h : NumberText cs) :
    (Token.number (String.ofList cs)).Spelled := by
  show NumberText (String.ofList cs).toList
  rwa [String.toList_ofList]

theorem spells_number {text : String} (h : (Token.number text).Spelled) :
    Spells text.toList [.number text] Boundary :=
  Spells.token h fun _ hrest => hrest

theorem spells_negative {text : String} (h : (Token.number text).Spelled) :
    Spells ("-" ++ text).toList [.symbol .minus, .number text] Boundary := by
  intro rest us hrest hlexes
  have hnumber := spells_number h hrest hlexes
  have hminus : Lexes ('-' :: _) _ := Lexes.symbol .minus trivial hnumber
  simpa using hminus

/-- A number without a sign is printed as it stands. -/
theorem printed_number {text : String} (h : (Token.number text).Spelled) :
    PrintedValue declared (.number text) := by
  have htext : (Node.number text).textIn .value = text := by simp
  apply printed_of_operand rfl (.number text)
  · rw [htext]
    exact spells_number h
  · rw [htext]
    exact NumberText.opens h

/-- A number with a sign is read as a sign and a number. -/
theorem printed_negative {text : String} (h : (Token.number text).Spelled)
    (hnegated : Parser.negated text = .number ("-" ++ text)) :
    PrintedValue declared (.number ("-" ++ text)) := by
  have hderives : Derives declared (.value .operand (Parser.negated text)) _ := .negative text
  rw [hnegated] at hderives
  have htext : (Node.number ("-" ++ text)).textIn .value = "-" ++ text := by
    simp
  apply printed_of_operand rfl hderives
  · rw [htext]
    exact spells_negative h
  · rw [htext]
    exact ⟨'-', text.toList, by simp, by decide⟩

theorem printed_constant {name : String} (hconstant : Vocabulary.isConstant name = true)
    (hname : (Token.identifier name).Spelled) : PrintedValue declared (.constant name) := by
  have htext : (Node.constant name).textIn .value = name := by simp
  apply printed_of_operand rfl (.constant hconstant)
  · rw [htext]
    exact Spells.token hname fun _ hrest => hrest.1
  · rw [htext]
    exact NameText.opens hname.1

/-- The texts of decimals, which have no mark. -/
def DecimalText (cs : List Char) : Prop :=
  NumberText cs ∧ ∀ c ∈ cs, c.isDigit = true ∨ c = '.'

theorem DecimalText.whole {cs : List Char} (hne : cs ≠ []) (h : ∀ c ∈ cs, c.isDigit = true) :
    DecimalText cs :=
  ⟨.whole hne h, fun c hc => Or.inl (h c hc)⟩

theorem DecimalText.fraction {ds es : List Char} (hds : ∀ c ∈ ds, c.isDigit = true) (hne : es ≠ [])
    (hes : ∀ c ∈ es, c.isDigit = true) : DecimalText (ds ++ '.' :: es) := by
  refine ⟨.fraction hds hne hes, ?_⟩
  intro c hc
  rcases List.mem_append.mp hc with hc | hc
  · exact Or.inl (hds c hc)
  · rcases List.mem_cons.mp hc with hc | hc
    · exact Or.inr hc
    · exact Or.inl (hes c hc)

/-- Decimals are written with digits, and with a point among them where they need one. -/
theorem decimalText_positional (d : Decimal) : DecimalText d.positional := by
  have hdigits : ∀ n, ∀ c ∈ List.replicate n '0' ++ Nat.toDigits 10 d.digits,
      c.isDigit = true := by
    intro n c hc
    rcases List.mem_append.mp hc with hc | hc
    · rw [List.eq_of_mem_replicate hc]
      decide
    · exact Nat.isDigit_of_mem_toDigits (by decide) (by decide) hc
  unfold Decimal.positional
  simp only
  split
  · apply DecimalText.whole
    · simp [Nat.toDigits_ne_nil]
    · intro c hc
      rcases List.mem_append.mp hc with hc | hc
      · exact hdigits 0 c hc
      · rw [List.eq_of_mem_replicate hc]
        decide
  · next hplaces =>
    -- The point stands before the places, of which there is at least one.
    apply DecimalText.fraction
    · intro c hc
      exact hdigits _ c (List.mem_of_mem_take hc)
    · apply List.ne_nil_of_length_pos
      simp only [List.length_drop, List.length_append, List.length_replicate]
      omega
    · intro c hc
      exact hdigits _ c (List.mem_of_mem_drop hc)

/-- A sign before a decimal comes before its text, which has no mark. -/
theorem negated_of_decimal {cs : List Char} (h : DecimalText cs) :
    Parser.negated (String.ofList cs) = .number ("-" ++ String.ofList cs) := by
  unfold Parser.negated
  rw [String.toList_ofList]
  split
  · have hmark := h.2 '$' List.mem_cons_self
    simp at hmark
  · have hmark := h.2 '%' List.mem_cons_self
    simp at hmark
  · rfl

/-- The node for a computed number is printed as one that is read. -/
theorem printed_ofValue (value : Float) : PrintedValue declared (.ofValue value) := by
  unfold Node.ofValue
  split
  · exact printed_constant rfl ⟨nameText_of_all (by decide) (by decide), by decide⟩
  · split
    · split
      · exact printed_constant rfl ⟨nameText_of_all (by decide) (by decide), by decide⟩
      · exact printed_constant rfl ⟨nameText_of_all (by decide) (by decide), by decide⟩
    · -- Neither NaN nor an infinity: a decimal, behind a minus sign if the number is negative.
      obtain ⟨cs, hcs, hwrite⟩ : ∃ cs, DecimalText cs ∧ Literal.write value =
          String.ofList (if Binary64.isNegative value then '-' :: cs else cs) := by
        refine ⟨if Binary64.ordinal value = 0 then ['0']
          else (Decimal.shortest (Binary64.ordinal value)).stripZeros.positional, ?_, rfl⟩
        split
        · exact .whole (by simp) (by simp)
        · exact decimalText_positional _
      rw [hwrite]
      have hspelled := numberText_ofList hcs.1
      split
      · have hsign : String.ofList ('-' :: cs) = "-" ++ String.ofList cs := by
          rw [← String.toList_inj]
          simp
        rw [hsign]
        exact printed_negative hspelled (negated_of_decimal hcs)
      · exact printed_number hspelled

/-- A number after a minus sign is printed as it was written, or by its value. -/
theorem printed_negated {text : String} (h : (Token.number text).Spelled) :
    PrintedValue declared (Parser.negated text) := by
  unfold Parser.negated
  split
  · exact printed_ofValue _
  · exact printed_ofValue _
  · next hdollar hpercent =>
    apply printed_negative h
    unfold Parser.negated
    split
    · next h₁ h₂ => exact absurd h₂ (hdollar _ _ h₁)
    · next h₁ h₂ => exact absurd h₂ (hpercent _ _ h₁)
    · rfl

/-! ## Operations -/

/-- Operands with a sign between them spell both with the sign between. -/
theorem spells_operation {left right : String} {sign : Symbol} {ls rs : List Token}
    (hsign : ∀ rest, (Token.symbol sign).EndsBefore (' ' :: rest))
    (hleft : Spells left.toList ls Boundary) (hright : Spells right.toList rs Boundary) :
    Spells (left ++ " " ++ sign.spelling ++ " " ++ right).toList (ls ++ .symbol sign :: rs)
      Boundary := by
  intro rest us hrest hlexes
  have hoperand := hright hrest hlexes
  have hoperator := Lexes.symbol sign (hsign _) hoperand.space
  have hwhole := hleft (boundary_cons (by decide) (by decide) _) hoperator.space
  simpa using hwhole

/-- How the operators of a level are printed. -/
theorem Joins.textIn {level : Level} {sign : Symbol} {build : Node → Node → Node}
    (h : Joins level sign build) (left right : Node) :
    (build left right).isParenthesized = true ∧
      (build left right).textIn .value =
        "(" ++ (left.textIn .value ++ " " ++ sign.spelling ++ " " ++ right.textIn .value) ++ ")" ∧
      ∀ rest, (Token.symbol sign).EndsBefore (' ' :: rest) := by
  have hassoc : ∀ a b c : String, operation a b c = "(" ++ (a ++ " " ++ b ++ " " ++ c) ++ ")" := by
    intro a b c
    simp [operation, String.append_assoc]
  cases h <;> refine ⟨rfl, ?_, fun rest => by simp [Token.EndsBefore]⟩ <;>
    (simp only [Node.textIn, Place.finish, hassoc]; rfl)

/-- A value of any level is a choice without a condition. -/
theorem Level.exists_lift (level : Level) {ts : List Token}
    (h : Derives declared (.value level node) ts) : Derives declared (.value .choice node) ts := by
  have hconnective : Derives declared (.value .connective node) ts →
      Derives declared (.value .choice node) ts := .lift rfl
  have hcomparison : Derives declared (.value .comparison node) ts →
      Derives declared (.value .choice node) ts := fun h => hconnective (.lift rfl h)
  have hnegation : Derives declared (.value .negation node) ts →
      Derives declared (.value .choice node) ts := fun h => hcomparison (.lift rfl h)
  have hsum : Derives declared (.value .sum node) ts →
      Derives declared (.value .choice node) ts := fun h => hnegation (.lift rfl h)
  -- From each level one climbs to the loosest, a step for every level between.
  cases level with
  | choice => exact h
  | connective => exact hconnective h
  | comparison => exact hcomparison h
  | negation => exact hnegation h
  | sum => exact hsum h
  | product => exact hsum (.lift rfl h)
  | operand => exact h.at_level .choice

/-- An operation is printed in parentheses, in which its level derives it. -/
theorem printed_join {level tighter : Level} {sign : Symbol} {build : Node → Node → Node}
    {left right : Node} (hlevel : level.tighter? = some tighter) (hjoins : Joins level sign build)
    (hleft : PrintedValue declared left) (hright : PrintedValue declared right) :
    PrintedValue declared (build left right) := by
  obtain ⟨⟨ls, hls, hleft, -⟩, -⟩ := hleft
  obtain ⟨⟨rs, hrs, hright, -⟩, -⟩ := hright
  obtain ⟨hparen, htext, hsign⟩ := hjoins.textIn left right
  have hjoin := Derives.join hlevel hjoins (hls.at_level level) (hrs.at_level tighter)
  exact printed_of_parenthesized hparen htext (level.exists_lift hjoin)
    (spells_operation hsign hleft hright)

theorem printed_not {operand : Node} (h : PrintedValue declared operand) :
    PrintedValue declared (.not operand) := by
  obtain ⟨⟨ts, hts, hspells, hopens⟩, -⟩ := h
  have hnot : Derives declared (.value .negation (.not operand)) _ :=
    .not (hts.at_level .negation)
  have htext : (Node.not operand).textIn .value = "(" ++ ("!" ++ operand.textIn .value) ++ ")" := by
    rw [← String.toList_inj]
    simp
  refine printed_of_parenthesized rfl htext (Level.exists_lift _ hnot) ?_
  intro rest us hrest hlexes
  obtain ⟨c, ds, htext, hc⟩ := hopens
  have hends : (Token.symbol .bang).EndsBefore ((operand.textIn .value).toList ++ rest) := by
    simpa [Token.EndsBefore, htext] using hc
  have hbang : Lexes ('!' :: _) _ := Lexes.symbol .bang hends (hspells hrest hlexes)
  simpa using hbang

/-- A choice is printed in parentheses, with operands between its two signs. -/
theorem printed_choice {condition thenValue elseValue : Node}
    (hcondition : PrintedValue declared condition) (hthen : PrintedValue declared thenValue)
    (helse : PrintedValue declared elseValue) :
    PrintedValue declared (.choice condition thenValue elseValue) := by
  obtain ⟨⟨cs, hcs, hcondition, -⟩, -⟩ := hcondition
  obtain ⟨⟨ts, hts, hthen, -⟩, -⟩ := hthen
  obtain ⟨⟨us, hus, helse, -⟩, -⟩ := helse
  have hchoice := Derives.choice (hcs.at_level .connective) (hts.at_level .choice)
    (hus.at_level .choice)
  have htext : (Node.choice condition thenValue elseValue).textIn .value =
      "(" ++ (condition.textIn .value ++ " ? " ++ thenValue.textIn .value ++ " : " ++
        elseValue.textIn .value) ++ ")" := by
    simp [String.append_assoc]
  refine printed_of_parenthesized rfl htext hchoice ?_
  -- The text is read from its end: each part is put before what has been read.
  intro rest vs hrest hlexes
  have h₁ := helse hrest hlexes
  have h₂ : Lexes (':' :: ' ' :: _) _ := Lexes.symbol .colon trivial h₁.space
  have h₃ := hthen (boundary_cons (by decide) (by decide) _) h₂.space
  have h₄ : Lexes ('?' :: ' ' :: _) _ := Lexes.symbol .question trivial h₃.space
  have h₅ := hcondition (boundary_cons (by decide) (by decide) _) h₄.space
  simpa using h₅

/-! ## Hashes and devices -/

theorem printed_hash {text : String} (h : (Token.string text).Spelled) :
    PrintedValue declared (.hash text) := by
  have htext : (Node.hash text).textIn .value = "HASH(\"" ++ text ++ "\")" := by
    simp
  apply printed_of_operand rfl (.hash text)
  · rw [htext]
    intro rest us _ hrest
    have hright : Lexes (')' :: rest) _ := Lexes.symbol .rightParen trivial hrest
    have hstring := hright.token h trivial
    have hleft : Lexes ('(' :: _) _ := Lexes.symbol .leftParen trivial hstring
    have hword := Lexes.keyword .hash rfl hleft
    simpa [Token.text, Keyword.spelling] using hword
  · rw [htext]
    exact ⟨'H', _, by simp only [String.toList_append]; rfl, by decide⟩

theorem spells_name {name : String} (h : (Token.identifier name).Spelled) :
    Spells name.toList [.identifier name] Boundary :=
  Spells.token h fun _ hrest => hrest.1

/-- A device is printed with its type as a bare name. -/
theorem spells_device {deviceType address : String} {ts : List Token}
    (htype : (Token.identifier deviceType).Spelled) (haddress : Spells address.toList ts Boundary) :
    Spells ("Device(" ++ deviceType ++ ", " ++ address ++ ")").toList
      (.keyword .device :: .symbol .leftParen ::
        ((.identifier deviceType :: .symbol .comma :: ts) ++ [.symbol .rightParen])) Anything := by
  intro rest us _ hrest
  have hright : Lexes (')' :: rest) _ := Lexes.symbol .rightParen trivial hrest
  have hspelled := haddress (boundary_cons (by decide) (by decide) rest) hright
  have hcomma : Lexes (',' :: ' ' :: _) _ := Lexes.symbol .comma trivial hspelled.space
  have hname := spells_name htype (boundary_cons (by decide) (by decide) _) hcomma
  have hleft : Lexes ('(' :: _) _ := Lexes.symbol .leftParen trivial hname
  have hword := Lexes.keyword .device rfl hleft
  simpa [Keyword.spelling] using hword

/-- A device whose type was written bare is printed as it was written. -/
theorem printed_deviceArguments {ts : List Token} {config : DeviceConfig}
    (h : DeviceArguments ts config) (hspelled : ∀ t ∈ ts, t.Spelled)
    (hbare : ∀ text, ts.head? ≠ some (.string text)) :
    Spells (deviceText config).toList
      (.keyword .device :: .symbol .leftParen :: (ts ++ [.symbol .rightParen])) Anything := by
  cases h with
  | @pin _ _ name htype hpin =>
      cases htype with
      | quoted => exact absurd rfl (hbare _)
      | bare =>
          have hname : (Token.identifier name).Spelled := hspelled _ (by simp)
          exact spells_device (hspelled _ (by simp)) (spells_name hname)
  | batch mode htype =>
      cases htype with
      | quoted => exact absurd rfl (hbare _)
      | bare =>
          have hmode : (Token.identifier mode.name).Spelled := hspelled _ (by simp)
          exact spells_device (hspelled _ (by simp)) (spells_name hmode)
  | namedBatch name mode htype =>
      cases htype with
      | quoted => exact absurd rfl (hbare _)
      | bare =>
          -- The name stays a string, so only the type in front of it had to be written bare.
          have haddress : Spells ("\"" ++ name ++ "\", " ++ mode.name).toList
              [.string name, .symbol .comma, .identifier mode.name] Boundary := by
            intro rest us hrest hlexes
            have hmode : (Token.identifier mode.name).Spelled := hspelled _ (by simp)
            have hlast := spells_name hmode hrest hlexes
            have hcomma : Lexes (',' :: ' ' :: _) _ := Lexes.symbol .comma trivial hlast.space
            have hstring : (Token.string name).Spelled := hspelled _ (by simp)
            have hname := hcomma.token hstring trivial
            simpa [Token.text] using hname
          exact spells_device (hspelled _ (by simp)) haddress

/-! ## Names -/

/-- What follows a name is printed as it is read, and no word goes on with it. -/
def PrintedSuffix (declared : List String) (index : Option Node) (property : Option String) :
    Prop :=
  ∃ ts, Derives declared (.suffix index property) ts ∧
    Spells (indexText index ++ propertyText property).toList ts Boundary ∧
    ∀ rest, Boundary rest →
      startsNoWord ((indexText index ++ propertyText property).toList ++ rest) = true

/-- One or more values with commas between them. -/
def PrintedList (declared : List String) (nodes : List Node) : Prop :=
  nodes ≠ [] ∧ ∃ ts, Derives declared (.list nodes) ts ∧
    Spells (argumentsText nodes).toList ts Boundary

/-- The arguments of a call. -/
def PrintedArguments (declared : List String) (nodes : List Node) : Prop :=
  ∃ ts, Derives declared (.arguments nodes) ts ∧ Spells (argumentsText nodes).toList ts Boundary

theorem spells_property {property : String} (h : (Token.identifier property).Spelled) :
    Spells ("." ++ property).toList [.symbol .dot, .identifier property] Boundary := by
  intro rest us hrest hlexes
  have hname := spells_name h hrest hlexes
  have hends : (Token.symbol .dot).EndsBefore (property.toList ++ rest) := by
    obtain ⟨first, others, htext, hfirst, -⟩ := h.1
    intro c hc
    rw [htext] at hc
    cases hc
    exact isNameStart_not_isDigit hfirst
  have hdot : Lexes ('.' :: _) _ := Lexes.symbol .dot hends hname
  simpa using hdot

theorem printed_bare : PrintedSuffix declared none none := by
  refine ⟨[], .bare, ?_, ?_⟩
  · intro rest us _ hlexes
    simpa [indexText, propertyText] using hlexes
  · intro rest hrest
    simpa [indexText, propertyText] using hrest.1

theorem printed_property {property : String} (h : (Token.identifier property).Spelled) :
    PrintedSuffix declared none (some property) := by
  refine ⟨_, .property property, ?_, ?_⟩
  · simpa [indexText, propertyText] using spells_property h
  · intro rest _
    simp only [indexText, propertyText, String.toList_append]
    rfl

theorem printed_indexed {index : Node} {property : String} (hindex : PrintedValue declared index)
    (h : (Token.identifier property).Spelled) :
    PrintedSuffix declared (some index) (some property) := by
  obtain ⟨⟨ts, hts, hspells, -⟩, -⟩ := hindex
  refine ⟨_, .indexed property (hts.at_level .choice), ?_, ?_⟩
  · intro rest us hrest hlexes
    have hproperty := spells_property h hrest hlexes
    have hright : Lexes (']' :: _) _ := Lexes.symbol .rightBracket trivial hproperty
    have hinner := hspells (boundary_cons (by decide) (by decide) _) hright
    have hleft : Lexes ('[' :: _) _ := Lexes.symbol .leftBracket trivial hinner
    simpa [indexText, propertyText] using hleft
  · intro rest _
    simp only [indexText, propertyText, String.toList_append]
    rfl

/-- A name, its index and its logic type spell a name and the suffix. -/
theorem spells_place {name : String} {index : Option Node} {property : Option String}
    (hname : (Token.identifier name).Spelled) {ts : List Token}
    (hspells : Spells (indexText index ++ propertyText property).toList ts Boundary)
    (hends : ∀ rest, Boundary rest →
      startsNoWord ((indexText index ++ propertyText property).toList ++ rest) = true) :
    Spells (name ++ indexText index ++ propertyText property).toList (.identifier name :: ts)
      Boundary := by
  intro rest us hrest hlexes
  have hplace := (hspells hrest hlexes).token hname (hends rest hrest)
  simpa [Token.text] using hplace

theorem printed_read {name : String} {index : Option Node} {property : Option String}
    (hconstant : Vocabulary.isConstant name = false) (hmem : name ∈ declared)
    (hname : (Token.identifier name).Spelled) (h : PrintedSuffix declared index property) :
    PrintedValue declared (.read name index property) := by
  obtain ⟨ts, hts, hspells, hends⟩ := h
  have htext : (Node.read name index property).textIn .value =
      name ++ indexText index ++ propertyText property := by
    simp
  apply printed_of_operand rfl (.read hconstant hmem hts)
  · rw [htext]
    exact spells_place hname hspells hends
  · rw [htext]
    obtain ⟨c, ds, hcs, hc⟩ := NameText.opens hname.1
    exact ⟨c, ds ++ (indexText index ++ propertyText property).toList, by simp [hcs], hc⟩

theorem printed_one (h : PrintedValue declared node) : PrintedList declared [node] := by
  obtain ⟨⟨ts, hts, hspells, -⟩, -⟩ := h
  refine ⟨List.cons_ne_nil _ _, ts, .one (hts.at_level .choice), ?_⟩
  simpa [argumentsText] using hspells

/-- A value and a comma are printed before a list. -/
theorem printed_more {nodes : List Node} (h : PrintedValue declared node)
    (hnodes : PrintedList declared nodes) : PrintedList declared (node :: nodes) := by
  obtain ⟨⟨ts, hts, hspells, -⟩, -⟩ := h
  obtain ⟨hne, us, hus, hothers⟩ := hnodes
  refine ⟨List.cons_ne_nil _ _, _, .more (hts.at_level .choice) hus, ?_⟩
  have htext : argumentsText (node :: nodes) =
      node.textIn .value ++ ", " ++ argumentsText nodes := by
    cases nodes with
    | nil => exact absurd rfl hne
    | cons second others => simp [argumentsText]
  rw [htext]
  intro rest vs hrest hlexes
  have hlast := hothers hrest hlexes
  have hcomma : Lexes (',' :: ' ' :: _) _ := Lexes.symbol .comma trivial hlast.space
  have hfirst := hspells (boundary_cons (by decide) (by decide) _) hcomma
  simpa using hfirst

theorem printed_noArguments : PrintedArguments declared [] := by
  refine ⟨[], .noArguments, ?_⟩
  intro rest us _ hlexes
  simpa [argumentsText] using hlexes

theorem spells_call {name : String} {nodes : List Node} (hname : (Token.identifier name).Spelled)
    {ts : List Token} (h : Spells (argumentsText nodes).toList ts Boundary) :
    Spells (name ++ "(" ++ argumentsText nodes ++ ")").toList
      (.identifier name :: .symbol .leftParen :: (ts ++ [.symbol .rightParen])) Anything := by
  intro rest us _ hrest
  have harguments := h.parenthesized trivial hrest
  have hcall := spells_name hname (boundary_cons (c := '(') (by decide) (by decide) _)
    (by simpa using harguments)
  simpa using hcall

/-- A call of a function is printed with commas between its arguments. -/
theorem printed_call {name : String} {nodes : List Node}
    (harity : Vocabulary.functionArity? name = some nodes.length)
    (hname : (Token.identifier name).Spelled) (h : PrintedArguments declared nodes) :
    PrintedValue declared (.call name nodes) := by
  obtain ⟨ts, hts, hspells⟩ := h
  have htext :
      (Node.call name nodes).textIn .value = name ++ "(" ++ argumentsText nodes ++ ")" := by
    simp
  apply printed_of_operand rfl (.call harity hts)
  · rw [htext]
    exact (spells_call hname hspells).anywhere
  · rw [htext]
    obtain ⟨c, ds, hcs, hc⟩ := NameText.opens hname.1
    exact ⟨c, ds ++ ("(" ++ argumentsText nodes ++ ")").toList, by simp [hcs], hc⟩

/-! ## Derivations -/

/-- Every device type is written bare. -/
def BareTypes (ts : List Token) : Prop :=
  ∀ text, ¬ [.keyword .device, .symbol .leftParen, .string text] <:+: ts

/-- Tokens of a text in which every device type is written bare. -/
structure Plain (ts : List Token) : Prop where
  spelled : ∀ t ∈ ts, t.Spelled
  bare : BareTypes ts

namespace Plain

variable {t : Token} {ts us : List Token}

/-- A part of plain words is plain. -/
theorem of_infix (h : Plain ts) (hus : us <:+: ts) : Plain us where
  spelled := fun t ht => h.spelled t (hus.subset ht)
  bare := fun text hquoted => h.bare text (hquoted.trans hus)

theorem left (h : Plain (ts ++ us)) : Plain ts :=
  h.of_infix (List.prefix_append ts us).isInfix

theorem right (h : Plain (ts ++ us)) : Plain us :=
  h.of_infix (List.suffix_append ts us).isInfix

theorem tail (h : Plain (t :: ts)) : Plain ts :=
  h.of_infix (List.suffix_cons t ts).isInfix

theorem head (h : Plain (t :: ts)) : t.Spelled :=
  h.spelled t List.mem_cons_self

theorem cons (h : Plain ts) (ht : t.Spelled) (hdevice : t ≠ .keyword .device) :
    Plain (t :: ts) where
  spelled := List.forall_mem_cons.mpr ⟨ht, h.spelled⟩
  bare := by
    intro text hquoted
    rcases List.infix_cons_iff.mp hquoted with hprefix | hinfix
    · exact hdevice (List.cons_prefix_cons.mp hprefix).1.symm
    · exact h.bare text hinfix

/-- The type of a device was not quoted. -/
theorem device (h : Plain (.keyword .device :: .symbol .leftParen :: (ts ++ us)))
    (text : String) : ts.head? ≠ some (.string text) := by
  intro hhead
  obtain ⟨rest, rfl⟩ := List.head?_eq_some_iff.mp hhead
  apply h.bare text
  exact ⟨[], rest ++ us, by simp⟩

end Plain

/-- What is printed of each phrase. -/
def PrintedPhrase (declared : List String) : Phrase → Prop
  | .value _ node => PrintedValue declared node
  | .list nodes => PrintedList declared nodes
  | .arguments nodes => PrintedArguments declared nodes
  | .suffix index property => PrintedSuffix declared index property

/-- **Every expression that has been read can be printed.**  By induction on its derivation. -/
theorem Derives.printed {phrase : Phrase} {ts : List Token} (h : Derives declared phrase ts)
    (hplain : Plain ts) : PrintedPhrase declared phrase := by
  induction h with
  | lift hlevel h ih => exact ih hplain
  | join hlevel hjoins hleft hright ihleft ihright =>
      exact printed_join hlevel hjoins (ihleft hplain.left) (ihright hplain.right.tail)
  | choice hcs hts hus ihcs ihts ihus =>
      have hvalues := hplain.right.tail
      exact printed_choice (ihcs hplain.left) (ihts hvalues.left) (ihus hvalues.right.tail)
  | not h ih => exact printed_not (ih hplain.tail)
  | number text => exact printed_number hplain.head
  | negative text => exact printed_negated hplain.tail.head
  | constant hconstant => exact printed_constant hconstant hplain.head
  | hash text => exact printed_hash hplain.tail.tail.head
  -- A device begins with its keyword, which no parenthesis is needed around.
  | @device ts config hts =>
      have hspells := printed_deviceArguments hts hplain.tail.tail.left.spelled hplain.device
      have htext : (Node.device config).textIn .value = deviceText config := by
        simp
      apply printed_of_operand rfl (.device hts)
      · rw [htext]
        exact hspells.anywhere
      · rw [htext]
        exact ⟨'D', _, by simp only [deviceText, String.toList_append]; rfl, by decide⟩
  -- The parentheses of the text are gone from the tree, and the printer sets its own.
  | group h ih => exact ih hplain.tail.left
  | call harity hnodes ih => exact printed_call harity hplain.head (ih hplain.tail.tail.left)
  | read hconstant hmem hsuffix ih =>
      exact printed_read hconstant hmem hplain.head (ih hplain.tail)
  | one h ih => exact printed_one (ih hplain)
  | more h hnodes ih ihnodes => exact printed_more (ih hplain.left) (ihnodes hplain.right.tail)
  | noArguments => exact printed_noArguments
  | someArguments hnodes ih =>
      -- Arguments are printed as the list is, with nothing around it.
      obtain ⟨-, ts, hts, hspells⟩ := ih hplain
      exact ⟨ts, .someArguments hts, hspells⟩
  | bare => exact printed_bare
  | property property => exact printed_property hplain.tail.head
  | indexed property hindex ih =>
      exact printed_indexed (ih hplain.tail.left) hplain.tail.right.tail.tail.head

/-! ## Statements -/

/-- What is printed of statements.  Their last token ends before anything. -/
def PrintedSentence (declared : List String) (inLoop : Bool) (after : List String) :
    Sentence → Prop
  | .statement node => ∃ ts, Forms declared inLoop (.statement node) ts after ∧
      ∀ level, Spells (node.textIn (.statement level)).toList ts Anything
  | .sequence nodes => ∃ ts, Forms declared inLoop (.sequence nodes) ts after ∧
      ∀ level, Spells (linesText level nodes).toList ts Anything

variable {inLoop : Bool} {after : List String}

theorem Lexes.semicolon {rest : List Char} {us : List Token} (h : Lexes rest us) :
    Lexes (';' :: rest) (.symbol .semicolon :: us) :=
  Lexes.symbol .semicolon trivial h

theorem boundary_semicolon (rest : List Char) : Boundary (';' :: rest) :=
  boundary_cons (by decide) (by decide) rest

theorem boundary_space (rest : List Char) : Boundary (' ' :: rest) :=
  boundary_cons (by decide) (by decide) rest

/-- The value after an equals sign. -/
theorem lexes_value {value : Node} {ts us : List Token} {rest : List Char}
    (hspells : Spells (value.textIn .value).toList ts Boundary) (h : Lexes rest us) :
    Lexes ('=' :: ' ' :: ((value.textIn .value).toList ++ ';' :: rest))
      (.symbol .assign :: (ts ++ .symbol .semicolon :: us)) := by
  have hvalue := hspells (boundary_semicolon rest) (Lexes.semicolon h)
  have hends : (Token.symbol .assign).EndsBefore
      (' ' :: ((value.textIn .value).toList ++ ';' :: rest)) := by
    simp [Token.EndsBefore]
  exact Lexes.symbol .assign hends hvalue.space

/-- A declaration is printed as it is derived; from here on the name is declared. -/
theorem printed_declare {name : String} {value : Node} (hfresh : name ∉ declared)
    (hconstant : Vocabulary.isConstant name = false)
    (hcommand : Vocabulary.isCommand name = false) (hname : (Token.identifier name).Spelled)
    (hvalue : PrintedValue declared value) :
    PrintedSentence declared inLoop (name :: declared) (.statement (.declare name value)) := by
  obtain ⟨⟨ts, hts, hspells, -⟩, -⟩ := hvalue
  refine ⟨_, .declare hfresh hconstant hcommand (hts.at_level .choice), ?_⟩
  intro level rest us _ hlexes
  have hassign := lexes_value hspells hlexes
  have hdeclared := spells_name hname (boundary_space _) hassign.space
  have hword := Lexes.keyword .var rfl hdeclared.space
  simpa [Keyword.spelling] using hword

theorem printed_assign {name : String} {index : Option Node} {property : Option String}
    {value : Node} (hmem : name ∈ declared) (hcommand : Vocabulary.isCommand name = false)
    (hname : (Token.identifier name).Spelled) (hsuffix : PrintedSuffix declared index property)
    (hvalue : PrintedValue declared value) :
    PrintedSentence declared inLoop declared
      (.statement (.assign name index property value)) := by
  obtain ⟨ss, hss, hplace, hends⟩ := hsuffix
  obtain ⟨⟨ts, hts, hspells, -⟩, -⟩ := hvalue
  refine ⟨_, .assign hmem hcommand hss (hts.at_level .choice), ?_⟩
  intro level rest us _ hlexes
  have hassign := lexes_value hspells hlexes
  have hwhole := spells_place hname hplace hends (boundary_space _) hassign.space
  simpa using hwhole

theorem printed_loop {body : Node}
    (h : PrintedSentence declared true after (.statement body)) :
    PrintedSentence declared inLoop after (.statement (.loop body)) := by
  obtain ⟨ts, hts, hspells⟩ := h
  refine ⟨_, .loop hts, ?_⟩
  intro level rest us _ hlexes
  have hbody := hspells level trivial hlexes
  have hword := Lexes.keyword .loop rfl hbody.space
  simpa [Place.level, Keyword.spelling] using hword

theorem printed_whileLoop {test body : Node} (htest : PrintedValue declared test)
    (h : PrintedSentence declared true after (.statement body)) :
    PrintedSentence declared inLoop after (.statement (.whileLoop test body)) := by
  obtain ⟨-, cs, hcs, hcondition⟩ := htest
  obtain ⟨ts, hts, hspells⟩ := h
  refine ⟨_, .whileLoop hcs hts, ?_⟩
  intro level rest us _ hlexes
  have hbody := hspells level trivial hlexes
  have htest := hcondition trivial hbody.space
  have hword := Lexes.keyword .whileLoop rfl htest.space
  simpa [Place.level, Keyword.spelling] using hword

/-- A branch without an else is printed as its condition and its statement. -/
theorem printed_branch {test thenBranch : Node} (htest : PrintedValue declared test)
    (h : PrintedSentence declared inLoop after (.statement thenBranch)) :
    PrintedSentence declared inLoop after (.statement (.branch test thenBranch none)) := by
  obtain ⟨-, cs, hcs, hcondition⟩ := htest
  obtain ⟨ts, hts, hspells⟩ := h
  refine ⟨_, .branch hcs hts, ?_⟩
  intro level rest us _ hlexes
  have hthen := hspells level trivial hlexes
  have htest := hcondition trivial hthen.space
  have hword := Lexes.keyword .ifThen rfl htest.space
  simpa [elseText, Place.level, Keyword.spelling] using hword

/-- An `elif` is printed as `else` and `if`. -/
theorem printed_branchElse {between : List String} {test thenBranch elseBranch : Node}
    (htest : PrintedValue declared test)
    (hthen : PrintedSentence declared inLoop between (.statement thenBranch))
    (hclosed : thenBranch.isOpen = false)
    (helse : PrintedSentence between inLoop after (.statement elseBranch)) :
    PrintedSentence declared inLoop after
      (.statement (.branch test thenBranch (some elseBranch))) := by
  obtain ⟨-, cs, hcs, hcondition⟩ := htest
  obtain ⟨ts, hts, hthen⟩ := hthen
  obtain ⟨us, hus, helse⟩ := helse
  refine ⟨_, .branchElse hcs hts hclosed hus, ?_⟩
  intro level rest vs _ hlexes
  have hlast := helse level trivial hlexes
  have hotherwise := Lexes.keyword .otherwise rfl hlast.space
  have hfirst := hthen level trivial hotherwise.space
  have htest := hcondition trivial hfirst.space
  have hword := Lexes.keyword .ifThen rfl htest.space
  simpa [elseText, Place.level, Keyword.spelling] using hword

theorem printed_device {ts : List Token} {config : DeviceConfig} (hts : DeviceArguments ts config)
    (hspelled : ∀ t ∈ ts, t.Spelled) (hbare : ∀ text, ts.head? ≠ some (.string text)) :
    PrintedSentence declared inLoop declared (.statement (.device config)) := by
  refine ⟨_, .device hts, ?_⟩
  intro level rest us _ hlexes
  have hdevice :=
    printed_deviceArguments hts hspelled hbare trivial (Lexes.semicolon hlexes)
  simpa using hdevice

theorem printed_command {kind : Vocabulary.Command} {nodes : List Node}
    (harity : kind.arity = nodes.length) (hname : (Token.identifier kind.name).Spelled)
    (h : PrintedArguments declared nodes) :
    PrintedSentence declared inLoop declared (.statement (.call kind.name nodes)) := by
  obtain ⟨ts, hts, hspells⟩ := h
  refine ⟨_, .command harity hts, ?_⟩
  intro level rest us _ hlexes
  have hcall := spells_call hname hspells trivial (Lexes.semicolon hlexes)
  simpa using hcall

/-- Indentation is blank. -/
theorem Lexes.indentation (level : Nat) {rest : List Char} {us : List Token} (h : Lexes rest us) :
    Lexes ((Node.indentation level).toList ++ rest) us := by
  have hspaces : ∀ n, Lexes (List.replicate n ' ' ++ rest) us := by
    intro n
    induction n with
    | zero => exact h
    | succ n ih => exact ih.space
  simpa [Node.indentation] using hspaces (2 * level)

theorem printed_block {nodes : List Node}
    (h : PrintedSentence declared inLoop after (.sequence nodes)) :
    PrintedSentence declared inLoop after (.statement (.block nodes)) := by
  obtain ⟨ts, hts, hspells⟩ := h
  refine ⟨_, .block hts, ?_⟩
  intro level rest us _ hlexes
  have hright : Lexes ('\x7d' :: rest) _ := Lexes.symbol .rightBrace trivial hlexes
  have hlines := hspells (level + 1) trivial (Lexes.indentation level hright)
  have hline := hlines.blank isBlank_newline
  have hleft : Lexes ('\x7b' :: _) _ := Lexes.symbol .leftBrace trivial hline
  simpa [Place.level] using hleft

/-- A statement and those behind it are printed one after the other. -/
theorem printed_next {between : List String} {nodes : List Node}
    (h : PrintedSentence declared inLoop between (.statement node))
    (hnodes : PrintedSentence between inLoop after (.sequence nodes)) :
    PrintedSentence declared inLoop after (.sequence (node :: nodes)) := by
  obtain ⟨ts, hts, hspells⟩ := h
  obtain ⟨us, hus, hothers⟩ := hnodes
  refine ⟨_, .next hts hus, ?_⟩
  intro level rest vs _ hlexes
  have hlines := (hothers level trivial hlexes).blank isBlank_newline
  have hline := Lexes.indentation level (hspells level trivial hlines)
  simpa [linesText] using hline

/-- **Every statement that has been read can be printed.**  By induction on its derivation. -/
theorem Forms.printed {sentence : Sentence} {ts : List Token}
    (h : Forms declared inLoop sentence ts after) (hplain : Plain ts) :
    PrintedSentence declared inLoop after sentence := by
  induction h with
  | declare hfresh hconstant hcommand hvalue =>
      have hvalue := hvalue.printed hplain.tail.tail.tail.left
      exact printed_declare hfresh hconstant hcommand hplain.tail.head hvalue
  | assign hmem hcommand hsuffix hvalue =>
      have hsuffix := hsuffix.printed hplain.tail.left
      have hvalue := hvalue.printed hplain.tail.right.tail.left
      exact printed_assign hmem hcommand hplain.head hsuffix hvalue
  | loop hbody ih => exact printed_loop (ih hplain.tail)
  | whileLoop hcs hbody ih =>
      have htest := hcs.printed hplain.tail.tail.left
      exact printed_whileLoop htest (ih hplain.tail.tail.right.tail)
  | branch hcs hthen ih =>
      have htest := hcs.printed hplain.tail.tail.left
      exact printed_branch htest (ih hplain.tail.tail.right.tail)
  | branchElse hcs hthen hclosed helse ihthen ihelse =>
      have htest := hcs.printed hplain.tail.tail.left
      have hbranches := hplain.tail.tail.right.tail
      exact printed_branchElse htest (ihthen hbranches.left) hclosed (ihelse hbranches.right.tail)
  | @branchElseIf _ _ _ _ _ _ _ _ _ us hcs hthen hclosed helse ihthen ihelse =>
      have htest := hcs.printed hplain.tail.tail.left
      have hbranches := hplain.tail.tail.right.tail
      -- The word `if` was not written, but it is printed.
      have hotherwise : Plain (.keyword .ifThen :: us) :=
        hbranches.right.tail.cons trivial (by simp)
      exact printed_branchElse htest (ihthen hbranches.left) hclosed (ihelse hotherwise)
  | leave =>
      refine ⟨_, .leave, ?_⟩
      intro level rest us _ hlexes
      have hword := Lexes.keyword .leave rfl (Lexes.semicolon hlexes)
      simpa [LoopControl.keyword, Keyword.spelling] using hword
  | again =>
      refine ⟨_, .again, ?_⟩
      intro level rest us _ hlexes
      have hword := Lexes.keyword .again rfl (Lexes.semicolon hlexes)
      simpa [LoopControl.keyword, Keyword.spelling] using hword
  | device hts => exact printed_device hts hplain.tail.tail.left.spelled hplain.device
  | command harity hnodes =>
      exact printed_command harity hplain.head (hnodes.printed hplain.tail.tail.left)
  | block hnodes ih => exact printed_block (ih hplain.tail.left)
  | done =>
      refine ⟨[], .done, ?_⟩
      intro level rest us _ hlexes
      simpa [linesText] using hlexes
  | next hfirst hothers ihfirst ihothers =>
      exact printed_next (ihfirst hplain.left) (ihothers hplain.right)

/-! ## Scripts -/

/-- Among the words of a device there is no comment. -/
theorem DeviceArguments.no_comment {ts : List Token} {config : DeviceConfig}
    (h : DeviceArguments ts config) : ∀ t ∈ ts, t.isComment = false := by
  have htype : ∀ {t : Token} {deviceType : String}, TypeName t deviceType →
      t.isComment = false := by
    intro t deviceType h
    cases h <;> rfl
  cases h with
  | pin h hpin =>
      have hfirst := htype h
      grind [Token.isComment]
  | batch mode h =>
      have hfirst := htype h
      grind [Token.isComment]
  | namedBatch name mode h =>
      have hfirst := htype h
      grind [Token.isComment]

/-- No comment is part of an expression. -/
theorem Derives.no_comment {phrase : Phrase} {ts : List Token} (h : Derives declared phrase ts) :
    ∀ t ∈ ts, t.isComment = false := by
  induction h with
  | device h =>
      have hts := h.no_comment
      grind [Token.isComment]
  | _ => grind [Token.isComment]

/-- No comment is part of a statement. -/
theorem Forms.no_comment {sentence : Sentence} {ts : List Token}
    (h : Forms declared inLoop sentence ts after) : ∀ t ∈ ts, t.isComment = false := by
  -- Every rule names its tokens, and the values inside have been shown to hold no comment.
  induction h with
  | assign _ _ hsuffix hvalue =>
      have hss := hsuffix.no_comment
      have hts := hvalue.no_comment
      grind [Token.isComment]
  | device h =>
      have hts := h.no_comment
      grind [Token.isComment]
  | command harity hnodes =>
      have hts := hnodes.no_comment
      grind [Token.isComment]
  | declare _ _ _ hvalue =>
      have hts := hvalue.no_comment
      grind [Token.isComment]
  | whileLoop hcs _ ih | branch hcs _ ih =>
      have hcs := hcs.no_comment
      grind [Token.isComment]
  | branchElse hcs _ _ _ ihthen ihelse | branchElseIf hcs _ _ _ ihthen ihelse =>
      have hcs := hcs.no_comment
      grind [Token.isComment]
  | _ => grind [Token.isComment]

/-- The tokens of a text, apart from its comments, are spelled. -/
theorem spelled_of_mem_uncommented {source : String} {tokens : List PlacedToken}
    (h : tokenize source = .ok tokens) {t : Token} (ht : t ∈ uncommented tokens) : t.Spelled := by
  obtain ⟨hmem, hcomment⟩ := List.mem_filter.mp ht
  obtain ⟨placed, hplaced, rfl⟩ := List.mem_map.mp hmem
  exact Cursor.tokens_spelled _ h placed hplaced (by simpa using hcomment)

/-- The tokens of a text are plain if it writes every device type bare. -/
theorem plain_uncommented {source : String} {tokens : List PlacedToken}
    (h : tokenize source = .ok tokens) (hbare : BareTypes (uncommented tokens)) :
    Plain (uncommented tokens) where
  bare := hbare
  spelled _ ht := spelled_of_mem_uncommented h ht

/-- A text in which every device type is written bare. -/
def WritesBareTypes (source : String) : Prop :=
  ∀ tokens, tokenize source = .ok tokens → BareTypes (uncommented tokens)

/-- **Printing undoes parsing.**  If a text in which every device type is written bare forms a
    script, then the text of the script forms the same script. -/
theorem ofSource_text {source : String} {program : Program} (hbare : WritesBareTypes source)
    (h : Program.ofSource source = .ok program) :
    Program.ofSource program.text = .ok program := by
  -- The tokens of the source derive the script, and so do the tokens of its text.
  obtain ⟨tokens, htokens, hprogram⟩ : ∃ tokens, tokenize source = .ok tokens ∧
      Program.ofTokens tokens = .ok program := by
    unfold Program.ofSource at h
    cases htokens : tokenize source with
    | error e =>
        rw [htokens] at h
        cases h
    | ok tokens =>
        rw [htokens] at h
        refine ⟨tokens, rfl, ?_⟩
        cases hprogram : Program.ofTokens tokens with
        | error e =>
            simp [hprogram, Except.mapError] at h
        | ok nodes =>
            simp [hprogram, Except.mapError] at h
            rw [h]
  obtain ⟨after, hforms⟩ := ofTokens_sound hprogram
  have hplain := plain_uncommented htokens (hbare tokens htokens)
  obtain ⟨ts, hts, hspells⟩ := hforms.printed hplain
  -- The text is read as those tokens, and these as the script.
  have hlexes : Lexes program.text.toList ts := by
    have hend : Lexes ((linesText 0 program).toList ++ []) (ts ++ []) :=
      hspells 0 trivial lexes_nil
    simpa [Program.text] using hend
  obtain ⟨placed, hplaced, hmap⟩ := hlexes .start
  have huncommented : uncommented placed = ts := by
    rw [uncommented, hmap, List.filter_eq_self]
    intro t ht
    simp [hts.no_comment t ht]
  have hscript : Script (uncommented placed) program := by
    rw [huncommented]
    exact ⟨after, hts⟩
  have htext : tokenize program.text = .ok placed := hplaced
  rw [Program.ofSource, htext]
  simp [ofTokens_complete hscript, Except.mapError]

theorem exists_tokens {source : String} {words : List Token}
    (h : (tokenize source).map uncommented = .ok words) :
    ∃ tokens, tokenize source = .ok tokens ∧ uncommented tokens = words := by
  cases htokens : tokenize source with
  | error e =>
      rw [htokens] at h
      cases h
  | ok tokens =>
      rw [htokens] at h
      exact ⟨tokens, rfl, Except.ok.inj h⟩

/-- A script with a device, an `elif` and a number that has a sign and no value. -/
def pumpSource : String :=
  "var p = Device(Pump, d0); if (p.On) hcf(); elif (1) p.On = -%_;"

/-- The tokens of `pumpSource`. -/
def pumpTokens : List Token :=
  [.keyword .var, .identifier "p", .symbol .assign, .keyword .device, .symbol .leftParen,
    .identifier "Pump", .symbol .comma, .identifier "d0", .symbol .rightParen, .symbol .semicolon,
    .keyword .ifThen, .symbol .leftParen, .identifier "p", .symbol .dot, .identifier "On",
    .symbol .rightParen, .identifier "hcf", .symbol .leftParen, .symbol .rightParen,
    .symbol .semicolon, .keyword .elseIf, .symbol .leftParen, .number "1", .symbol .rightParen,
    .identifier "p", .symbol .dot, .identifier "On", .symbol .assign, .symbol .minus,
    .number "%_", .symbol .semicolon]

/-- The script of `pumpSource`. -/
def pumpScript : Program :=
  [.declare "p" (.device ⟨"Pump", .pin "d0"⟩),
    .branch (.read "p" none (some "On")) (.call "hcf" [])
      (some (.branch (.number "1") (.assign "p" none (some "On") (.number "-%_")) none))]

theorem exists_pumpTokens :
    ∃ tokens, tokenize pumpSource = .ok tokens ∧ uncommented tokens = pumpTokens := by
  have hmap : (tokenize pumpSource).map uncommented = .ok pumpTokens := by cbv
  exact exists_tokens hmap

theorem ofSource_pumpSource : Program.ofSource pumpSource = .ok pumpScript := by
  obtain ⟨tokens, htokens, hwords⟩ := exists_pumpTokens
  have hparse : Program.ofTokens (pumpTokens.map fun t => ⟨t, .start⟩) = .ok pumpScript := rfl
  have hscript : Script pumpTokens pumpScript := ofTokens_sound hparse
  rw [← hwords] at hscript
  rw [Program.ofSource, htokens]
  simp [ofTokens_complete hscript, Except.mapError]

theorem writesBareTypes_pumpSource : WritesBareTypes pumpSource := by
  intro tokens h text hquoted
  obtain ⟨tokens', htokens, hwords⟩ := exists_pumpTokens
  cases h.symm.trans htokens
  have hmem : .string text ∈ pumpTokens := hwords ▸ hquoted.subset (by simp)
  simp [pumpTokens] at hmem

theorem ofSource_text_pumpScript :
    WritesBareTypes pumpSource ∧ Program.ofSource pumpSource = .ok pumpScript ∧
      Program.ofSource pumpScript.text = .ok pumpScript :=
  ⟨writesBareTypes_pumpSource, ofSource_pumpSource,
    ofSource_text writesBareTypes_pumpSource ofSource_pumpSource⟩

end ChipScript.Grammar
