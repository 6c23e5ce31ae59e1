import ChipScript.Proofs.Grammar.Basic
import ChipScript.Proofs.Parser.Words

/-!
# What parsers accept is in the grammar

Every parser takes tokens that make up what it returns.  The levels of precedence are handled alike:
`Level.parser` is the parser of each, and those with operators are `Parser.joined` applied to the
next tighter one.

For statements there is one thing more to say: after a statement that could take an `else`, no
`else` follows (`Settled`), because the parser would have taken it.
-/

namespace ChipScript.Grammar

open ChipScript.Parser ChipScript.ParserState

/-! ## The parser of each level -/

/-- The operators of a level. -/
def Level.operator? : Level → Token → Option Join
  | product => productOperator?
  | sum => sumOperator?
  | comparison => comparisonOperator?
  | connective => connectiveOperator?
  | choice | negation | operand => fun _ => none

/-- The parser of a level. -/
def Level.parser (expression : Parser Node) : Level → Parser Node
  | choice => Parser.choice expression
  | connective => Parser.connective expression
  | comparison => Parser.comparison expression
  | negation => do Parser.negation expression (← remaining)
  | sum => Parser.sum expression
  | product => Parser.product expression
  | operand => primary expression

/-- The parser of a level takes the signs that join at this level, and builds what they join. -/
theorem operator?_eq_some {level : Level} {t : Token} {build : Join} :
    level.operator? t = some build ↔ ∃ sign, t = .symbol sign ∧ Joins level sign build := by
  constructor
  · intro h
    -- Three levels have no operators, and the others have those of a table.
    cases level with
    | choice => cases h
    | negation => cases h
    | operand => cases h
    | product =>
        simp only [Level.operator?, productOperator?] at h
        split at h <;> cases h
        · exact ⟨_, rfl, .mul⟩
        · exact ⟨_, rfl, .div⟩
    | sum =>
        simp only [Level.operator?, sumOperator?] at h
        split at h <;> cases h
        · exact ⟨_, rfl, .add⟩
        · exact ⟨_, rfl, .sub⟩
    | comparison =>
        simp only [Level.operator?, comparisonOperator?] at h
        split at h <;> cases h
        · exact ⟨_, rfl, .equal⟩
        · exact ⟨_, rfl, .notEqual⟩
        · exact ⟨_, rfl, .less⟩
        · exact ⟨_, rfl, .lessEqual⟩
        · exact ⟨_, rfl, .greater⟩
        · exact ⟨_, rfl, .greaterEqual⟩
    | connective =>
        simp only [Level.operator?, connectiveOperator?] at h
        split at h <;> cases h
        · exact ⟨_, rfl, .both⟩
        · exact ⟨_, rfl, .either⟩
  · intro h
    obtain ⟨sign, rfl, hjoins⟩ := h
    cases hjoins <;> rfl

/-- The levels at which operators join operands of the next tighter one. -/
inductive Level.Joined : Level → Level → Prop where
  | product : Joined .product .operand
  | sum : Joined .sum .product
  | comparison : Joined .comparison .negation
  | connective : Joined .connective .comparison

theorem Level.Joined.tighter?_eq {level tighter : Level} (h : Joined level tighter) :
    level.tighter? = some tighter := by
  cases h <;> rfl

theorem Level.Joined.parser_eq {level tighter : Level} (h : Joined level tighter)
    (expression : Parser Node) :
    level.parser expression = joined level.operator? (tighter.parser expression) := by
  cases h <;> rfl

/-! ## Soundness of parsers -/

/-- A parser is sound when the tokens that it takes make up what it returns. -/
def Sound {α : Type} (p : Parser α) (makes : List String → α → List Token → Prop) : Prop :=
  ∀ ⦃s a s'⦄, p s = .ok a s' → ∃ ts, Took ts s s' ∧ makes s.declared a ts

/-- What the parser of a level is to return. -/
abbrev ValueAt (level : Level) (declared : List String) (node : Node) (ts : List Token) : Prop :=
  Derives declared (.value level node) ts

variable {e : Parser Node} {s s' : ParserState}

/-- **The loop over operators joins to the left.** What it was given is the left side of the first
    operator, and what it returns is made up of all the tokens together. -/
theorem joinFrom_sound {level tighter : Level} {operand : Parser Node}
    (hlevel : level.tighter? = some tighter) (hoperand : Sound operand (ValueAt tighter)) :
    ∀ (bound : Nat) {left node : Node} {ls : List Token} {s s' : ParserState},
      ValueAt level s.declared left ls →
      joinFrom level.operator? operand bound left s = .ok node s' →
      ∃ ts, Took ts s s' ∧ ValueAt level s.declared node (ls ++ ts) := by
  intro bound
  -- What has been joined so far is the left operand of the next operator.
  induction bound with
  | zero =>
      intro left node ls s s' hleft h
      obtain ⟨rfl, rfl⟩ := pure_eq_ok.mp h
      exact ⟨[], Took.nil s, by rwa [List.append_nil]⟩
  | succ bound ih =>
      intro left node ls s s' hleft h
      rw [joinFrom, bind_eq_ok] at h
      obtain ⟨found, s₁, haccept, h⟩ := h
      cases found with
      | none =>
          obtain ⟨rfl, rfl⟩ := pure_eq_ok.mp h
          obtain ⟨-, rfl⟩ := accept?_eq_none.mp haccept
          exact ⟨[], Took.nil s₁, by rwa [List.append_nil]⟩
      | some build =>
          obtain ⟨⟨t, hhead, hbuild⟩, hs₁⟩ := accept?_eq_some.mp haccept
          obtain ⟨sign, rfl, hjoins⟩ := operator?_eq_some.mp hbuild
          have htook₁ : Took [.symbol sign] s s₁ := hs₁ ▸ Took.advance hhead
          rw [bind_eq_ok] at h
          obtain ⟨right, s₂, hright, h⟩ := h
          obtain ⟨rs, htook₂, hrs⟩ := hoperand hright
          rw [htook₁.declared] at hrs
          have htook := htook₁.append htook₂
          -- The tree that has been built so far is the left side of the rounds that follow.
          have hjoin := Derives.join hlevel hjoins hleft hrs
          rw [← htook.declared] at hjoin
          obtain ⟨us, htook₃, hus⟩ := ih hjoin h
          rw [htook.declared] at hus
          refine ⟨_, htook.append htook₃, ?_⟩
          simpa using hus

theorem joined_sound {level tighter : Level} (hlevel : level.Joined tighter)
    (hoperand : Sound (tighter.parser e) (ValueAt tighter)) :
    Sound (level.parser e) (ValueAt level) := by
  intro s node s' h
  rw [hlevel.parser_eq, joined, bind_eq_ok] at h
  obtain ⟨first, s₁, hfirst, h⟩ := h
  rw [bind_apply remaining_apply] at h
  obtain ⟨ts, htook, hts⟩ := hoperand hfirst
  have hlift := Derives.lift hlevel.tighter?_eq hts
  rw [← htook.declared] at hlift
  obtain ⟨us, htook', hus⟩ := joinFrom_sound hlevel.tighter?_eq hoperand _ hlift h
  rw [htook.declared] at hus
  exact ⟨ts ++ us, htook.append htook', hus⟩

/-- Negations are sound if what they negate is. -/
theorem negation_sound (hsum : Sound (Parser.sum e) (ValueAt .sum)) (bound : Nat) :
    Sound (Parser.negation e bound) (ValueAt .negation) := by
  induction bound with
  | zero =>
      intro s node s' h
      obtain ⟨ts, htook, hts⟩ := hsum h
      exact ⟨ts, htook, .lift rfl hts⟩
  | succ bound ih =>
      intro s node s' h
      rw [Parser.negation, ifAccept_apply] at h
      -- With a mark in front the bound goes down, and without one the sum is all there is.
      split at h
      · next hhead =>
        rw [bind_eq_ok] at h
        obtain ⟨operand, s₁, hoperand, h⟩ := h
        obtain ⟨rfl, rfl⟩ := pure_eq_ok.mp h
        obtain ⟨ts, htook, hts⟩ := ih hoperand
        exact ⟨_, (Took.advance hhead).append htook, .not hts⟩
      · obtain ⟨ts, htook, hts⟩ := hsum h
        exact ⟨ts, htook, .lift rfl hts⟩

/-! ## Devices -/

/-- The token of an argument of a device. -/
def argumentToken : DeviceArgument → Token
  | .name name => .identifier name
  | .text text => .string text

/-- The tokens of the arguments of a device. -/
def argumentTokens (arguments : List DeviceArgument) : List Token :=
  (arguments.map argumentToken).intersperse (.symbol .comma)

theorem deviceArgument?_eq_some {t : Token} {argument : DeviceArgument} :
    deviceArgument? t = some argument ↔ t = argumentToken argument := by
  constructor
  · intro h
    cases t <;> cases h <;> rfl
  · intro h
    subst h
    cases argument <;> rfl

theorem isPin_iff {name : String} : isPin name = true ↔ IsPin name := by
  unfold isPin IsPin
  -- Whether the name is made of the letter for pins and one more character.
  split
  · next c hname => simp [hname]
  · next hname =>
    constructor
    · intro h
      cases h
    · intro h
      obtain ⟨c, hc, -⟩ := h
      exact absurd hc (hname c)

theorem batchMode_ofName?_eq_some {name : String} {mode : BatchMode} :
    BatchMode.ofName? name = some mode ↔ name = mode.name := by
  constructor
  · intro h
    have hmode := List.find?_some h
    exact (of_decide_eq_true hmode).symm
  · intro h
    subst h
    exact BatchMode.ofName?_name mode

/-- The type may be bare or quoted; what follows it does not depend on that. -/
theorem TypeName.exists_argument {t : Token} {deviceType : String} (h : TypeName t deviceType) :
    ∃ first, t = argumentToken first ∧ ∀ {rest : List DeviceArgument} {a : Addressing},
      addressing rest = .ok a → deviceConfig (first :: rest) = .ok ⟨deviceType, a⟩ := by
  cases h with
  | bare =>
      refine ⟨.name deviceType, rfl, ?_⟩
      intro rest a h
      simp [deviceConfig, h, Except.map]
  | quoted =>
      refine ⟨.text deviceType, rfl, ?_⟩
      intro rest a h
      simp [deviceConfig, h, Except.map]

/-- The three forms of what follows the type of a device. -/
theorem addressing_eq_ok {rest : List DeviceArgument} {a : Addressing} (hrest : rest.length ≤ 2) :
    addressing rest = .ok a ↔
      (∃ name, IsPin name ∧ rest = [.name name] ∧ a = .pin name) ∨
      (∃ mode : BatchMode, rest = [.name mode.name] ∧ a = .batch mode) ∨
      (∃ name, ∃ mode : BatchMode,
        rest = [.text name, .name mode.name] ∧ a = .namedBatch name mode) := by
  constructor
  · intro h
    -- The cases of the lookup are the three forms, and the ones that fail.
    unfold addressing at h
    split at h
    · cases h
    · next name rest =>
      split at h
      · next hpin =>
        cases h
        exact Or.inl ⟨name, isPin_iff.mp hpin, rfl, rfl⟩
      · cases h
      · split at h
        · next mode hmode =>
          cases h
          rw [batchMode_ofName?_eq_some] at hmode
          exact Or.inr (Or.inl ⟨mode, by rw [hmode], rfl⟩)
        · cases h
      · cases h
    · next name mode others =>
      split at h
      · next found hmode =>
        cases h
        rw [batchMode_ofName?_eq_some] at hmode
        -- There is no room for another argument.
        have hothers : others = [] := by
          apply List.eq_nil_of_length_eq_zero
          simp only [List.length_cons] at hrest
          omega
        exact Or.inr (Or.inr ⟨name, found, by rw [hmode, hothers], rfl⟩)
      · cases h
    · cases h
  · intro h
    rcases h with ⟨name, hpin, rfl, rfl⟩ | ⟨mode, rfl, rfl⟩ | ⟨name, mode, rfl, rfl⟩
    · simp [addressing, isPin_iff.mpr hpin]
    · cases mode <;> rfl
    · simp [addressing]

/-- **The arguments of a device in the grammar are those that make a configuration**, with commas
    between them. -/
theorem deviceArguments_iff {ts : List Token} {config : DeviceConfig} :
    DeviceArguments ts config ↔
      ∃ arguments, arguments.length ≤ maxDeviceArguments ∧ ts = argumentTokens arguments ∧
        deviceConfig arguments = .ok config := by
  constructor
  · intro h
    cases h with
    | pin htype hpin =>
        obtain ⟨first, rfl, hconfig⟩ := htype.exists_argument
        refine ⟨[first, .name _], Nat.le_succ 2, rfl, hconfig ?_⟩
        exact (addressing_eq_ok (by simp)).mpr (Or.inl ⟨_, hpin, rfl, rfl⟩)
    | batch mode htype =>
        obtain ⟨first, rfl, hconfig⟩ := htype.exists_argument
        refine ⟨[first, .name _], Nat.le_succ 2, rfl, hconfig ?_⟩
        exact (addressing_eq_ok (by simp)).mpr (Or.inr (Or.inl ⟨mode, rfl, rfl⟩))
    | namedBatch name mode htype =>
        obtain ⟨first, rfl, hconfig⟩ := htype.exists_argument
        refine ⟨[first, .text _, .name _], Nat.le_refl 3, rfl, hconfig ?_⟩
        exact (addressing_eq_ok (by simp)).mpr (Or.inr (Or.inr ⟨name, mode, rfl, rfl⟩))
  · intro h
    obtain ⟨arguments, hroom, rfl, hconfig⟩ := h
    -- The first argument is the type, bare or quoted, and the others are its address.
    have hforms : ∀ (first : DeviceArgument) (deviceType : String) (rest : List DeviceArgument),
        TypeName (argumentToken first) deviceType → rest.length ≤ 2 →
        (addressing rest).map (fun a => DeviceConfig.mk deviceType a) = .ok config →
        DeviceArguments (argumentTokens (first :: rest)) config := by
      intro first deviceType rest htype hrest hmap
      cases haddress : addressing rest with
      | error fault =>
          rw [haddress] at hmap
          cases hmap
      | ok a =>
          rw [haddress] at hmap
          cases hmap
          rcases (addressing_eq_ok hrest).mp haddress with
            ⟨name, hpin, rfl, rfl⟩ | ⟨mode, rfl, rfl⟩ | ⟨name, mode, rfl, rfl⟩
          · exact .pin htype hpin
          · exact .batch mode htype
          · exact .namedBatch name mode htype
    cases arguments with
    | nil => cases hconfig
    | cons first rest =>
        have hrest : rest.length ≤ 2 := by
          rw [List.length_cons, maxDeviceArguments] at hroom
          omega
        cases first with
        | name deviceType => exact hforms _ deviceType rest (.bare deviceType) hrest hconfig
        | text deviceType => exact hforms _ deviceType rest (.quoted deviceType) hrest hconfig

/-- The arguments are taken with the commas between them, and there is no comma behind the last. -/
theorem deviceArguments_sound (position : Position) (room : Nat) :
    Sound (deviceArguments position room) fun _ arguments ts =>
      arguments ≠ [] ∧ arguments.length ≤ room ∧ ts = argumentTokens arguments := by
  induction room with
  | zero =>
      intro s arguments s' h
      exact absurd h throw_ne_ok
  | succ room ih =>
      intro s arguments s' h
      rw [deviceArguments, bind_expect_eq_ok] at h
      obtain ⟨t, first, hhead, hfirst, h⟩ := h
      obtain rfl := deviceArgument?_eq_some.mp hfirst
      rw [ifAccept_apply] at h
      split at h
      · next hcomma =>
        rw [bind_eq_ok] at h
        obtain ⟨rest, s₁, hrest, h⟩ := h
        obtain ⟨rfl, rfl⟩ := pure_eq_ok.mp h
        obtain ⟨ts, htook, hnonempty, hlength, rfl⟩ := ih hrest
        refine ⟨_, ((Took.advance hhead).append (Took.advance hcomma)).append htook,
          List.cons_ne_nil _ _, Nat.succ_le_succ hlength, ?_⟩
        -- Something follows the comma, so that the tokens do not end with it.
        cases rest with
        | nil => exact absurd rfl hnonempty
        | cons second rest => rfl
      · obtain ⟨rfl, rfl⟩ := pure_eq_ok.mp h
        exact ⟨_, Took.advance hhead, List.cons_ne_nil _ _, Nat.succ_le_succ (Nat.zero_le room),
          rfl⟩

theorem device_sound (position : Position) :
    Sound (Parser.device position) fun _ node ts =>
      ∃ us config, node = .device config ∧ DeviceArguments us config ∧
        ts = .symbol .leftParen :: (us ++ [.symbol .rightParen]) := by
  intro s node s' h
  rw [Parser.device, bind_expectSymbol_eq_ok] at h
  obtain ⟨hleft, h⟩ := h
  rw [bind_eq_ok] at h
  obtain ⟨arguments, s₁, harguments, h⟩ := h
  rw [bind_expectSymbol_eq_ok] at h
  obtain ⟨hright, h⟩ := h
  obtain ⟨us, htook, -, hlength, hus⟩ := deviceArguments_sound position _ harguments
  have htooks := (Took.advance hleft).append (htook.append (Took.advance hright))
  -- The configuration has been made, so that the arguments are those of one.
  cases hconfig : deviceConfig arguments with
  | error fault =>
      rw [hconfig] at h
      exact absurd h throw_ne_ok
  | ok config =>
    rw [hconfig] at h
    obtain ⟨rfl, rfl⟩ := pure_eq_ok.mp h
    exact ⟨_, htooks, us, config, rfl, deviceArguments_iff.mpr ⟨arguments, hlength, hus, hconfig⟩,
      rfl⟩

/-! ## Operands -/

theorem expressions_sound (he : Sound e (ValueAt .choice)) (bound : Nat) :
    Sound (expressions e bound) fun declared nodes ts => Derives declared (.list nodes) ts := by
  induction bound with
  | zero =>
      intro s nodes s' h
      exact absurd h unexpected_ne_ok
  | succ bound ih =>
      intro s nodes s' h
      rw [expressions, bind_eq_ok] at h
      obtain ⟨first, s₁, hfirst, h⟩ := h
      obtain ⟨ts, htook, hts⟩ := he hfirst
      rw [ifAccept_apply] at h
      split at h
      · next hcomma =>
        rw [bind_eq_ok] at h
        obtain ⟨rest, s₂, hrest, h⟩ := h
        obtain ⟨rfl, rfl⟩ := pure_eq_ok.mp h
        obtain ⟨us, htook', hus⟩ := ih hrest
        -- Expressions declare nothing, so that the rest is read with the same names.
        rw [advance_declared, htook.declared] at hus
        exact ⟨_, htook.append ((Took.advance hcomma).append htook'), .more hts hus⟩
      · obtain ⟨rfl, rfl⟩ := pure_eq_ok.mp h
        exact ⟨ts, htook, .one hts⟩

theorem arguments_sound (he : Sound e (ValueAt .choice)) :
    Sound (arguments e) fun declared nodes ts =>
      ∃ us, Derives declared (.arguments nodes) us ∧ ts = us ++ [.symbol .rightParen] := by
  intro s nodes s' h
  rw [arguments] at h
  obtain ⟨next, hnext, h⟩ := exists_next peek?_apply h
  rw [← head?_words] at hnext
  -- The next token tells whether there are arguments.
  split at hnext <;> subst hnext
  · next hright =>
    rw [bind_apply advance_apply] at h
    obtain ⟨rfl, rfl⟩ := pure_eq_ok.mp h
    exact ⟨_, Took.advance hright, [], .noArguments, rfl⟩
  · rw [bind_apply remaining_apply, bind_eq_ok] at h
    obtain ⟨list, s₁, hlist, h⟩ := h
    rw [bind_expectSymbol_eq_ok] at h
    obtain ⟨hright, h⟩ := h
    obtain ⟨rfl, rfl⟩ := pure_eq_ok.mp h
    obtain ⟨us, htook, hus⟩ := expressions_sound he _ hlist
    exact ⟨_, htook.append (Took.advance hright), us, .someArguments hus, rfl⟩

/-- The logic type that may follow a name and has to follow an index. -/
def propertyAfter (index : Option Node) (name : String) (position : Position) :
    Parser (Option Node × Option String) := do
  if ← accept (.symbol .dot) then
    return (index, some (← expect identifier? .logicType))
  else if index.isSome then throw (.indexWithoutProperty name position)
  else return (index, none)

/-- An index and its closing bracket, with the logic type after them. -/
def indexThenProperty (e : Parser Node) (name : String) (position : Position) :
    Parser (Option Node × Option String) := do
  let index ← e
  expectSymbol .rightBracket
  propertyAfter (some index) name position

/-- The parser of what follows a name, with the logic type read behind the index or without one. -/
theorem suffix_eq (e : Parser Node) (name : String) (position : Position) :
    suffix e name position =
      accept (.symbol .leftBracket) >>= fun found =>
        if found = true then indexThenProperty e name position
        else propertyAfter none name position := by
  simp only [suffix, propertyAfter, indexThenProperty, pure_bind, map_eq_pure_bind, bind_assoc]
  simp
  rfl

theorem identifier?_eq_some {t : Token} {name : String} :
    identifier? t = some name ↔ t = .identifier name := by
  cases t <;> simp [identifier?]

theorem numberText?_eq_some {t : Token} {text : String} :
    numberText? t = some text ↔ t = .number text := by
  cases t <;> simp [numberText?]

theorem stringText?_eq_some {t : Token} {text : String} :
    stringText? t = some text ↔ t = .string text := by
  cases t <;> simp [stringText?]

/-- A logic type has been read, or there is none and no index either. -/
theorem propertyAfter_eq_ok {index : Option Node} {name : String} {position : Position}
    {found : Option Node × Option String} :
    propertyAfter index name position s = .ok found s' ↔
      (∃ property, s.words.head? = some (.symbol .dot) ∧
        s.advance.words.head? = some (.identifier property) ∧
        found = (index, some property) ∧ s' = s.advance.advance) ∨
      (s.words.head? ≠ some (.symbol .dot) ∧ index = none ∧ found = (none, none) ∧ s' = s) := by
  rw [propertyAfter, ifAccept_apply]
  by_cases hdot : s.words.head? = some (.symbol .dot)
  · rw [if_pos hdot, bind_expect_eq_ok]
    simp only [hdot, identifier?_eq_some, pure_eq_ok]
    grind
  · rw [if_neg hdot]
    -- An index without a logic type is an error.
    cases index with
    | none => simp [hdot, eq_comm]
    | some index => simp [hdot]

theorem suffix_sound (he : Sound e (ValueAt .choice)) (name : String) (position : Position) :
    Sound (suffix e name position) fun declared found ts =>
      Derives declared (.suffix found.1 found.2) ts := by
  intro s found s' h
  rw [suffix_eq, ifAccept_apply] at h
  split at h
  · next hleft =>
    rw [indexThenProperty, bind_eq_ok] at h
    obtain ⟨index, s₁, hindex, h⟩ := h
    rw [bind_expectSymbol_eq_ok] at h
    obtain ⟨hright, h⟩ := h
    obtain ⟨ts, htook, hts⟩ := he hindex
    have htook₁ := (Took.advance hleft).append (htook.append (Took.advance hright))
    rcases propertyAfter_eq_ok.mp h with ⟨property, hdot, hname, rfl, rfl⟩ | ⟨-, hnone, -, -⟩
    · have htook₂ := htook₁.append ((Took.advance hdot).append (Took.advance hname))
      refine ⟨_, htook₂, ?_⟩
      have hsuffix := Derives.indexed property hts
      simpa using hsuffix
    · -- This case says that there is no index, but one has been read.
      cases hnone
  · rcases propertyAfter_eq_ok.mp h with ⟨property, hdot, hname, rfl, rfl⟩ | ⟨-, -, rfl, rfl⟩
    · exact ⟨_, (Took.advance hdot).append (Took.advance hname), .property property⟩
    · exact ⟨_, Took.nil s', .bare⟩

/-- The check succeeds if the numbers are the same, and changes nothing. -/
theorem checkArity_eq_ok {name : String} {expected found : Nat} {position : Position} :
    checkArity name expected found position s = .ok () s' ↔ expected = found ∧ s' = s := by
  unfold checkArity
  split
  · next h => simp [h, eq_comm]
  · next h => simp [h]

/-- A name and what follows it are a call, a constant, or a value that is read. -/
theorem named_sound (he : Sound e (ValueAt .choice)) (name : String) (position : Position) :
    Sound (named e name position) fun declared node ts =>
      ValueAt .operand declared node (.identifier name :: ts) := by
  intro s node s' h
  rw [named, bind_apply peek?_apply] at h
  split at h
  · next hparen =>
    have hhead := any_head?_iff.mp hparen
    cases harity : Vocabulary.functionArity? name with
    -- A parenthesis follows, so that the name must be that of a function.
    | none =>
        rw [harity] at h
        cases hcommand : Vocabulary.isCommand name with
        | true => simp [hcommand] at h
        | false => simp [hcommand] at h
    | some arity =>
        rw [harity] at h
        change (Parser.advance >>= _) s = _ at h
        rw [bind_apply advance_apply, bind_eq_ok] at h
        obtain ⟨list, s₁, hlist, h⟩ := h
        rw [bind_eq_ok] at h
        obtain ⟨⟨⟩, s₂, hcheck, h⟩ := h
        obtain ⟨rfl, rfl⟩ := checkArity_eq_ok.mp hcheck
        obtain ⟨rfl, rfl⟩ := pure_eq_ok.mp h
        obtain ⟨ts, htook, us, hus, rfl⟩ := arguments_sound he hlist
        exact ⟨_, (Took.advance hhead).append htook, .call harity hus⟩
  · -- Otherwise constants come before what has been declared.
    split at h
    · next hconstant =>
      obtain ⟨rfl, rfl⟩ := pure_eq_ok.mp h
      exact ⟨[], Took.nil s, .constant hconstant⟩
    · next hconstant =>
      rw [bind_apply (isDeclared_apply name)] at h
      split at h
      · next hdeclared =>
        rw [bind_eq_ok] at h
        obtain ⟨⟨index, property⟩, s₁, hsuffix, h⟩ := h
        obtain ⟨rfl, rfl⟩ := pure_eq_ok.mp h
        obtain ⟨ts, htook, hts⟩ := suffix_sound he name position hsuffix
        exact ⟨ts, htook, .read (by simpa using hconstant) (by simpa using hdeclared) hts⟩
      · exact absurd h throw_ne_ok

/-- Operands are sound if expressions in parentheses are. -/
theorem primary_sound (he : Sound e (ValueAt .choice)) :
    Sound (primary e) (ValueAt .operand) := by
  intro s node s' h
  rw [primary] at h
  obtain ⟨next, hnext, h⟩ := exists_next peek?_apply h
  -- One case for each token that an operand can start with.
  split at hnext <;> subst hnext
  · next text position hhead =>
    have hword := word_of_head hhead
    rw [bind_apply advance_apply] at h
    obtain ⟨rfl, rfl⟩ := pure_eq_ok.mp h
    exact ⟨_, Took.advance hword, .number text⟩
  · next position hhead =>
    have hword := word_of_head hhead
    rw [bind_apply advance_apply, bind_expect_eq_ok] at h
    obtain ⟨t, text, ht, htext, h⟩ := h
    obtain ⟨rfl, rfl⟩ := pure_eq_ok.mp h
    obtain rfl := numberText?_eq_some.mp htext
    exact ⟨_, (Took.advance hword).append (Took.advance ht), .negative text⟩
  · next position hhead =>
    have hword := word_of_head hhead
    rw [bind_apply advance_apply, bind_expectSymbol_eq_ok] at h
    obtain ⟨hleft, h⟩ := h
    rw [bind_expect_eq_ok] at h
    obtain ⟨t, text, ht, htext, h⟩ := h
    obtain rfl := stringText?_eq_some.mp htext
    rw [bind_expectSymbol_eq_ok] at h
    obtain ⟨hright, h⟩ := h
    obtain ⟨rfl, rfl⟩ := pure_eq_ok.mp h
    have htook := (Took.advance hleft).append ((Took.advance ht).append (Took.advance hright))
    exact ⟨_, (Took.advance hword).append htook, .hash text⟩
  · next position hhead =>
    have hword := word_of_head hhead
    rw [bind_apply advance_apply] at h
    obtain ⟨ts, htook, us, config, rfl, hus, rfl⟩ := device_sound position h
    exact ⟨_, (Took.advance hword).append htook, .device hus⟩
  · next position hhead =>
    have hword := word_of_head hhead
    rw [bind_apply advance_apply, bind_eq_ok] at h
    obtain ⟨inner, s₁, hinner, h⟩ := h
    obtain ⟨ts, htook, hts⟩ := he hinner
    rw [ifAccept_apply] at h
    split at h
    · next hright =>
      obtain ⟨rfl, rfl⟩ := pure_eq_ok.mp h
      exact ⟨_, (Took.advance hword).append (htook.append (Took.advance hright)), .group hts⟩
    · exact absurd h throw_ne_ok
  · next name position hhead =>
    have hword := word_of_head hhead
    rw [bind_apply advance_apply] at h
    obtain ⟨ts, htook, hts⟩ := named_sound he name position h
    exact ⟨_, (Took.advance hword).append htook, hts⟩
  · exact absurd h unexpected_ne_ok

/-! ## Expressions -/

/-- A choice between two values, or its condition alone. -/
theorem choice_sound (he : Sound e (ValueAt .choice))
    (hconnective : Sound (Parser.connective e) (ValueAt .connective)) :
    Sound (Parser.choice e) (ValueAt .choice) := by
  intro s node s' h
  rw [Parser.choice, bind_eq_ok] at h
  obtain ⟨condition, s₁, hcondition, h⟩ := h
  obtain ⟨cs, htook, hcs⟩ := hconnective hcondition
  rw [ifAccept_apply] at h
  split at h
  · next hquestion =>
    rw [bind_eq_ok] at h
    obtain ⟨thenValue, s₂, hthen, h⟩ := h
    rw [bind_expectSymbol_eq_ok] at h
    obtain ⟨hcolon, h⟩ := h
    rw [bind_eq_ok] at h
    obtain ⟨elseValue, s₃, helse, h⟩ := h
    obtain ⟨rfl, rfl⟩ := pure_eq_ok.mp h
    obtain ⟨ts, htook₁, hts⟩ := he hthen
    obtain ⟨us, htook₂, hus⟩ := he helse
    -- All three parts are read with the same names, since expressions declare nothing.
    rw [advance_declared, htook.declared] at hts
    rw [advance_declared, htook₁.declared, advance_declared, htook.declared] at hus
    have htooks := htook₁.append ((Took.advance hcolon).append htook₂)
    exact ⟨_, htook.append ((Took.advance hquestion).append htooks), .choice hcs hts hus⟩
  · obtain ⟨rfl, rfl⟩ := pure_eq_ok.mp h
    exact ⟨cs, htook, .lift rfl hcs⟩

/-- Every level is sound if the parser for whole expressions is. -/
theorem parser_sound (he : Sound e (ValueAt .choice)) (level : Level) :
    Sound (level.parser e) (ValueAt level) := by
  have hproduct : Sound (Level.product.parser e) (ValueAt .product) :=
    joined_sound .product (primary_sound he)
  have hsum : Sound (Level.sum.parser e) (ValueAt .sum) := joined_sound .sum hproduct
  have hnegation : Sound (Level.negation.parser e) (ValueAt .negation) := by
    intro s node s' h
    rw [Level.parser, bind_apply remaining_apply] at h
    exact negation_sound hsum _ h
  have hcomparison : Sound (Level.comparison.parser e) (ValueAt .comparison) :=
    joined_sound .comparison hnegation
  have hconnective : Sound (Level.connective.parser e) (ValueAt .connective) :=
    joined_sound .connective hcomparison
  -- Each level is sound because the one below it is, so all of them are shown before one is chosen.
  cases level with
  | choice => exact choice_sound he hconnective
  | connective => exact hconnective
  | comparison => exact hcomparison
  | negation => exact hnegation
  | sum => exact hsum
  | product => exact hproduct
  | operand => exact primary_sound he

/-- Expressions up to a depth of nesting.  By induction on the depth, which the parentheses of an
    operand use up. -/
theorem expressionWithin_sound (bound : Nat) :
    Sound (expressionWithin bound) (ValueAt .choice) := by
  induction bound with
  | zero =>
      intro s node s' h
      exact absurd h unexpected_ne_ok
  | succ bound ih => exact parser_sound ih .choice

/-- **Expressions are sound.** -/
theorem expression_sound : Sound expression (ValueAt .choice) := by
  intro s node s' h
  rw [expression, bind_apply remaining_apply] at h
  exact expressionWithin_sound _ h

/-! ## Simple statements -/

/-- A statement that could take an `else` is not followed by one. -/
def Settled (node : Node) (rest : List Token) : Prop :=
  node.isOpen = true →
    rest.head? ≠ some (.keyword .elseIf) ∧ rest.head? ≠ some (.keyword .otherwise)

/-- A statement that could not take an `else` is settled whatever follows. -/
theorem settled_of_closed {node : Node} {rest : List Token} (h : node.isOpen = false) :
    Settled node rest := by
  intro hopen
  rw [h] at hopen
  cases hopen

/-- A settled statement with an `else` behind it could not have taken it. -/
theorem closed_of_settled {node : Node} {rest : List Token} (h : Settled node rest)
    (hrest : rest.head? = some (.keyword .elseIf) ∨ rest.head? = some (.keyword .otherwise)) :
    node.isOpen = false := by
  cases hopen : node.isOpen with
  | false => rfl
  | true =>
      obtain ⟨helseIf, hotherwise⟩ := h hopen
      rcases hrest with hrest | hrest
      · exact absurd hrest helseIf
      · exact absurd hrest hotherwise

/-- A parser is sound after the tokens `lead` when these and the ones that it takes make up the
    statement that it returns. -/
def SoundAfter (lead : List Token) (p : Parser Node) : Prop :=
  ∀ ⦃s node s'⦄, p s = .ok node s' → ∃ ts after, Passed ts after s s' ∧
    Forms s.declared (decide (0 < s.loopDepth)) (.statement node) (lead ++ ts) after ∧
    Settled node s'.words

theorem declaration_sound : SoundAfter [.keyword .var] declaration := by
  intro s node s' h
  rw [declaration] at h
  obtain ⟨next, hnext, h⟩ := exists_next peek?_apply h
  split at hnext <;> subst hnext
  · next name position hhead =>
    have hword := word_of_head hhead
    rw [bind_apply advance_apply, bind_apply (isDeclared_apply name)] at h
    split at h
    · next hbad =>
      rw [bind_eq_ok] at h
      obtain ⟨a, s₁, hthrow, h⟩ := h
      exact absurd hthrow throw_ne_ok
    · next hgood =>
      simp only [Bool.or_eq_true, not_or, Bool.not_eq_true] at hgood
      obtain ⟨⟨hfresh, hconstant⟩, hcommand⟩ := hgood
      rw [bind_expectSymbol_eq_ok] at h
      obtain ⟨hassign, h⟩ := h
      rw [bind_eq_ok] at h
      obtain ⟨value, s₁, hvalue, h⟩ := h
      rw [bind_expectSymbol_eq_ok] at h
      obtain ⟨hsemicolon, h⟩ := h
      obtain ⟨rfl, rfl⟩ := pure_eq_ok.mp h
      obtain ⟨ts, htook, hts⟩ := expression_sound hvalue
      have htooks := (Took.advance hword).append
        ((Took.advance hassign).append (htook.append (Took.advance hsemicolon)))
      -- The statement is no choice, so that it is settled whatever follows.
      refine ⟨_, name :: s.declared, ⟨htooks.words, ?_, htooks.loopDepth⟩, ?_,
        settled_of_closed rfl⟩
      · exact congrArg (List.cons name) htooks.declared
      · exact .declare (by simpa using hfresh) hconstant hcommand hts
  · exact absurd h unexpected_ne_ok

theorem command_sound (kind : Vocabulary.Command) (position : Position) :
    SoundAfter [.identifier kind.name] (command kind position) := by
  intro s node s' h
  rw [command, bind_expectSymbol_eq_ok] at h
  obtain ⟨hleft, h⟩ := h
  rw [bind_eq_ok] at h
  obtain ⟨nodes, s₁, hnodes, h⟩ := h
  rw [bind_eq_ok] at h
  obtain ⟨⟨⟩, s₂, hcheck, h⟩ := h
  obtain ⟨harity, rfl⟩ := checkArity_eq_ok.mp hcheck
  rw [bind_expectSymbol_eq_ok] at h
  obtain ⟨hsemicolon, h⟩ := h
  obtain ⟨rfl, rfl⟩ := pure_eq_ok.mp h
  -- The words are the opening bracket, those of the arguments, and the closing bracket and
  -- semicolon.
  obtain ⟨ts, htook, us, hus, rfl⟩ := arguments_sound expression_sound hnodes
  have htooks := (Took.advance hleft).append (htook.append (Took.advance hsemicolon))
  refine ⟨_, s.declared, htooks, ?_, settled_of_closed rfl⟩
  have hforms : Forms s.declared (decide (0 < s.loopDepth)) _ _ _ := Forms.command harity hus
  simpa using hforms

/-- An assignment, behind its name, which is not that of a command. -/
theorem assignment_sound {name : String} (hname : Vocabulary.isCommand name = false)
    (position : Position) : SoundAfter [.identifier name] (assignment name position) := by
  intro s node s' h
  rw [assignment, bind_apply (isDeclared_apply name)] at h
  split at h
  · rw [bind_eq_ok] at h
    obtain ⟨a, s₁, hthrow, h⟩ := h
    exact absurd hthrow throw_ne_ok
  · next hdeclared =>
    rw [bind_eq_ok] at h
    obtain ⟨⟨index, property⟩, s₁, hsuffix, h⟩ := h
    change (expectSymbol .assign >>= _) s₁ = _ at h
    rw [bind_expectSymbol_eq_ok] at h
    obtain ⟨hassign, h⟩ := h
    rw [bind_eq_ok] at h
    obtain ⟨value, s₂, hvalue, h⟩ := h
    rw [bind_expectSymbol_eq_ok] at h
    obtain ⟨hsemicolon, h⟩ := h
    obtain ⟨rfl, rfl⟩ := pure_eq_ok.mp h
    obtain ⟨ss, htook, hss⟩ := suffix_sound expression_sound name position hsuffix
    obtain ⟨ts, htook₁, hts⟩ := expression_sound hvalue
    -- The value is read with the names that were known before the target.
    rw [advance_declared, htook.declared] at hts
    have htooks := htook.append
      ((Took.advance hassign).append (htook₁.append (Took.advance hsemicolon)))
    exact ⟨_, s.declared, htooks, .assign (by simpa using hdeclared) hname hss hts,
      settled_of_closed rfl⟩

/-- A loop control, which succeeds in a loop only. -/
theorem loopControl_sound (kind : LoopControl) {word : Keyword} (position : Position)
    (hforms : ∀ declared, Forms declared true (.statement (.control kind))
      [.keyword word, .symbol .semicolon] declared) :
    SoundAfter [.keyword word] (loopControl kind position) := by
  intro s node s' h
  rw [loopControl, bind_eq_ok] at h
  obtain ⟨t, s₁, hget, h⟩ := h
  cases hget
  split at h
  · rw [bind_eq_ok] at h
    obtain ⟨a, s₁, hthrow, h⟩ := h
    exact absurd hthrow throw_ne_ok
  · next hdepth =>
    rw [bind_expectSymbol_eq_ok] at h
    obtain ⟨hsemicolon, h⟩ := h
    obtain ⟨rfl, rfl⟩ := pure_eq_ok.mp h
    -- The check has been passed, so that a loop is around.
    have hloop : decide (0 < s.loopDepth) = true := decide_eq_true (Nat.pos_of_ne_zero hdepth)
    rw [hloop]
    exact ⟨_, s.declared, Took.advance hsemicolon, hforms s.declared, settled_of_closed rfl⟩

theorem deviceStatement_sound (position : Position) :
    SoundAfter [.keyword .device] (deviceStatement position) := by
  intro s node s' h
  rw [deviceStatement, bind_eq_ok] at h
  obtain ⟨config, s₁, hdevice, h⟩ := h
  rw [bind_expectSymbol_eq_ok] at h
  obtain ⟨hsemicolon, h⟩ := h
  obtain ⟨rfl, rfl⟩ := pure_eq_ok.mp h
  obtain ⟨ts, htook, us, config, rfl, hus, rfl⟩ := device_sound position hdevice
  refine ⟨_, s.declared, htook.append (Took.advance hsemicolon), ?_, settled_of_closed rfl⟩
  have hforms : Forms s.declared (decide (0 < s.loopDepth)) _ _ _ := Forms.device hus
  simpa using hforms

theorem condition_sound :
    Sound condition fun declared node ts =>
      ∃ cs, ValueAt .choice declared node cs ∧
        ts = .symbol .leftParen :: (cs ++ [.symbol .rightParen]) := by
  intro s node s' h
  rw [condition, bind_expectSymbol_eq_ok] at h
  obtain ⟨hleft, h⟩ := h
  rw [bind_eq_ok] at h
  obtain ⟨test, s₁, htest, h⟩ := h
  rw [bind_expectSymbol_eq_ok] at h
  obtain ⟨hright, h⟩ := h
  obtain ⟨rfl, rfl⟩ := pure_eq_ok.mp h
  obtain ⟨cs, htook, hcs⟩ := expression_sound htest
  exact ⟨_, (Took.advance hleft).append (htook.append (Took.advance hright)), cs, hcs, rfl⟩

/-! ## Compound statements -/

/-- The body of a loop is formed in a loop, and the loops around are as many behind it as before. -/
theorem inLoop_sound {p : Parser Node} (hp : SoundAfter [] p) {node : Node}
    (h : inLoop p s = .ok node s') :
    ∃ ts after, Passed ts after s s' ∧ Forms s.declared true (.statement node) ts after ∧
      Settled node s'.words := by
  obtain ⟨t, hbody, rfl⟩ := inLoop_eq_ok.mp h
  obtain ⟨ts, after, hpassed, hforms, hsettled⟩ := hp hbody
  have hdepth : t.loopDepth = s.loopDepth + 1 := hpassed.loopDepth
  refine ⟨ts, after, ⟨hpassed.words, hpassed.declared, ?_⟩, ?_, hsettled⟩
  · -- One loop has been added before the body, and one is taken off behind it.
    show t.loopDepth - 1 = s.loopDepth
    omega
  · simpa using hforms

theorem blockBody_sound {p : Parser Node} (hp : SoundAfter [] p) (bound : Nat) :
    ∀ {s s' : ParserState} {nodes : List Node}, blockBody p bound s = .ok nodes s' →
      ∃ ts after, Passed (ts ++ [.symbol .rightBrace]) after s s' ∧
        Forms s.declared (decide (0 < s.loopDepth)) (.sequence nodes) ts after := by
  induction bound with
  | zero =>
      intro s s' nodes h
      exact absurd h unexpected_ne_ok
  | succ bound ih =>
      intro s s' nodes h
      rw [blockBody] at h
      obtain ⟨next, hnext, h⟩ := exists_next peek?_apply h
      rw [← head?_words] at hnext
      -- The block is closed, or the text has ended, or another statement follows.
      split at hnext <;> subst hnext
      · next hbrace =>
        rw [bind_apply advance_apply] at h
        obtain ⟨rfl, rfl⟩ := pure_eq_ok.mp h
        exact ⟨[], s.declared, Took.advance hbrace, .done⟩
      · exact absurd h unexpected_ne_ok
      · rw [bind_eq_ok] at h
        obtain ⟨first, s₁, hfirst, h⟩ := h
        rw [bind_eq_ok] at h
        obtain ⟨rest, s₂, hrest, h⟩ := h
        obtain ⟨rfl, rfl⟩ := pure_eq_ok.mp h
        obtain ⟨ts, between, hpassed, hforms, -⟩ := hp hfirst
        obtain ⟨us, after, hpassed', hforms'⟩ := ih hrest
        -- The others are read behind the first one, with the names that it has declared.
        rw [hpassed.declared, hpassed.loopDepth] at hforms'
        refine ⟨ts ++ us, after, ?_, .next hforms hforms'⟩
        rw [List.append_assoc]
        exact hpassed.append hpassed'

/-- A choice, with a further condition, with another branch, or without one. -/
theorem branch_sound {bound : Nat} (hstatement : SoundAfter [] (statementWithin bound))
    (hbranch : SoundAfter [.keyword .ifThen] (branchWithin bound)) :
    SoundAfter [.keyword .ifThen] (branchWithin (bound + 1)) := by
  intro s node s' h
  rw [branchWithin, bind_eq_ok] at h
  obtain ⟨test, s₁, htest, h⟩ := h
  obtain ⟨_, htook, cs, hcs, rfl⟩ := condition_sound htest
  rw [bind_eq_ok] at h
  obtain ⟨thenBranch, s₂, hthen, h⟩ := h
  obtain ⟨ts, between, hpassed, hforms, hsettled⟩ := hstatement hthen
  rw [htook.declared, htook.loopDepth] at hforms
  have hpassed₁ := htook.before hpassed
  rw [ifAccept_apply] at h
  split at h
  -- In each of the first two cases the word that follows shows that the branch takes no more.
  · next helseIf =>
    rw [bind_eq_ok] at h
    obtain ⟨elseBranch, s₃, helse, h⟩ := h
    obtain ⟨rfl, rfl⟩ := pure_eq_ok.mp h
    have hclosed := closed_of_settled hsettled (Or.inl helseIf)
    obtain ⟨us, after, hpassed₂, hforms₂, hsettled₂⟩ := hbranch helse
    rw [advance_declared, hpassed₁.declared, advance_loopDepth, hpassed₁.loopDepth] at hforms₂
    refine ⟨_, after, hpassed₁.append ((Took.advance helseIf).before hpassed₂), ?_, hsettled₂⟩
    have hbranches := Forms.branchElseIf hcs hforms hclosed hforms₂
    simpa using hbranches
  · next hnotElseIf =>
    rw [ifAccept_apply] at h
    split at h
    · next hotherwise =>
      rw [bind_eq_ok] at h
      obtain ⟨elseBranch, s₃, helse, h⟩ := h
      obtain ⟨rfl, rfl⟩ := pure_eq_ok.mp h
      have hclosed := closed_of_settled hsettled (Or.inr hotherwise)
      obtain ⟨us, after, hpassed₂, hforms₂, hsettled₂⟩ := hstatement helse
      rw [advance_declared, hpassed₁.declared, advance_loopDepth, hpassed₁.loopDepth] at hforms₂
      refine ⟨_, after, hpassed₁.append ((Took.advance hotherwise).before hpassed₂), ?_, hsettled₂⟩
      have hbranches := Forms.branchElse hcs hforms hclosed hforms₂
      simpa using hbranches
    · next hnotOtherwise =>
      obtain ⟨rfl, rfl⟩ := pure_eq_ok.mp h
      refine ⟨_, between, hpassed₁, ?_, fun _ => ⟨hnotElseIf, hnotOtherwise⟩⟩
      have hbranches := Forms.branch hcs hforms
      simpa using hbranches

theorem isCommand_eq_false {name : String} (h : Vocabulary.Command.ofName? name = none) :
    Vocabulary.isCommand name = false := by
  simp [Vocabulary.isCommand, h]

theorem command_ofName?_eq_some {name : String} {kind : Vocabulary.Command}
    (h : Vocabulary.Command.ofName? name = some kind) : name = kind.name := by
  have hname := List.find?_some h
  exact (of_decide_eq_true hname).symm

/-- A statement is sound if the statements inside it are. -/
theorem statement_sound {bound : Nat} (hstatement : SoundAfter [] (statementWithin bound))
    (hbranch : SoundAfter [.keyword .ifThen] (branchWithin bound)) :
    SoundAfter [] (statementWithin (bound + 1)) := by
  intro s node s' h
  rw [statementWithin] at h
  obtain ⟨next, hnext, h⟩ := exists_next peek?_apply h
  -- Every statement is told by its first token, which the parser after it does not see.
  have hlead : ∀ {t : Token} {p : Parser Node}, s.words.head? = some t → SoundAfter [t] p →
      (Parser.advance >>= fun _ => p) s = .ok node s' → ∃ ts after, Passed ts after s s' ∧
        Forms s.declared (decide (0 < s.loopDepth)) (.statement node) ([] ++ ts) after ∧
        Settled node s'.words := by
    intro t p hhead hp hrun
    rw [bind_apply advance_apply] at hrun
    obtain ⟨ts, after, hpassed, hforms, hsettled⟩ := hp hrun
    exact ⟨t :: ts, after, (Took.advance hhead).before hpassed, hforms, hsettled⟩
  split at hnext <;> subst hnext
  · next hhead => exact hlead (word_of_head hhead) declaration_sound h
  · next hhead =>
    rw [bind_apply advance_apply, bind_eq_ok] at h
    obtain ⟨body, s₁, hbody, h⟩ := h
    obtain ⟨rfl, rfl⟩ := pure_eq_ok.mp h
    obtain ⟨ts, after, hpassed, hforms, hsettled⟩ := inLoop_sound hstatement hbody
    exact ⟨_, after, (Took.advance (word_of_head hhead)).before hpassed, .loop hforms, hsettled⟩
  · next hhead =>
    rw [bind_apply advance_apply, bind_eq_ok] at h
    obtain ⟨test, s₁, htest, h⟩ := h
    obtain ⟨_, htook, cs, hcs, rfl⟩ := condition_sound htest
    rw [bind_eq_ok] at h
    obtain ⟨body, s₂, hbody, h⟩ := h
    obtain ⟨rfl, rfl⟩ := pure_eq_ok.mp h
    obtain ⟨ts, after, hpassed, hforms, hsettled⟩ := inLoop_sound hstatement hbody
    rw [htook.declared] at hforms
    refine ⟨_, after, (Took.advance (word_of_head hhead)).before (htook.before hpassed), ?_,
      hsettled⟩
    have hloop : Forms s.declared (decide (0 < s.loopDepth)) _ _ _ := .whileLoop hcs hforms
    simpa using hloop
  · next hhead => exact hlead (word_of_head hhead) hbranch h
  · next position hhead =>
    exact hlead (word_of_head hhead) (loopControl_sound _ position fun _ => .leave) h
  · next position hhead =>
    exact hlead (word_of_head hhead) (loopControl_sound _ position fun _ => .again) h
  · next position hhead =>
    exact hlead (word_of_head hhead) (deviceStatement_sound position) h
  · next hhead =>
    rw [bind_apply advance_apply, bind_apply remaining_apply, bind_eq_ok] at h
    obtain ⟨nodes, s₁, hnodes, h⟩ := h
    obtain ⟨rfl, rfl⟩ := pure_eq_ok.mp h
    obtain ⟨ts, after, hpassed, hforms⟩ := blockBody_sound hstatement _ hnodes
    exact ⟨_, after, (Took.advance (word_of_head hhead)).before hpassed, .block hforms,
      settled_of_closed rfl⟩
  · next name position hhead =>
    -- A name starts a command if it is that of one, and else an assignment.
    cases hcommand : Vocabulary.Command.ofName? name with
    | some kind =>
        rw [hcommand] at h
        rw [command_ofName?_eq_some hcommand] at hhead
        exact hlead (word_of_head hhead) (command_sound kind position) h
    | none =>
        rw [hcommand] at h
        have hname := isCommand_eq_false hcommand
        exact hlead (word_of_head hhead) (assignment_sound hname position) h
  · exact absurd h unexpected_ne_ok

/-- Statements and choices, by induction on the depth that the parser may go to. -/
theorem statementWithin_sound (bound : Nat) :
    SoundAfter [] (statementWithin bound) ∧
      SoundAfter [.keyword .ifThen] (branchWithin bound) := by
  induction bound with
  | zero =>
      constructor
      · intro s node s' h
        rw [statementWithin] at h
        exact absurd h unexpected_ne_ok
      · intro s node s' h
        rw [branchWithin] at h
        exact absurd h unexpected_ne_ok
  | succ bound ih => exact ⟨statement_sound ih.1 ih.2, branch_sound ih.1 ih.2⟩

/-! ## Scripts -/

/-- A statement is made of one token at least. -/
theorem Forms.ne_nil {declared after : List String} {inLoop : Bool} {node : Node}
    {ts : List Token} (h : Forms declared inLoop (.statement node) ts after) : ts ≠ [] := by
  cases h <;> simp

/-- The statements up to the end.  The bound is the number of tokens, so that the end is the end of
    the script. -/
theorem statements_sound (bound : Nat) :
    ∀ {s s' : ParserState} {nodes : List Node}, s.words.length ≤ bound →
      statements bound s = .ok nodes s' →
      ∃ after, Forms s.declared (decide (0 < s.loopDepth)) (.sequence nodes) s.words after := by
  induction bound with
  | zero =>
      intro s s' nodes hbound h
      obtain ⟨rfl, rfl⟩ := pure_eq_ok.mp h
      have hwords : s.words = [] := List.eq_nil_of_length_eq_zero (Nat.le_zero.mp hbound)
      rw [hwords]
      exact ⟨s.declared, .done⟩
  | succ bound ih =>
      intro s s' nodes hbound h
      rw [statements] at h
      obtain ⟨next, hnext, h⟩ := exists_next peek?_apply h
      -- The end of the tokens, or another statement.
      split at hnext <;> subst hnext
      · next hhead =>
        obtain ⟨rfl, rfl⟩ := pure_eq_ok.mp h
        have hwords : s.words = [] := by
          simpa [ParserState.words] using hhead
        rw [hwords]
        exact ⟨s.declared, .done⟩
      · rw [bind_eq_ok] at h
        obtain ⟨first, s₁, hfirst, h⟩ := h
        rw [bind_eq_ok] at h
        obtain ⟨rest, s₂, hrest, h⟩ := h
        obtain ⟨rfl, rfl⟩ := pure_eq_ok.mp h
        rw [statement, bind_apply remaining_apply] at hfirst
        obtain ⟨ts, between, hpassed, hforms, -⟩ := (statementWithin_sound _).1 hfirst
        -- A statement takes a token, so that the bound holds for the rest.
        have hlength : s₁.words.length ≤ bound := by
          have hts : 0 < ts.length := List.length_pos_iff.mpr hforms.ne_nil
          have hwords := congrArg List.length hpassed.words
          rw [List.length_append] at hwords
          omega
        obtain ⟨after, hforms'⟩ := ih hlength hrest
        rw [hpassed.declared, hpassed.loopDepth] at hforms'
        rw [hpassed.words]
        exact ⟨after, .next hforms hforms'⟩

/-- **A script that is read is in the grammar.** -/
theorem program_sound {tokens : List PlacedToken} {nodes : List Node}
    (h : Parser.program (ofTokens tokens) = .ok nodes s') :
    Script (ofTokens tokens).words nodes := by
  rw [program, bind_eq_ok] at h
  obtain ⟨⟨⟩, s₁, hstart, h⟩ := h
  cases hstart
  rw [bind_apply remaining_apply] at h
  exact statements_sound _ (Nat.le_refl _) h

end ChipScript.Grammar
