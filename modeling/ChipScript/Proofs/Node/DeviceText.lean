import ChipScript.Proofs.Node.PrinterRoundTrip
import ChipScript.Proofs.Token.Partition

/-!
# Texts of device configurations

The type of a device may be written bare or quoted, and is printed bare.  So the text of a device
configuration is read back if and only if its type could have been written bare.

A type that is no name cannot come back, because then it would have to come back as a quoted text.
The printed text has quotes around the name of a batch alone, and every quoted text takes up two of
them (`two_mul_quoted_le`).

Main result: `deviceText_isReadBack_iff`.
-/

namespace ChipScript

open Text Grammar

/-! ## Quotes -/

/-- Every quoted text takes up two quotes. -/
theorem Cut.two_mul_quoted_le {before rest : List Char} {pieces : List (PlacedToken × List Char)}
    (h : Cut before rest pieces) :
    2 * ((tokensOf pieces).map PlacedToken.token).countP Token.isQuoted ≤ before.count '"' := by
  induction h with
  | start => exact Nat.zero_le _
  | @lexeme before blanks text rest t pieces _ _ hreads ih =>
    have hown : 2 * [t].countP Token.isQuoted ≤ text.count '"' := by
      cases hreads with
      | string =>
        simp [Token.isQuoted]
      | _ => exact Nat.zero_le _
    simp only [tokensOf, List.map_append, List.map_cons, List.map_nil, List.countP_append,
      List.count_append] at ih ⊢
    omega

theorem two_mul_quoted_le {source : String} {tokens : List PlacedToken}
    (h : tokenize source = .ok tokens) :
    2 * (uncommented tokens).countP Token.isQuoted ≤ source.toList.count '"' := by
  cases Cursor.run_cases (Cursor.ofText source.toList) (.start _) rfl with
  | stopped _ _ _ _ _ htokens => cases htokens.symm.trans h
  | @completed done rest pieces hwhole hcut _ htokens =>
    cases htokens.symm.trans h
    have hfewer : (uncommented (tokensOf pieces)).countP Token.isQuoted ≤
        ((tokensOf pieces).map PlacedToken.token).countP Token.isQuoted :=
      List.Sublist.countP_le List.filter_sublist
    have hquotes := hcut.two_mul_quoted_le
    have hall : source.toList.count '"' = done.count '"' + rest.count '"' := by
      rw [← List.count_append, ← hwhole]
      rfl
    simp only [List.nil_append] at hquotes
    omega

/-! ## Arguments of a device -/

/-- A name that a device type can be written as, without quotes. -/
def BareName (name : String) : Prop :=
  NameText name.toList ∧ Keyword.ofSpelling? name = none

namespace Grammar

theorem DeviceArguments.exists_type {ts : List Token} {config : DeviceConfig}
    (h : DeviceArguments ts config) : ∃ t rest, ts = t :: rest ∧ TypeName t config.deviceType ∧
      ∀ u, TypeName u config.deviceType → DeviceArguments (u :: rest) config := by
  cases h with
  | pin htype hpin => exact ⟨_, _, rfl, htype, fun u htype' => .pin htype' hpin⟩
  | batch mode htype => exact ⟨_, _, rfl, htype, fun u htype' => .batch mode htype'⟩
  | namedBatch name mode htype =>
    exact ⟨_, _, rfl, htype, fun u htype' => .namedBatch name mode htype'⟩

theorem not_mem_quote_of_nameText {cs : List Char} (h : NameText cs) : '"' ∉ cs := by
  obtain ⟨first, others, rfl, hstart, hrest⟩ := h
  intro hmem
  rcases List.mem_cons.1 hmem with rfl | hmem
  · cases hstart
  · cases hrest '"' hmem

theorem TypeName.no_quote {t : Token} {name : String} (h : TypeName t name) (hspelled : t.Spelled) :
    '"' ∉ name.toList := by
  cases h with
  | bare => exact not_mem_quote_of_nameText hspelled.1
  | quoted => exact hspelled

/-- The quotes in the text of a configuration are those around the name of a batch. -/
theorem DeviceArguments.count_quotes {t : Token} {rest : List Token} {config : DeviceConfig}
    (h : DeviceArguments (t :: rest) config) (hspelled : ∀ u ∈ t :: rest, u.Spelled) :
    (Node.deviceText config).toList.count '"' = 2 * rest.countP Token.isQuoted := by
  have hnone : ∀ {text : String}, '"' ∉ text.toList → text.toList.count '"' = 0 :=
    List.count_eq_zero_of_not_mem
  have hmode : ∀ mode : BatchMode, mode.name.toList.count '"' = 0 := fun mode => by
    cases mode <;> rfl
  -- Only a name in quotes is printed with them, and there are two for it.
  cases h with
  | @pin _ _ name htype =>
    have htype := hnone (htype.no_quote (hspelled _ List.mem_cons_self))
    have hname : (Token.identifier name).Spelled := hspelled _ (by simp)
    have hname := hnone (not_mem_quote_of_nameText hname.1)
    simp [Node.deviceText, Token.isQuoted, htype, hname]
  | batch batch htype =>
    have htype := hnone (htype.no_quote (hspelled _ List.mem_cons_self))
    simp [Node.deviceText, Token.isQuoted, htype, hmode]
  | namedBatch name batch htype =>
    have htype := hnone (htype.no_quote (hspelled _ List.mem_cons_self))
    have hname : (Token.string name).Spelled := hspelled _ (by simp)
    have hname := hnone hname
    simp [Node.deviceText, Token.isQuoted, List.countP_cons, htype, hname, hmode]

theorem negated_ne_device (text : String) (config : DeviceConfig) :
    Parser.negated text ≠ .device config :=
  Parser.negated_cases text (by simp) (by simp)

/-- What is read as a device has the arguments of the device in it. -/
theorem Derives.exists_deviceArguments {declared : List String} {level : Level}
    {config : DeviceConfig} {ts : List Token}
    (h : Derives declared (.value level (.device config)) ts) :
    ∃ us, DeviceArguments us config ∧ us <:+: ts := by
  generalize hsame : Phrase.value level (.device config) = phrase at h
  -- Nothing but a device in any number of parentheses stands for a device.
  induction h generalizing level with
  | lift _ _ ih =>
    cases hsame
    exact ih rfl
  | join _ hjoins =>
    cases hjoins <;> cases hsame
  | negative text =>
    exact absurd (Phrase.value.inj hsame).2 (negated_ne_device text config).symm
  | @device us _ harguments =>
    cases hsame
    exact ⟨us, harguments, ⟨[.keyword .device, .symbol .leftParen], [.symbol .rightParen], by simp⟩⟩
  | @group _ ts _ ih =>
    cases hsame
    obtain ⟨us, harguments, hinside⟩ := ih rfl
    exact ⟨us, harguments, hinside.trans ⟨[.symbol .leftParen], [.symbol .rightParen], by simp⟩⟩
  | _ => cases hsame

end Grammar

/-! ## Reading back -/

/-- The configurations that are read from the arguments of a device, somewhere in a text. -/
def DeviceConfig.IsRead (config : DeviceConfig) : Prop :=
  ∃ source tokens position s s', tokenize source = .ok tokens ∧ s.words <:+ uncommented tokens ∧
    Parser.device position s = .ok (.device config) s'

/-- An expression is read from the start of a text, with the first token as the current one, and the
    rest are the tokens that are left. -/
def ReadsAs (text : String) (node : Node) (rest : List Token) : Prop :=
  ∃ tokens s', tokenize text = .ok tokens ∧
    Parser.standaloneExpression (.ofTokens tokens) = .ok node s' ∧ s'.words = rest

theorem ofTokens_started_words (tokens : List PlacedToken) :
    ({ ParserState.ofTokens tokens with started := true } : ParserState).words =
      uncommented tokens :=
  words_ofTokens tokens

theorem standaloneExpression_sound {tokens : List PlacedToken} {node : Node} {s' : ParserState}
    (h : Parser.standaloneExpression (.ofTokens tokens) = .ok node s') :
    ∃ ts, Derives [] (.value .choice node) ts ∧ uncommented tokens = ts ++ s'.words := by
  rw [Parser.standaloneExpression_eq, Parser.expressionHere_of_started rfl] at h
  obtain ⟨ts, htook, hderives⟩ := expression_sound h
  exact ⟨ts, hderives, (ofTokens_started_words tokens).symm.trans htook.words⟩

theorem standaloneExpression_complete {tokens : List PlacedToken} {node : Node}
    {ts rest : List Token} (hderives : Derives [] (.value .choice node) ts)
    (hwords : uncommented tokens = ts ++ rest) (hends : Ends .choice rest) :
    ∃ s', Parser.standaloneExpression (.ofTokens tokens) = .ok node s' ∧ s'.words = rest := by
  have hstart := (ofTokens_started_words tokens).trans hwords
  obtain ⟨s', hrun, htook⟩ := expression_complete (Nat.le_refl _) hderives hstart rfl hends
  refine ⟨s', ?_, htook.rest hstart⟩
  rw [Parser.standaloneExpression_eq, Parser.expressionHere_of_started rfl]
  exact hrun

/-- A text whose tokens derive an expression is read as it. -/
theorem readsAs_of_words {text : String} {node : Node} {words : List Token}
    (h : (tokenize text).map uncommented = .ok words)
    (hderives : Derives [] (.value .choice node) words) : ReadsAs text node [] := by
  obtain ⟨tokens, hscanned, rfl⟩ := exists_tokens h
  obtain ⟨s', hrun, hleft⟩ :=
    standaloneExpression_complete hderives (List.append_nil _).symm nofun
  exact ⟨tokens, s', hscanned, hrun, hleft⟩

/-- A text that spells a derivation of an expression is read as it, and nothing is left. -/
theorem readsAs_of_spells {text : String} {node : Node} {words : List Token}
    {follow : List Char → Prop} (hderives : Derives [] (.value .choice node) words)
    (hspells : Spells text.toList words follow) (hends : follow []) : ReadsAs text node [] := by
  have hlexes := hspells hends lexes_nil
  rw [List.append_nil, List.append_nil] at hlexes
  obtain ⟨tokens, hscanned, hfound⟩ := hlexes .start
  have hspoken : uncommented tokens = tokens.map PlacedToken.token := by
    rw [uncommented, hfound, List.filter_eq_self]
    intro u hmem
    simp [hderives.no_comment u hmem]
  have hmap : (tokenize text).map uncommented = .ok (uncommented tokens) :=
    congrArg (Except.map uncommented) hscanned
  rw [hspoken, hfound] at hmap
  exact readsAs_of_words hmap hderives

/-- A text is read as an expression in one way. -/
theorem ReadsAs.rest_unique {text : String} {node : Node} {us vs : List Token}
    (h : ReadsAs text node us) (h' : ReadsAs text node vs) : us = vs := by
  obtain ⟨tokens, s, hscanned, hrun, rfl⟩ := h
  obtain ⟨tokens', s', hscanned', hrun', rfl⟩ := h'
  obtain rfl := Except.ok.inj (hscanned.symm.trans hscanned')
  cases hrun.symm.trans hrun'
  rfl

/-- A configuration that is read comes from the arguments of a device. -/
theorem DeviceConfig.IsRead.exists_arguments {config : DeviceConfig} (h : config.IsRead) :
    ∃ ts, DeviceArguments ts config ∧ ∀ t ∈ ts, t.Spelled := by
  obtain ⟨source, tokens, position, s, s', hscanned, hsuffix, hread⟩ := h
  obtain ⟨us, htook, ts, config', hsame, harguments, rfl⟩ := device_sound position hread
  obtain rfl := Node.device.inj hsame
  refine ⟨ts, harguments, fun t hmem => ?_⟩
  apply spelled_of_mem_uncommented hscanned
  apply hsuffix.subset
  rw [htook.words]
  simp [hmem]

/-- The arguments of a device are read. -/
theorem DeviceConfig.isRead_of_words {source : String} {ts : List Token} {config : DeviceConfig}
    (h : (tokenize source).map uncommented =
      .ok (.keyword .device :: .symbol .leftParen :: (ts ++ [.symbol .rightParen])))
    (harguments : DeviceArguments ts config) : config.IsRead := by
  obtain ⟨tokens, hscanned, hwords⟩ := exists_tokens h
  let s := (ParserState.ofTokens tokens).advance
  have hspoken : s.words = .symbol .leftParen :: (ts ++ [.symbol .rightParen]) ++ [] := by
    rw [ParserState.words_advance, words_ofTokens, hwords, List.append_nil, List.tail_cons]
  obtain ⟨s', hread, -⟩ := device_complete .start harguments hspoken rfl trivial
  refine ⟨source, tokens, _, s, s', hscanned, ?_, hread⟩
  rw [hspoken, hwords, List.append_nil]
  exact List.suffix_cons _ _

/-- A configuration with a bare type is read back, and nothing is left of its text. -/
theorem readsAs_deviceText {ts : List Token} {config : DeviceConfig}
    (harguments : DeviceArguments ts config) (hspelled : ∀ t ∈ ts, t.Spelled)
    (hbare : BareName config.deviceType) :
    ReadsAs (Node.deviceText config) (.device config) [] := by
  -- The text is read as the arguments with the type written bare.
  obtain ⟨t, rest, rfl, -, hretyped⟩ := harguments.exists_type
  have hwritten := hretyped _ (.bare _)
  have hspells := printed_deviceArguments hwritten
    (List.forall_mem_cons.2 ⟨hbare, fun u hmem => hspelled u (List.mem_cons_of_mem _ hmem)⟩)
    (by simp)
  exact readsAs_of_spells (Derives.at_level (.device hwritten) .choice) hspells trivial

/-- A configuration that is read back has a bare type. -/
theorem bareName_of_readsAs {us : List Token} {config : DeviceConfig}
    (hread : ReadsAs (Node.deviceText config) (.device config) us) :
    BareName config.deviceType := by
  obtain ⟨tokens, s', hscanned, hrun, -⟩ := hread
  obtain ⟨derived, hderives, hwords⟩ := standaloneExpression_sound hrun
  obtain ⟨others, harguments', hinside⟩ := hderives.exists_deviceArguments
  have hwithin : others <:+: uncommented tokens :=
    hwords ▸ hinside.trans (List.infix_append' [] _ _)
  have hspelled' : ∀ t ∈ others, t.Spelled := fun t hmem =>
    spelled_of_mem_uncommented hscanned (hwithin.subset hmem)
  obtain ⟨t, rest, rfl, htype, -⟩ := harguments'.exists_type
  generalize hsame : config.deviceType = name at htype
  cases htype with
  | bare => exact hspelled' _ List.mem_cons_self
  | quoted =>
    -- The quoted type takes up two quotes more than there are.
    have hquotes := harguments'.count_quotes hspelled'
    have htexts := two_mul_quoted_le hscanned
    have hfewer := hwithin.sublist.countP_le (p := Token.isQuoted)
    rw [List.countP_cons_of_pos rfl] at hfewer
    omega

/-- **A device configuration is read back if and only if its type can be written bare.** -/
theorem deviceText_isReadBack_iff {config : DeviceConfig} {rest : List Token}
    (hread : config.IsRead) : ReadsAs (Node.deviceText config) (.device config) rest ↔
      BareName config.deviceType ∧ rest = [] := by
  obtain ⟨ts, harguments, hspelled⟩ := hread.exists_arguments
  constructor
  · intro hback
    have hbare := bareName_of_readsAs hback
    exact ⟨hbare, hback.rest_unique (readsAs_deviceText harguments hspelled hbare)⟩
  · rintro ⟨hbare, rfl⟩
    exact readsAs_deviceText harguments hspelled hbare

/-- Pumps whose name has a blank, the mark of a comment, a comma and a line break in it. -/
def namedPumps : DeviceConfig :=
  ⟨"Pump", .namedBatch "Gas #1, \n" .average⟩

theorem isRead_namedPumps : namedPumps.IsRead :=
  DeviceConfig.isRead_of_words
    (show (tokenize "Device(\"Pump\", \"Gas #1, \n\", Average)").map uncommented = _ by
      decide +kernel)
    (.namedBatch _ .average (.quoted _))

theorem deviceText_isReadBack_iff_namedPumps :
    namedPumps.IsRead ∧ ReadsAs (Node.deviceText namedPumps) (.device namedPumps) [] :=
  ⟨isRead_namedPumps, (deviceText_isReadBack_iff isRead_namedPumps).2
    ⟨⟨⟨'P', ['u', 'm', 'p'], rfl, rfl, List.all_eq_true.1 rfl⟩, by decide +kernel⟩, rfl⟩⟩

/-- **A quoted type is printed without its quotes**, and is then read as no device or as another
    one. -/
theorem quoted_type_lost :
    (DeviceConfig.mk "Gas Sensor" (.pin "d0")).IsRead ∧
    Node.deviceText ⟨"Gas Sensor", .pin "d0"⟩ = "Device(Gas Sensor, d0)" ∧
    (∀ node rest, ¬ ReadsAs "Device(Gas Sensor, d0)" node rest) ∧
    (DeviceConfig.mk "Pump, d1) #" (.pin "d0")).IsRead ∧
    ReadsAs (Node.deviceText ⟨"Pump, d1) #", .pin "d0"⟩) (.device ⟨"Pump", .pin "d1"⟩) [] := by
  have hsensor : (DeviceConfig.mk "Gas Sensor" (.pin "d0")).IsRead :=
    DeviceConfig.isRead_of_words
      (show (tokenize "Device(\"Gas Sensor\", d0)").map uncommented = _ by decide +kernel)
      (.pin (.quoted _) ⟨'0', rfl, .inl rfl⟩)
  have hpump : (DeviceConfig.mk "Pump, d1) #" (.pin "d0")).IsRead :=
    DeviceConfig.isRead_of_words
      (show (tokenize "Device(\"Pump, d1) #\", d0)").map uncommented = _ by decide +kernel)
      (.pin (.quoted _) ⟨'0', rfl, .inl rfl⟩)
  refine ⟨hsensor, by decide +kernel, ?_, hpump, ?_⟩
  · -- The bare type is two names, where the parser expects a comma.
    rintro node rest ⟨tokens, s', hscanned, hrun, -⟩
    have hfails : (tokenize "Device(Gas Sensor, d0)").map (fun tokens =>
        Parser.standaloneExpression.run' (.ofTokens tokens)) = .ok none := by
      decide +kernel
    rw [hscanned] at hfails
    simp [Except.map, EStateM.run', EStateM.run, hrun] at hfails
  · have hwords : (tokenize (Node.deviceText ⟨"Pump, d1) #", .pin "d0"⟩)).map uncommented = .ok
        (.keyword .device :: .symbol .leftParen ::
          ([.identifier "Pump", .symbol .comma, .identifier "d1"] ++ [.symbol .rightParen])) := by
      decide +kernel
    exact readsAs_of_words hwords
      ((Derives.device (.pin (.bare _) ⟨'1', rfl, .inl rfl⟩)).at_level .choice)

end ChipScript
