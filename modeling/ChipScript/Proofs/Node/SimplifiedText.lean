import ChipScript.Proofs.Node.DanglingElse
import ChipScript.Proofs.Node.NormalForm

/-!
# The text of a simplified script

A simplified script is no longer one that some text forms.  Simplification drops declarations and
empty branches, and puts branches in the place of choices, while the text has braces only where the
tree has blocks.

Main result: `simplified_text_reattaches`.  If a simplified script still declares every name before
it uses it, then its text is read, as the script in which every `else` belongs to the nearest choice
that is open.  This is the simplified script itself exactly if no `else` stands after an open branch
(`Program.keepsElses`), and that can only happen where simplification has lost an `else`
(`Program.losesElse`).

The proof follows the derivation of the script that was read.  Names are looked up in the simplified
script: `Prints` says of a value that it is printed as it is read wherever its names are known, and
`PrintsBack` says of a statement that it is printed as the reattached one is read.
-/

namespace ChipScript

namespace Node

/-! ## Names that are known -/

mutual

/-- Whether every name that a tree uses is known before the tree or declared in it before the
    use. -/
def usesKnown (known : List String) : Node → Bool
  | block body => sequenceUsesKnown known body
  | declare _ value => value.usesKnown known
  | assign name index _ value =>
    name ∈ known && optionUsesKnown known index && value.usesKnown known
  | loop body => body.usesKnown known
  | whileLoop condition body => condition.usesKnown known && body.usesKnown known
  | branch condition thenBranch elseBranch =>
    condition.usesKnown known && thenBranch.usesKnown known &&
      optionUsesKnown (thenBranch.declared.reverse ++ known) elseBranch
  | read name index _ => name ∈ known && optionUsesKnown known index
  | call _ arguments => eachUsesKnown known arguments
  | not operand => operand.usesKnown known
  | arithmetic _ left right => left.usesKnown known && right.usesKnown known
  | comparison _ left right => left.usesKnown known && right.usesKnown known
  | connective _ left right => left.usesKnown known && right.usesKnown known
  | choice condition thenValue elseValue =>
    condition.usesKnown known && thenValue.usesKnown known && elseValue.usesKnown known
  | control _ | device _ | number _ | constant _ | hash _ => true

/-- The same of statements, each of which knows the names that are declared in those before it. -/
def sequenceUsesKnown (known : List String) : List Node → Bool
  | [] => true
  | node :: rest =>
    node.usesKnown known && sequenceUsesKnown (node.declared.reverse ++ known) rest

/-- The same of values. -/
def eachUsesKnown (known : List String) : List Node → Bool
  | [] => true
  | node :: rest => node.usesKnown known && eachUsesKnown known rest

/-- The same of a tree that may be missing. -/
def optionUsesKnown (known : List String) : Option Node → Bool
  | none => true
  | some node => node.usesKnown known

end

end Node

/-- Whether a script declares every name before it uses it. -/
def Program.declaresBeforeUse (program : Program) : Bool :=
  Node.sequenceUsesKnown [] program

/-- Whether in a script no `else` stands after a branch that could take it. -/
def Program.keepsElses (program : Program) : Bool :=
  Node.allKeepElses program

/-- Whether a script has an `else` that is lost in simplification while its choice stays. -/
def Program.losesElse (program : Program) : Bool :=
  Node.anyLosesElse program

/-- The script in which every `else` belongs to the choice that a reader gives it to. -/
def Program.reattach (program : Program) : Program :=
  Node.reattachAll program

namespace Grammar

open Text Node

/-! ## Simplified values -/

/-- A value that is printed as it is read, wherever its names are known. -/
def Prints (node : Node) : Prop :=
  ∀ known, node.usesKnown known = true → PrintedValue known node

theorem prints_ofValue (value : Float) : Prints (.ofValue value) :=
  fun _ _ => printed_ofValue value

theorem prints_zero : Prints (.number "0") :=
  fun _ _ => printed_number (.whole (by simp) (by simp))

section Folding

variable {left right : Node}

theorem Prints.pair {level tighter : Level} {sign : Symbol} {build : Node → Node → Node}
    (hlevel : level.tighter? = some tighter) (hjoins : Joins level sign build)
    (hleft : Prints left) (hright : Prints right)
    (huses : ∀ known, (build left right).usesKnown known =
      (left.usesKnown known && right.usesKnown known)) : Prints (build left right) := by
  intro known hknown
  rw [huses, Bool.and_eq_true] at hknown
  exact printed_join hlevel hjoins (hleft known hknown.1) (hright known hknown.2)

theorem Prints.foldNot {operand : Node} (h : Prints operand) : Prints (foldNot operand) := by
  unfold Node.foldNot
  split
  · exact prints_ofValue _
  · exact fun known hknown => printed_not (h known hknown)

/-- The operations of every operator print. -/
theorem Prints.arithmetic (operator : Arithmetic) (hleft : Prints left) (hright : Prints right) :
    Prints (.arithmetic operator left right) := by
  cases operator with
  | add => exact .pair rfl .add hleft hright fun _ => rfl
  | sub => exact .pair rfl .sub hleft hright fun _ => rfl
  | mul => exact .pair rfl .mul hleft hright fun _ => rfl
  | div => exact .pair rfl .div hleft hright fun _ => rfl

theorem Prints.foldArithmetic (operator : Arithmetic) (hleft : Prints left)
    (hright : Prints right) : Prints (foldArithmetic operator left right) := by
  unfold Node.foldArithmetic
  split
  · exact prints_ofValue _
  · rcases simplifyIdentity_cases operator left right with hsame | hsame | hsame | ⟨hsame, -⟩
    · rwa [hsame]
    · rwa [hsame]
    · rw [hsame]
      exact prints_zero
    · rw [hsame]
      exact hleft.arithmetic operator hright

theorem Prints.foldComparison (operator : Comparison) (hleft : Prints left)
    (hright : Prints right) : Prints (foldComparison operator left right) := by
  unfold Node.foldComparison
  split
  · exact prints_ofValue _
  · cases operator with
    | equal => exact .pair rfl .equal hleft hright fun _ => rfl
    | notEqual => exact .pair rfl .notEqual hleft hright fun _ => rfl
    | less => exact .pair rfl .less hleft hright fun _ => rfl
    | lessEqual => exact .pair rfl .lessEqual hleft hright fun _ => rfl
    | greater => exact .pair rfl .greater hleft hright fun _ => rfl
    | greaterEqual => exact .pair rfl .greaterEqual hleft hright fun _ => rfl

theorem Prints.foldConnective (operator : Connective) (hleft : Prints left)
    (hright : Prints right) : Prints (foldConnective operator left right) := by
  unfold Node.foldConnective
  split
  · exact prints_ofValue _
  · cases operator with
    | and => exact .pair rfl .both hleft hright fun _ => rfl
    | or => exact .pair rfl .either hleft hright fun _ => rfl

theorem Prints.foldChoice {condition : Node} (hcondition : Prints condition)
    (hleft : Prints left) (hright : Prints right) : Prints (foldChoice condition left right) := by
  unfold Node.foldChoice
  split
  · split
    · exact hleft
    · exact hright
  · intro known hknown
    simp only [usesKnown, Bool.and_eq_true] at hknown
    exact printed_choice (hcondition known hknown.1.1) (hleft known hknown.1.2)
      (hright known hknown.2)

end Folding

/-- What is left of the values that an operator joins. -/
theorem Joins.prints_simplify {level : Level} {sign : Symbol} {build : Node → Node → Node}
    {left right : Node} (h : Joins level sign build) (hleft : Prints left.simplify)
    (hright : Prints right.simplify) : Prints (build left right).simplify := by
  cases h with
  | mul => exact hleft.foldArithmetic .mul hright
  | div => exact hleft.foldArithmetic .div hright
  | add => exact hleft.foldArithmetic .add hright
  | sub => exact hleft.foldArithmetic .sub hright
  | equal => exact hleft.foldComparison .equal hright
  | notEqual => exact hleft.foldComparison .notEqual hright
  | less => exact hleft.foldComparison .less hright
  | lessEqual => exact hleft.foldComparison .lessEqual hright
  | greater => exact hleft.foldComparison .greater hright
  | greaterEqual => exact hleft.foldComparison .greaterEqual hright
  | both => exact hleft.foldConnective .and hright
  | either => exact hleft.foldConnective .or hright

theorem simplify_negated (text : String) :
    (Parser.negated text).simplify = Parser.negated text :=
  Parser.negated_cases text (fun _ => rfl) (fun _ => rfl)

/-- What is left of a phrase is printed as it is read, wherever its names are known. -/
def Phrase.PrintsSimplified : Phrase → Prop
  | .value _ node => Prints node.simplify
  | .list nodes => ∀ known, eachUsesKnown known (simplifyArguments nodes) = true →
      PrintedList known (simplifyArguments nodes)
  | .arguments nodes => ∀ known, eachUsesKnown known (simplifyArguments nodes) = true →
      PrintedArguments known (simplifyArguments nodes)
  | .suffix index property => ∀ known, optionUsesKnown known (simplifyIndex index) = true →
      PrintedSuffix known (simplifyIndex index) property

/-- **What is left of an expression that has been read can be printed.**  By induction on its
    derivation.  The names are not those that the derivation knew: what is left may stand where
    fewer of them are declared. -/
theorem Derives.prints_simplify {declared : List String} {phrase : Phrase} {ts : List Token}
    (h : Derives declared phrase ts) (hplain : Plain ts) : phrase.PrintsSimplified := by
  induction h with
  | lift _ _ ih => exact ih hplain
  | join _ hjoins _ _ ihleft ihright =>
      exact hjoins.prints_simplify (ihleft hplain.left) (ihright hplain.right.tail)
  | choice _ _ _ ihcs ihts ihus =>
      have hvalues := hplain.right.tail
      exact (ihcs hplain.left).foldChoice (ihts hvalues.left) (ihus hvalues.right.tail)
  | not _ ih => exact (ih hplain.tail).foldNot
  | number text => exact fun _ _ => printed_number hplain.head
  | negative text =>
      -- The sign was taken into the number when it was read.
      intro known _
      rw [simplify_negated]
      exact printed_negated hplain.tail.head
  | constant hconstant => exact fun _ _ => printed_constant hconstant hplain.head
  | hash text => exact fun _ _ => printed_hash hplain.tail.tail.head
  | device hts =>
      intro known _
      exact (Derives.device hts : Derives known _ _).printed hplain
  | group _ ih => exact ih hplain.tail.left
  | call harity _ ih =>
      intro known hknown
      refine printed_call ?_ hplain.head (ih hplain.tail.tail.left known hknown)
      simpa [simplifyArguments_eq_map] using harity
  | read hconstant _ _ ih =>
      -- That the name was declared where it was read does not help; it has to be known here.
      intro known hknown
      simp only [simplify, usesKnown, Bool.and_eq_true, decide_eq_true_eq] at hknown
      exact printed_read hconstant hknown.1 hplain.head (ih hplain.tail known hknown.2)
  | one _ ih =>
      intro known hknown
      simp only [simplifyArguments, eachUsesKnown, Bool.and_true] at hknown
      exact printed_one (ih hplain known hknown)
  | more _ _ ih ihnodes =>
      intro known hknown
      simp only [simplifyArguments, eachUsesKnown, Bool.and_eq_true] at hknown
      exact printed_more (ih hplain.left known hknown.1)
        (ihnodes hplain.right.tail known hknown.2)
  | noArguments => exact fun _ _ => printed_noArguments
  | someArguments _ ih =>
      intro known hknown
      obtain ⟨-, ts, hts, hspells⟩ := ih hplain known hknown
      exact ⟨ts, .someArguments hts, hspells⟩
  | bare => exact fun _ _ => printed_bare
  | property property => exact fun _ _ => printed_property hplain.tail.head
  | indexed property _ ih =>
      intro known hknown
      exact printed_indexed (ih hplain.tail.left known hknown)
        hplain.tail.right.tail.tail.head

/-! ## Simplified statements -/

variable {declared after known : List String} {inLoop : Bool} {node : Node} {ts : List Token}

/-- A statement is printed as the one is read in which every `else` belongs to the nearest open
    choice. -/
def PrintsBack (known : List String) (inLoop : Bool) (node : Node) : Prop :=
  PrintedSentence known inLoop (node.declared.reverse ++ known) (.statement node.reattach)

/-- What is left of statements is printed back, wherever its names are known and no other names are
    than those that were declared. -/
def Sentence.PrintsSimplified (declared : List String) (inLoop : Bool) : Sentence → Prop
  | .statement node => ∀ known ⊆ declared, ∀ left, node.simplifyStatement? = some left →
      left.usesKnown known = true → PrintsBack known inLoop left
  | .sequence nodes => ∀ known ⊆ declared,
      sequenceUsesKnown known (simplifyStatements nodes) = true →
      PrintedSentence known inLoop ((declaredInAll (simplifyStatements nodes)).reverse ++ known)
        (.sequence (reattachAll (simplifyStatements nodes)))

theorem Forms.declared_subset {sentence : Sentence} (h : Forms declared inLoop sentence ts after) :
    declared ⊆ after := by
  obtain ⟨hafter, -⟩ := h.declares
  rw [hafter]
  exact List.subset_append_right _ _

/-- After what is left of a statement no other names are known than after the statement. -/
theorem Forms.known_after (h : Forms declared inLoop (.statement node) ts after)
    (hknown : known ⊆ declared) :
    (declaredInElse node.simplifyStatement?).reverse ++ known ⊆ after := by
  have hwellFormed : node.WellFormed inLoop := h.wellFormed
  have hdeclared := hwellFormed.declared_simplify.subset
  obtain ⟨hafter, -⟩ := h.declares
  rw [hafter]
  intro name hmem
  rcases List.mem_append.mp hmem with hnew | hhold
  · exact List.mem_append_left _ (List.mem_reverse.mpr (hdeclared (List.mem_reverse.mp hnew)))
  · exact List.mem_append_right _ (hknown hhold)

/-- A body that has no effect left is printed as an empty block. -/
theorem PrintsBack.bodyOf {left : Option Node} (huses : (bodyOf left).usesKnown known = true)
    (h : ∀ node, left = some node → node.usesKnown known = true → PrintsBack known inLoop node) :
    PrintsBack known inLoop (bodyOf left) := by
  cases left with
  | some node => exact h node rfl huses
  | none =>
      have hempty : PrintedSentence known inLoop known (.sequence []) :=
        Forms.printed .done ⟨by simp, by simp [BareTypes]⟩
      exact printed_block hempty

/-- An `else` is printed after whatever stands before it. -/
theorem PrintsBack.branch {condition thenBranch : Node} {elseBranch : Option Node}
    (htest : PrintedValue known condition) (hthen : PrintsBack known inLoop thenBranch)
    (helse : ∀ other ∈ elseBranch, PrintsBack (thenBranch.declared.reverse ++ known) inLoop other) :
    PrintsBack known inLoop (.branch condition thenBranch elseBranch) := by
  have hbranch := printed_branch htest hthen
  cases elseBranch with
  | none => simpa [PrintsBack, reattach, Node.declared, declaredInElse] using hbranch
  | some other =>
      have hother : PrintedSentence _ inLoop _ _ := helse other rfl
      simpa [PrintsBack, reattach, Node.declared, declaredInElse] using
        hbranch.attachElse rfl hother

/-- What is left of a choice: one of its branches, or a choice whose `else` may be gone. -/
theorem Sentence.PrintsSimplified.branch {between : List String} {condition thenBranch : Node}
    {elseBranch : Option Node} (htest : Prints condition.simplify)
    (hforms : Forms declared inLoop (.statement thenBranch) ts between)
    (hthen : (Sentence.statement thenBranch).PrintsSimplified declared inLoop)
    (helse : ∀ other ∈ elseBranch, (Sentence.statement other).PrintsSimplified between inLoop) :
    (Sentence.statement (.branch condition thenBranch elseBranch)).PrintsSimplified
      declared inLoop := by
  intro known hknown left hleft huses
  have hother : ∀ known ⊆ between, ∀ left, simplifyElse? elseBranch = some left →
      left.usesKnown known = true → PrintsBack known inLoop left := by
    intro known hknown left hleft
    obtain ⟨other, hmem, hleft⟩ := simplifyElse?_eq_some.mp hleft
    exact helse other (Option.mem_toList.mp hmem) known hknown left hleft
  rcases simplifyStatement?_branch_cases hleft with ⟨-, hleft⟩ | ⟨-, hleft⟩ | ⟨-, rfl⟩
  · exact hthen known hknown left hleft huses
  · -- The other branch stands where the choice was, without the names of the first one.
    exact hother known (List.Subset.trans hknown hforms.declared_subset) left hleft huses
  · simp only [usesKnown, Bool.and_eq_true, declared_bodyOf] at huses
    obtain ⟨⟨hcondition, hbody⟩, hlast⟩ := huses
    refine PrintsBack.branch (htest known hcondition)
      (PrintsBack.bodyOf hbody (hthen known hknown)) fun other hmem => ?_
    rw [Option.mem_def.mp hmem] at hlast
    rw [declared_bodyOf]
    exact hother _ (hforms.known_after hknown) other hmem hlast

/-- What is left of a loop with a condition: the loop, an endless one, or nothing. -/
theorem Sentence.PrintsSimplified.whileLoop {condition body : Node}
    (htest : Prints condition.simplify)
    (hbody : (Sentence.statement body).PrintsSimplified declared true) :
    (Sentence.statement (.whileLoop condition body)).PrintsSimplified declared inLoop := by
  intro known hknown left hleft huses
  rcases simplifyStatement?_whileLoop_cases hleft with ⟨-, rfl⟩ | ⟨-, rfl⟩
  · exact printed_loop (PrintsBack.bodyOf huses (hbody known hknown))
  · simp only [usesKnown, Bool.and_eq_true] at huses
    obtain ⟨hcondition, hused⟩ := huses
    exact printed_whileLoop (htest known hcondition)
      (PrintsBack.bodyOf hused (hbody known hknown))

/-- What is left of a sequence: without what has nothing left, so that later statements may know
    fewer names. -/
theorem Sentence.PrintsSimplified.next {between : List String} {nodes : List Node}
    (hforms : Forms declared inLoop (.statement node) ts between)
    (hfirst : (Sentence.statement node).PrintsSimplified declared inLoop)
    (hothers : (Sentence.sequence nodes).PrintsSimplified between inLoop) :
    (Sentence.sequence (node :: nodes)).PrintsSimplified declared inLoop := by
  intro known hknown huses
  have hafter := hforms.known_after hknown
  rw [simplifyStatements] at huses ⊢
  cases hleft : node.simplifyStatement? with
  | none =>
      -- Nothing is printed, and what was declared here is not known any more.
      rw [hleft] at huses hafter
      exact hothers known hafter huses
  | some left =>
      rw [hleft] at huses hafter
      simp only [sequenceUsesKnown, Bool.and_eq_true] at huses
      obtain ⟨hused, hlater⟩ := huses
      have hstatement := hfirst known hknown left hleft hused
      have hrest := hothers _ hafter hlater
      simpa [declaredInAll, declaredInElse, reattachAll] using printed_next hstatement hrest

/-- **What is left of statements that have been read is printed back.**  By induction on the
    derivation: an `else` that loses its branch is not printed, so that one further out may be read
    in its place, and a known condition leaves one branch where the choice was. -/
theorem Forms.prints_simplify {sentence : Sentence}
    (h : Forms declared inLoop sentence ts after) (hplain : Plain ts) :
    sentence.PrintsSimplified declared inLoop := by
  induction h with
  | declare hfresh hconstant hcommand hvalue =>
      intro known hknown left hleft huses
      obtain rfl := Option.some.inj hleft
      have hvalue := hvalue.prints_simplify hplain.tail.tail.tail.left
      -- The name is as new as it was, since no other names are known than those declared there.
      exact printed_declare (fun hmem => hfresh (hknown hmem)) hconstant hcommand hplain.tail.head
        (hvalue known huses)
  | assign hmem hcommand hsuffix hvalue =>
      intro known hknown left hleft huses
      obtain rfl := Option.some.inj hleft
      simp only [usesKnown, Bool.and_eq_true, decide_eq_true_eq] at huses
      obtain ⟨⟨hname, hindex⟩, hused⟩ := huses
      have hsuffix := hsuffix.prints_simplify hplain.tail.left
      have hvalue := hvalue.prints_simplify hplain.tail.right.tail.left
      exact printed_assign hname hcommand hplain.head (hsuffix known hindex) (hvalue known hused)
  | loop _ ih =>
      intro known hknown left hleft huses
      obtain rfl := Option.some.inj hleft
      exact printed_loop (PrintsBack.bodyOf huses (ih hplain.tail known hknown))
  | whileLoop hcs _ ih =>
      have htest := hcs.prints_simplify hplain.tail.tail.left
      exact .whileLoop htest (ih hplain.tail.tail.right.tail)
  | branch hcs hthen ih =>
      have htest := hcs.prints_simplify hplain.tail.tail.left
      exact .branch htest hthen (ih hplain.tail.tail.right.tail) (by simp)
  | branchElse hcs hthen _ _ ihthen ihelse =>
      have htest := hcs.prints_simplify hplain.tail.tail.left
      have hbranches := hplain.tail.tail.right.tail
      refine .branch htest hthen (ihthen hbranches.left) ?_
      rintro other ⟨⟩
      exact ihelse hbranches.right.tail
  | @branchElseIf _ _ _ _ _ _ _ _ _ us hcs hthen _ _ ihthen ihelse =>
      have htest := hcs.prints_simplify hplain.tail.tail.left
      have hbranches := hplain.tail.tail.right.tail
      -- The word `if` was not written, but it is printed.
      have hotherwise : Plain (.keyword .ifThen :: us) :=
        hbranches.right.tail.cons trivial (by simp)
      refine .branch htest hthen (ihthen hbranches.left) ?_
      rintro other ⟨⟩
      exact ihelse hotherwise
  | leave =>
      intro known hknown left hleft _
      obtain rfl := Option.some.inj hleft
      exact Forms.printed .leave hplain
  | again =>
      intro known hknown left hleft _
      obtain rfl := Option.some.inj hleft
      exact Forms.printed .again hplain
  | device hts =>
      intro known hknown left hleft _
      obtain rfl := Option.some.inj hleft
      exact Forms.printed (.device hts) hplain
  | command harity hnodes =>
      intro known hknown left hleft huses
      obtain rfl := Option.some.inj hleft
      have hnodes := hnodes.prints_simplify hplain.tail.tail.left
      refine printed_command ?_ hplain.head (hnodes known huses)
      simpa [simplifyArguments_eq_map] using harity
  | block _ ih =>
      intro known hknown left hleft huses
      obtain ⟨-, rfl⟩ := simplifyStatement?_block_cases hleft
      exact printed_block (ih hplain.tail.left known hknown huses)
  | done =>
      intro known _ _
      exact Forms.printed .done hplain
  | next hfirst _ ihfirst ihothers =>
      exact .next hfirst (ihfirst hplain.left) (ihothers hplain.right)

/-! ## Simplified scripts -/

/-- A script that is printed as it is read is read from its text. -/
theorem ofSource_of_printed {program : Program}
    (h : PrintedSentence [] false after (.sequence program)) :
    Program.ofSource program.text = .ok program := by
  obtain ⟨ts, hts, hspells⟩ := h
  have hlexes : Lexes program.text.toList ts := by
    have hend : Lexes ((linesText 0 program).toList ++ []) (ts ++ []) :=
      hspells 0 trivial lexes_nil
    simpa [Program.text] using hend
  obtain ⟨placed, hplaced, hmap⟩ := hlexes .start
  have huncommented : uncommented placed = ts := by
    rw [uncommented, hmap, List.filter_eq_self]
    intro t ht
    simp [hts.no_comment t ht]
  have hscript : Script (uncommented placed) program := by
    rw [huncommented]
    exact ⟨after, hts⟩
  exact ofSource_eq_ok.mpr ⟨placed, hplaced, ofTokens_complete hscript⟩

end Grammar

/-- The text of a script is the text of the script that a reader takes it for. -/
theorem Program.text_reattach (program : Program) : program.reattach.text = program.text :=
  Node.linesText_reattachAll (fun node _ => Node.textIn_reattach node) 0

/-- A script that has been read keeps its elses in simplification, unless it loses one of them. -/
theorem Program.keepsElses_simplify {source : String} {program : Program}
    (hread : Program.ofSource source = .ok program) (hloses : program.losesElse = false) :
    program.simplify.keepsElses = true := by
  obtain ⟨tokens, -, hparsed⟩ := ofSource_eq_ok.1 hread
  obtain ⟨after, hforms⟩ := Grammar.ofTokens_sound hparsed
  have hwellFormed : ∀ node ∈ program, node.WellFormed false := hforms.wellFormed
  exact Node.allKeepElses_simplify (fun node hmem => (hwellFormed node hmem).leavesElses)
    hforms.keepsElses hloses

/-- **The text of a simplified script is read, and every `else` in it goes to the nearest open
    choice.**  If the script that was read writes its device types bare, and what is left of it
    declares every name before it uses it, then the text of what is left forms it with its elses
    reattached.  So it forms what is left itself exactly if no `else` stands after an open branch,
    which is so if simplification loses no `else` of a choice that stays. -/
theorem simplified_text_reattaches {source : String} {program : Program}
    (hbare : Grammar.WritesBareTypes source) (hread : Program.ofSource source = .ok program)
    (hdeclares : program.simplify.declaresBeforeUse = true) :
    Program.ofSource program.simplify.text = .ok program.simplify.reattach ∧
    (Program.ofSource program.simplify.text = .ok program.simplify ↔
      program.simplify.keepsElses = true) ∧
    (program.losesElse = false → program.simplify.keepsElses = true) := by
  obtain ⟨tokens, htokenized, hparsed⟩ := ofSource_eq_ok.1 hread
  obtain ⟨after, hforms⟩ := Grammar.ofTokens_sound hparsed
  have hplain := Grammar.plain_uncommented htokenized (hbare tokens htokenized)
  have hprinted := hforms.prints_simplify hplain [] (List.Subset.refl _) hdeclares
  have hreattached : Program.ofSource program.simplify.text = .ok program.simplify.reattach := by
    -- The text is that of the reattached script as well, and this one is printed as it is read.
    rw [← Program.text_reattach]
    exact Grammar.ofSource_of_printed hprinted
  refine ⟨hreattached, ?_, Program.keepsElses_simplify hread⟩
  rw [hreattached, Except.ok.injEq]
  exact Node.reattachAll_eq_self_iff program.simplify

/-! ## A script whose `else` moves -/

/-- A text without quoted texts quotes no device type. -/
theorem writesBareTypes_of_unquoted {source : String}
    (hunquoted : (tokenize source).map (fun tokens =>
      (Grammar.uncommented tokens).any Token.isQuoted) = .ok false) :
    Grammar.WritesBareTypes source := by
  intro tokens htokenized text hquoted
  rw [htokenized] at hunquoted
  have heach := List.any_eq_false.1 (Except.ok.inj hunquoted)
  have hmem : .string text ∈ Grammar.uncommented tokens := hquoted.subset (by simp)
  exact heach _ hmem rfl

/-- The inner choice loses its `else`, because nothing is done in it. -/
def valveSource : String :=
  "var p = Device(Pump, d0); if (p.On) if (p.Open) p.Lock = 1; else { } else p.Lock = 0;"

def valveScript : Program :=
  [.declare "p" (.device ⟨"Pump", .pin "d0"⟩),
    .branch (.read "p" none (some "On"))
      (.branch (.read "p" none (some "Open")) (.assign "p" none (some "Lock") (.number "1"))
        (some (.block [])))
      (some (.assign "p" none (some "Lock") (.number "0")))]

/-- What the text of the simplified script is read as. -/
def movedScript : Program :=
  [.declare "p" (.device ⟨"Pump", .pin "d0"⟩),
    .branch (.read "p" none (some "On"))
      (.branch (.read "p" none (some "Open")) (.assign "p" none (some "Lock") (.number "1"))
        (some (.assign "p" none (some "Lock") (.number "0"))))
      none]

theorem ofSource_valveSource : Program.ofSource valveSource = .ok valveScript := by
  decide +kernel

theorem writesBareTypes_valveSource : Grammar.WritesBareTypes valveSource :=
  writesBareTypes_of_unquoted (by decide +kernel)

/-- One script whose `else` moves, and one that loses none. -/
theorem simplified_text_reattaches_valve :
    (Grammar.WritesBareTypes valveSource ∧ Program.ofSource valveSource = .ok valveScript ∧
      valveScript.simplify.declaresBeforeUse = true ∧
      Program.ofSource valveScript.simplify.text = .ok movedScript) ∧
    (Grammar.WritesBareTypes layeredSource ∧ Program.ofSource layeredSource = .ok layeredScript ∧
      layeredScript.simplify.declaresBeforeUse = true ∧ layeredScript.losesElse = false ∧
      Program.ofSource layeredScript.simplify.text = .ok layeredScript.simplify) := by
  constructor
  · have hdeclares : valveScript.simplify.declaresBeforeUse = true := by decide +kernel
    have hmoved : valveScript.simplify.reattach = movedScript := by decide +kernel
    obtain ⟨hreattached, -⟩ :=
      simplified_text_reattaches writesBareTypes_valveSource ofSource_valveSource hdeclares
    rw [hmoved] at hreattached
    exact ⟨writesBareTypes_valveSource, ofSource_valveSource, hdeclares, hreattached⟩
  · have hbare : Grammar.WritesBareTypes layeredSource :=
      writesBareTypes_of_unquoted (by decide +kernel)
    have hread : Program.ofSource layeredSource = .ok layeredScript := by decide +kernel
    have hdeclares : layeredScript.simplify.declaresBeforeUse = true := by decide +kernel
    have hloses : layeredScript.losesElse = false := by decide +kernel
    obtain ⟨-, hsame, hkept⟩ := simplified_text_reattaches hbare hread hdeclares
    exact ⟨hbare, hread, hdeclares, hloses, hsame.2 (hkept hloses)⟩

/-- **The text of a simplified script may form another one**: here it has the `else` in the inner
    choice. -/
theorem else_moves_inwards :
    Grammar.WritesBareTypes valveSource ∧ Program.ofSource valveSource = .ok valveScript ∧
    valveScript.simplify.declaresBeforeUse = true ∧
    valveScript.simplify.text =
      "var p = Device(Pump, d0);\nif (p.On) if (p.Open) p.Lock = 1; else p.Lock = 0;\n" ∧
    Program.ofSource valveScript.simplify.text ≠ .ok valveScript.simplify :=
  ⟨writesBareTypes_valveSource, ofSource_valveSource, by decide +kernel, by decide +kernel,
    by decide +kernel⟩

end ChipScript
