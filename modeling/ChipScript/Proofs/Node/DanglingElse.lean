import ChipScript.Proofs.Node.PrinterRoundTrip
import ChipScript.Proofs.Node.WellFormed

/-!
# To which choice an `else` belongs

A text has no mark for the end of a statement that is not in braces, and an `else` belongs to the
nearest choice that is still open.  A tree whose `else` stands after an open branch is printed
without one, so that its text is read as another tree.

* `Node.keepsElses` holds of the trees in which no `else` stands after an open branch.
* `Node.reattach` gives every `else` to the choice that a reader gives it to.  The text stays
  (`textIn_reattach`), the result keeps its elses (`keepsElses_reattach`), and exactly the trees
  that keep their elses stay as they are (`reattach_eq_self_iff`).
* `Grammar.PrintedSentence.attachElse` is how a reader does it: an open statement with an `else`
  after it is read as the statement with the `else` inside.
-/

namespace ChipScript.Node

/-! ## Where an `else` goes -/

/-- An open statement with an `else` in the choice that is open, the innermost one at its end. -/
def attachElse (node elseBranch : Node) : Node :=
  match node with
  | loop body => loop (body.attachElse elseBranch)
  | whileLoop condition body => whileLoop condition (body.attachElse elseBranch)
  | branch condition thenBranch none =>
    if thenBranch.isOpen then branch condition (thenBranch.attachElse elseBranch) none
    else branch condition thenBranch (some elseBranch)
  | branch condition thenBranch (some other) =>
    branch condition thenBranch (some (other.attachElse elseBranch))
  | node => node

mutual

/-- A tree in which every `else` belongs to the choice that a reader gives it to. -/
def reattach : Node → Node
  | block body => block (reattachAll body)
  | loop body => loop (reattach body)
  | whileLoop condition body => whileLoop condition (reattach body)
  | branch condition thenBranch none => branch condition (reattach thenBranch) none
  | branch condition thenBranch (some elseBranch) =>
    (branch condition (reattach thenBranch) none).attachElse (reattach elseBranch)
  | node => node

/-- Statements in which every `else` belongs to the choice that a reader gives it to. -/
def reattachAll : List Node → List Node
  | [] => []
  | node :: rest => reattach node :: reattachAll rest

end

mutual

/-- Whether no `else` stands after a branch that could take it. -/
def keepsElses : Node → Bool
  | block body => allKeepElses body
  | loop body => body.keepsElses
  | whileLoop _ body => body.keepsElses
  | branch _ thenBranch none => thenBranch.keepsElses
  | branch _ thenBranch (some elseBranch) =>
    !thenBranch.isOpen && thenBranch.keepsElses && elseBranch.keepsElses
  | _ => true

/-- Whether in none of several statements an `else` stands after a branch that could take it. -/
def allKeepElses : List Node → Bool
  | [] => true
  | node :: rest => node.keepsElses && allKeepElses rest

end

theorem reattachAll_eq_map (body : List Node) : reattachAll body = body.map reattach := by
  induction body with
  | nil => rfl
  | cons node rest ih => rw [reattachAll, ih, List.map_cons]

theorem allKeepElses_iff (body : List Node) :
    allKeepElses body = true ↔ ∀ node ∈ body, node.keepsElses = true := by
  induction body with
  | nil => simp [allKeepElses]
  | cons node rest ih => simp [allKeepElses, ih]

/-! ## Attaching an `else` -/

variable {elseBranch node : Node}

/-- The `else` is printed last. -/
theorem textIn_attachElse (level : Nat) (hopens : node.isOpen = true) :
    (node.attachElse elseBranch).textIn (.statement level) =
      node.textIn (.statement level) ++ " else " ++ elseBranch.textIn (.statement level) := by
  fun_induction attachElse node elseBranch with
  | case1 body ih => simp [textIn, Place.level, ih hopens, String.append_assoc]
  | case2 condition body ih => simp [textIn, Place.level, ih hopens, String.append_assoc]
  | case3 condition thenBranch hinner ih =>
    simp [textIn, elseText, Place.level, ih hinner, String.append_assoc]
  | case4 => simp [textIn, elseText, Place.level, String.append_assoc]
  | case5 condition thenBranch other ih =>
    simp [textIn, elseText, Place.level, ih hopens, String.append_assoc]
  | case6 => simp_all [isOpen]

theorem keepsElses_attachElse (hkept : node.keepsElses = true)
    (hother : elseBranch.keepsElses = true) : (node.attachElse elseBranch).keepsElses = true := by
  fun_induction attachElse node elseBranch with
  | case1 body ih => exact ih hkept
  | case2 condition body ih => exact ih hkept
  | case3 condition thenBranch hinner ih => exact ih hkept
  | case4 condition thenBranch hclosed =>
    -- The branch before the new `else` is closed, or the `else` would have gone into it.
    have hclosed : thenBranch.isOpen = false := by simpa using hclosed
    have hthenKept : thenBranch.keepsElses = true := hkept
    simp [keepsElses, hclosed, hthenKept, hother]
  | case5 condition thenBranch last ih =>
    simp only [keepsElses, Bool.and_eq_true] at hkept ⊢
    exact ⟨hkept.1, ih hkept.2⟩
  | case6 => exact hkept

/-! ## Attaching every `else` -/

theorem linesText_reattachAll {body : List Node}
    (hsame : ∀ node ∈ body, ∀ level,
      node.reattach.textIn (.statement level) = node.textIn (.statement level)) (level : Nat) :
    linesText level (reattachAll body) = linesText level body := by
  induction body with
  | nil => rfl
  | cons node rest ih =>
    have hfirst := hsame node (by simp) level
    have hlater := ih fun statement hmem => hsame statement (List.mem_cons_of_mem _ hmem)
    simp only [reattachAll, linesText, hfirst, hlater]

/-- **The text stays.** -/
theorem textIn_reattach (node : Node) (level : Nat) :
    node.reattach.textIn (.statement level) = node.textIn (.statement level) := by
  induction node using partsInduction generalizing level with
  | step node ih =>
    cases node with
    | block body =>
      have hlines : linesText (level + 1) (reattachAll body) = linesText (level + 1) body :=
        linesText_reattachAll ih (level + 1)
      simp only [reattach, textIn, Place.level, hlines]
    | loop body =>
      have hwithin := ih body (by simp [parts]) level
      simp only [reattach, textIn, Place.level, hwithin]
    | whileLoop condition body =>
      have hwithin := ih body (by simp [parts]) level
      simp only [reattach, textIn, Place.level, hwithin]
    | branch condition thenBranch elseBranch =>
      have hfirst := ih thenBranch (by simp [parts]) level
      cases elseBranch with
      | none => simp only [reattach, textIn, Place.level, hfirst]
      | some elseBranch =>
        have hsecond := ih elseBranch (by simp [parts]) level
        -- The choice without its `else` is open, so that the `else` is printed behind it as before.
        rw [reattach, textIn_attachElse level rfl]
        simp [textIn, Place.level, elseText, hfirst, hsecond, String.append_assoc]
    | _ => rfl

/-- **No `else` is left that could be taken.** -/
theorem keepsElses_reattach (node : Node) : node.reattach.keepsElses = true := by
  induction node using partsInduction with
  | step node ih =>
    -- Only choices move an `else`, and the others keep what their parts keep.
    cases node with
    | block body =>
      rw [reattach, keepsElses, reattachAll_eq_map, allKeepElses_iff]
      intro part hmem
      obtain ⟨statement, hgiven, rfl⟩ := List.mem_map.1 hmem
      exact ih statement hgiven
    | loop body => exact ih body (by simp [parts])
    | whileLoop condition body => exact ih body (by simp [parts])
    | branch condition thenBranch elseBranch =>
      have hfirst := ih thenBranch (by simp [parts])
      cases elseBranch with
      | none => exact hfirst
      | some elseBranch =>
        have hsecond := ih elseBranch (by simp [parts])
        exact keepsElses_attachElse hfirst hsecond
    | _ => rfl

theorem reattachAll_eq_self {body : List Node} (hsame : ∀ node ∈ body, node.reattach = node) :
    reattachAll body = body := by
  rw [reattachAll_eq_map]
  calc body.map reattach = body.map id := List.map_congr_left hsame
    _ = body := List.map_id body

/-- A tree in which no `else` can be taken stays as it is. -/
theorem reattach_eq_self {node : Node} (hkept : node.keepsElses = true) :
    node.reattach = node := by
  induction node using partsInduction with
  | step node ih =>
    cases node with
    | block body =>
      rw [keepsElses, allKeepElses_iff] at hkept
      have hsame : ∀ statement ∈ body, statement.reattach = statement :=
        fun statement hmem => ih statement hmem (hkept statement hmem)
      rw [reattach, reattachAll_eq_self hsame]
    | loop body => rw [reattach, ih body (by simp [parts]) hkept]
    | whileLoop condition body => rw [reattach, ih body (by simp [parts]) hkept]
    | branch condition thenBranch elseBranch =>
      cases elseBranch with
      | none => rw [reattach, ih thenBranch (by simp [parts]) hkept]
      | some elseBranch =>
        simp only [keepsElses, Bool.and_eq_true, Bool.not_eq_true'] at hkept
        obtain ⟨⟨hclosed, hthenKept⟩, helseKept⟩ := hkept
        rw [reattach, ih thenBranch (by simp [parts]) hthenKept,
          ih elseBranch (by simp [parts]) helseKept]
        -- The first branch is closed, so that there is nowhere further in to attach the other one.
        simp [attachElse, hclosed]
    | _ => rfl

/-- **Exactly the trees in which no `else` can be taken stay as they are.** -/
theorem reattachAll_eq_self_iff (body : List Node) :
    reattachAll body = body ↔ allKeepElses body = true := by
  rw [allKeepElses_iff]
  constructor
  · -- What is reattached keeps its elses, and these statements are what is reattached.
    intro hsame node hmem
    rw [← hsame, reattachAll_eq_map] at hmem
    obtain ⟨statement, -, rfl⟩ := List.mem_map.1 hmem
    exact keepsElses_reattach statement
  · intro hkept
    exact reattachAll_eq_self fun node hmem => reattach_eq_self (hkept node hmem)

/-! ## Simplification -/

mutual

/-- Whether a tree has an `else` that is lost in simplification while its choice stays. -/
def losesElse : Node → Bool
  | block body => anyLosesElse body
  | loop body => body.losesElse
  | whileLoop _ body => body.losesElse
  | branch _ thenBranch none => thenBranch.losesElse
  | branch condition thenBranch (some elseBranch) =>
    (condition.simplify.truth?.isNone && elseBranch.simplifyStatement?.isNone) ||
      thenBranch.losesElse || elseBranch.losesElse
  | _ => false

/-- Whether one of several statements has an `else` that is lost. -/
def anyLosesElse : List Node → Bool
  | [] => false
  | node :: rest => node.losesElse || anyLosesElse rest

end

theorem anyLosesElse_eq_false (body : List Node) :
    anyLosesElse body = false ↔ ∀ node ∈ body, node.losesElse = false := by
  induction body with
  | nil => simp [anyLosesElse]
  | cons node rest ih => simp [anyLosesElse, ih]

/-- What is left of a statement keeps its elses, and is closed if the statement was. -/
def LeavesElses (node : Node) (left : Option Node) : Prop :=
  ∀ statement, left = some statement →
    statement.keepsElses = true ∧ (node.isOpen = false → statement.isOpen = false)

theorem LeavesElses.bodyOf {left : Option Node} (h : LeavesElses node left) :
    (bodyOf left).keepsElses = true ∧ (node.isOpen = false → (bodyOf left).isOpen = false) := by
  cases left with
  | none => exact ⟨rfl, fun _ => rfl⟩
  | some statement => exact h statement rfl

theorem allKeepElses_simplify {body : List Node}
    (heach : ∀ node ∈ body, node.keepsElses = true → node.losesElse = false →
      LeavesElses node node.simplifyStatement?)
    (hkept : allKeepElses body = true) (hloses : anyLosesElse body = false) :
    allKeepElses (simplifyStatements body) = true := by
  rw [allKeepElses_iff] at hkept ⊢
  rw [anyLosesElse_eq_false] at hloses
  intro statement hmem
  obtain ⟨node, hmem, hleft⟩ := mem_simplifyStatements.1 hmem
  exact (heach node hmem (hkept node hmem) (hloses node hmem) statement hleft).1

/-- A loop keeps its body, or goes with it. -/
theorem LeavesElses.whileLoop {condition body : Node}
    (hwithin : LeavesElses body body.simplifyStatement?) :
    LeavesElses (.whileLoop condition body) (simplifyStatement? (.whileLoop condition body)) := by
  intro statement hleft
  rcases simplifyStatement?_whileLoop_cases hleft with ⟨-, rfl⟩ | ⟨-, rfl⟩
  · exact hwithin.bodyOf
  · exact hwithin.bodyOf

/-- A choice without an `else` was open, so that it does not matter whether it still is. -/
theorem LeavesElses.branch {condition thenBranch : Node}
    (hwithin : LeavesElses thenBranch thenBranch.simplifyStatement?) :
    LeavesElses (.branch condition thenBranch none)
      (simplifyStatement? (.branch condition thenBranch none)) := by
  intro statement hleft
  rcases simplifyStatement?_branch_cases hleft with ⟨-, hleft⟩ | ⟨-, hleft⟩ | ⟨-, rfl⟩
  · exact ⟨(hwithin statement hleft).1, fun hclosed => by cases hclosed⟩
  · cases hleft
  · exact ⟨hwithin.bodyOf.1, fun hclosed => by cases hclosed⟩

/-- A choice whose `else` is not lost, after a branch that is closed. -/
theorem LeavesElses.branchElse {condition thenBranch elseBranch : Node}
    (hfirst : LeavesElses thenBranch thenBranch.simplifyStatement?)
    (hsecond : LeavesElses elseBranch elseBranch.simplifyStatement?)
    (hclosed : thenBranch.isOpen = false)
    (hstays : (condition.simplify.truth?.isNone && elseBranch.simplifyStatement?.isNone) = false) :
    LeavesElses (.branch condition thenBranch (some elseBranch))
      (simplifyStatement? (.branch condition thenBranch (some elseBranch))) := by
  intro statement hleft
  rcases simplifyStatement?_branch_cases hleft with ⟨-, hleft⟩ | ⟨-, hleft⟩ | ⟨hunknown, rfl⟩
  · -- The branch before the `else` was closed, and so is what is left of it.
    obtain ⟨hleftKept, hcloses⟩ := hfirst statement hleft
    exact ⟨hleftKept, fun _ => hcloses hclosed⟩
  · exact hsecond statement hleft
  · obtain ⟨hleftKept, hcloses⟩ := hfirst.bodyOf
    cases hlast : elseBranch.simplifyStatement? with
    | none => simp [hunknown, hlast] at hstays
    | some other =>
      obtain ⟨hotherKept, hotherCloses⟩ := hsecond other hlast
      rw [simplifyElse?, hlast]
      exact ⟨by simp [keepsElses, hcloses hclosed, hleftKept, hotherKept], hotherCloses⟩

theorem keepsElses_of_not_isStatement {node : Node} (hvalue : node.isStatement = false) :
    node.keepsElses = true ∧ node.isOpen = false := by
  cases node <;> first | exact ⟨rfl, rfl⟩ | cases hvalue

/-- **An `else` is moved only by one that is lost.**  If a statement keeps its elses and loses none
    of them, then what is left of it keeps its elses: no part of it has become open. -/
theorem WellFormed.leavesElses {inLoop : Bool} {node : Node} (h : WellFormed inLoop node)
    (hkept : node.keepsElses = true) (hloses : node.losesElse = false) :
    LeavesElses node node.simplifyStatement? := by
  -- A block closes what is in it, a loop ends as its body does, and a choice is the case that
  -- matters.
  induction h with
  | @block _ body _ ih =>
    have hleftKept := allKeepElses_simplify ih hkept hloses
    intro statement hleft
    obtain ⟨-, rfl⟩ := simplifyStatement?_block_cases hleft
    exact ⟨hleftKept, fun _ => rfl⟩
  | loop _ ih =>
    intro statement hleft
    obtain rfl := Option.some.inj hleft
    exact (ih hkept hloses).bodyOf
  | whileLoop _ _ ih => exact (ih hkept hloses).whileLoop
  | @branch _ condition thenBranch elseBranch _ _ _ ihthen ihelse =>
    cases elseBranch with
    | none => exact (ihthen hkept hloses).branch
    | some elseBranch =>
      simp only [keepsElses, Bool.and_eq_true, Bool.not_eq_true'] at hkept
      simp only [losesElse, Bool.or_eq_false_iff] at hloses
      obtain ⟨⟨hclosed, hthenKept⟩, helseKept⟩ := hkept
      obtain ⟨⟨hstays, hthenLoses⟩, helseLoses⟩ := hloses
      have hfirst := ihthen hthenKept hthenLoses
      have hsecond := ihelse elseBranch (by simp) helseKept helseLoses
      -- The first branch stays closed, so that the other one still belongs to this choice.
      exact hfirst.branchElse hsecond hclosed hstays
  | declare | assign | control | command =>
    intro statement hleft
    obtain rfl := Option.some.inj hleft
    exact ⟨rfl, fun _ => rfl⟩
  | value hvalue =>
    obtain ⟨hvalueKept, hclosed⟩ := keepsElses_of_not_isStatement hvalue.simplify.isStatement
    intro statement hleft
    rw [hvalue.simplifyStatement?] at hleft
    obtain rfl := Option.some.inj hleft
    exact ⟨hvalueKept, fun _ => hclosed⟩

end ChipScript.Node

namespace ChipScript.Grammar

open Text Node

/-- The elses of a sentence belong where a reader puts them. -/
def Sentence.keepsElses : Sentence → Bool
  | .statement node => node.keepsElses
  | .sequence nodes => allKeepElses nodes

/-- **Trees that have been read keep their elses.** -/
theorem Forms.keepsElses {declared after : List String} {inLoop : Bool} {sentence : Sentence}
    {ts : List Token} (h : Forms declared inLoop sentence ts after) :
    sentence.keepsElses = true := by
  induction h with
  | loop _ ih | whileLoop _ _ ih | branch _ _ ih | block _ ih => exact ih
  | branchElse _ _ hclosed _ ihthen ihelse | branchElseIf _ _ hclosed _ ihthen ihelse =>
      simp only [Sentence.keepsElses, Node.keepsElses, hclosed, Bool.not_false, Bool.true_and,
        Bool.and_eq_true]
      exact ⟨ihthen, ihelse⟩
  | next _ _ ihfirst ihothers =>
      simp only [Sentence.keepsElses, allKeepElses, Bool.and_eq_true]
      exact ⟨ihfirst, ihothers⟩
  | declare | assign | leave | again | device | command | done => rfl

/-! ## How an `else` is read -/

variable {declared between after : List String} {inLoop : Bool} {ts us : List Token}

/-- What is read outside of a loop is read inside of one alike. -/
theorem Forms.in_loop {sentence : Sentence} (h : Forms declared inLoop sentence ts after) :
    Forms declared true sentence ts after := by
  induction h with
  | declare hfresh hconstant hcommand hvalue => exact .declare hfresh hconstant hcommand hvalue
  | assign hmem hcommand hsuffix hvalue => exact .assign hmem hcommand hsuffix hvalue
  | loop _ ih => exact .loop ih
  | whileLoop hcs _ ih => exact .whileLoop hcs ih
  | branch hcs _ ih => exact .branch hcs ih
  | branchElse hcs _ hclosed _ ihthen ihelse => exact .branchElse hcs ihthen hclosed ihelse
  | branchElseIf hcs _ hclosed _ ihthen ihelse => exact .branchElseIf hcs ihthen hclosed ihelse
  | leave => exact .leave
  | again => exact .again
  | device hts => exact .device hts
  | command harity hnodes => exact .command harity hnodes
  | block _ ih => exact .block ih
  | done => exact .done
  | next _ _ ihfirst ihothers => exact .next ihfirst ihothers

/-- **An open statement takes the `else` after it.**  By induction on its derivation: the `else`
    goes down into the last part of the statement, until the part before it is closed. -/
theorem Forms.attachElse {sentence : Sentence} {node elseBranch : Node}
    (h : Forms declared inLoop sentence ts between) (hnode : sentence = .statement node)
    (hopen : node.isOpen = true) (helse : Forms between inLoop (.statement elseBranch) us after) :
    Forms declared inLoop (.statement (node.attachElse elseBranch))
      (ts ++ .keyword .otherwise :: us) after := by
  induction h generalizing node with
  | loop _ ih =>
      cases hnode
      -- Inside of the loop the `else` stands in a loop as well.
      exact .loop (ih rfl hopen helse.in_loop)
  | whileLoop hcs _ ih =>
      cases hnode
      simpa [Node.attachElse] using Forms.whileLoop hcs (ih rfl hopen helse.in_loop)
  | @branch _ _ _ _ thenBranch _ _ hcs hthen ih =>
      cases hnode
      -- The choice takes the `else` itself only if nothing inside of its branch can.
      by_cases hinner : thenBranch.isOpen = true
      · simpa [Node.attachElse, hinner] using Forms.branch hcs (ih rfl hinner helse)
      · have hclosed : thenBranch.isOpen = false := by simpa using hinner
        simpa [Node.attachElse, hclosed] using Forms.branchElse hcs hthen hclosed helse
  | branchElse hcs hthen hclosed _ _ ih =>
      cases hnode
      simpa [Node.attachElse] using Forms.branchElse hcs hthen hclosed (ih rfl hopen helse)
  | branchElseIf hcs hthen hclosed _ _ ih =>
      cases hnode
      simpa [Node.attachElse] using Forms.branchElseIf hcs hthen hclosed (ih rfl hopen helse)
  | declare | assign | leave | again | device | command | block =>
      cases hnode
      cases hopen
  | done | next => cases hnode

/-- An open statement is printed with an `else` after it. -/
theorem PrintedSentence.attachElse {node elseBranch : Node}
    (h : PrintedSentence declared inLoop between (.statement node)) (hopen : node.isOpen = true)
    (helse : PrintedSentence between inLoop after (.statement elseBranch)) :
    PrintedSentence declared inLoop after (.statement (node.attachElse elseBranch)) := by
  obtain ⟨ts, hts, hspells⟩ := h
  obtain ⟨us, hus, helse⟩ := helse
  -- The tokens are those of both statements with the word between them, and so is the text.
  refine ⟨_, hts.attachElse rfl hopen hus, ?_⟩
  intro level rest vs _ hlexes
  have hlast := helse level trivial hlexes
  have hotherwise := Lexes.keyword .otherwise rfl hlast.space
  have hwhole := hspells level trivial hotherwise.space
  rw [textIn_attachElse level hopen]
  simpa [Keyword.spelling] using hwhole

end ChipScript.Grammar
