import ChipScript.Proofs.Node.DeviceText
import ChipScript.Proofs.Node.Folding

/-!
# Texts of computed numbers

Folding leaves a node for each number that it computes: a literal, or one of the names for
infinities and NaN.  The node has the number as its value, and its text is read back as the node.
So a simplified script can be printed and read again, and nothing of a number is lost on the way, be
it a zero of either sign, a subnormal number or a very large one.

The sign is the delicate part.  No literal has a sign of its own: the text of a negative number is
read as a minus sign and a literal, which the parser joins again.

Main result: `number_is_read_back`.
-/

namespace ChipScript

open Grammar

/-- Nothing follows a value at the end of a text. -/
theorem boundary_nil : Boundary [] :=
  ⟨rfl, by simp⟩

/-- A value that can be printed is read back from its text. -/
theorem readsAs_text {node : Node} (hprinted : PrintedValue [] node) :
    ReadsAs node.text node [] := by
  obtain ⟨⟨words, hderives, hspells, -⟩, -⟩ := hprinted
  exact readsAs_of_spells (hderives.at_level .choice) hspells boundary_nil

theorem readsAs_ofValue (value : Float) :
    ReadsAs (Node.ofValue value).text (.ofValue value) [] :=
  readsAs_text (printed_ofValue value)

/-- **Different numbers have different texts.** -/
theorem text_ofValue_injective : Function.Injective fun value => (Node.ofValue value).text := by
  intro value other hsame
  have hsame : (Node.ofValue value).text = (Node.ofValue other).text := hsame
  obtain ⟨tokens, s, hscanned, hrun, -⟩ := readsAs_ofValue value
  obtain ⟨tokens', s', hscanned', hrun', -⟩ := readsAs_ofValue other
  rw [hsame] at hscanned
  obtain rfl := Except.ok.inj (hscanned.symm.trans hscanned')
  -- One text is read in one way, so the nodes are the same, and with them their values.
  have hnodes : Node.ofValue value = Node.ofValue other :=
    (EStateM.Result.ok.inj (hrun.symm.trans hrun')).1
  have hknown := Node.value?_ofValue value
  rw [hnodes, Node.value?_ofValue other] at hknown
  exact (Option.some.inj hknown).symm

/-- **A computed number is a faithful literal.**  Its node has the number as its value, to the last
    bit, and the text of the node is read as exactly that node. -/
theorem number_is_read_back (value : Float) :
    (Node.ofValue value).value? = some value ∧
      ReadsAs (Node.ofValue value).text (.ofValue value) [] :=
  ⟨Node.value?_ofValue value, readsAs_ofValue value⟩

end ChipScript
