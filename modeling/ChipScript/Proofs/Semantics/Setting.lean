import ChipScript.Chip.Instruction
import ChipScript.Node.Value
import ChipScript.Proofs.Number.WholeLiteral

/-!
# What a run computes with

A script and its code are run in the same surroundings: the same values with the same arithmetic,
and the same devices.  Neither is fixed here.

* `Interpretation` is a kind of values, in a total order.  All that is asked of it is that numbers
  count as true and as zero exactly when they do as numbers, and that the bitwise instructions join
  truth values.
* A world answers what is loaded from devices and what is drawn at random.  Its answer may depend on
  all that has happened before, so that time passes and devices react to what is stored.
* `Event` is what can be seen of a run from outside: every question with its answer, every store and
  every wait, in their order.
-/

namespace ChipScript

open Float.Model in
/-- A number that equals zero does not count as true. -/
theorem isTrue_of_eq_zero {x : Float} (h : (x == 0.0) = true) : isTrue x = false := by
  have hzero : (0.0 : Float).toModel.unpack = .zero .positive := rfl
  obtain ⟨m, e, hpos, hone⟩ :
      ∃ m e hpos, (1.0 : Float).toModel.unpack = .finite .positive m e hpos :=
    ⟨_, _, _, rfl⟩
  change (x.toModel.unpack.compare (0.0 : Float).toModel.unpack == some .eq) = true at h
  rw [isTrue, decide_eq_false_iff_not]
  change ¬
    decide (((1.0 : Float).toModel.unpack.compare x.toModel.unpack).any (·.isLE) = true) = true
  rw [hzero] at h
  rw [hone]
  -- Only the two zeros equal zero, and one is not below either.
  cases hunpacked : x.toModel.unpack with
  | zero s => simp [UnpackedFloat.compare]
  | notANumber => simp [hunpacked, UnpackedFloat.compare] at h
  | infinity s => cases s <;> simp [hunpacked, UnpackedFloat.compare] at h
  | finite s m e hpos => cases s <;> simp [hunpacked, UnpackedFloat.compare] at h

/-! ## Values -/

/-- Whether a comparison holds of two values of a total order. -/
def Comparison.compares {V : Type} [LinearOrder V] : Comparison → V → V → Bool
  | equal, a, b => a = b
  | notEqual, a, b => a ≠ b
  | less, a, b => a < b
  | lessEqual, a, b => a ≤ b
  | greater, a, b => b < a
  | greaterEqual, a, b => b ≤ a

/-- In a total order the inverse of a comparison holds where the comparison does not. -/
@[simp] theorem Comparison.compares_inverse {V : Type} [LinearOrder V] (c : Comparison) (a b : V) :
    c.inverse.compares a b = !c.compares a b := by
  cases c <;> simp [inverse, compares, ← not_le]

/-- Values in a total order, with the operations of the chip.  Numbers are among the values. -/
structure Interpretation (V : Type) [LinearOrder V] where
  /-- The value of a number. -/
  number : Float → V
  /-- The value of a text that denotes no number. -/
  unreadable : String → V
  arithmetic : Arithmetic → V → V → V
  bitwise : Connective → V → V → V
  function : String → List V → V
  /-- A number is one or more exactly when it counts as true. -/
  one_le_number : ∀ x, number 1.0 ≤ number x ↔ isTrue x = true
  /-- A number is zero exactly when it equals zero. -/
  number_eq_zero : ∀ x, number x = number 0.0 ↔ (x == 0.0) = true
  /-- On truth values the bitwise instructions are the connectives. -/
  bitwise_truth : ∀ (operator : Connective) (a b : Bool),
    bitwise operator (number (truthValue a)) (number (truthValue b)) =
      number (truthValue (operator.apply a b))

namespace Interpretation

variable {V : Type} [LinearOrder V] (I : Interpretation V)

/-- Whether a value counts as true where a condition is asked for. -/
def holds (value : V) : Bool :=
  I.number 1.0 ≤ value

/-- The value that stands for a truth value. -/
def truth (b : Bool) : V :=
  I.number (truthValue b)

/-- Whether a choice between two values takes the first one. -/
def selects (value : V) : Bool :=
  value ≠ I.number 0.0

/-- The value of a text that is written as an operand: what the literal or the constant denotes. -/
def word (text : String) : V :=
  match Literal.read? text <|> Vocabulary.constant? text with
  | some x => I.number x
  | none => I.unreadable text

/-- A value is compared with one to see whether it counts as true, -/
theorem compares_one (value : V) :
    Comparison.greaterEqual.compares value (I.number 1.0) = I.holds value := rfl

/-- and the other way round to see whether it counts as false. -/
theorem compares_one_less (value : V) :
    Comparison.less.compares value (I.number 1.0) = !I.holds value :=
  Comparison.compares_inverse .greaterEqual value (I.number 1.0)

theorem holds_number (x : Float) : I.holds (I.number x) = isTrue x := by
  rw [Bool.eq_iff_iff, ← I.one_le_number x]
  simp [holds]

theorem selects_number (x : Float) : I.selects (I.number x) = (x != 0.0) := by
  rw [Bool.eq_iff_iff]
  simp [selects, I.number_eq_zero x, bne]

@[simp] theorem holds_truth (b : Bool) : I.holds (I.truth b) = b := by
  rw [truth, holds_number]
  cases b <;> decide

end Interpretation

/-- The whole part of a number that counts as true.  The others are zero, or below it. -/
def wholePart (x : Float) : Int :=
  if isTrue x then max 1 (Binary64.units (Binary64.ordinal x) / Nat.pow 2 Binary64.unitBits : Nat)
  else if x == 0.0 then 0 else -1

theorem one_le_wholePart (x : Float) : 1 ≤ wholePart x ↔ isTrue x = true := by
  unfold wholePart
  split
  · next hholds => exact iff_of_true (le_max_left _ _) hholds
  · next hfails =>
    split <;> simp [hfails]

theorem wholePart_eq_zero (x : Float) : wholePart x = 0 ↔ (x == 0.0) = true := by
  unfold wholePart
  split
  · next hholds =>
    refine ⟨fun hzero => by omega, fun hzero => ?_⟩
    rw [isTrue_of_eq_zero hzero] at hholds
    cases hholds
  · split
    · next hzero => simp [hzero]
    · next hother => simp [hother]

theorem wholePart_one : wholePart 1.0 = 1 := by
  decide +kernel

theorem wholePart_zero : wholePart 0.0 = 0 := by
  decide +kernel

theorem wholePart_truthValue (b : Bool) : wholePart (truthValue b) = if b then 1 else 0 := by
  cases b with
  | false => exact wholePart_zero
  | true => exact wholePart_one

/-- Whole numbers as values.  Of two truth values the least is their conjunction, and the greatest
    their disjunction. -/
def Interpretation.whole : Interpretation Int where
  number := wholePart
  unreadable := fun _ => 0
  arithmetic
    | .add => (· + ·)
    | .sub => (· - ·)
    | .mul => (· * ·)
    | .div => (· / ·)
  bitwise
    | .and => min
    | .or => max
  function := fun _ _ => 0
  one_le_number := by
    rw [wholePart_one]
    exact one_le_wholePart
  number_eq_zero := by
    rw [wholePart_zero]
    exact wholePart_eq_zero
  bitwise_truth := by
    intro operator a b
    rw [wholePart_truthValue, wholePart_truthValue, wholePart_truthValue]
    cases operator <;> cases a <;> cases b <;> rfl

/-! ## Words -/

/-- What a table gives for a name is listed in it. -/
theorem mem_of_lookup {β : Type} {table : List (String × β)} {name : String} {entry : β}
    (h : table.lookup name = some entry) : (name, entry) ∈ table := by
  obtain ⟨before, after, hsplit, -⟩ := List.lookup_eq_some_iff.1 h
  simp [hsplit]

namespace Interpretation

variable {V : Type} [LinearOrder V] (I : Interpretation V)

theorem word_of_read? {text : String} {x : Float} (h : Literal.read? text = some x) :
    I.word text = I.number x := by
  simp [word, h]

/-- The text of a hash denotes the hash. -/
theorem word_checksumText (hash : Int32) :
    I.word (Text.checksumText hash) = I.number (Binary64.ofInt hash.toInt) :=
  I.word_of_read? (Literal.read?_toString hash.toInt)

theorem word_one : I.word "1" = I.number 1.0 := by
  have hone : Literal.read? "1" = some 1.0 := by decide +kernel
  exact I.word_of_read? hone

/-- The name of a constant is no literal, so that nothing else is read into it. -/
theorem word_constant {name : String} {x : Float} (h : Vocabulary.constant? name = some x) :
    I.word name = I.number x := by
  have hnames : ∀ entry ∈ Vocabulary.constants, Literal.read? entry.1 = none := by
    decide
  simp [word, hnames _ (mem_of_lookup h), h]

end Interpretation

/-! ## The world -/

/-- A question to the world. -/
inductive Query (V : Type) where
  | load (device : DeviceTarget) (slot : Option V) (property : String)
  | random
deriving DecidableEq

/-- What can be seen of a run. -/
inductive Event (V : Type) where
  | answer (query : Query V) (value : V)
  | store (device : DeviceTarget) (slot : Option V) (property : String) (value : V)
  | sleep (duration : V)
  | yield
deriving DecidableEq

/-- What has been seen of a run, the latest last. -/
abbrev Trace (V : Type) := List (Event V)

/-- Values, and a world that answers questions by what has happened so far. -/
structure Setting (V : Type) [LinearOrder V] extends Interpretation V where
  world : Trace V → Query V → V

namespace Setting

variable {V : Type} [LinearOrder V] (S : Setting V)

/-- A question to the world leaves its answer in the trace. -/
def ask (query : Query V) (trace : Trace V) : V × Trace V :=
  (S.world trace query, trace ++ [.answer query (S.world trace query)])

/-- A call of a function.  Random numbers come from the world. -/
def call (name : String) (arguments : List V) (trace : Trace V) : V × Trace V :=
  if name = "rand" then S.ask .random trace else (S.function name arguments, trace)

end Setting
end ChipScript
