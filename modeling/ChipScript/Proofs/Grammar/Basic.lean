import ChipScript.Parser.Expression
import Mathlib

/-!
# The grammar of scripts

Which tokens make up which syntax tree, said without a reader of tokens.

* `Derives` is the grammar of expressions.  A level of precedence with operators is left-recursive
  (`Derives.join`), so that operators of one level group to the left.
* `Forms` is the grammar of statements.  It threads the declared names from left to right: a name
  may be used by what follows its declaration, wherever that stands.
* `Node.isOpen` is what decides to which choice an `else` belongs.  A branch that could still take
  one cannot stand before one, so that every `else` belongs to the nearest choice that is open.

Side conditions stand in the rules that they belong to: names are declared before they are used and
only once, they are no constants and no commands, loop controls stand in loops, calls have as many
arguments as their name asks for, an index comes with a logic type, and a device has one of three
forms.
-/

namespace ChipScript.Grammar

/-! ## Levels of precedence -/

/-- The levels of precedence, from the loosest to the tightest. -/
inductive Level where
  | choice
  | connective
  | comparison
  | negation
  | sum
  | product
  | operand
deriving DecidableEq

/-- The next tighter level. -/
def Level.tighter? : Level → Option Level
  | choice => some connective
  | connective => some comparison
  | comparison => some negation
  | negation => some sum
  | sum => some product
  | product => some operand
  | operand => none

/-- The operators of each level, with the trees that they build. -/
inductive Joins : Level → Symbol → (Node → Node → Node) → Prop where
  | mul : Joins .product .star (.arithmetic .mul)
  | div : Joins .product .slash (.arithmetic .div)
  | add : Joins .sum .plus (.arithmetic .add)
  | sub : Joins .sum .minus (.arithmetic .sub)
  | equal : Joins .comparison .equal (.comparison .equal)
  | notEqual : Joins .comparison .notEqual (.comparison .notEqual)
  | less : Joins .comparison .less (.comparison .less)
  | lessEqual : Joins .comparison .lessEqual (.comparison .lessEqual)
  | greater : Joins .comparison .greater (.comparison .greater)
  | greaterEqual : Joins .comparison .greaterEqual (.comparison .greaterEqual)
  | both : Joins .connective .both (.connective .and)
  | either : Joins .connective .either (.connective .or)

/-! ## Devices -/

/-- The type of a device is written bare or quoted. -/
inductive TypeName : Token → String → Prop where
  | bare (name : String) : TypeName (.identifier name) name
  | quoted (name : String) : TypeName (.string name) name

/-- A pin is written `d` and a digit, or `db`. -/
def IsPin (name : String) : Prop :=
  ∃ c : Char, name.toList = ['d', c] ∧ (c.isDigit = true ∨ c = 'b')

/-- The three forms of the arguments of a device. -/
inductive DeviceArguments : List Token → DeviceConfig → Prop where
  | pin {t : Token} {deviceType name : String} :
      TypeName t deviceType → IsPin name →
      DeviceArguments [t, .symbol .comma, .identifier name] ⟨deviceType, .pin name⟩
  | batch {t : Token} {deviceType : String} (mode : BatchMode) :
      TypeName t deviceType →
      DeviceArguments [t, .symbol .comma, .identifier mode.name] ⟨deviceType, .batch mode⟩
  | namedBatch {t : Token} {deviceType : String} (name : String) (mode : BatchMode) :
      TypeName t deviceType →
      DeviceArguments
        [t, .symbol .comma, .string name, .symbol .comma, .identifier mode.name]
        ⟨deviceType, .namedBatch name mode⟩

/-! ## Expressions -/

/-- What tokens inside an expression may be. -/
inductive Phrase where
  /-- An expression at a level. -/
  | value (level : Level) (node : Node)
  /-- Expressions with commas between them, one at least. -/
  | list (nodes : List Node)
  /-- The arguments of a call. -/
  | arguments (nodes : List Node)
  /-- What may follow a name. -/
  | suffix (index : Option Node) (property : Option String)

/-- Which tokens make up which phrase, given the names declared before. -/
inductive Derives (declared : List String) : Phrase → List Token → Prop where
  /-- Every level takes in the next tighter one. -/
  | lift {level tighter : Level} {node : Node} {ts : List Token} :
      level.tighter? = some tighter → Derives declared (.value tighter node) ts →
      Derives declared (.value level node) ts
  /-- Operators of one level group to the left. -/
  | join {level tighter : Level} {sign : Symbol} {build : Node → Node → Node} {left right : Node}
      {ls rs : List Token} :
      level.tighter? = some tighter → Joins level sign build →
      Derives declared (.value level left) ls → Derives declared (.value tighter right) rs →
      Derives declared (.value level (build left right)) (ls ++ .symbol sign :: rs)
  /-- The two values of a choice are choices themselves. -/
  | choice {condition thenValue elseValue : Node} {cs ts us : List Token} :
      Derives declared (.value .connective condition) cs →
      Derives declared (.value .choice thenValue) ts →
      Derives declared (.value .choice elseValue) us →
      Derives declared (.value .choice (.choice condition thenValue elseValue))
        (cs ++ .symbol .question :: (ts ++ .symbol .colon :: us))
  /-- A negation may be negated again. -/
  | not {operand : Node} {ts : List Token} :
      Derives declared (.value .negation operand) ts →
      Derives declared (.value .negation (.not operand)) (.symbol .bang :: ts)
  | number (text : String) : Derives declared (.value .operand (.number text)) [.number text]
  | negative (text : String) :
      Derives declared (.value .operand (Parser.negated text)) [.symbol .minus, .number text]
  | constant {name : String} :
      Vocabulary.isConstant name = true →
      Derives declared (.value .operand (.constant name)) [.identifier name]
  | hash (text : String) :
      Derives declared (.value .operand (.hash text))
        [.keyword .hash, .symbol .leftParen, .string text, .symbol .rightParen]
  | device {ts : List Token} {config : DeviceConfig} :
      DeviceArguments ts config →
      Derives declared (.value .operand (.device config))
        (.keyword .device :: .symbol .leftParen :: (ts ++ [.symbol .rightParen]))
  | group {node : Node} {ts : List Token} :
      Derives declared (.value .choice node) ts →
      Derives declared (.value .operand node) (.symbol .leftParen :: (ts ++ [.symbol .rightParen]))
  | call {name : String} {nodes : List Node} {ts : List Token} :
      Vocabulary.functionArity? name = some nodes.length →
      Derives declared (.arguments nodes) ts →
      Derives declared (.value .operand (.call name nodes))
        (.identifier name :: .symbol .leftParen :: (ts ++ [.symbol .rightParen]))
  | read {name : String} {index : Option Node} {property : Option String} {ts : List Token} :
      Vocabulary.isConstant name = false → name ∈ declared →
      Derives declared (.suffix index property) ts →
      Derives declared (.value .operand (.read name index property)) (.identifier name :: ts)
  | one {node : Node} {ts : List Token} :
      Derives declared (.value .choice node) ts → Derives declared (.list [node]) ts
  | more {node : Node} {nodes : List Node} {ts us : List Token} :
      Derives declared (.value .choice node) ts → Derives declared (.list nodes) us →
      Derives declared (.list (node :: nodes)) (ts ++ .symbol .comma :: us)
  | noArguments : Derives declared (.arguments []) []
  | someArguments {nodes : List Node} {ts : List Token} :
      Derives declared (.list nodes) ts → Derives declared (.arguments nodes) ts
  | bare : Derives declared (.suffix none none) []
  | property (property : String) :
      Derives declared (.suffix none (some property)) [.symbol .dot, .identifier property]
  /-- An index comes with a logic type. -/
  | indexed {index : Node} {ts : List Token} (property : String) :
      Derives declared (.value .choice index) ts →
      Derives declared (.suffix (some index) (some property))
        (.symbol .leftBracket :: (ts ++
          [.symbol .rightBracket, .symbol .dot, .identifier property]))

/-! ## Statements -/

end ChipScript.Grammar

/-- Whether a statement ends with a choice that could still take an `else`. -/
def ChipScript.Node.isOpen : ChipScript.Node → Bool
  | loop body => isOpen body
  | whileLoop _ body => isOpen body
  | branch _ _ none => true
  | branch _ _ (some elseBranch) => isOpen elseBranch
  | _ => false

namespace ChipScript.Grammar

/-- What tokens outside expressions may be. -/
inductive Sentence where
  | statement (node : Node)
  | sequence (nodes : List Node)

/-- Which tokens make up which statements, given the names declared before and whether there is a
    loop around, and which names are declared after them. -/
inductive Forms : (declared : List String) → (inLoop : Bool) → Sentence → List Token →
    (after : List String) → Prop where
  /-- A name is declared after its first value, by its only declaration. -/
  | declare {declared : List String} {inLoop : Bool} {name : String} {value : Node}
      {ts : List Token} :
      name ∉ declared → Vocabulary.isConstant name = false → Vocabulary.isCommand name = false →
      Derives declared (.value .choice value) ts →
      Forms declared inLoop (.statement (.declare name value))
        (.keyword .var :: .identifier name :: .symbol .assign :: (ts ++ [.symbol .semicolon]))
        (name :: declared)
  | assign {declared : List String} {inLoop : Bool} {name : String} {index : Option Node}
      {property : Option String} {value : Node} {ss ts : List Token} :
      name ∈ declared → Vocabulary.isCommand name = false →
      Derives declared (.suffix index property) ss → Derives declared (.value .choice value) ts →
      Forms declared inLoop (.statement (.assign name index property value))
        (.identifier name :: (ss ++ .symbol .assign :: (ts ++ [.symbol .semicolon]))) declared
  | loop {declared after : List String} {inLoop : Bool} {body : Node} {ts : List Token} :
      Forms declared true (.statement body) ts after →
      Forms declared inLoop (.statement (.loop body)) (.keyword .loop :: ts) after
  | whileLoop {declared after : List String} {inLoop : Bool} {condition body : Node}
      {cs ts : List Token} :
      Derives declared (.value .choice condition) cs →
      Forms declared true (.statement body) ts after →
      Forms declared inLoop (.statement (.whileLoop condition body))
        (.keyword .whileLoop :: .symbol .leftParen :: (cs ++ .symbol .rightParen :: ts)) after
  | branch {declared after : List String} {inLoop : Bool} {condition thenBranch : Node}
      {cs ts : List Token} :
      Derives declared (.value .choice condition) cs →
      Forms declared inLoop (.statement thenBranch) ts after →
      Forms declared inLoop (.statement (.branch condition thenBranch none))
        (.keyword .ifThen :: .symbol .leftParen :: (cs ++ .symbol .rightParen :: ts)) after
  /-- An `else` belongs to this choice only if the branch before it cannot take it. -/
  | branchElse {declared between after : List String} {inLoop : Bool}
      {condition thenBranch elseBranch : Node} {cs ts us : List Token} :
      Derives declared (.value .choice condition) cs →
      Forms declared inLoop (.statement thenBranch) ts between → thenBranch.isOpen = false →
      Forms between inLoop (.statement elseBranch) us after →
      Forms declared inLoop (.statement (.branch condition thenBranch (some elseBranch)))
        (.keyword .ifThen :: .symbol .leftParen ::
          (cs ++ .symbol .rightParen :: (ts ++ .keyword .otherwise :: us))) after
  /-- An `elif` is an `else` with a choice of its own. -/
  | branchElseIf {declared between after : List String} {inLoop : Bool}
      {condition thenBranch elseBranch : Node} {cs ts us : List Token} :
      Derives declared (.value .choice condition) cs →
      Forms declared inLoop (.statement thenBranch) ts between → thenBranch.isOpen = false →
      Forms between inLoop (.statement elseBranch) (.keyword .ifThen :: us) after →
      Forms declared inLoop (.statement (.branch condition thenBranch (some elseBranch)))
        (.keyword .ifThen :: .symbol .leftParen ::
          (cs ++ .symbol .rightParen :: (ts ++ .keyword .elseIf :: us))) after
  | leave {declared : List String} :
      Forms declared true (.statement (.control .leave)) [.keyword .leave, .symbol .semicolon]
        declared
  | again {declared : List String} :
      Forms declared true (.statement (.control .again)) [.keyword .again, .symbol .semicolon]
        declared
  | device {declared : List String} {inLoop : Bool} {ts : List Token} {config : DeviceConfig} :
      DeviceArguments ts config →
      Forms declared inLoop (.statement (.device config))
        (.keyword .device :: .symbol .leftParen ::
          (ts ++ [.symbol .rightParen, .symbol .semicolon])) declared
  | command {declared : List String} {inLoop : Bool} {kind : Vocabulary.Command} {nodes : List Node}
      {ts : List Token} :
      kind.arity = nodes.length → Derives declared (.arguments nodes) ts →
      Forms declared inLoop (.statement (.call kind.name nodes))
        (.identifier kind.name :: .symbol .leftParen ::
          (ts ++ [.symbol .rightParen, .symbol .semicolon])) declared
  | block {declared after : List String} {inLoop : Bool} {nodes : List Node} {ts : List Token} :
      Forms declared inLoop (.sequence nodes) ts after →
      Forms declared inLoop (.statement (.block nodes))
        (.symbol .leftBrace :: (ts ++ [.symbol .rightBrace])) after
  | done {declared : List String} {inLoop : Bool} :
      Forms declared inLoop (.sequence []) [] declared
  | next {declared between after : List String} {inLoop : Bool} {node : Node} {nodes : List Node}
      {ts us : List Token} :
      Forms declared inLoop (.statement node) ts between →
      Forms between inLoop (.sequence nodes) us after →
      Forms declared inLoop (.sequence (node :: nodes)) (ts ++ us) after

/-- Which tokens make up which script. -/
def Script (ts : List Token) (program : Program) : Prop :=
  ∃ declared, Forms [] false (.sequence program) ts declared

end ChipScript.Grammar
