import ChipScript.Main
import ChipScript.Proofs.Chip.History
import ChipScript.Proofs.Grammar.Completeness
import ChipScript.Proofs.Node.PrinterRoundTrip
import ChipScript.Proofs.Semantics.Script
import ChipScript.Proofs.Semantics.Machine
import ChipScript.Proofs.Chip.Extension
import ChipScript.Proofs.Chip.Inversion
import ChipScript.Proofs.Refinement.Basic
import ChipScript.Proofs.Refinement.Expression
import ChipScript.Proofs.Refinement.Condition
import ChipScript.Proofs.Refinement.Statement
import ChipScript.Proofs.Semantics.Behaviour
import ChipScript.Proofs.Refinement.Program
import ChipScript.Proofs.Chip.Writes
import ChipScript.Proofs.Chip.Listing
import ChipScript.Proofs.Chip.Jumps
import ChipScript.Proofs.Node.WellFormed
import ChipScript.Proofs.Chip.Refusals
import ChipScript.Proofs.Number.Comparison
import ChipScript.Proofs.Semantics.Processor
import ChipScript.Proofs.Processor.Condition
import ChipScript.Proofs.Chip.Ownership
import ChipScript.Proofs.Processor.Variables
import ChipScript.Proofs.Node.NormalForm
import ChipScript.Proofs.Number.ShortestLiteral
import ChipScript.Proofs.Node.Folding
import ChipScript.Proofs.Semantics.Effects
import ChipScript.Proofs.Node.SimplifiedEffects
import ChipScript.Proofs.Chip.Names
import ChipScript.Proofs.Chip.FoldedNames
import ChipScript.Proofs.Token.Partition
import ChipScript.Proofs.Token.Layout
import ChipScript.Proofs.Parser.Positions
import ChipScript.Proofs.Chip.Need
import ChipScript.Proofs.Chip.Pressure
import ChipScript.Proofs.Node.DanglingElse
import ChipScript.Proofs.Node.SimplifiedText
import ChipScript.Proofs.Processor.Assignment
import ChipScript.Proofs.Node.Legible
import ChipScript.Proofs.Chip.Legible
import ChipScript.Proofs.Chip.Assembly
import ChipScript.Proofs.CommandLine
import ChipScript.Proofs.Node.SimplifiedValue
import ChipScript.Proofs.Grammar.Numbers
import ChipScript.Proofs.Node.DeviceText
import ChipScript.Proofs.Chip.Exhaustion
import ChipScript.Proofs.Number.ShortestDigits
import ChipScript.Proofs.Node.NumberText
import ChipScript.Proofs.Parser.Progress
import ChipScript.Proofs.Parser.Reading
import ChipScript.Proofs.Parser.Termination
import ChipScript.Proofs.Parser.Requests
