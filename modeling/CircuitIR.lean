import CircuitIR.Circuit.Basic
import CircuitIR.Circuit.Depth
import CircuitIR.Circuit.Passes
import CircuitIR.Circuit.Summary
import CircuitIR.Circuit.Unitary
import CircuitIR.Datum.Basic
import CircuitIR.Datum.Conversion
import CircuitIR.Datum.Equality
import CircuitIR.Datum.Text
import CircuitIR.Decimal.Digits
import CircuitIR.Decimal.Reading
import CircuitIR.Decimal.Text
import CircuitIR.Expr.Approximation
import CircuitIR.Expr.Basic
import CircuitIR.Expr.Circular
import CircuitIR.Expr.Exponential
import CircuitIR.Expr.Facts
import CircuitIR.Expr.Number
import CircuitIR.Expr.Order
import CircuitIR.Expr.Parts
import CircuitIR.Expr.Power
import CircuitIR.Expr.Printer
import CircuitIR.Expr.Product
import CircuitIR.Expr.Rounding
import CircuitIR.Expr.Rules
import CircuitIR.Expr.Simplify
import CircuitIR.Expr.Substitution
import CircuitIR.Expr.Sum
import CircuitIR.Fault
import CircuitIR.Formula.Lexeme
import CircuitIR.Formula.Meaning
import CircuitIR.Formula.Names
import CircuitIR.Formula.Reader
import CircuitIR.Formula.Expansion
import CircuitIR.Formula.Syntax
import CircuitIR.Formula.Value
import CircuitIR.Gate.Controlled
import CircuitIR.Gate.Decomposition
import CircuitIR.Gate.Unitary
import CircuitIR.Log.Entry
import CircuitIR.Log.Numbering
import CircuitIR.Log.Setup
import CircuitIR.Matrix.Bits
import CircuitIR.Matrix.Dense
import CircuitIR.Matrix.Embedding
import CircuitIR.Matrix.Product
import CircuitIR.Matrix.Tensor
import CircuitIR.Number.Binary
import CircuitIR.Number.Complex
import CircuitIR.Number.Elementary
import CircuitIR.Number.Scalar
import CircuitIR.Operation.Basic
import CircuitIR.Operation.Fields
import CircuitIR.Operation.Involved
import CircuitIR.Operation.Remapping
import CircuitIR.Operation.Substitution
import CircuitIR.Operation.Validation
import CircuitIR.Parameter
import CircuitIR.Record.Decoding
import CircuitIR.Record.Encoding
import CircuitIR.Register.Basic
import CircuitIR.Session.Construction
import CircuitIR.Session.Function
import CircuitIR.Session.Method
import CircuitIR.Session.Operator
import CircuitIR.Session.Run
import CircuitIR.Session.Store
import CircuitIR.Text.CharacterClass
import CircuitIR.Text.CharacterTables
import CircuitIR.Text.Quoted
import CircuitIR.Proofs.Assignment
import CircuitIR.Proofs.TensorAxes
import CircuitIR.Proofs.RealScalar
import CircuitIR.Proofs.Wave
import CircuitIR.Proofs.GateMatrix
import CircuitIR.Proofs.Evolution
import CircuitIR.Proofs.GateAction
import CircuitIR.Proofs.TouchedQubits
import CircuitIR.Proofs.InteractionDecomposition
import CircuitIR.Proofs.ControlledDecomposition
import CircuitIR.Proofs.BitReversal
import CircuitIR.Proofs.FourierDecomposition
import CircuitIR.Proofs.CircuitDecomposition
import CircuitIR.Proofs.IndexRenaming
import CircuitIR.Proofs.Table
import CircuitIR.Proofs.DepthRenaming
import CircuitIR.Proofs.CircuitRenaming
import CircuitIR.Proofs.IntegerText
import CircuitIR.Proofs.SelfEquality
import CircuitIR.Proofs.RecordFields
import CircuitIR.Proofs.RecordRoundTrip
import CircuitIR.Proofs.WellFormed
import CircuitIR.Proofs.SubstitutionOutcome
import CircuitIR.Proofs.CallTokens
import CircuitIR.Proofs.SymbolTable
import CircuitIR.Proofs.CallSyntax
import CircuitIR.Proofs.ReadingCalls
import CircuitIR.Proofs.SuccessfulRemapping
import CircuitIR.Proofs.EmittedGates
import CircuitIR.Proofs.RenamedDecompositions
import CircuitIR.Proofs.DecomposableCircuits
import CircuitIR.Proofs.PassCommutation
import CircuitIR.Proofs.FreeSymbols
import CircuitIR.Proofs.ReachableOperations
import CircuitIR.Proofs.Unitarity
import CircuitIR.Proofs.IndependentOperations
import CircuitIR.Proofs.TableRemapping
import CircuitIR.Proofs.SubstitutionLocality
import CircuitIR.Proofs.MissingSymbols
import CircuitIR.Proofs.EvaluationFaults
import CircuitIR.Proofs.NewObjects
import CircuitIR.Proofs.RegisterSubstitution
import CircuitIR.Proofs.RemappingOutcome
import CircuitIR.Proofs.DependencyChains
import CircuitIR.Proofs.DepthOutcome
import CircuitIR.Proofs.DecompositionOutcome
import CircuitIR.Proofs.MatrixEmbedding
import CircuitIR.Proofs.IntegerFrames
import CircuitIR.Proofs.MatrixOutcome
import CircuitIR.Proofs.FrameChange
import CircuitIR.Proofs.LexemeSegments
import CircuitIR.Proofs.AttributeAccess
import CircuitIR.Proofs.DecomposedShape
import CircuitIR.Proofs.InverseFourier
import CircuitIR.Proofs.QubitPermutations
import CircuitIR.Proofs.DifferenceTexts
import CircuitIR.Proofs.IdentifierTexts
import CircuitIR.Proofs.CircuitIdentities
import CircuitIR.Proofs.ActionEffects
import CircuitIR.Proofs.ConfinedCalls
import CircuitIR.Proofs.SessionEffects
import CircuitIR.Proofs.Derivations
import CircuitIR.Proofs.Isolation
import CircuitIR.Proofs.CallNumbers
import CircuitIR.Proofs.BuiltGates
import CircuitIR.Proofs.GeneratorSizes
import CircuitIR.Proofs.RejectedQubits
import CircuitIR.Proofs.ReversalPermutation
