import Formula.Expr
import Formula.Session
import Formula.Proofs.Agreement
import Formula.Proofs.Continuation
import Formula.Proofs.Spans
import Formula.Proofs.Rendering
import Formula.Proofs.Lifecycle
import Formula.Proofs.Binding
import Formula.Proofs.Building
import Formula.Proofs.StackDepth
import Formula.Proofs.Slots
import Formula.Proofs.Marshalling
import Formula.Proofs.Flattening
import Formula.Proofs.IntegerLiterals
import Formula.Proofs.Composition
import Formula.Proofs.Spelling
import Formula.Proofs.Failure
import Formula.Proofs.Registration
import Formula.Proofs.WrittenIntegers
import Formula.Proofs.IntegerArithmetic
import Formula.Proofs.Progress
import Formula.Proofs.Comparison
import Formula.Proofs.Finalization
import Formula.Proofs.DeclarationOrder
import Formula.Proofs.DecimalLiterals
import Formula.Proofs.Encodings
import Formula.Proofs.NodeCount
import Formula.Proofs.EmbeddedTexts
import Formula.Proofs.Representation
