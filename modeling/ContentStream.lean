import ContentStream.Main
import ContentStream.Operator.StandIn
import ContentStream.Proofs.Command.Lines
import ContentStream.Proofs.Document.Contents
import ContentStream.Proofs.Document.Reach
import ContentStream.Proofs.Interpreter.Colors
import ContentStream.Proofs.Interpreter.Dispatch
import ContentStream.Proofs.Interpreter.Formatted
import ContentStream.Proofs.Interpreter.Integers
import ContentStream.Proofs.Interpreter.Lines
import ContentStream.Proofs.Interpreter.Mirror
import ContentStream.Proofs.Interpreter.Overrides
import ContentStream.Proofs.Interpreter.Parameters
import ContentStream.Proofs.Interpreter.Safety
import ContentStream.Proofs.Interpreter.Scopes
import ContentStream.Proofs.Interpreter.Shorthand
import ContentStream.Proofs.Interpreter.Trailing
import ContentStream.Proofs.Operation.Accepted
import ContentStream.Proofs.Operation.Boundary
import ContentStream.Proofs.Operation.Layout
import ContentStream.Proofs.Operation.Offsets
import ContentStream.Proofs.Operation.Reals
import ContentStream.Proofs.Operation.Spelling
import ContentStream.Proofs.PageRange.Selection
