import RpnY86.Main
import RpnY86.Y86.Session
import RpnY86.Operation.Evaluation
import RpnY86.Text.Glyph.Lemmas
import RpnY86.Proofs.Y86.Fetch
import RpnY86.Proofs.Y86.Iterate
import RpnY86.Proofs.Y86.Signed
import RpnY86.Proofs.Y86.Words
import RpnY86.Proofs.Code.Placed
import RpnY86.Proofs.Code.Traces
import RpnY86.Proofs.Code.Aside
import RpnY86.Proofs.Code.Straight
import RpnY86.Proofs.Code.Multiply
import RpnY86.Proofs.Code.Divide
import RpnY86.Proofs.Code.Division
import RpnY86.Proofs.Code.Embedded
import RpnY86.Proofs.Code.Simulation
import RpnY86.Proofs.Code.Ending
import RpnY86.Proofs.Assembly.Reading
import RpnY86.Proofs.Code.Legible
import RpnY86.Proofs.Code.Spelling
import RpnY86.Proofs.Assembly.Chunks
import RpnY86.Proofs.Code.Operands
import RpnY86.Proofs.Code.Passes
import RpnY86.Proofs.Code.Labels
import RpnY86.Proofs.Code.Layout
import RpnY86.Proofs.Code.Assembled
import RpnY86.Proofs.Code.Loaded
import RpnY86.Proofs.Code.Running
import RpnY86.Proofs.Code.Transfer
import RpnY86.Proofs.Numeral.Integer
import RpnY86.Proofs.Token.Words
import RpnY86.Proofs.Compile.Stages
import RpnY86.Proofs.Compile.Acceptance
import RpnY86.Proofs.Compile.Correctness
import RpnY86.Proofs.Compile.Safety
import RpnY86.Proofs.Compile.Boundaries
import RpnY86.Proofs.Compile.Independence
import RpnY86.Proofs.Compile.Memories
import RpnY86.Proofs.Text.Decoding
import RpnY86.Proofs.Token.Runs
import RpnY86.Proofs.Y86.Exact
import RpnY86.Proofs.Y86.Extension
import RpnY86.Proofs.Y86.Endless
import RpnY86.Proofs.Y86.Consistent
import RpnY86.Proofs.Assembly.Meaning
import RpnY86.Proofs.Assembly.Offsets
import RpnY86.Proofs.Command.Worlds
import RpnY86.Proofs.Command.Commands
import RpnY86.Proofs.Command.Invocations
import RpnY86.Proofs.Command.Files
import RpnY86.Proofs.Command.OutputSafety
import RpnY86.Proofs.Command.Agreement
import RpnY86.Proofs.Code.Multiplication
import RpnY86.Proofs.Token.Complaints
import RpnY86.Proofs.Y86.Atomic
import RpnY86.Proofs.Y86.Limits
import RpnY86.Proofs.Command.Reports
import RpnY86.Proofs.Assembly.Slices
import RpnY86.Proofs.Assembly.Outcomes
import RpnY86.Proofs.Code.Literals
import RpnY86.Proofs.Code.Hygiene
import RpnY86.Proofs.Assembly.Identifiers
import RpnY86.Proofs.Code.Guards
import RpnY86.Proofs.Assembly.Writing
import RpnY86.Proofs.Assembly.Renaming
