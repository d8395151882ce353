import Lexing.Source.Slice
import Lexing.Source.ReadAhead
import Lexing.Source.Answers
import Lexing.Source.Rewrap
import Lexing.Source.Metered
import Lexing.Buffer.Client
import Lexing.Buffer.Offsets
import Lexing.Buffer.Settle
import Lexing.Buffer.Drain
import Lexing.Buffer.Look
import Lexing.Machine.Lexer
import Lexing.Machine.Drive
import Lexing.Machine.Reach
import Lexing.Grammar.Runs
import Lexing.Grammar.Countdown
import Lexing.Grammar.Expression.Segments
import Lexing.Grammar.Table
import Lexing.Proofs.Buffer.Conservation
import Lexing.Proofs.Buffer.Configuration
import Lexing.Proofs.Buffer.Faults
import Lexing.Proofs.Buffer.Ledger
import Lexing.Proofs.Expression.Run
import Lexing.Proofs.Expression.Ceiling
import Lexing.Proofs.Expression.Routines
import Lexing.Proofs.Machine.Drive
import Lexing.Proofs.Machine.Sources
import Lexing.Proofs.Machine.Defects
import Lexing.Proofs.Machine.Ends
import Lexing.Proofs.Machine.Eating
import Lexing.Proofs.Machine.Recovery
import Lexing.Proofs.Source.Flattening
import Lexing.Proofs.Runs.Split
import Lexing.Proofs.Machine.Failures
import Lexing.Proofs.Buffer.InStep
import Lexing.Proofs.Machine.Glances
import Lexing.Proofs.Machine.Texts
import Lexing.Proofs.Source.Accounting
import Lexing.Proofs.Buffer.Schedule
import Lexing.Proofs.Machine.Rewinding
import Lexing.Proofs.Machine.Taking
import Lexing.Proofs.Buffer.Arithmetic
