import Expunge.Column.Cast
import Expunge.ColumnType.Grammar
import Expunge.Handles
import Expunge.Job.Concurrent
import Expunge.Main
import Expunge.Proofs.ColumnType.Grammar
import Expunge.Proofs.Handles
import Expunge.Proofs.Job.Accounting
import Expunge.Proofs.Job.Coverage
import Expunge.Proofs.Job.Proper
import Expunge.Proofs.Job.Typing
import Expunge.Proofs.Match.Literal
import Expunge.Proofs.Program.Compile
import Expunge.Proofs.RoundTrip
import Expunge.Source.Faulty
import Expunge.Transport.Breaking
import Expunge.Proofs.Source
import Expunge.Proofs.Job.Sources
import Expunge.Proofs.Job.Calls
import Expunge.Proofs.Classification.Failure
import Expunge.Proofs.Classification.Insertion
import Expunge.Proofs.Classification.Keys
import Expunge.Proofs.Column.Integers
import Expunge.Proofs.Job.Scope
import Expunge.Proofs.Column.Edits
import Expunge.Proofs.Expansion.Keys
import Expunge.Proofs.Expansion.Pages
import Expunge.Proofs.Job.Pages
import Expunge.Proofs.ColumnType.OuterCommas
import Expunge.Proofs.Transport.Lines
import Expunge.Proofs.Match.Shape
