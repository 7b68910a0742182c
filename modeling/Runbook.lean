import Runbook.Pipeline.Search
import Runbook.Data.Model
import Runbook.Data.Options
import Runbook.Repository
import Runbook.Proofs.Document.Canonical
import Runbook.Proofs.Document.Resave
import Runbook.Proofs.Document.Alone
import Runbook.Proofs.Document.Arrangement
import Runbook.Proofs.Document.Brackets
import Runbook.Proofs.Document.Body
import Runbook.Proofs.Document.Failure
import Runbook.Proofs.Document.Surroundings
import Runbook.Proofs.Pipeline.Rewriting
import Runbook.Proofs.Document.Gaps
import Runbook.Proofs.Document.Grouping
import Runbook.Proofs.Document.BareItem
import Runbook.Proofs.Pipeline.Interruption
import Runbook.Proofs.Data.Exchange
import Runbook.Proofs.Document.Blanks
import Runbook.Proofs.Document.Rejection
import Runbook.Proofs.Document.Registration
import Runbook.Proofs.Shell.Offsets
import Runbook.Proofs.Shell.Succession
import Runbook.Proofs.Shell.Continuation
import Runbook.Proofs.Document.Offsets
import Runbook.Proofs.Pipeline.Offsets
import Runbook.Proofs.Document.Safety
import Runbook.Proofs.Pipeline.Values
import Runbook.Proofs.Document.Continuing
import Runbook.Proofs.Document.Caret
import Runbook.Proofs.Document.DefaultLines
import Runbook.Proofs.Document.Appending
import Runbook.Proofs.Document.Annotation
import Runbook.Proofs.Files.Sniffing
import Runbook.Proofs.Document.Forms
import Runbook.Proofs.Pipeline.Trees
import Runbook.Proofs.Document.Recursion
