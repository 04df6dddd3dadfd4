import ShortNames.FileSystem
import ShortNames.Main
import ShortNames.Proofs.Binding
import ShortNames.Proofs.Convergence
import ShortNames.Proofs.Idempotence
import ShortNames.Proofs.Literals
import ShortNames.Proofs.HeaderLines
import ShortNames.Proofs.Trees
import ShortNames.Proofs.Volumes
import ShortNames.Proofs.FileSystems
import ShortNames.Proofs.Batches
import ShortNames.Proofs.Progress
import ShortNames.Proofs.Reruns
import ShortNames.Proofs.DryRuns
import ShortNames.Proofs.Arguments
import ShortNames.Proofs.Checks
import ShortNames.Proofs.Stores
import ShortNames.Proofs.TargetOrder
import ShortNames.Proofs.Spans
import ShortNames.Proofs.BareRuns
import ShortNames.Proofs.Histories
import ShortNames.Proofs.Precedence
import ShortNames.Proofs.NewImports
import ShortNames.Proofs.Leaves
import ShortNames.Proofs.SourceFiles
import ShortNames.Proofs.LineEndings
import ShortNames.Proofs.Comments
import ShortNames.Proofs.Borders
