import Offside.Main
import Offside.Proofs.Audit.Atomicity
import Offside.Proofs.Audit.Convergence
import Offside.Proofs.Audit.Exactness
import Offside.Proofs.Audit.Harmless
import Offside.Proofs.Audit.Rooted
import Offside.Proofs.Command.Listings
import Offside.Proofs.Command.Session
import Offside.Proofs.Scan.Blame
import Offside.Proofs.Scan.BlankLines
import Offside.Proofs.Scan.Brackets
import Offside.Proofs.Scan.Classification
import Offside.Proofs.Scan.CommentLines
import Offside.Proofs.Scan.Comments
import Offside.Proofs.Scan.CommentsAsBlanks
import Offside.Proofs.Scan.Decoding
import Offside.Proofs.Scan.EqualMargins
import Offside.Proofs.Scan.Failure
import Offside.Proofs.Scan.Guarded.Safety
import Offside.Proofs.Scan.Headers
import Offside.Proofs.Scan.Incremental
import Offside.Proofs.Scan.Indentation
import Offside.Proofs.Scan.JoinedLines
import Offside.Proofs.Scan.Keywords
import Offside.Proofs.Scan.LearnedWidth
import Offside.Proofs.Scan.LineBreaks
import Offside.Proofs.Scan.LineEndings
import Offside.Proofs.Scan.LoneLines
import Offside.Proofs.Scan.Positions
import Offside.Proofs.Scan.RoundTrip
import Offside.Proofs.Scan.Tiling
import Offside.Proofs.Scope.Access
import Offside.Proofs.Scope.Blocks
import Offside.Proofs.Scope.Directories
import Offside.Proofs.Scope.Endless
import Offside.Proofs.Scope.Listing
import Offside.Proofs.Scope.NewBinding
import Offside.Proofs.Scope.Update
