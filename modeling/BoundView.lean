import BoundView.Main
import BoundView.Files.Tree
import BoundView.Reactive.Run
import BoundView.Proofs.Session
import BoundView.Proofs.Reactive.Nesting
import BoundView.Proofs.Model.Independence
import BoundView.Proofs.Model.Spelling
import BoundView.Proofs.Model.Guard
import BoundView.Proofs.Model.Bounds
import BoundView.Proofs.Schema.Location
import BoundView.Proofs.Schema.Unfolding
import BoundView.Proofs.Schema.Closed
import BoundView.Proofs.Schema.Endless
import BoundView.Proofs.Schema.Normal
import BoundView.Proofs.Schema.Smallest
import BoundView.Proofs.Schema.Targets
import BoundView.Proofs.Schema.Summary
import BoundView.Proofs.Expr.Complete
import BoundView.Proofs.Expr.Tiling
import BoundView.Proofs.Pointer.RoundTrip
import BoundView.Proofs.Document.Decoders
import BoundView.Proofs.InPlace
import BoundView.Proofs.Value.Written
import BoundView.Proofs.View.Gallery
import BoundView.Proofs.View.Vocabulary
import BoundView.Proofs.View.Static
