import Trellis.Schema.Loader
import Trellis.Selection
import Trellis.Rendered.Markup
import Trellis.Rendered.Samples
import Trellis.View
import Trellis.Proofs.Build.Unrolling
import Trellis.Proofs.ClassList
import Trellis.Proofs.Schema.Reordering
import Trellis.Proofs.Scope.Adding
import Trellis.Proofs.Scope.Changes
import Trellis.Proofs.Scope.Sweeping
import Trellis.Proofs.Scope.WellFormed
import Trellis.Proofs.Script.Compound
import Trellis.Proofs.Script.FirstUse
import Trellis.Proofs.Script.Private
import Trellis.Proofs.Script.Quotation
import Trellis.Proofs.Script.Severed
import Trellis.Proofs.Script.Stores
import Trellis.Proofs.Value.Serializers
import Trellis.Proofs.View.Ancestry
import Trellis.Proofs.View.Buckets
import Trellis.Proofs.View.Clean
import Trellis.Proofs.View.Denied
import Trellis.Proofs.View.Faults
import Trellis.Proofs.View.Frames
import Trellis.Proofs.View.Freshness
import Trellis.Proofs.View.Hiding
import Trellis.Proofs.View.Lexical
import Trellis.Proofs.View.Dirty
import Trellis.Proofs.View.Recovery
import Trellis.Proofs.View.Slots
import Trellis.Proofs.View.Survival
import Trellis.Proofs.Path
import Trellis.Proofs.Rendered.Markup
