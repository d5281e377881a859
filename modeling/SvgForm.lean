import SvgForm.Document.Session
import SvgForm.Font.Cache
import SvgForm.Form
import SvgForm.Marker.Detect
import SvgForm.Patch.Replay
import SvgForm.Proofs.Document.Copy
import SvgForm.Proofs.Document.Listing
import SvgForm.Proofs.Document.Move
import SvgForm.Proofs.Font.Cache
import SvgForm.Proofs.Font.Inherited
import SvgForm.Proofs.Form.Identity
import SvgForm.Proofs.Form.Record
import SvgForm.Proofs.Identifier.Concatenation
import SvgForm.Proofs.Identifier.Insertion
import SvgForm.Proofs.Identifier.RoundTrip
import SvgForm.Proofs.Identity.Addition
import SvgForm.Proofs.Identity.Address
import SvgForm.Proofs.Identity.Occurrences
import SvgForm.Proofs.Marker.Detection
import SvgForm.Proofs.Marker.Line
import SvgForm.Proofs.Moment.Concatenation
import SvgForm.Proofs.Moment.RoundTrip
import SvgForm.Proofs.Patch.Reload
import SvgForm.Proofs.Patch.Skipped
import SvgForm.Proofs.Patch.Twice
import SvgForm.Proofs.Reference.Agreement
import SvgForm.Proofs.Reference.Range
import SvgForm.Proofs.Rule.Padding
import SvgForm.Proofs.Style.Property
import SvgForm.Render.Basic
import SvgForm.Proofs.Patch.Outcome
