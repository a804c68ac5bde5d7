import Idl.Proofs.Course.Agreement
import Idl.Proofs.Course.Arrangement
import Idl.Proofs.Course.Block
import Idl.Proofs.Course.Comment
import Idl.Proofs.Course.Complete
import Idl.Proofs.Course.Default
import Idl.Proofs.Course.Depth
import Idl.Proofs.Course.Duplicate
import Idl.Proofs.Course.Examination
import Idl.Proofs.Course.Filter
import Idl.Proofs.Course.Grounded
import Idl.Proofs.Course.Integrity
import Idl.Proofs.Course.Interning
import Idl.Proofs.Course.Location
import Idl.Proofs.Course.Lookup
import Idl.Proofs.Course.Qualified
import Idl.Proofs.Course.Queue
import Idl.Proofs.Course.Record
import Idl.Proofs.Course.Recovery
import Idl.Proofs.Course.Sharing
import Idl.Proofs.Course.Specimen
import Idl.Proofs.Course.Stray
import Idl.Proofs.Course.Success
import Idl.Proofs.Course.Termination
import Idl.Proofs.Course.Traversal
import Idl.Proofs.Course.Waiting
import Idl.Proofs.Document.Composition
import Idl.Proofs.Draft.Described
import Idl.Proofs.Draft.Outcome
import Idl.Proofs.Message.Text
import Idl.Proofs.Source.Relative
import Idl.Proofs.Text.Index
import Idl.Proofs.Token.Layout
import Idl.Proofs.Token.Quoted
