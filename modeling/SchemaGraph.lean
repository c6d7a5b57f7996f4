import SchemaGraph.Main
import SchemaGraph.Disk.Tree
import SchemaGraph.Graph.Visitor
import SchemaGraph.Json.Reader
import SchemaGraph.Proofs.Flatten.Idempotent
import SchemaGraph.Proofs.Option.Typed
import SchemaGraph.Proofs.FieldPaths
import SchemaGraph.Proofs.Schema.References
import SchemaGraph.Proofs.Schema.Faithful
import SchemaGraph.Proofs.FileOrder
import SchemaGraph.Proofs.Identity
import SchemaGraph.Proofs.Mirrored
import SchemaGraph.Proofs.Detected
import SchemaGraph.Proofs.Option.Collected
import SchemaGraph.Proofs.Option.Checked
import SchemaGraph.Proofs.Option.EveryOrder
import SchemaGraph.Proofs.Store.Paths
import SchemaGraph.Proofs.Unused
import SchemaGraph.Proofs.TargetFile
import SchemaGraph.Proofs.Store.Patched
import SchemaGraph.Proofs.Option.Accepted
import SchemaGraph.Proofs.Option.Indexed
import SchemaGraph.Proofs.MajorVersion
import SchemaGraph.Proofs.PathReport
