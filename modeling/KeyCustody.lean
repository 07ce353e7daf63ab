import KeyCustody.Calls
import KeyCustody.Faults
import KeyCustody.Interleaving
import KeyCustody.Proofs.Authorization
import KeyCustody.Proofs.Escalation
import KeyCustody.Proofs.Isolation
import KeyCustody.Proofs.Durability
import KeyCustody.Glob.Engine
import KeyCustody.Proofs.Overwriting
import KeyCustody.Proofs.Patterns
import KeyCustody.Proofs.WellFormed
import KeyCustody.Proofs.Integrity
import KeyCustody.Proofs.Reports
import KeyCustody.Proofs.PolicyMeaning
import KeyCustody.Proofs.SelfDescription
import KeyCustody.Proofs.KeyRuns
import KeyCustody.Proofs.Lifecycle
import KeyCustody.Proofs.SingleRecords
import KeyCustody.Proofs.Surfacing
import KeyCustody.Proofs.Confinement
import KeyCustody.Proofs.BackendIndependence
import KeyCustody.Proofs.Coverage
import KeyCustody.Proofs.Formats
import KeyCustody.Proofs.Converging
import KeyCustody.Store.Writers
import KeyCustody.Proofs.Racing
import KeyCustody.Proofs.Views
import KeyCustody.Proofs.DirectoryMap
import KeyCustody.Proofs.Paging
import KeyCustody.Proofs.Draining
import KeyCustody.Proofs.Ancestry
import KeyCustody.Proofs.Trail
import KeyCustody.Proofs.LostDirectory
import KeyCustody.Proofs.FreshStart
import KeyCustody.Proofs.Deadlines
import KeyCustody.Proofs.ForeignFiles
import KeyCustody.Proofs.OwnPermissions
import KeyCustody.Proofs.Assignees
import KeyCustody.Proofs.ExactRules
import KeyCustody.Proofs.SideBySide
import KeyCustody.Proofs.UsableSettings
import KeyCustody.Proofs.BulkAssignment
import KeyCustody.Proofs.StorageNames
