import KeyCustody.Operation
import KeyCustody.Record.Basic

/-!
# The audit trail

Every gated call leaves one event, whatever its outcome.  A denial has a kind of event of
its own; every other outcome has the kind that belongs to the operation.
-/

namespace KeyCustody

/-- The kinds of events. -/
inductive EventType where
  | keyCreated
  | keyAccessed
  | keyDescribed
  | keyDeleted
  | keysListed
  | policyCreated
  | policyAssigned
  | policyDescribed
  | policyRead
  | policyDeleted
  | policiesListed
  | identityDescribed
  | identityDeleted
  | identitiesListed
  | enclaveCreated
  | enclaveDescribed
  | enclaveDeleted
  | enclavesListed
  | statusChecked
  | permissionDenied
deriving DecidableEq, Repr

namespace EventType

/-- All kinds of events. -/
def all : List EventType :=
  [.keyCreated, .keyAccessed, .keyDescribed, .keyDeleted, .keysListed, .policyCreated,
    .policyAssigned, .policyDescribed, .policyRead, .policyDeleted, .policiesListed,
    .identityDescribed, .identityDeleted, .identitiesListed, .enclaveCreated, .enclaveDescribed,
    .enclaveDeleted, .enclavesListed, .statusChecked, .permissionDenied]

/-- The name of a kind of event in records. -/
def name : EventType → String
  | .keyCreated => "key_created"
  | .keyAccessed => "key_accessed"
  | .keyDescribed => "key_described"
  | .keyDeleted => "key_deleted"
  | .keysListed => "keys_listed"
  | .policyCreated => "policy_created"
  | .policyAssigned => "policy_assigned"
  | .policyDescribed => "policy_described"
  | .policyRead => "policy_read"
  | .policyDeleted => "policy_deleted"
  | .policiesListed => "policies_listed"
  | .identityDescribed => "identity_described"
  | .identityDeleted => "identity_deleted"
  | .identitiesListed => "identities_listed"
  | .enclaveCreated => "enclave_created"
  | .enclaveDescribed => "enclave_described"
  | .enclaveDeleted => "enclave_deleted"
  | .enclavesListed => "enclaves_listed"
  | .statusChecked => "status_checked"
  | .permissionDenied => "permission_denied"

/-- The kind of event of a name. -/
def ofName? (s : String) : Option EventType :=
  all.find? fun t => t.name == s

theorem ofName?_name (t : EventType) : ofName? t.name = some t := by
  cases t <;> decide

/-- The kind of event of an operation that was not denied. -/
def ofOperation : Operation → EventType
  | .createKey _ => .keyCreated
  | .getKey _ => .keyAccessed
  | .describeKey _ => .keyDescribed
  | .deleteKey _ => .keyDeleted
  | .listKeys _ => .keysListed
  | .createPolicy _ => .policyCreated
  | .assignPolicy _ => .policyAssigned
  | .describePolicy _ => .policyDescribed
  | .readPolicy _ => .policyRead
  | .deletePolicy _ => .policyDeleted
  | .listPolicies _ => .policiesListed
  | .describeIdentity _ => .identityDescribed
  | .deleteIdentity _ => .identityDeleted
  | .listIdentities _ => .identitiesListed
  | .createEnclave _ => .enclaveCreated
  | .describeEnclave _ => .enclaveDescribed
  | .deleteEnclave _ => .enclaveDeleted
  | .listEnclaves _ => .enclavesListed
  | .status => .statusChecked

end EventType

/-- One entry of the audit trail. -/
structure AuditEvent where
  /-- Tells the event from all others. -/
  id : String
  time : Timestamp
  kind : EventType
  /-- The caller, absent if it is unknown. -/
  identity : Option String
  enclave : Option String
  /-- The request path of the operation. -/
  path : Option String
  success : Bool
  /-- The code and the text of the error. -/
  error : Option String
deriving DecidableEq

namespace AuditEvent

/-- An event of a kind, successful and about nothing yet. -/
def ofType (id : String) (time : Timestamp) (kind : EventType) : AuditEvent :=
  ⟨id, time, kind, none, none, none, true, none⟩

def withIdentity (e : AuditEvent) (i : Identity) : AuditEvent :=
  { e with identity := if i.isUnknown then none else some i.text }

def withEnclave (e : AuditEvent) (enclave : String) : AuditEvent :=
  { e with enclave := some enclave }

def withPath (e : AuditEvent) (path : String) : AuditEvent :=
  { e with path := some path }

/-- The event as a failure with this error. -/
def failed (e : AuditEvent) (error : String) : AuditEvent :=
  { e with success := false, error := some error }

/-- The event of an operation, with its request path. -/
def ofOperation (id : String) (time : Timestamp) (op : Operation) : AuditEvent :=
  (ofType id time (.ofOperation op)).withPath op.path

/-- How an event tells an error. -/
def errorText (e : Error) : String :=
  e.code ++ ": " ++ e.message

/-- The event of a call with this outcome, `none` for success. -/
def ofOutcome (id : String) (time : Timestamp) (caller : Identity) (enclave : String)
    (op : Operation) (failure : Option Error) : AuditEvent :=
  let event := match failure with
    | none => ofOperation id time op
    | some (.permissionDenied who path) =>
      ((ofType id time .permissionDenied).withPath op.path).failed
        (errorText (.permissionDenied who path))
    | some e => (ofOperation id time op).failed (errorText e)
  (event.withIdentity caller).withEnclave enclave

end AuditEvent

open Record

instance : Record EventType where
  toJson t := .ofText t.name
  ofJson? v := do EventType.ofName? (← name? v)

instance : Record AuditEvent where
  toJson e := .object <|
    member "event_id" (.ofText e.id) ++
    member "timestamp" (timeJson e.time) ++
    member "event_type" (.ofText e.kind.name) ++
    member "identity" (nullableJson e.identity) ++
    member "enclave" (nullableJson e.enclave) ++
    member "path" (nullableJson e.path) ++
    member "success" (.bool e.success) ++
    member "error" (nullableJson e.error)
  ofJson? v := do
    match ← v.fields? 8 ["event_id", "timestamp", "event_type", "identity", "enclave", "path",
      "success", "error"] with
    | [id, time, kind, identity, enclave, path, success, error] =>
      let id ← required? Json.text? id
      let time ← required? time? time
      let kind ← required? ofJson? kind
      let identity ← orDefault? none (nullable? Json.text?) identity
      let enclave ← orDefault? none (nullable? Json.text?) enclave
      let path ← orDefault? none (nullable? Json.text?) path
      let success ← required? bool? success
      let error ← orDefault? none (nullable? Json.text?) error
      pure ⟨id, time, kind, identity, enclave, path, success, error⟩
    | _ => none

end KeyCustody
