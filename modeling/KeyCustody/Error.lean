import KeyCustody.Text.Quoted

/-!
# Errors

Every call of the custody service fails with one of the causes below.  A cause has a
stable code for programs (`Error.code`) and a text for people (`Error.message`).  The
reasons for refusing an argument form a type of their own, `Refusal`.
-/

namespace KeyCustody

open Text (quoted)

/-- Names and identities hold at most this many octets of UTF-8. -/
def maxNameLength : Nat := 255

/-- Why an argument is refused. -/
inductive Refusal where
  /-- A name of this kind is empty. -/
  | emptyName (kind : String)
  | longName (kind : String)
  /-- The name holds a slash or a control character. -/
  | illegalName (kind name : String)
  /-- The name holds a character of patterns. -/
  | patternName (kind name : String)
  /-- The enclave name is one dot or two dots. -/
  | reservedEnclave (name : String)
  /-- The enclave name leaves its alphabet. -/
  | foreignEnclave (name : String)
  | unknownIdentity
  | longIdentity
  | illegalIdentity (text : String)
  /-- A policy holds an empty rule in the list of this name. -/
  | emptyRule (list : String)
  /-- No store can address the empty name. -/
  | emptyKey
  /-- A namespace holds a character of patterns. -/
  | patternNamespace (space : String)
  /-- The name is too long for a directory. -/
  | longFileName (name : String)
  | assignToUnknown
  | assignToAdmin
  | assignToSelf
  | deleteDefault (name : String)
  | unknownBackend (value : String)
  | patternKeyPrefix (value : String)
  | timeoutNotNumber (value : String)
  | timeoutZero
  | unknownLogFormat (value : String)
  /-- A reason given by the surroundings. -/
  | other (text : String)
deriving DecidableEq, Repr

/-- The text of a refusal. -/
def Refusal.message : Refusal → String
  | .emptyName kind => String.join [kind, " name must not be empty"]
  | .longName kind => String.join [kind, " name exceeds ", toString maxNameLength, " bytes"]
  | .illegalName kind name =>
    String.join [kind, " name ", quoted name, " contains an illegal character"]
  | .patternName kind name =>
    String.join [kind, " name ", quoted name, " contains a pattern character"]
  | .reservedEnclave name => String.join ["enclave name ", quoted name, " is reserved"]
  | .foreignEnclave name =>
    String.join ["enclave name ", quoted name,
      " may only contain letters, digits, '.', '_' and '-'"]
  | .unknownIdentity => "identity is unknown"
  | .longIdentity => String.join ["identity exceeds ", toString maxNameLength, " bytes"]
  | .illegalIdentity text =>
    String.join ["identity ", quoted text, " contains an illegal character"]
  | .emptyRule list => String.join ["empty ", list, " rule"]
  | .emptyKey => "key name must not be empty"
  | .patternNamespace space =>
    String.join ["store prefix ", quoted space, " contains a pattern character"]
  | .longFileName name =>
    String.join [quoted name, " cannot be stored as a file name: File name too long (os error 36)"]
  | .assignToUnknown => "a policy cannot be assigned to the unknown identity"
  | .assignToAdmin => "a policy cannot be assigned to the admin identity"
  | .assignToSelf => "a caller cannot assign a policy to itself"
  | .deleteDefault name => String.join ["the default enclave ", quoted name, " cannot be deleted"]
  | .unknownBackend value =>
    String.join ["KMS_BACKEND: unknown backend ", quoted value, " (expected memory, fs or redb)"]
  | .patternKeyPrefix value =>
    String.join ["KMS_KEY_PREFIX: prefix ", quoted value, " contains a pattern character"]
  | .timeoutNotNumber value =>
    String.join ["KMS_OP_TIMEOUT_SECS: ", quoted value, " is not a number"]
  | .timeoutZero => "KMS_OP_TIMEOUT_SECS must be positive"
  | .unknownLogFormat value =>
    String.join ["LOG_FORMAT: unknown format ", quoted value, " (expected json or pretty)"]
  | .other text => text

/-- Why a call fails. -/
inductive Error where
  /-- The name to create is taken. -/
  | alreadyExists (name : String)
  /-- The thing was never created, or it is deleted. -/
  | notFound (what : String)
  /-- The identity has no policy in the enclave. -/
  | unassigned (who : String)
  /-- The store cannot be reached. -/
  | unreachable (why : String)
  /-- The store rejects our credentials. -/
  | unauthorized (why : String)
  /-- The call's context ended. -/
  | canceled
  | invalid (why : Refusal)
  /-- The decision on the request was to deny it. -/
  | permissionDenied (identity path : String)
  /-- Identities still have the policy. -/
  | policyInUse (policy : String) (identities : Nat)
  /-- The octets stored under the name are no record of the kind asked for. -/
  | corrupt (record : String)
  | serialization (why : String)
  | internal (why : String)
deriving DecidableEq, Repr

namespace Error

/-- The code of an error, which never changes. -/
def code : Error → String
  | .alreadyExists _ => "already_exists"
  | .notFound _ => "not_found"
  | .unassigned _ => "unassigned"
  | .unreachable _ => "unreachable"
  | .unauthorized _ => "unauthorized"
  | .canceled => "canceled"
  | .invalid _ => "invalid_argument"
  | .permissionDenied _ _ => "permission_denied"
  | .policyInUse _ _ => "policy_in_use"
  | .corrupt _ => "serialization_error"
  | .serialization _ => "serialization_error"
  | .internal _ => "internal_error"

/-- The text of an error. -/
def message : Error → String
  | .alreadyExists name => String.join ["already exists: ", name]
  | .notFound what => String.join ["not found: ", what]
  | .unassigned who => String.join ["identity ", who, " has no policy assigned"]
  | .unreachable why => String.join ["backend unreachable: ", why]
  | .unauthorized why => String.join ["backend authentication failed: ", why]
  | .canceled => "operation canceled"
  | .invalid why => String.join ["invalid argument: ", why.message]
  | .permissionDenied identity path =>
    String.join ["permission denied: ", identity, " may not access ", path]
  | .policyInUse policy identities =>
    String.join ["policy ", policy, " is still assigned to ", toString identities, " identities"]
  | .corrupt record =>
    String.join ["serialization error: record ", quoted record, " is corrupt: it does not decode"]
  | .serialization why => String.join ["serialization error: ", why]
  | .internal why => String.join ["internal error: ", why]

/-- The call stopped because its context ended. -/
def isCanceled (e : Error) : Bool := e == .canceled

def isNotFound : Error → Bool
  | .notFound _ => true
  | _ => false

def isAlreadyExists : Error → Bool
  | .alreadyExists _ => true
  | _ => false

end Error

end KeyCustody
