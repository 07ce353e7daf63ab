import KeyCustody.Identity

/-!
# Operations

A gated request is reduced to an operation.  Its path is what the rules of policies are
matched against.  Operations on enclaves themselves, and the question for the store's
health, are authorized in the default enclave.
-/

namespace KeyCustody

/-- A request that needs permission. -/
inductive Operation where
  | createKey (name : String)
  | getKey (name : String)
  | describeKey (name : String)
  | deleteKey (name : String)
  | listKeys (pattern : String)
  | createPolicy (name : String)
  | assignPolicy (name : String)
  | describePolicy (name : String)
  | readPolicy (name : String)
  | deletePolicy (name : String)
  | listPolicies (pattern : String)
  | describeIdentity (identity : Identity)
  | deleteIdentity (identity : Identity)
  | listIdentities (pattern : String)
  | createEnclave (name : String)
  | describeEnclave (name : String)
  | deleteEnclave (name : String)
  | listEnclaves (pattern : String)
  | status
deriving DecidableEq, Repr

namespace Operation

/-- The request path. -/
def path : Operation → String
  | .createKey name => String.join ["/v1/key/create/", name]
  | .getKey name => String.join ["/v1/key/get/", name]
  | .describeKey name => String.join ["/v1/key/describe/", name]
  | .deleteKey name => String.join ["/v1/key/delete/", name]
  | .listKeys pattern => String.join ["/v1/key/list/", Glob.orAll pattern]
  | .createPolicy name => String.join ["/v1/policy/create/", name]
  | .assignPolicy name => String.join ["/v1/policy/assign/", name]
  | .describePolicy name => String.join ["/v1/policy/describe/", name]
  | .readPolicy name => String.join ["/v1/policy/read/", name]
  | .deletePolicy name => String.join ["/v1/policy/delete/", name]
  | .listPolicies pattern => String.join ["/v1/policy/list/", Glob.orAll pattern]
  | .describeIdentity identity => String.join ["/v1/identity/describe/", identity.text]
  | .deleteIdentity identity => String.join ["/v1/identity/delete/", identity.text]
  | .listIdentities pattern => String.join ["/v1/identity/list/", Glob.orAll pattern]
  | .createEnclave name => String.join ["/v1/enclave/create/", name]
  | .describeEnclave name => String.join ["/v1/enclave/describe/", name]
  | .deleteEnclave name => String.join ["/v1/enclave/delete/", name]
  | .listEnclaves pattern => String.join ["/v1/enclave/list/", Glob.orAll pattern]
  | .status => "/v1/status"

/-- The operation is authorized in the default enclave, whatever enclave is named. -/
def isEnclaveAdmin : Operation → Bool
  | .createEnclave _ | .describeEnclave _ | .deleteEnclave _ | .listEnclaves _ | .status => true
  | _ => false

end Operation

end KeyCustody
