import KeyCustody.Operation
import KeyCustody.Record.Kinds

/-!
# Commands

What callers can ask of the service with permission, and what the service replies.  Every
command is one operation; commands carry besides what the operation works on.
-/

namespace KeyCustody

/-- A call that needs permission. -/
inductive Command where
  | createKey (name : String) (value : Bytes)
  | getKey (name : String)
  | describeKey (name : String)
  | deleteKey (name : String)
  | listKeys (pattern : String)
  | createPolicy (name : String) (policy : Policy)
  | getPolicy (name : String)
  | describePolicy (name : String)
  | deletePolicy (name : String)
  | listPolicies (pattern : String)
  | assignPolicy (policy : String) (identities : List Identity)
  | describeIdentity (identity : Identity)
  | deleteIdentity (identity : Identity)
  | listIdentities (pattern : String)
  | createEnclave (name : String)
  | describeEnclave (name : String)
  | deleteEnclave (name : String)
  | listEnclaves (pattern : String)
  | status
deriving DecidableEq

/-- The operation that has to be permitted. -/
def Command.operation : Command → Operation
  | .createKey name _ => .createKey name
  | .getKey name => .getKey name
  | .describeKey name => .describeKey name
  | .deleteKey name => .deleteKey name
  | .listKeys pattern => .listKeys pattern
  | .createPolicy name _ => .createPolicy name
  | .getPolicy name => .readPolicy name
  | .describePolicy name => .describePolicy name
  | .deletePolicy name => .deletePolicy name
  | .listPolicies pattern => .listPolicies pattern
  | .assignPolicy policy _ => .assignPolicy policy
  | .describeIdentity identity => .describeIdentity identity
  | .deleteIdentity identity => .deleteIdentity identity
  | .listIdentities pattern => .listIdentities pattern
  | .createEnclave name => .createEnclave name
  | .describeEnclave name => .describeEnclave name
  | .deleteEnclave name => .deleteEnclave name
  | .listEnclaves pattern => .listEnclaves pattern
  | .status => .status

/-- What became of one item of a call on several. -/
structure Outcome where
  item : String
  result : Except Error Unit

/-- What a caller learns of itself without permission. -/
structure SelfInfo where
  identity : Identity
  isAdmin : Bool
  /-- Absent for the admin, who needs none. -/
  assignment : Option AssignmentInfo
  policy : Option Policy
deriving DecidableEq

/-- What the service replies. -/
inductive Reply where
  | done
  | key (key : SealedKey)
  | keyInfo (info : KeyInfo)
  | policy (policy : Policy)
  | policyInfo (info : PolicyInfo)
  | assignment (info : AssignmentInfo)
  | enclave (info : EnclaveInfo)
  | names (names : List String)
  | outcomes (outcomes : List Outcome)
  | self (info : SelfInfo)

end KeyCustody
