import KeyCustody.Record.Kinds
import KeyCustody.Cabinet

/-!
# Enclaves

An enclave is a named partition with its own keys, policies and assignments of policies
to identities.  A handle reaches the records of one enclave, whether or not the enclave is
registered.  A write of a key, a policy or an assignment first asks the registry, so that
no write makes an enclave.

A policy can be deleted only while no identity of the enclave has it, and assigned only if
it exists.
-/

namespace KeyCustody

/-- A handle to the records of one enclave. -/
structure Enclave where
  name : String
  registry : Cabinet Registration
  keys : Cabinet SealedKey
  policies : Cabinet Policy
  assignments : Cabinet Assignment

/-- The error on an enclave that is not registered. -/
def enclaveMissing (name : String) : Error :=
  .notFound ("enclave " ++ name)

/-- The record under a name, where a missing one is told with its kind. -/
def Cabinet.getNamed {α : Type} [Record α] (s : Cabinet α) (kind name : String) : Routine α := do
  Routine.ofExcept (checkName kind name)
  (s.get name).mapError fun
    | .notFound _ => .notFound (kind ++ " " ++ name)
    | e => e

namespace Enclave

/-- The handle in diagnostics. -/
def diagnostic (e : Enclave) : String :=
  String.join ["Enclave \x7b name: ", Text.quoted e.name, ", .. \x7d"]

/-- Fails unless the enclave is registered. -/
def ensureRegistered (e : Enclave) : Routine Unit := do
  match ← e.registry.find? e.name with
  | some _ => pure ()
  | none => throw (enclaveMissing e.name)

/-! ### Keys -/

/-- Stores a sealed value under a new key name. -/
def createKey (e : Enclave) (name : String) (value : Bytes) (creator : Identity) :
    Routine KeyInfo := do
  e.ensureRegistered
  Routine.ofExcept (checkName "key" name)
  let key : SealedKey := ⟨value, ← Routine.time, creator⟩
  e.keys.create name key
  pure (key.info name)

/-- A key with its sealed value. -/
def getKey (e : Enclave) (name : String) : Routine SealedKey :=
  e.keys.getNamed "key" name

/-- What is known of a key besides its value. -/
def describeKey (e : Enclave) (name : String) : Routine KeyInfo := do
  pure ((← e.getKey name).info name)

/-- Removes a key. -/
def deleteKey (e : Enclave) (name : String) : Routine Unit := do
  Routine.ofExcept (checkName "key" name)
  e.keys.delete name

def listKeys (e : Enclave) (pattern : String) : Routine (List String) :=
  e.keys.list pattern

/-! ### Policies -/

/-- Stores a policy, without repeated rules, in place of any policy of the name. -/
def setPolicy (e : Enclave) (name : String) (policy : Policy) (creator : Identity) :
    Routine PolicyInfo := do
  e.ensureRegistered
  Routine.ofExcept (checkName "policy" name)
  Routine.ofExcept policy.check
  let time ← Routine.time
  let policy := { policy.normalize with createdAt := some time, createdBy := creator }
  e.policies.replace name policy
  pure (policy.info name)

/-- A policy with its rules. -/
def getPolicy (e : Enclave) (name : String) : Routine Policy :=
  e.policies.getNamed "policy" name

/-- What is known of a policy besides its rules. -/
def describePolicy (e : Enclave) (name : String) : Routine PolicyInfo := do
  pure ((← e.getPolicy name).info name)

def listPolicies (e : Enclave) (pattern : String) : Routine (List String) :=
  e.policies.list pattern

/-- The policy exists. -/
def hasPolicy (e : Enclave) (name : String) : Routine Bool := do
  Routine.ofExcept (checkName "policy" name)
  pure (← e.policies.find? name).isSome

/-! ### Assignments -/

/-- The assignment of an identity.  The unknown identity has none. -/
def findAssignment (e : Enclave) (identity : Identity) : Routine (Option Assignment) :=
  if identity.isUnknown then pure none
  else do
    Routine.ofExcept identity.check
    e.assignments.find? identity.text

/-- Those of the named identities that have the policy.  An assignment that is gone by now
is passed over. -/
def withPolicy (e : Enclave) (policy : String) : List String → Routine (List Identity)
  | [] => pure []
  | name :: names => do
    let identity := Identity.ofText name
    let found ← e.findAssignment identity
    let more ← e.withPolicy policy names
    match found with
    | some a => pure (if a.policy = policy then identity :: more else more)
    | none => pure more

/-- All identities that have the policy. -/
def identitiesWithPolicy (e : Enclave) (policy : String) : Routine (List Identity) := do
  let names ← e.assignments.list "*"
  e.withPolicy policy names

/-- Removes a policy that no identity has. -/
def deletePolicy (e : Enclave) (name : String) : Routine Unit := do
  if ← e.hasPolicy name then
    let users ← e.identitiesWithPolicy name
    if users.isEmpty then e.policies.delete name
    else throw (.policyInUse name users.length)

/-- Gives an existing policy to an identity, in place of any policy it has. -/
def assignPolicy (e : Enclave) (policy : String) (identity creator : Identity) :
    Routine AssignmentInfo := do
  if identity.isUnknown then throw (.invalid .assignToUnknown)
  Routine.ofExcept identity.check
  e.ensureRegistered
  let _ ← e.getPolicy policy
  let assignment : Assignment := ⟨policy, ← Routine.time, creator⟩
  e.assignments.replace identity.text assignment
  pure (assignment.info identity)

/-- The name of the policy that an identity has. -/
def resolve (e : Enclave) (identity : Identity) : Routine String := do
  match ← e.findAssignment identity with
  | some a => pure a.policy
  | none => throw (.unassigned identity.display)

/-- The policy that an identity has, with its name. -/
def resolvePolicy (e : Enclave) (identity : Identity) : Routine (String × Policy) := do
  let name ← e.resolve identity
  pure (name, ← e.getPolicy name)

/-- The assignment of an identity, as told to callers. -/
def describeIdentity (e : Enclave) (identity : Identity) : Routine AssignmentInfo := do
  match ← e.findAssignment identity with
  | some a => pure (a.info identity)
  | none => throw (.notFound ("identity " ++ identity.display))

def listIdentities (e : Enclave) (pattern : String) : Routine (List String) :=
  e.assignments.list pattern

/-- Takes its policy from an identity. -/
def unassign (e : Enclave) (identity : Identity) : Routine Unit :=
  if identity.isUnknown then pure ()
  else do
    Routine.ofExcept identity.check
    e.assignments.delete identity.text

end Enclave

end KeyCustody
