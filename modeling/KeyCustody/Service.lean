import KeyCustody.Authorizer
import KeyCustody.Command
import KeyCustody.Context
import KeyCustody.Registry
import KeyCustody.Settings

/-!
# The service

The service is what callers see.  Every command goes through the same gate: the caller has
to be permitted the operation in the scope enclave, and that enclave has to be registered.
The scope is the enclave named, or the default enclave if none is named and for operations
on enclaves themselves.  Then the command runs, and one audit event tells the outcome.

Two calls are not gated.  Callers may ask about themselves, and whoever hosts the service
may ask whether the store can be reached.
-/

namespace KeyCustody

/-- The service over a store. -/
structure Service where
  registry : Registry
  authorizer : Authorizer
  defaultEnclave : String
  /-- The time a call may take, in seconds. -/
  timeout : Nat

namespace Service

/-- The service of the settings. -/
def ofSettings (s : Settings) : Except Error Service := do
  checkEnclaveName s.defaultEnclave
  let registry ← Registry.ofLayout ⟨s.keyPrefix⟩
  pure ⟨registry, .ofAdmin s.admin, s.defaultEnclave, s.timeout⟩

/-- Makes sure that the default enclave is registered. -/
def init (s : Service) : Routine Unit := do
  let _ ← s.registry.ensure s.defaultEnclave (s.authorizer.admin.getD .unknown)

/-- The enclave meant by a name. -/
def enclaveName (s : Service) (enclave : String) : String :=
  if enclave.isEmpty then s.defaultEnclave else enclave

/-- The enclave in which an operation is authorized. -/
def scope (s : Service) (enclave : String) (op : Operation) : String :=
  if op.isEnclaveAdmin then s.defaultEnclave else s.enclaveName enclave

/-- Lets a permitted operation through to the enclave it is authorized in. -/
def gate (s : Service) (caller : Identity) (enclave : String) (op : Operation) :
    Routine Enclave := do
  let handle ← Routine.ofExcept (s.registry.handle (s.scope enclave op))
  s.authorizer.authorize handle caller op
  handle.ensureRegistered
  pure handle

/-- Runs `body` behind the gate and puts the outcome on the audit trail. -/
def gated {α : Type} (s : Service) (caller : Identity) (enclave : String) (op : Operation)
    (body : Enclave → Routine α) : Routine α :=
  ExceptT.mk do
    let outcome ← (do body (← s.gate caller enclave op) : Routine α).attempt
    let id ← Program.request .eventId
    let time ← Program.request .time
    Program.request
      (.emit (.ofOutcome id time caller (s.enclaveName enclave) op (errorOf outcome)))
    pure outcome

/-- Gives a policy to one identity.  The admin needs none, and nobody gives one to itself. -/
def assignOne (s : Service) (enclave : Enclave) (caller : Identity) (policy : String)
    (identity : Identity) : Routine Unit := do
  if s.authorizer.isAdmin identity then throw (.invalid .assignToAdmin)
  if identity = caller then throw (.invalid .assignToSelf)
  let _ ← enclave.assignPolicy policy identity caller

/-- Gives a policy to each of several identities, whatever becomes of the others. -/
def assignEach (s : Service) (enclave : Enclave) (caller : Identity) (policy : String) :
    List Identity → Program (List Outcome)
  | [] => pure []
  | identity :: identities => do
    let r ← (s.assignOne enclave caller policy identity).attempt
    let more ← s.assignEach enclave caller policy identities
    pure (⟨identity.display, r⟩ :: more)

/-- Names in order. -/
def sortNames (names : List String) : List String :=
  names.mergeSort fun a b => decide (a ≤ b)

/-- What a command does once it is permitted. -/
def body (s : Service) (caller : Identity) (e : Enclave) : Command → Routine Reply
  | .createKey name value => do pure (.keyInfo (← e.createKey name value caller))
  | .getKey name => do pure (.key (← e.getKey name))
  | .describeKey name => do pure (.keyInfo (← e.describeKey name))
  | .deleteKey name => do e.deleteKey name; pure .done
  | .listKeys pattern => do pure (.names (sortNames (← e.listKeys pattern)))
  | .createPolicy name policy => do pure (.policyInfo (← e.setPolicy name policy caller))
  | .getPolicy name => do pure (.policy (← e.getPolicy name))
  | .describePolicy name => do pure (.policyInfo (← e.describePolicy name))
  | .deletePolicy name => do e.deletePolicy name; pure .done
  | .listPolicies pattern => do pure (.names (sortNames (← e.listPolicies pattern)))
  | .assignPolicy policy identities => do
    let outcomes ← ExceptT.lift (s.assignEach e caller policy identities)
    pure (.outcomes outcomes)
  | .describeIdentity identity => do pure (.assignment (← e.describeIdentity identity))
  | .deleteIdentity identity => do e.unassign identity; pure .done
  | .listIdentities pattern => do pure (.names (sortNames (← e.listIdentities pattern)))
  | .createEnclave name => do pure (.enclave (← s.registry.create name caller))
  | .describeEnclave name => do pure (.enclave (← s.registry.describe name))
  | .deleteEnclave name => do
    if name = s.defaultEnclave then throw (.invalid (.deleteDefault name))
    s.registry.delete name
    pure .done
  | .listEnclaves pattern => do pure (.names (sortNames (← s.registry.list pattern)))
  | .status => do Routine.status; pure .done

/-- The enclave that a caller names with a command.  Commands on enclaves name none. -/
def target (c : Command) (enclave : String) : String :=
  if c.operation.isEnclaveAdmin then "" else enclave

/-- Does a command for a caller. -/
def perform (s : Service) (caller : Identity) (enclave : String) (c : Command) : Routine Reply :=
  s.gated caller (target c enclave) c.operation fun e => s.body caller e c

/-- What a caller may learn of itself.  Only the admin can tell an enclave that is missing
from one in which it has no policy. -/
def describeSelf (s : Service) (caller : Identity) (enclave : String) : Routine SelfInfo :=
  if caller.isUnknown then throw (.unassigned caller.display)
  else
    let isAdmin := s.authorizer.isAdmin caller
    (s.registry.registered (s.enclaveName enclave)).handle fun
      | .error (.notFound what) =>
        if isAdmin then throw (.notFound what) else throw (.unassigned caller.display)
      | .error e => throw e
      | .ok e =>
        if isAdmin then pure ⟨caller, true, none, none⟩
        else
          (e.describeIdentity caller).handle fun
            | .error (.notFound _) => throw (.unassigned caller.display)
            | .error e => throw e
            | .ok assignment => do
              let policy ← e.getPolicy assignment.policy
              pure ⟨caller, false, some assignment, some policy⟩

/-- Whether the store can be reached. -/
def health : Routine Unit :=
  Routine.status

/-- The context of one call: it ends with the caller's, and when the time is up.  There is
none if the clock cannot show that time. -/
def callContext? (s : Service) (c : Context) (tokens : Tokens) (now : Instant) :
    Option (Context × Tokens) := do
  let (child, tokens) := c.child tokens
  let c ← child.withTimeout? now s.timeout
  pure (c, tokens)

end Service

end KeyCustody
