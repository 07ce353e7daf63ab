import KeyCustody.Enclave

/-!
# Authorization

One identity may be set up as the admin, who may do everything in every enclave.  The
unknown identity may do nothing.  For every other identity the policy decides that it has
in the enclave; without a policy, or with one that is gone, it may do nothing.  A store that
fails leaves the request undecided: the error is passed on.
-/

namespace KeyCustody

/-- Who may do everything, if anyone. -/
structure Authorizer where
  admin : Option Identity
  admin_known : admin ≠ some .unknown

namespace Authorizer

/-- The unknown identity is no admin. -/
def ofAdmin (admin : Option Identity) : Authorizer where
  admin := admin.filter fun i => !i.isUnknown
  admin_known := by
    intro h
    have := (Option.filter_eq_some_iff.1 h).2
    simp [Identity.unknown, Identity.isUnknown] at this

/-- The identity may do everything. -/
def isAdmin (a : Authorizer) (i : Identity) : Bool :=
  a.admin == some i

/-- The unknown identity is not the admin. -/
theorem isAdmin_unknown (a : Authorizer) : a.isAdmin .unknown = false := by
  simpa [isAdmin] using a.admin_known

/-- Whether the identity may use the request path in the enclave. -/
def decide (a : Authorizer) (enclave : Enclave) (identity : Identity) (path : String) :
    Routine Decision :=
  if identity.isUnknown then pure .deny
  else if a.isAdmin identity then pure .allow
  else
    (enclave.resolvePolicy identity).handle fun
      | .ok (_, policy) => pure (policy.evaluate path)
      | .error (.unassigned _) => pure .deny
      | .error (.notFound _) => pure .deny
      | .error e => throw e

/-- Fails unless the identity may do the operation in the enclave. -/
def authorize (a : Authorizer) (enclave : Enclave) (identity : Identity) (op : Operation) :
    Routine Unit := do
  match ← a.decide enclave identity op.path with
  | .allow => pure ()
  | .deny => throw (.permissionDenied identity.display op.path)

end Authorizer

end KeyCustody
