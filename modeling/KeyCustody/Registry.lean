import KeyCustody.Enclave
import KeyCustody.Layout

/-!
# The registry of enclaves

An enclave exists if it has a record in the registry.  Before an enclave is registered, all
records left under its name are removed, so that it inherits nothing.  When an enclave is
deleted, its records go first and its registration last; if some record stays, the enclave
stays registered and can be deleted again.
-/

namespace KeyCustody

/-- The registered enclaves under a layout. -/
structure Registry where
  layout : Layout
  cabinet : Cabinet Registration

/-- The first of two errors. -/
def firstError (a b : Option Error) : Option Error :=
  a.or b

/-- The error of an outcome. -/
def errorOf {α : Type} : Except Error α → Option Error
  | .ok _ => none
  | .error e => some e

namespace View

/-- Removes every name of a list, whatever fails, and gives the first error. -/
def deleteAll (v : View) : List String → Program (Option Error)
  | [] => pure none
  | name :: names => do
    let r ← (v.delete name).attempt
    let more ← v.deleteAll names
    pure (firstError (errorOf r) more)

/-- Removes every name of the view, whatever fails, and gives the first error. -/
def purge (v : View) : Program (Option Error) := do
  match ← (v.list "*").attempt with
  | .ok names => v.deleteAll names
  | .error e => pure (some e)

end View

namespace Registry

/-- The registry of a layout. -/
def ofLayout (layout : Layout) : Except Error Registry := do
  let view ← View.whole.enter layout.registry
  pure ⟨layout, ⟨view⟩⟩

/-- A handle to an enclave, registered or not. -/
def handle (r : Registry) (name : String) : Except Error Enclave := do
  checkEnclaveName name
  let keys ← View.whole.enter (r.layout.keys name)
  let policies ← View.whole.enter (r.layout.policies name)
  let assignments ← View.whole.enter (r.layout.identities name)
  pure ⟨name, r.cabinet, ⟨keys⟩, ⟨policies⟩, ⟨assignments⟩⟩

/-- A handle to a registered enclave. -/
def registered (r : Registry) (name : String) : Routine Enclave := do
  let e ← Routine.ofExcept (r.handle name)
  e.ensureRegistered
  pure e

/-- Purges the namespaces one after the other, whatever fails, and gives the first error. -/
def purgeSpaces (earlier : Option Error) : List String → Routine (Option Error)
  | [] => pure earlier
  | space :: spaces => do
    let view ← Routine.ofExcept (View.whole.enter space)
    let failure ← ExceptT.lift view.purge
    purgeSpaces (firstError earlier failure) spaces

/-- Removes all records under an enclave's name, and fails if some of them stay. -/
def purge (r : Registry) (name : String) : Routine Unit := do
  match ← purgeSpaces none
    [r.layout.keys name, r.layout.policies name, r.layout.identities name] with
  | some e => throw e
  | none => pure ()

/-- Registers a new enclave. -/
def create (r : Registry) (name : String) (creator : Identity) : Routine EnclaveInfo := do
  Routine.ofExcept (checkEnclaveName name)
  if (← r.cabinet.find? name).isSome then throw (.alreadyExists ("enclave " ++ name))
  r.purge name
  let registration : Registration := ⟨← Routine.time, creator⟩
  (r.cabinet.create name registration).mapError fun
    | .alreadyExists _ => .alreadyExists ("enclave " ++ name)
    | e => e
  pure (registration.info name)

/-- What is known of an enclave. -/
def describe (r : Registry) (name : String) : Routine EnclaveInfo := do
  Routine.ofExcept (checkEnclaveName name)
  match ← r.cabinet.find? name with
  | some registration => pure (registration.info name)
  | none => throw (enclaveMissing name)

/-- Registers an enclave unless it is registered. -/
def ensure (r : Registry) (name : String) (creator : Identity) : Routine EnclaveInfo :=
  (r.create name creator).handle fun
    | .error (.alreadyExists _) => r.describe name
    | outcome => Routine.ofExcept outcome

/-- The names of the registered enclaves that a pattern matches. -/
def list (r : Registry) (pattern : String) : Routine (List String) :=
  r.cabinet.list pattern

/-- Removes all that an enclave owns, then its registration. -/
def delete (r : Registry) (name : String) : Routine Unit := do
  let _ ← r.describe name
  r.purge name
  r.cabinet.delete name

end Registry

end KeyCustody
