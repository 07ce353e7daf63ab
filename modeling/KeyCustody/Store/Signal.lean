import KeyCustody.Error

/-!
# Signals

A call on a store looks at its context when it starts and once more later: a write right
before it commits, a read while it waits.  What it sees at these two moments is its signal.
-/

namespace KeyCustody

/-- Whether the context of a call has ended, at the two moments the call looks. -/
structure Signal where
  atStart : Bool
  atCommit : Bool
deriving DecidableEq, Repr

namespace Signal

/-- The context does not change during the call. -/
def steady (ended : Bool) : Signal := ⟨ended, ended⟩

/-- Fails unless the context lives at both moments. -/
def whole (s : Signal) : Except Error Unit :=
  if s.atStart || s.atCommit then .error .canceled else .ok ()

end Signal

/-- Refuses the empty name. -/
def requireKey (name : String) : Except Error Unit :=
  if name.isEmpty then .error (.invalid .emptyKey) else .ok ()

end KeyCustody
