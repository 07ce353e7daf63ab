import KeyCustody.Service
import KeyCustody.World

/-!
# Calls

Programs of the service run in a world under the context of their call.  A call asks for a
command, for several deletions at once, or for what needs no permission.  A listing can also
be read name by name through a view.
-/

namespace KeyCustody

variable {σ : Type} [Mishaps σ]

namespace World

/-- Starts a listing of a view. -/
def startListingOf (w : World σ) (c : Context) (v : View) (pattern : String) :
    Except Error Cursor × World σ :=
  w.startListing c (v.fullPattern pattern)

/-- Reads at most `fuel` names until the view shows one, and gives it as the view does. -/
def nextShown (c : Context) (v : View) :
    Nat → Cursor → World σ → Option String × Cursor × World σ
  | 0, cursor, w => (none, cursor, w)
  | fuel + 1, cursor, w =>
    match w.nextName c cursor with
    | (none, cursor, w) => (none, cursor, w)
    | (some name, cursor, w) =>
      match v.show? name with
      | some shown => (some shown, cursor, w)
      | none => nextShown c v fuel cursor w

/-- The next name of a listing of a view. -/
def nextOf (w : World σ) (c : Context) (v : View) (cursor : Cursor) :
    Option String × Cursor × World σ :=
  nextShown c v (cursor.bound w.backend.table + 1) cursor w

end World

namespace Service

/-- Runs a program as one call under a context, if the clock can show its deadline. -/
def run? {α : Type} (s : Service) (c : Context) (p : Program α) (w : World σ) :
    Option (α × World σ) := do
  let (c, tokens) ← s.callContext? c w.tokens w.now
  pure (p.run c { w with tokens := tokens })

/-- Deletes several policies, each in a call of its own. -/
def deletePolicies? (s : Service) (c : Context) (caller : Identity) (enclave : String) :
    List String → World σ → Option (List Outcome × World σ)
  | [], w => some ([], w)
  | name :: names, w => do
    let (r, w) ← s.run? c (s.perform caller enclave (.deletePolicy name)).attempt w
    let (more, w) ← s.deletePolicies? c caller enclave names w
    pure (⟨name, r.map fun _ => ()⟩ :: more, w)

/-- One call of the service.  The last two are made by whoever hosts it. -/
inductive Call where
  | command (enclave : String) (c : Command)
  | deletePolicies (enclave : String) (names : List String)
  | describeSelf (enclave : String)
  | init
  | health

/-- Serves one call for a caller, if the clock can show its deadline. -/
def serve? (s : Service) (c : Context) (caller : Identity) :
    Call → World σ → Option (Except Error Reply × World σ)
  | .command enclave command, w => s.run? c (s.perform caller enclave command).attempt w
  | .deletePolicies enclave names, w => do
    let (outcomes, w) ← s.deletePolicies? c caller enclave names w
    pure (.ok (.outcomes outcomes), w)
  | .describeSelf enclave, w => do
    let (r, w) ← s.run? c (s.describeSelf caller enclave).attempt w
    pure (r.map .self, w)
  | .init, w => do
    let (r, w) ← s.run? c s.init.attempt w
    pure (r.map fun _ => .done, w)
  | .health, w => do
    let (r, w) ← s.run? c health.attempt w
    pure (r.map fun _ => .done, w)

end Service

end KeyCustody
