import KeyCustody.View
import KeyCustody.World

/-!
# Calls on a store

Whoever uses a store creates names, looks them up, removes them, lists them or asks whether
the store can be reached.  `View.call` is such a call on what a view shows.

The requests of a call may be answered by anything, by a world or by another part of the
program.  A `Host` is whatever answers them, together with the view through which the store
is used; `Host.serve` makes a sequence of calls, each under a context of its own.
-/

namespace KeyCustody

/-- A call on a store. -/
inductive StoreCall where
  | create (name : String) (value : Bytes)
  | get (name : String)
  | delete (name : String)
  /-- A listing that is read to its end. -/
  | list (pattern : String)
  | status

/-- What a call on a store gives. -/
inductive StoreReply where
  | done
  | value (content : Bytes)
  | names (found : List String)
deriving DecidableEq, Repr

/-- The name that a call asks for. -/
def StoreCall.name? : StoreCall → Option String
  | .create name _ | .get name | .delete name => some name
  | .list _ | .status => none

/-- The request that a call makes of the store itself. -/
def StoreCall.request : StoreCall → Request
  | .create name value => .create name value
  | .get name => .get name
  | .delete name => .delete name
  | .list pattern => .list pattern
  | .status => .status

/-- What a call gives for the answer to its request. -/
def StoreCall.reply : (k : StoreCall) → k.request.Answer → Except Error StoreReply
  | .create _ _, r | .delete _, r | .status, r => Except.map (fun _ => .done) r
  | .get _, r => Except.map .value r
  | .list _, r => Except.map .names r

/-- A call on what the view shows. -/
def View.call (v : View) : StoreCall → Routine StoreReply
  | .create name value => do
    v.create name value
    pure .done
  | .get name => do
    let content ← v.get name
    pure (.value content)
  | .delete name => do
    v.delete name
    pure .done
  | .list pattern => do
    let found ← v.list pattern
    pure (.names found)
  | .status => do
    v.status
    pure .done

/-- Runs a program to its end, whatever answers its requests. -/
def Program.runOn {α S : Type} (answer : (r : Request) → S → r.Answer × S) :
    Program α → S → α × S
  | .done a, s => (a, s)
  | .ask r next, s =>
    let (x, s) := answer r s
    (next x).runOn answer s

/-- A world is one of the things that answer. -/
theorem Program.run_eq_runOn {α σ : Type} [Mishaps σ] (c : Context) (p : Program α)
    (w : World σ) : p.run c w = p.runOn (World.answer c) w := by
  induction p generalizing w with
  | done a => rfl
  | ask r next ih => exact ih _ _

/-- A store that is used from outside, with contexts and states of whatever types. -/
structure Host (C S : Type) where
  /-- What of the store is used. -/
  view : View
  /-- How a request under a context is answered in a state. -/
  answer : C → (r : Request) → S → r.Answer × S

namespace Host

variable {C S : Type}

/-- A call on the store under a context. -/
def call (h : Host C S) (c : C) (k : StoreCall) (s : S) : Except Error StoreReply × S :=
  (h.view.call k).attempt.runOn (h.answer c) s

/-- Calls on the store, one after the other, each under its context. -/
def serve (h : Host C S) : List (C × StoreCall) → S → List (Except Error StoreReply) × S
  | [], s => ([], s)
  | (c, k) :: calls, s =>
    let (r, s) := h.call c k s
    let (rs, s) := h.serve calls s
    (r :: rs, s)

/-- The store used through one more view. -/
def under (h : Host C S) (space : String) : Host C S :=
  { h with view := .under space h.view }

end Host

/-- A world as a store that is used directly. -/
def World.host (σ : Type) [Mishaps σ] : Host Context (World σ) where
  view := .whole
  answer := World.answer

end KeyCustody
