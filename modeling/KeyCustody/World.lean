import KeyCustody.Context
import KeyCustody.Program
import KeyCustody.Store.Backend

/-!
# Worlds

A world answers the requests of a program, one after the other.  It holds the store, the
tokens of contexts, a clock, a source of names for events and the audit trail.

Mishaps may happen at every access to the store: the access fails before the store looks at
it, or a token is canceled, before the access or in the middle of it.  A type of mishap
sources (`Mishaps`) says which: none ever (`Unit`), a given sequence (`Nat → Mishap`), or a
list of rules.

`Program.run` runs a program alone to its end.
-/

namespace KeyCustody

/-- One access to the store. -/
inductive Access where
  | create (name : String)
  | get (name : String)
  | delete (name : String)
  | list (pattern : String)
  | status
  /-- The next name of a listing, none at its end. -/
  | next (name : Option String)
deriving DecidableEq, Repr

/-- What happens at an access. -/
structure Mishap where
  /-- A token that is canceled before the store looks at the access. -/
  cancels : Option Token
  /-- A token that is canceled after the context was looked at for the first time. -/
  cancelsLate : Option Token
  /-- The error with which the access fails. -/
  error : Option Error
deriving DecidableEq, Repr

/-- Nothing happens. -/
def Mishap.nothing : Mishap := ⟨none, none, none⟩

/-- A source of mishaps. -/
class Mishaps (σ : Type) where
  /-- What happens at an access, and the source afterwards. -/
  strike : Access → σ → Mishap × σ

/-- Nothing ever happens. -/
instance : Mishaps Unit where
  strike _ _ := (.nothing, ())

/-- Given mishaps happen one after the other. -/
instance : Mishaps (Nat → Mishap) where
  strike _ s := (s 0, fun n => s (n + 1))

/-- What surrounds a program. -/
structure World (σ : Type) where
  backend : Backend
  tokens : Tokens
  /-- What the clock that never goes back shows. -/
  now : Instant
  mishaps : σ
  /-- What the `n`-th reading of the clock gives. -/
  clock : Nat → Timestamp
  readings : Nat
  /-- The `n`-th name for an event. -/
  eventIds : Nat → String
  events : Nat
  /-- The audit trail, the oldest event first. -/
  trail : List AuditEvent

namespace World

variable {σ : Type}

/-- The context has ended. -/
def ended (w : World σ) (c : Context) : Bool :=
  c.ended w.tokens w.now

/-- The world in which a token was canceled, if there is one. -/
def cancel (w : World σ) : Option Token → World σ
  | some t => { w with tokens := w.tokens.cancel t }
  | none => w

/-- What an access meets: an error at once, or the signal of its context. -/
def meet [Mishaps σ] (w : World σ) (c : Context) (a : Access) :
    Except Error Signal × World σ :=
  let (m, mishaps) := Mishaps.strike a w.mishaps
  let before := { w with mishaps := mishaps }.cancel m.cancels
  match m.error with
  | some e => (.error e, before)
  | none =>
    let after := before.cancel m.cancelsLate
    (.ok ⟨before.ended c, after.ended c⟩, after)

/-- Starts a listing. -/
def startListing [Mishaps σ] (w : World σ) (c : Context) (pattern : String) :
    Except Error Cursor × World σ :=
  match w.meet c (.list pattern) with
  | (.error e, w) => (.error e, w)
  | (.ok sig, w) => (w.backend.list sig pattern, w)

/-- Reads one name of a listing. -/
def nextName [Mishaps σ] (w : World σ) (c : Context) (cursor : Cursor) :
    Option String × Cursor × World σ :=
  if cursor.isDone then (none, cursor, w)
  else
    let (name, cursor) := cursor.next (.steady (w.ended c)) w.backend.table
    match w.meet c (.next name) with
    | (.error e, w) => (none, cursor.fail e, w)
    | (.ok _, w) => (name, cursor, w)

/-- Reads at most `fuel` names, puts them behind those read so far, and closes the cursor. -/
def readAll [Mishaps σ] (c : Context) :
    Nat → List String → Cursor → World σ → Except Error (List String) × World σ
  | 0, names, cursor, w => (cursor.close.1.map fun _ => names.reverse, w)
  | fuel + 1, names, cursor, w =>
    match w.nextName c cursor with
    | (some name, cursor, w) => readAll c fuel (name :: names) cursor w
    | (none, cursor, w) => (cursor.close.1.map fun _ => names.reverse, w)

/-- All names of a listing, or the error that ended it. -/
def list [Mishaps σ] (w : World σ) (c : Context) (pattern : String) :
    Except Error (List String) × World σ :=
  match w.startListing c pattern with
  | (.error e, w) => (.error e, w)
  | (.ok cursor, w) => readAll c (cursor.bound w.backend.table + 1) [] cursor w

/-- The answer to a request of a program that runs under a context. -/
def answer [Mishaps σ] (c : Context) : (r : Request) → World σ → r.Answer × World σ
  | .create name value, w =>
    match w.meet c (.create name) with
    | (.error e, w) => (.error e, w)
    | (.ok sig, w) =>
      let (r, backend) := w.backend.create sig name value
      (r, { w with backend := backend })
  | .get name, w =>
    match w.meet c (.get name) with
    | (.error e, w) => (.error e, w)
    | (.ok sig, w) => (w.backend.get sig name, w)
  | .delete name, w =>
    match w.meet c (.delete name) with
    | (.error e, w) => (.error e, w)
    | (.ok sig, w) =>
      let (r, backend) := w.backend.delete sig name
      (r, { w with backend := backend })
  | .list pattern, w => w.list c pattern
  | .status, w =>
    match w.meet c .status with
    | (.error e, w) => (.error e, w)
    | (.ok sig, w) => (w.backend.status sig, w)
  | .time, w => (w.clock w.readings, { w with readings := w.readings + 1 })
  | .eventId, w => (w.eventIds w.events, { w with events := w.events + 1 })
  | .emit event, w => ((), { w with trail := w.trail ++ [event] })

end World

/-- Runs a program alone to its end. -/
def Program.run {α σ : Type} [Mishaps σ] (c : Context) : Program α → World σ → α × World σ
  | .done a, w => (a, w)
  | .ask r next, w =>
    let (x, w) := w.answer c r
    (next x).run c w

/-- Running a program and going on with its value is running one program after the other. -/
theorem Program.run_bind {α β σ : Type} [Mishaps σ] (c : Context) (p : Program α)
    (f : α → Program β) (w : World σ) :
    (p >>= f).run c w = (f (p.run c w).1).run c (p.run c w).2 := by
  induction p generalizing w with
  | done a => rfl
  | ask r next ih => exact ih _ _

end KeyCustody
