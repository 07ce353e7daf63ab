import KeyCustody.Audit

/-!
# Programs

A call of the service is a program: a tree of requests to its surroundings, each followed
by what the program does with the answer.  The requests to the store are its atomic calls.
The same program can be run alone against a store, against a store that fails now and
then, or in turns with other programs; only the answers differ.

Most programs end with a value or an error.  They are written in `Routine`, where an error
ends the program unless it is caught by `Routine.attempt`.
-/

namespace KeyCustody

/-- What a program asks of its surroundings. -/
inductive Request where
  /-- Store a value under a new name. -/
  | create (name : String) (value : Bytes)
  /-- The value under a name. -/
  | get (name : String)
  /-- Remove a name. -/
  | delete (name : String)
  /-- All names that a pattern matches. -/
  | list (pattern : String)
  /-- Whether the store can be reached. -/
  | status
  /-- What time it is. -/
  | time
  /-- A name for an event that no other event has. -/
  | eventId
  /-- Put an event on the audit trail. -/
  | emit (event : AuditEvent)

/-- The type of the answer to a request. -/
abbrev Request.Answer : Request → Type
  | .create _ _ => Except Error Unit
  | .get _ => Except Error Bytes
  | .delete _ => Except Error Unit
  | .list _ => Except Error (List String)
  | .status => Except Error Unit
  | .time => Timestamp
  | .eventId => String
  | .emit _ => Unit

/-- A tree of requests that ends with values of a type. -/
inductive Program (α : Type) where
  | done (a : α)
  | ask (r : Request) (next : r.Answer → Program α)

namespace Program

/-- Goes on with the value of a program. -/
def bind {α β : Type} : Program α → (α → Program β) → Program β
  | done a, f => f a
  | ask r next, f => ask r fun x => (next x).bind f

instance : Monad Program where
  pure := done
  bind := bind

@[simp] theorem done_bind {α β : Type} (a : α) (f : α → Program β) :
    (done a >>= f) = f a := rfl

@[simp] theorem ask_bind {α β : Type} (r : Request) (next : r.Answer → Program α)
    (f : α → Program β) : (ask r next >>= f) = ask r fun x => next x >>= f := rfl

theorem bind_done {α : Type} (x : Program α) : x.bind done = x := by
  induction x with
  | done a => rfl
  | ask r next ih => exact congrArg (ask r) (funext ih)

theorem bind_bind {α β γ : Type} (x : Program α) (f : α → Program β) (g : β → Program γ) :
    (x.bind f).bind g = x.bind fun a => (f a).bind g := by
  induction x with
  | done a => rfl
  | ask r next ih => exact congrArg (ask r) (funext ih)

instance : LawfulMonad Program :=
  LawfulMonad.mk' _ bind_done (fun _ _ => rfl) bind_bind

/-- One request and its answer. -/
def request (r : Request) : Program r.Answer :=
  ask r done

end Program

/-- A program that ends with a value or an error. -/
abbrev Routine (α : Type) : Type := ExceptT Error Program α

namespace Routine

/-- Lets a program run for its value or its error. -/
def attempt {α : Type} (a : Routine α) : Program (Except Error α) :=
  ExceptT.run a

/-- Ends with what was computed without asking. -/
def ofExcept {α : Type} (r : Except Error α) : Routine α :=
  ExceptT.mk (.done r)

/-- Goes on with the value or the error of a routine. -/
def handle {α β : Type} (a : Routine α) (f : Except Error α → Routine β) : Routine β :=
  ExceptT.mk (a.attempt >>= fun r => (f r).attempt)

/-- The routine with its errors told differently. -/
def mapError {α : Type} (f : Error → Error) (a : Routine α) : Routine α :=
  a.handle fun r => ofExcept (r.mapError f)

/-- Stores a value under a new name. -/
def create (name : String) (value : Bytes) : Routine Unit :=
  ExceptT.mk (Program.request (.create name value))

/-- The value under a name. -/
def get (name : String) : Routine Bytes :=
  ExceptT.mk (Program.request (.get name))

/-- Removes a name. -/
def delete (name : String) : Routine Unit :=
  ExceptT.mk (Program.request (.delete name))

/-- All names that a pattern matches. -/
def list (pattern : String) : Routine (List String) :=
  ExceptT.mk (Program.request (.list pattern))

/-- Fails if the store cannot be reached. -/
def status : Routine Unit :=
  ExceptT.mk (Program.request .status)

/-- What time it is. -/
def time : Routine Timestamp :=
  ExceptT.lift (Program.request .time)

end Routine

end KeyCustody
