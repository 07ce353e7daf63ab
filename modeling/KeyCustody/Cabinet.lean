import KeyCustody.Record.Basic
import KeyCustody.View

/-!
# Cabinets

A cabinet is a view of the store in which every value is a record of one kind.  What does
not decode is reported as corrupt, never as missing.

A record is replaced by removing and creating it.  If another writer creates the name in
between, both are tried again, three times in all.
-/

namespace KeyCustody

/-- A view that holds records of one kind. -/
structure Cabinet (α : Type) where
  view : View

namespace Cabinet

variable {α : Type} [Record α]

/-- How often a record is removed and created before the writer gives up. -/
def attempts : Nat := 3

/-- Stores a record under a new name. -/
def create (c : Cabinet α) (name : String) (a : α) : Routine Unit :=
  c.view.create name (Record.encode a)

/-- The record under a name. -/
def get (c : Cabinet α) (name : String) : Routine α := do
  let value ← c.view.get name
  match Record.decode? value with
  | some a => pure a
  | none => throw (.corrupt name)

/-- The record under a name, or none if there is none. -/
def find? (c : Cabinet α) (name : String) : Routine (Option α) :=
  (c.get name).handle fun
    | .ok a => pure (some a)
    | .error (.notFound _) => pure none
    | .error e => throw e

/-- Removes and creates a name until nobody creates it in between, but at most `n` times. -/
def replaceValue (v : View) (name : String) (value : Bytes) : Nat → Routine Unit
  | 0 => throw (.alreadyExists name)
  | n + 1 => do
    v.delete name
    (v.create name value).handle fun
      | .error (.alreadyExists _) => replaceValue v name value n
      | r => Routine.ofExcept r

/-- Stores a record under a name, whatever was there. -/
def replace (c : Cabinet α) (name : String) (a : α) : Routine Unit :=
  replaceValue c.view name (Record.encode a) attempts

/-- Removes a name. -/
def delete (c : Cabinet α) (name : String) : Routine Unit :=
  c.view.delete name

/-- All names that a pattern matches. -/
def list (c : Cabinet α) (pattern : String) : Routine (List String) :=
  c.view.list pattern

end Cabinet

end KeyCustody
