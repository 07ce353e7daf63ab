import KeyCustody.Store.Backend

/-!
# Listings under way

A listing is read turn by turn, and much may happen around a turn: the context may end, the
store may fail to be read, and others may write.  A `Moment` is what one turn meets.
`Cursor.attempt` is a turn at a moment, which is `Cursor.step` unless a read fails.

A `Survey` is a listing of a database while others write to it.  It keeps the names that were
yielded.
-/

namespace KeyCustody

/-- What one turn of the reading loop meets. -/
structure Moment where
  signal : Signal
  /-- The error with which the store fails if it is read. -/
  fault : Option Error
  /-- The names and values that the store holds. -/
  table : Table

/-- The error that a read of the store meets, if any. -/
def Moment.trouble? (m : Moment) : Option Error :=
  if m.signal.atCommit then some .canceled else m.fault

namespace Cursor

/-- The turn comes so far that it reads the store. -/
def reads (c : Cursor) (sig : Signal) : Bool :=
  !c.isDone && !sig.atStart &&
    match c.source with
    | .pages _ [] _ false | .files _ (some _) => true
    | _ => false

/-- The cursor after a read that failed.  A directory is not read on. -/
def breakWith (c : Cursor) (e : Error) : Cursor :=
  match c.source with
  | .files pattern _ => { c.fail e with source := .files pattern none }
  | _ => c.fail e

/-- One turn of the reading loop, in which a read may fail. -/
def attempt (c : Cursor) (m : Moment) : Turn × Cursor :=
  match m.fault, c.reads m.signal && !m.signal.atCommit with
  | some e, true => (.stop, c.breakWith e)
  | _, _ => c.step m.signal m.table

/-- The error with which a turn fails, if it does. -/
def trouble? (c : Cursor) (m : Moment) : Option Error :=
  if c.isDone then none
  else if m.signal.atStart then some .canceled
  else if c.reads m.signal then m.trouble?
  else none

end Cursor

/-- A listing of a database that others write to meanwhile. -/
structure Survey where
  table : Table
  cursor : Cursor
  yielded : List String
  /-- A turn found that there is nothing more. -/
  finished : Bool

namespace Survey

/-- What happens during a listing. -/
inductive Event where
  /-- A turn of the listing. -/
  | turn (sig : Signal) (fault : Option Error)
  /-- Another call creates a name. -/
  | create (sig : Signal) (name : String) (value : Bytes)
  /-- Another call removes a name. -/
  | delete (sig : Signal) (name : String)

/-- The listing does not change the database, and others do. -/
def Event.writes : Event → Bool
  | .turn _ _ => false
  | _ => true

/-- A listing that starts. -/
def start (pattern : String) (t : Table) : Survey :=
  ⟨t, .ofSource (.pages pattern [] none false), [], false⟩

/-- The listing after one event. -/
def step (s : Survey) : Event → Survey
  | .turn sig fault =>
    match s.cursor.attempt ⟨sig, fault, s.table⟩ with
    | (.yield name, c) => { s with cursor := c, yielded := s.yielded ++ [name] }
    | (.again, c) => { s with cursor := c }
    | (.stop, c) => { s with cursor := c, finished := true }
  | .create sig name value =>
    { s with table := ((Backend.database s.table).create sig name value).2.table }
  | .delete sig name => { s with table := ((Backend.database s.table).delete sig name).2.table }

/-- The listing after some events. -/
def after (s : Survey) (events : List Event) : Survey :=
  events.foldl step s

/-- What the database held at the start and behind each of the events. -/
def tables (s : Survey) : List Event → List Table
  | [] => [s.table]
  | e :: events => s.table :: (s.step e).tables events

end Survey

end KeyCustody
