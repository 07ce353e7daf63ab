import KeyCustody.Settings
import KeyCustody.Store.Cursor

/-!
# Backends

The three stores that can hold the records: a map in memory, a database that keeps its
names in order, and a directory of files.  They share one contract.  A creation succeeds
only if the name is new.  A look-up gives the value of the creation that succeeded.  A
deletion leaves the name absent, whether it was there or not.  A listing yields the names
that a pattern matches.

They differ in small things: memory asks of no look-up that the name be non-empty, and a
database sees that a name is taken before it looks at the context a second time.
-/

namespace KeyCustody

/-- A store of values under names. -/
inductive Backend where
  | memory (t : Table)
  | database (t : Table)
  | files (d : DataDir)

/-- What stands where a database keeps its file. -/
inductive DatabaseFile where
  | missing
  /-- A file that is no database. -/
  | foreign
  | table (t : Table)

namespace Backend

/-- The names and values in order, for a listing that reads while it goes on. -/
def table : Backend → Table
  | .memory t => t
  | .database t => t
  | .files _ => .empty

/-- Opens the store over what the data directory holds. -/
def mount (kind : BackendKind) (path : String) (root : DirRoot) (file : DatabaseFile) :
    Except Error Backend :=
  match kind with
  | .memory => .ok (.memory .empty)
  | .files => do
    let d ← DataDir.mount ⟨path, root⟩
    pure (.files d)
  | .database =>
    if root = .file then .error (.unreachable ("I/O error: " ++ FileError.exists.text))
    else
      match file with
      | .missing => .ok (.database .empty)
      | .foreign => .error (.unreachable "redb database error: not a database")
      | .table t => .ok (.database t)

/-- Leaves the store and opens it again; a map in memory starts anew. -/
def reopen : Backend → Except Error Backend
  | .memory _ => mount .memory "" .missing .missing
  | .database t => mount .database "" .missing (.table t)
  | .files d => mount .files d.path d.root .missing

/-- The store in use after it was opened a second time.  A second map in memory is another
map, a database has one user, and a directory that is opened is made if it is missing. -/
def openAgain : Backend → Except Error Backend
  | .memory t => .ok (.memory t)
  | .database _ => .error (.unreachable "redb database error: already open")
  | .files d => do
    let d ← d.mount
    pure (.files d)

/-- Stores a value under a new name. -/
def create (sig : Signal) (name : String) (value : Bytes) :
    Backend → Except Error Unit × Backend
  | .memory t =>
    match requireKey name, sig.whole with
    | .error e, _ => (.error e, .memory t)
    | .ok (), .error e => (.error e, .memory t)
    | .ok (), .ok () =>
      if t.contains name then (.error (.alreadyExists name), .memory t)
      else (.ok (), .memory (t.insert name value))
  | .database t =>
    match requireKey name with
    | .error e => (.error e, .database t)
    | .ok () =>
      if sig.atStart then (.error .canceled, .database t)
      else if t.contains name then (.error (.alreadyExists name), .database t)
      else if sig.atCommit then (.error .canceled, .database t)
      else (.ok (), .database (t.insert name value))
  | .files d =>
    let (r, d) := d.create sig name value
    (r, .files d)

/-- The value under a name. -/
def get (sig : Signal) (name : String) : Backend → Except Error Bytes
  | .memory t => do
    sig.whole
    (t.get? name).elim (.error (.notFound name)) .ok
  | .database t => do
    requireKey name
    sig.whole
    (t.get? name).elim (.error (.notFound name)) .ok
  | .files d => d.get sig name

/-- Removes a name; it is no error if it is not there. -/
def delete (sig : Signal) (name : String) : Backend → Except Error Unit × Backend
  | .memory t =>
    match sig.whole with
    | .error e => (.error e, .memory t)
    | .ok () => (.ok (), .memory (t.erase name))
  | .database t =>
    match requireKey name with
    | .error e => (.error e, .database t)
    | .ok () =>
      match sig.whole with
      | .error e => (.error e, .database t)
      | .ok () => (.ok (), .database (t.erase name))
  | .files d =>
    let (r, d) := d.delete sig name
    (r, .files d)

/-- Starts a listing of the names that the pattern matches. -/
def list (sig : Signal) (pattern : String) : Backend → Except Error Cursor
  | .memory t => do
    sig.whole
    pure (.ofSource (.names (t.names.filter (Glob.accepts pattern))))
  | .database _ => do
    if sig.atStart then .error .canceled
    pure (.ofSource (.pages pattern [] none false))
  | .files d => do
    let fs ← d.scan sig
    pure (.ofSource (.files pattern (some fs)))

/-- Whether the store can be reached. -/
def status (sig : Signal) : Backend → Except Error Unit
  | .memory _ => if sig.atStart then .error .canceled else .ok ()
  | .database _ => sig.whole
  | .files d => d.status sig

end Backend

end KeyCustody
