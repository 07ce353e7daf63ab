import KeyCustody.Glob
import KeyCustody.Store.DataDir
import KeyCustody.Store.Table

/-!
# Cursors

A listing is read through a cursor, one name at a time.  A failure ends the listing and is
kept; the first closing of the cursor reports it, later ones report nothing.  After a
failure or a closing a cursor yields nothing more.

What a cursor reads from depends on the store.  A map in memory is listed when the listing
starts.  A database is read page by page while the listing goes on, in the order of names,
and only where names start with the literal start of the pattern.  A directory is a stream of
file names, of which only those count that stand for a name which the pattern matches.

`Cursor.step` is one turn of the reading loop, which may read a page or pass over a file
name and yield nothing; `Cursor.next` turns until there is a name or an end.
-/

namespace KeyCustody

/-- How many names of a database are read at once. -/
def pageSize : Nat := 256

/-- The names of a table behind `after` (all names from `start` on if there is none) that
start with `start`: one page of them, and whether it is the last. -/
def Table.page (t : Table) (start : String) (after : Option String) : List String × Bool :=
  let behind := t.names.filter fun n =>
    match after with
    | some last => last < n
    | none => start ≤ n
  let found := behind.takeWhile fun n => start.toList.isPrefixOf n.toList
  if found.length < pageSize then (found, true) else (found.take pageSize, false)

/-- Where a cursor reads from. -/
inductive Source where
  /-- Names found when the listing started. -/
  | names (rest : List String)
  /-- The names of a database that the pattern matches: those of the page at hand, the last
  name read, and whether the page at hand was the last. -/
  | pages (pattern : String) (page : List String) (last : Option String) (exhausted : Bool)
  /-- File names still to come, none once their end was seen. -/
  | files (pattern : String) (rest : Option (List Bytes))

/-- A listing that is being read. -/
structure Cursor where
  source : Source
  failure : Option Error
  closed : Bool

/-- What one turn of the reading loop brings. -/
inductive Turn where
  | yield (name : String)
  /-- Nothing yet. -/
  | again
  | stop
deriving DecidableEq

namespace Cursor

/-- A cursor at the start of a listing. -/
def ofSource (s : Source) : Cursor := ⟨s, none, false⟩

/-- The cursor yields nothing more. -/
def isDone (c : Cursor) : Bool :=
  c.closed || c.failure.isSome

/-- The cursor with a failure; only the first one is kept. -/
def fail (c : Cursor) (e : Error) : Cursor :=
  match c.failure with
  | some _ => c
  | none => { c with failure := some e }

/-- One turn of the reading loop over the names that the store holds now. -/
def step (c : Cursor) (sig : Signal) (table : Table) : Turn × Cursor :=
  if c.isDone then (.stop, c)
  else if sig.atStart then (.stop, c.fail .canceled)
  else
    match c.source with
    | .names [] => (.stop, c)
    | .names (n :: ns) => (.yield n, { c with source := .names ns })
    | .pages pattern (n :: ns) last exhausted =>
      (.yield n, { c with source := .pages pattern ns last exhausted })
    | .pages _ [] _ true => (.stop, c)
    | .pages pattern [] last false =>
      if sig.atCommit then (.stop, c.fail .canceled)
      else
        let (found, exhausted) := table.page (Glob.literalStart pattern) last
        (.again, { c with
          source := .pages pattern (found.filter (Glob.accepts pattern))
            (found.getLast?.or last) exhausted })
    | .files _ none => (.stop, c)
    | .files pattern (some fs) =>
      if sig.atCommit then
        (.stop, { c.fail .canceled with source := .files pattern none })
      else
        match fs with
        | [] => (.stop, { c with source := .files pattern none })
        | f :: fs =>
          let c := { c with source := .files pattern (some fs) }
          match FileName.decode? f with
          | some n => if Glob.accepts pattern n then (.yield n, c) else (.again, c)
          | none => (.again, c)

/-- How many turns without a name may still come while the table does not change. -/
def turns (c : Cursor) (table : Table) : Nat :=
  match c.source with
  | .names _ => 0
  | .pages .. => table.entries.length + 1
  | .files _ rest => (rest.getD []).length

/-- How many names may still come while the table does not change. -/
def bound (c : Cursor) (table : Table) : Nat :=
  match c.source with
  | .names rest => rest.length
  | .pages _ page _ _ => page.length + table.entries.length
  | .files _ rest => (rest.getD []).length

/-- Turns at most `fuel` times, and once more, until there is a name or an end. -/
def seek (sig : Signal) (table : Table) : Nat → Cursor → Option String × Cursor
  | fuel, c =>
    match c.step sig table, fuel with
    | (.yield n, c), _ => (some n, c)
    | (.stop, c), _ => (none, c)
    | (.again, c), 0 => (none, c)
    | (.again, c), fuel + 1 => seek sig table fuel c

/-- The next name, or nothing once the listing is exhausted, failed, canceled or closed. -/
def next (c : Cursor) (sig : Signal) (table : Table) : Option String × Cursor :=
  seek sig table (c.turns table) c

/-- The source with nothing left to read. -/
def exhaust : Source → Source
  | .names _ => .names []
  | .pages pattern _ last _ => .pages pattern [] last true
  | .files pattern _ => .files pattern none

/-- Ends the listing and reports the failure, unless that was done before. -/
def close (c : Cursor) : Except Error Unit × Cursor :=
  if c.closed then (.ok (), { c with source := exhaust c.source })
  else
    (match c.failure with
      | some e => .error e
      | none => .ok (),
      ⟨exhaust c.source, none, true⟩)

end Cursor

end KeyCustody
