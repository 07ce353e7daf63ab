import KeyCustody.Error
import KeyCustody.Store.FileName
import KeyCustody.Store.Signal

/-!
# The data directory

A store of files keeps one file per name, directly under a root.  The root may get lost: it
may be missing, or a file may stand in its place.

A value is stored in steps.  It is written to a temporary file, the context is looked at,
the temporary file is linked to its name, and the temporary file is removed.  The link fails
if the name is taken, so of several writers one wins, and no reader sees a part of a value.
`Creation.step` is one such step; a creation on its own is the run of all of them.
-/

namespace KeyCustody

/-- What a directory holds under a name. -/
inductive DirEntry where
  | file (content : Bytes)
  | folder
deriving DecidableEq, Repr

/-- What stands at the root's path. -/
inductive DirRoot where
  | missing
  | file
  | folder (entries : List (Bytes × DirEntry))
deriving DecidableEq, Repr

/-- How the file system fails. -/
inductive FileError where
  | missing
  | exists
  | isFolder
  | notFolder
  | longName
deriving DecidableEq, Repr

namespace FileError

/-- The text of the system's error. -/
def text : FileError → String
  | .missing => "No such file or directory (os error 2)"
  | .exists => "File exists (os error 17)"
  | .isFolder => "Is a directory (os error 21)"
  | .notFolder => "Not a directory (os error 20)"
  | .longName => "File name too long (os error 36)"

/-- The error of a call on the name. -/
def toError (name : String) : FileError → Error
  | .missing => .notFound name
  | .exists => .alreadyExists name
  | .longName => .invalid (.longFileName name)
  | e => .unreachable (name ++ ": " ++ e.text)

end FileError

/-- A directory with its path. -/
structure DataDir where
  path : String
  root : DirRoot
deriving DecidableEq, Repr

namespace DataDir

/-- A file name holds at most this many octets. -/
def maxFileName : Nat := 255

/-- The path of a file holds at most this many octets. -/
def maxPath : Nat := 4095

/-! ### The file system -/

/-- What the root holds. -/
def entries (d : DataDir) : Except FileError (List (Bytes × DirEntry)) :=
  match d.root with
  | .missing => .error .missing
  | .file => .error .notFolder
  | .folder es => .ok es

/-- The path of a file is too long, so that the root is not even looked at.  The path of the
root is taken to leave room for all file names that a directory can hold. -/
def isLongPath (d : DataDir) (file : Bytes) : Bool :=
  maxFileName < file.length && maxPath < (Bytes.ofText d.path).length + 1 + file.length

/-- What the root holds under a file name. -/
def find (d : DataDir) (file : Bytes) : Except FileError (Option DirEntry) := do
  if d.isLongPath file then .error .longName
  let es ← d.entries
  if file.length > maxFileName then .error .longName else .ok (es.lookup file)

/-- The directory with a new entry. -/
def add (d : DataDir) (file : Bytes) (e : DirEntry) : DataDir :=
  match d.root with
  | .folder es => { d with root := .folder (es ++ [(file, e)]) }
  | _ => d

/-- The directory without an entry. -/
def drop (d : DataDir) (file : Bytes) : DataDir :=
  match d.root with
  | .folder es => { d with root := .folder (es.filter fun e => e.1 != file) }
  | _ => d

/-- Writes a new file. -/
def write (d : DataDir) (file : Bytes) (content : Bytes) : Except FileError DataDir := do
  match ← d.find file with
  | some _ => .error .exists
  | none => .ok (d.add file (.file content))

/-- Gives the content of a file a second name. -/
def link (d : DataDir) (source target : Bytes) : Except FileError DataDir := do
  match ← d.find source with
  | some (.file content) =>
    match ← d.find target with
    | some _ => .error .exists
    | none => .ok (d.add target (.file content))
  | some .folder => .error .isFolder
  | none => .error .missing

/-- Removes a file. -/
def unlink (d : DataDir) (file : Bytes) : Except FileError DataDir := do
  match ← d.find file with
  | some (.file _) => .ok (d.drop file)
  | some .folder => .error .isFolder
  | none => .error .missing

/-- The content of a file. -/
def read (d : DataDir) (file : Bytes) : Except FileError Bytes := do
  match ← d.find file with
  | some (.file content) => .ok content
  | some .folder => .error .isFolder
  | none => .error .missing

/-- The names of all entries. -/
def fileNames (d : DataDir) : Except FileError (List Bytes) := do
  pure ((← d.entries).map Prod.fst)

/-- A file as a foreign hand would put it, over a file that is there. -/
def plant (d : DataDir) (file : Bytes) (content : Bytes) : DataDir :=
  match d.find file with
  | .ok none => d.add file (.file content)
  | .ok (some (.file _)) => (d.drop file).add file (.file content)
  | _ => d

/-- A folder as a foreign hand would make it. -/
def makeFolder (d : DataDir) (file : Bytes) : DataDir :=
  match d.find file with
  | .ok none => d.add file .folder
  | _ => d

/-! ### The store -/

/-- Makes the root if it is missing. -/
def mount (d : DataDir) : Except Error DataDir :=
  match d.root with
  | .missing => .ok { d with root := .folder [] }
  | .file => .error (FileError.exists.toError d.path)
  | .folder _ => .ok d

/-- The `n`-th name for temporary files. -/
def tempName (n : Nat) : Bytes :=
  Bytes.ofText (".tmp-" ++ toString n)

/-- The first name for temporary files that no entry has. -/
def freshTemp (d : DataDir) : Bytes :=
  match d.root with
  | .folder es =>
    tempName (((List.range (es.length + 1)).find? fun n =>
      !(es.map Prod.fst).contains (tempName n)).getD es.length)
  | _ => tempName 0

/-- A value on its way into the store. -/
structure Creation where
  name : String
  value : Bytes
  /-- The temporary file, of which no other creation knows. -/
  temp : Bytes

/-- How far a creation came. -/
inductive Phase where
  | started
  /-- The temporary file is there. -/
  | written
  /-- The context was live when it was looked at. -/
  | checked
  /-- The outcome is certain; the temporary file may still be there. -/
  | settled (r : Except Error Unit)
  | finished (r : Except Error Unit)

namespace Creation

/-- One step of a creation; `ended` tells whether its context has ended. -/
def step (c : Creation) (ended : Bool) : Phase → DataDir → Phase × DataDir
  | .started, d =>
    match d.write c.temp c.value with
    | .ok d => (.written, d)
    | .error e => (.settled (.error (e.toError c.name)), d)
  | .written, d => (if ended then .settled (.error .canceled) else .checked, d)
  | .checked, d =>
    match d.link c.temp (FileName.encode c.name) with
    | .ok d => (.settled (.ok ()), d)
    | .error e => (.settled (.error (e.toError c.name)), d)
  | .settled r, d =>
    match d.unlink c.temp with
    | .ok d => (.finished r, d)
    | .error _ => (.finished r, d)
  | .finished r, d => (.finished r, d)

/-- All steps of a creation that nothing comes between. -/
def run (c : Creation) (ended : Bool) (d : DataDir) : Except Error Unit × DataDir :=
  let s := c.step ended .started d
  let s := c.step ended s.1 s.2
  let s := c.step ended s.1 s.2
  let s := c.step ended s.1 s.2
  match s.1 with
  | .finished r => (r, s.2)
  | _ => (.ok (), s.2)

end Creation

/-- Stores a value under a new name. -/
def create (d : DataDir) (sig : Signal) (name : String) (value : Bytes) :
    Except Error Unit × DataDir :=
  match requireKey name with
  | .error e => (.error e, d)
  | .ok () =>
    if sig.atStart then (.error .canceled, d)
    else (Creation.mk name value d.freshTemp).run sig.atCommit d

/-- The value under a name. -/
def get (d : DataDir) (sig : Signal) (name : String) : Except Error Bytes := do
  requireKey name
  sig.whole
  (d.read (FileName.encode name)).mapError (·.toError name)

/-- Removes a name; it is no error if it is not there. -/
def delete (d : DataDir) (sig : Signal) (name : String) : Except Error Unit × DataDir :=
  match requireKey name with
  | .error e => (.error e, d)
  | .ok () =>
    if sig.atStart then (.error .canceled, d)
    else
      match d.unlink (FileName.encode name) with
      | .ok d => (.ok (), d)
      | .error .missing => (.ok (), d)
      | .error e => (.error (e.toError name), d)

/-- The file names to go through in a listing. -/
def scan (d : DataDir) (sig : Signal) : Except Error (List Bytes) := do
  sig.whole
  d.fileNames.mapError (·.toError d.path)

/-- Whether the root can be read. -/
def status (d : DataDir) (sig : Signal) : Except Error Unit := do
  sig.whole
  match d.root with
  | .missing => .error (.unreachable (d.path ++ ": " ++ FileError.missing.text))
  | .file => .error (.unreachable (d.path ++ " is not a directory"))
  | .folder _ => .ok ()

end DataDir

end KeyCustody
