import KeyCustody.Store.DataDir

/-!
# Writers in one directory

Several calls may create names in one directory at once.  Each of them is a writer that goes
its own steps, and between any two of its steps others may come.  The steps are those of
`Creation.step`, but the temporary file is written octet by octet, so that it is seen with
every part of its content.

A `Scene` is a directory with its writers.  `Scene.after` follows any sequence of steps, and
`Scene.linked` tells whose step was a link that was made.
-/

namespace KeyCustody.DataDir

/-- How far a call to create has come. -/
inductive Progress where
  /-- It has not looked at its name and its context yet. -/
  | called
  /-- The temporary file holds so many octets of the value. -/
  | writing (n : Nat)
  /-- It has come to one of the steps of a creation. -/
  | reached (p : Phase)

/-- A call to create on its way. -/
structure Writer where
  creation : Creation
  progress : Progress

namespace Writer

/-- One step of the call; `ended` tells whether its context has ended. -/
def step (w : Writer) (ended : Bool) (d : DataDir) : Writer × DataDir :=
  let k := w.creation
  match w.progress with
  | .called =>
    match requireKey k.name with
    | .error e => (⟨k, .reached (.finished (.error e))⟩, d)
    | .ok () =>
      if ended then (⟨k, .reached (.finished (.error .canceled))⟩, d)
      else (⟨k, .reached .started⟩, d)
  | .reached .started =>
    match d.write k.temp [] with
    | .ok d => (⟨k, .writing 0⟩, d)
    | .error e => (⟨k, .reached (.settled (.error (e.toError k.name)))⟩, d)
  | .writing n =>
    if n < k.value.length then (⟨k, .writing (n + 1)⟩, d.plant k.temp (k.value.take (n + 1)))
    else (⟨k, .reached .written⟩, d)
  | .reached p =>
    let (p, d) := k.step ended p d
    (⟨k, .reached p⟩, d)

/-- The next step makes the link. -/
def links (w : Writer) (d : DataDir) : Bool :=
  match w.progress with
  | .reached .checked => (d.link w.creation.temp (FileName.encode w.creation.name)).toBool
  | _ => false

/-- What the call has returned. -/
def result? (w : Writer) : Option (Except Error Unit) :=
  match w.progress with
  | .reached (.finished r) => some r
  | _ => none

end Writer

/-- A directory and the calls that write to it. -/
structure Scene where
  dir : DataDir
  writers : List Writer

namespace Scene

/-- One step of one of the writers. -/
def step (s : Scene) (i : Nat) (ended : Bool) : Scene :=
  match s.writers[i]? with
  | none => s
  | some w => ⟨(w.step ended s.dir).2, s.writers.set i (w.step ended s.dir).1⟩

/-- The next step of the writer makes its link. -/
def links (s : Scene) (i : Nat) : Bool :=
  match s.writers[i]? with
  | none => false
  | some w => w.links s.dir

/-- The scene after steps of writers, each under a context that has ended or not. -/
def after (s : Scene) : List (Nat × Bool) → Scene
  | [] => s
  | (i, ended) :: moves => (s.step i ended).after moves

/-- The writers whose links were made. -/
def linked (s : Scene) : List (Nat × Bool) → List Nat
  | [] => []
  | (i, ended) :: moves =>
    (if s.links i then [i] else []) ++ (s.step i ended).linked moves

/-- What a writer is to create. -/
def creation? (s : Scene) (i : Nat) : Option Creation :=
  s.writers[i]?.map Writer.creation

/-- What the call of a writer has returned. -/
def result? (s : Scene) (i : Nat) : Option (Except Error Unit) :=
  s.writers[i]?.bind Writer.result?

end Scene

end KeyCustody.DataDir
