import KeyCustody.Proofs.Contract
import KeyCustody.Proofs.Directory

/-!
# What a store holds

`Backend.stored?` is the value that a store holds under a name, and `Backend.record?` the
record that this value encodes.  A creation and a deletion change what is held under one
name or they change nothing, whatever the store is made of and whatever the signal.  Main
statements:

* `Backend.create_cases` and `Backend.delete_cases`: what a change does to every look-up;
* `World.answer_create_cases` and `World.answer_delete_cases`: the same for the requests
  of programs, which mishaps may hit;
* `World.stored?_answer_of_not_removes`: what is held stays until it is removed;
* `Backend.get_ne_notFound`: what is held is never reported missing.
-/

namespace KeyCustody

/-- The content of a file, if there is a file of the name. -/
def DataDir.content? (d : DataDir) (file : Bytes) : Option Bytes :=
  match d.find file with
  | .ok (some (.file content)) => some content
  | _ => none

theorem DataDir.read_eq_ok_iff {d : DataDir} {file content : Bytes} :
    d.read file = .ok content ↔ d.content? file = some content := by
  unfold read content?
  cases d.find file with
  | error e => simp [bind, Except.bind]
  | ok found =>
      cases found with
      | none => simp [bind, Except.bind]
      | some entry => cases entry <;> simp [bind, Except.bind]

theorem DataDir.find_of_content? {d : DataDir} {file content : Bytes}
    (h : d.content? file = some content) : d.find file = .ok (some (.file content)) := by
  unfold content? at h
  split at h
  · rename_i hfind
    rw [hfind, Option.some.inj h]
  · cases h

/-- What files hold after one of a new name was added. -/
theorem content?_add {d : DataDir} {name : String}
    (h : d.find (FileName.encode name) = .ok none) (value : Bytes) (other : String) :
    (d.add (FileName.encode name) (.file value)).content? (FileName.encode other) =
      if other = name then some value else d.content? (FileName.encode other) := by
  unfold DataDir.content?
  rw [DataDir.find_add h]
  by_cases ho : other = name
  · simp [ho]
  · simp [ho, FileName.encode_injective.ne ho]

/-- What files hold after one was dropped. -/
theorem content?_drop {d : DataDir} {name : String} {found : Option DirEntry}
    (h : d.find (FileName.encode name) = .ok found) (other : String) :
    (d.drop (FileName.encode name)).content? (FileName.encode other) =
      if other = name then none else d.content? (FileName.encode other) := by
  unfold DataDir.content?
  rw [DataDir.find_drop h]
  by_cases ho : other = name
  · simp [ho]
  · simp [ho, FileName.encode_injective.ne ho]

/-- A call finds its context live, or it is canceled. -/
theorem Signal.whole_cases (sig : Signal) :
    sig.whole = .ok () ∨ sig.whole = .error .canceled := by
  unfold whole
  split
  · exact .inr rfl
  · exact .inl rfl

/-- A name is given, or it is refused. -/
theorem requireKey_cases (name : String) :
    requireKey name = .ok () ∨ requireKey name = .error (.invalid .emptyKey) := by
  unfold requireKey
  split
  · exact .inr rfl
  · exact .inl rfl

theorem requireKey_of_ne {name : String} (h : name ≠ "") : requireKey name = .ok () := by
  have : name.isEmpty = false := by simpa using h
  simp [requireKey, this]

/-- A name in a namespace is no empty name in the store. -/
theorem extend_ne {space name : String} (h : name ≠ "") : space ++ name ≠ "" :=
  fun hempty => h (String.append_eq_empty_iff.1 hempty).2

namespace Backend

/-- The value that the store holds under a name. -/
def stored? : Backend → String → Option Bytes
  | .memory t, name => t.get? name
  | .database t, name => t.get? name
  | .files d, name => d.content? (FileName.encode name)

/-- The record that the store holds under a name. -/
def record? {α : Type} [Record α] (b : Backend) (name : String) : Option α := do
  Record.decode? (← b.stored? name)

theorem record?_eq_some_iff {α : Type} [Record α] {b : Backend} {name : String} {a : α} :
    b.record? name = some a ↔
      ∃ value, b.stored? name = some value ∧ Record.decode? value = some a :=
  Option.bind_eq_some_iff

theorem record?_congr {α : Type} [Record α] {b b' : Backend} {name : String}
    (h : b'.stored? name = b.stored? name) : (b'.record? name : Option α) = b.record? name := by
  unfold record?
  rw [h]

/-- A table's answer to a look-up. -/
theorem elim_eq_ok_iff {found : Option Bytes} {name : String} {value : Bytes} :
    found.elim (.error (Error.notFound name)) Except.ok = .ok value ↔ found = some value := by
  cases found with
  | none => simp
  | some v => simp

/-- A look-up finds only what is held. -/
theorem stored?_of_get {b : Backend} {sig : Signal} {name : String} {value : Bytes}
    (h : b.get sig name = .ok value) : b.stored? name = some value := by
  have whole := sig.whole_cases
  have key := requireKey_cases name
  cases b with
  | memory t =>
      rcases whole with hs | hs <;> simp only [get, hs, bind, Except.bind] at h
      · exact elim_eq_ok_iff.1 h
      · cases h
  | database t =>
      rcases key with hk | hk <;> rcases whole with hs | hs <;>
        simp only [get, hk, hs, bind, Except.bind] at h <;> try cases h
      exact elim_eq_ok_iff.1 h
  | files d =>
      rcases key with hk | hk <;> rcases whole with hs | hs <;>
        simp only [get, DataDir.get, hk, hs, bind, Except.bind] at h <;> try cases h
      cases hr : d.read (FileName.encode name) with
      | error e => simp [hr, Except.mapError] at h
      | ok content =>
          have same : content = value := by simpa [hr, Except.mapError] using h
          exact DataDir.read_eq_ok_iff.1 (same ▸ hr)

/-- A look-up under a live context finds what is held. -/
theorem get_of_stored? {b : Backend} {name : String} {value : Bytes} (named : name ≠ "")
    (h : b.stored? name = some value) : b.get ⟨false, false⟩ name = .ok value := by
  have key := requireKey_of_ne named
  cases b with
  | memory t =>
      have found : t.get? name = some value := h
      simp only [get, found]
      rfl
  | database t =>
      have found : t.get? name = some value := h
      simp only [get, found, key]
      rfl
  | files d =>
      have found := DataDir.read_eq_ok_iff.2 h
      simp only [get, DataDir.get, found, key]
      rfl

/-- A look-up of what is held finds it, or fails for its context or its name. -/
theorem get_of_held {b : Backend} {name : String} {value : Bytes}
    (h : b.stored? name = some value) (sig : Signal) :
    b.get sig name = .ok value ∨ b.get sig name = .error .canceled ∨
      b.get sig name = .error (.invalid .emptyKey) := by
  have whole := sig.whole_cases
  have key := requireKey_cases name
  cases b with
  | memory t =>
      have found : t.get? name = some value := h
      rcases whole with hs | hs <;> simp [get, found, hs, bind, Except.bind]
  | database t =>
      have found : t.get? name = some value := h
      rcases key with hk | hk <;> rcases whole with hs | hs <;>
        simp [get, found, hk, hs, bind, Except.bind]
  | files d =>
      have found := DataDir.read_eq_ok_iff.2 h
      rcases key with hk | hk <;> rcases whole with hs | hs <;>
        simp [get, DataDir.get, found, hk, hs, bind, Except.bind, Except.mapError]

/-- What is held is never reported missing. -/
theorem get_ne_notFound {b : Backend} {name : String} {value : Bytes}
    (h : b.stored? name = some value) (sig : Signal) (what : String) :
    b.get sig name ≠ .error (.notFound what) := by
  rcases get_of_held h sig with hg | hg | hg <;> rw [hg] <;> simp

/-- **What a creation does.**  A creation that succeeds makes a new name hold the value; one
that fails changes nothing. -/
theorem create_cases (b : Backend) (sig : Signal) (name : String) (value : Bytes) :
    (∃ e, b.create sig name value = (.error e, b)) ∨
      ((b.create sig name value).1 = .ok () ∧ b.stored? name = none ∧
        ∀ other, (b.create sig name value).2.stored? other =
          if other = name then some value else b.stored? other) := by
  have whole := sig.whole_cases
  have key := requireKey_cases name
  cases b with
  | memory t =>
      rcases key with hk | hk <;> rcases whole with hs | hs <;> simp only [create, hk, hs] <;>
        try exact .inl ⟨_, rfl⟩
      cases ht : t.contains name with
      | true => exact .inl ⟨_, rfl⟩
      | false =>
          have free : t.get? name = none := by simpa [Table.contains] using ht
          exact .inr ⟨rfl, free, fun other => t.get?_insert name other value⟩
  | database t =>
      rcases key with hk | hk <;> simp only [create, hk]
      · cases sig.atStart with
        | true => exact .inl ⟨_, rfl⟩
        | false =>
            cases ht : t.contains name with
            | true => exact .inl ⟨_, rfl⟩
            | false =>
                cases sig.atCommit with
                | true => exact .inl ⟨_, rfl⟩
                | false =>
                    have free : t.get? name = none := by simpa [Table.contains] using ht
                    exact .inr ⟨rfl, free, fun other => t.get?_insert name other value⟩
      · exact .inl ⟨_, rfl⟩
  | files d =>
      simp only [create, DataDir.create_eq]
      rcases key with hk | hk <;> simp only [hk]
      · cases sig.atStart with
        | true => exact .inl ⟨_, rfl⟩
        | false =>
            simp only [Bool.false_eq_true, if_false]
            cases d.find d.freshTemp with
            | error e => exact .inl ⟨_, rfl⟩
            | ok _ =>
                cases sig.atCommit with
                | true => exact .inl ⟨_, rfl⟩
                | false =>
                    simp only [Bool.false_eq_true, if_false]
                    cases hf : d.find (FileName.encode name) with
                    | error e => exact .inl ⟨_, rfl⟩
                    | ok found =>
                        cases found with
                        | some _ => exact .inl ⟨_, rfl⟩
                        | none =>
                            refine .inr ⟨rfl, ?_, fun other => ?_⟩
                            · simp [stored?, DataDir.content?, hf]
                            · exact content?_add hf value other
      · exact .inl ⟨_, rfl⟩

/-- **What a deletion does.**  A deletion that succeeds leaves the name without a value; one
that fails changes nothing. -/
theorem delete_cases (b : Backend) (sig : Signal) (name : String) :
    (∃ e, b.delete sig name = (.error e, b)) ∨
      ((b.delete sig name).1 = .ok () ∧
        ∀ other, (b.delete sig name).2.stored? other =
          if other = name then none else b.stored? other) := by
  have whole := sig.whole_cases
  have key := requireKey_cases name
  cases b with
  | memory t =>
      rcases whole with hs | hs <;> simp only [delete, hs]
      · exact .inr ⟨trivial, fun other => t.get?_erase name other⟩
      · exact .inl ⟨_, rfl⟩
  | database t =>
      rcases key with hk | hk <;> rcases whole with hs | hs <;> simp only [delete, hk, hs] <;>
        try exact .inl ⟨_, rfl⟩
      exact .inr ⟨trivial, fun other => t.get?_erase name other⟩
  | files d =>
      simp only [delete, DataDir.delete_eq]
      rcases key with hk | hk <;> simp only [hk]
      · cases sig.atStart with
        | true => exact .inl ⟨_, rfl⟩
        | false =>
            simp only [Bool.false_eq_true, if_false]
            -- a name that no file has held nothing before
            have absent : (∀ content, d.find (FileName.encode name) ≠
                .ok (some (.file content))) → ∀ other, (Backend.files d).stored? other =
                  if other = name then none else (Backend.files d).stored? other := by
              intro none other
              by_cases ho : other = name
              · subst ho
                rw [if_pos rfl, stored?, DataDir.content?]
                split
                · rename_i content found
                  exact absurd found (none content)
                · rfl
              · rw [if_neg ho]
            cases hf : d.find (FileName.encode name) with
            | error e =>
                cases e <;> first
                  | exact .inl ⟨_, rfl⟩
                  | exact .inr ⟨rfl, absent (by simp [hf])⟩
            | ok found =>
                cases found with
                | none => exact .inr ⟨rfl, absent (by simp [hf])⟩
                | some entry =>
                    cases entry with
                    | folder => exact .inl ⟨_, rfl⟩
                    | file content => exact .inr ⟨rfl, fun other => content?_drop hf other⟩
      · exact .inl ⟨_, rfl⟩

/-- Under a context that has ended nothing is created. -/
theorem create_ended (b : Backend) (name : String) (value : Bytes) :
    (b.create (.steady true) name value).2 = b := by
  cases b with
  | memory t => unfold create; cases requireKey name <;> rfl
  | database t => unfold create; cases requireKey name <;> rfl
  | files d => simp only [create, DataDir.create_eq]; cases requireKey name <;> rfl

/-- Under a context that has ended nothing is removed. -/
theorem delete_ended (b : Backend) (name : String) :
    (b.delete (.steady true) name).2 = b := by
  cases b with
  | memory t => rfl
  | database t => unfold delete; cases requireKey name <;> rfl
  | files d => simp only [delete, DataDir.delete_eq]; cases requireKey name <;> rfl

/-- Under a context that lives a deletion leaves the name without a value. -/
theorem stored?_delete_live (b : Backend) {name : String} (hname : name ≠ "") :
    (b.delete (.steady false) name).2.stored? name = none := by
  have hkey := requireKey_of_ne hname
  rcases b.delete_cases (.steady false) name with ⟨e, hfailed⟩ | ⟨-, hheld⟩
  · -- what refuses a deletion is no file
    rw [hfailed]
    cases hheld : b.stored? name with
    | none => rfl
    | some value =>
        cases b with
        | memory t => cases hfailed
        | database t =>
            simp only [delete, hkey] at hfailed
            cases hfailed
        | files d =>
            have hfind := DataDir.find_of_content? hheld
            simp only [delete, DataDir.delete_eq, hkey, hfind] at hfailed
            cases hfailed
  · rw [hheld, if_pos rfl]

end Backend

/-! ### Answers of a world -/

namespace World

/-- The world over another store. -/
def withBackend {σ : Type} (w : World σ) (b : Backend) : World σ := { w with backend := b }

@[simp] theorem backend_cancel {σ : Type} (w : World σ) (t : Option Token) :
    (w.cancel t).backend = w.backend := by
  cases t <;> rfl

variable {σ : Type} [Mishaps σ]

/-- What an access meets leaves the store alone. -/
@[simp] theorem backend_meet (w : World σ) (c : Context) (a : Access) :
    (w.meet c a).2.backend = w.backend := by
  unfold meet
  split
  simp only
  split
  · simp
  · simp

/-- Reading a listing leaves the store alone. -/
theorem backend_nextName (w : World σ) (c : Context) (cursor : Cursor) :
    (w.nextName c cursor).2.2.backend = w.backend := by
  unfold nextName
  split
  · rfl
  · simp only
    split
    · rename_i v hv
      have := w.backend_meet c (.next (cursor.next (.steady (w.ended c)) w.backend.table).1)
      rw [hv] at this
      exact this
    · rename_i v hv
      have := w.backend_meet c (.next (cursor.next (.steady (w.ended c)) w.backend.table).1)
      rw [hv] at this
      exact this

theorem backend_readAll (c : Context) (fuel : Nat) (names : List String) (cursor : Cursor)
    (w : World σ) : (readAll c fuel names cursor w).2.backend = w.backend := by
  induction fuel generalizing names cursor w with
  | zero => rfl
  | succ fuel ih =>
      have kept := w.backend_nextName c cursor
      rw [readAll]
      split
      · rename_i name cursor' w' hn
        rw [hn] at kept
        exact (ih _ _ _).trans kept
      · rename_i cursor' w' hn
        rw [hn] at kept
        exact kept

/-- A listing leaves the store alone. -/
theorem backend_list (w : World σ) (c : Context) (pattern : String) :
    (w.list c pattern).2.backend = w.backend := by
  have kept := w.backend_meet c (.list pattern)
  unfold list startListing
  cases hm : w.meet c (.list pattern) with
  | mk met w' =>
      rw [hm] at kept
      cases met with
      | error e => exact kept
      | ok sig =>
          simp only
          split
          · rename_i e w'' h
            exact (Prod.mk.inj h).2 ▸ kept
          · rename_i cursor w'' h
            exact (backend_readAll c _ _ _ _).trans ((Prod.mk.inj h).2 ▸ kept)

/-- **What a request to create does** under mishaps: it fails and changes nothing, or it makes
a new name hold the value. -/
theorem answer_create_cases (w : World σ) (c : Context) (name : String) (value : Bytes) :
    (∃ e, (w.answer c (.create name value)).1 = .error e ∧
        (w.answer c (.create name value)).2.backend = w.backend) ∨
      ((w.answer c (.create name value)).1 = .ok () ∧ w.backend.stored? name = none ∧
        ∀ other, (w.answer c (.create name value)).2.backend.stored? other =
          if other = name then some value else w.backend.stored? other) := by
  have kept := w.backend_meet c (.create name)
  simp only [answer]
  cases hm : w.meet c (.create name) with
  | mk met w' =>
      rw [hm] at kept
      cases met with
      | error e => exact .inl ⟨e, rfl, kept⟩
      | ok sig =>
          simp only at kept ⊢
          rw [kept]
          rcases w.backend.create_cases sig name value with ⟨e, h⟩ | h
          · exact .inl ⟨e, by rw [h], by rw [h]⟩
          · exact .inr h

/-- **What a request to delete does** under mishaps: it fails and changes nothing, or it
leaves the name without a value. -/
theorem answer_delete_cases (w : World σ) (c : Context) (name : String) :
    (∃ e, (w.answer c (.delete name)).1 = .error e ∧
        (w.answer c (.delete name)).2.backend = w.backend) ∨
      ((w.answer c (.delete name)).1 = .ok () ∧
        ∀ other, (w.answer c (.delete name)).2.backend.stored? other =
          if other = name then none else w.backend.stored? other) := by
  have kept := w.backend_meet c (.delete name)
  simp only [answer]
  cases hm : w.meet c (.delete name) with
  | mk met w' =>
      rw [hm] at kept
      cases met with
      | error e => exact .inl ⟨e, rfl, kept⟩
      | ok sig =>
          simp only at kept ⊢
          rw [kept]
          rcases w.backend.delete_cases sig name with ⟨e, h⟩ | h
          · exact .inl ⟨e, by rw [h], by rw [h]⟩
          · exact .inr h

/-- A request to look up finds only what is held. -/
theorem stored?_of_answer_get {w : World σ} {c : Context} {name : String} {value : Bytes}
    (h : (w.answer c (.get name)).1 = .ok value) : w.backend.stored? name = some value := by
  have kept := w.backend_meet c (.get name)
  simp only [answer] at h
  cases hm : w.meet c (.get name) with
  | mk met w' =>
      rw [hm] at kept h
      cases met with
      | error e => cases h
      | ok sig =>
          simp only at kept h
          exact Backend.stored?_of_get (kept ▸ h)

end World

/-- The request may change what the store holds. -/
def Request.isWrite : Request → Bool
  | .create _ _ | .delete _ => true
  | _ => false

/-- A request that is no write leaves the store alone. -/
theorem World.backend_answer_of_read {σ : Type} [Mishaps σ] {r : Request}
    (read : r.isWrite = false) (w : World σ) (c : Context) :
    (w.answer c r).2.backend = w.backend := by
  cases r with
  | create name value => cases read
  | delete name => cases read
  | get name =>
      have kept := w.backend_meet c (.get name)
      simp only [answer]
      split
      · rename_i hm
        rw [hm] at kept
        exact kept
      · rename_i hm
        rw [hm] at kept
        exact kept
  | list pattern => exact w.backend_list c pattern
  | status =>
      have kept := w.backend_meet c .status
      simp only [answer]
      split
      · rename_i hm
        rw [hm] at kept
        exact kept
      · rename_i hm
        rw [hm] at kept
        exact kept
  | time => rfl
  | eventId => rfl
  | emit event => rfl

/-! ### One name of a store -/

/-- The request removes the name. -/
def Request.Removes (full : String) : Request → Prop
  | .delete name => name = full
  | _ => False

/-- The request creates the name. -/
def Request.Creates (full : String) : Request → Prop
  | .create name _ => name = full
  | _ => False

namespace World

variable {σ : Type} [Mishaps σ] {full : String} {r : Request}

/-- What is held stays until it is removed. -/
theorem stored?_answer_of_not_removes (hr : ¬ r.Removes full) (c : Context) {w : World σ}
    {value : Bytes} (hw : w.backend.stored? full = some value) :
    (w.answer c r).2.backend.stored? full = some value := by
  by_cases hwrite : r.isWrite = true
  · cases r with
    | create name v =>
        rcases w.answer_create_cases c name v with ⟨e, -, hsame⟩ | ⟨-, hfree, hheld⟩
        · rw [hsame, hw]
        · have hne : full ≠ name := by
            rintro rfl
            rw [hfree] at hw
            cases hw
          rw [hheld, if_neg hne, hw]
    | delete name =>
        rcases w.answer_delete_cases c name with ⟨e, -, hsame⟩ | ⟨-, hheld⟩
        · rw [hsame, hw]
        · rw [hheld, if_neg (Ne.symm hr), hw]
    | _ => cases hwrite
  · rw [World.backend_answer_of_read (Bool.eq_false_iff.2 hwrite) w c, hw]

/-- Unless it is created, a name holds what it held, or nothing. -/
theorem stored?_answer_of_not_creates (hr : ¬ r.Creates full) (c : Context) (w : World σ) :
    (w.answer c r).2.backend.stored? full = w.backend.stored? full ∨
      (w.answer c r).2.backend.stored? full = none := by
  by_cases hwrite : r.isWrite = true
  · cases r with
    | create name v =>
        rcases w.answer_create_cases c name v with ⟨e, -, hsame⟩ | ⟨-, -, hheld⟩
        · exact .inl (by rw [hsame])
        · exact .inl (by rw [hheld, if_neg (Ne.symm hr)])
    | delete name =>
        rcases w.answer_delete_cases c name with ⟨e, -, hsame⟩ | ⟨-, hheld⟩
        · exact .inl (by rw [hsame])
        · rw [hheld]
          by_cases hne : full = name
          · exact .inr (if_pos hne)
          · exact .inl (if_neg hne)
    | _ => cases hwrite
  · exact .inl (by rw [World.backend_answer_of_read (Bool.eq_false_iff.2 hwrite) w c])

end World

end KeyCustody
