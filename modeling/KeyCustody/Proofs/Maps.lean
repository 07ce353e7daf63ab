import KeyCustody.Proofs.Mirroring
import KeyCustody.StoreCall

/-!
# Stores as maps

`Table.perform` says what a call makes of a map and what it gives.  A store behaves as a map if
every sequence of calls on it is answered as by the map (`Host.BehavesAs`), whatever its states
are and however it works.  The terms (`Terms`) say which calls the store refuses, with which
error, and whether its listings are in order.  Main statements:

* `Host.BehavesAs.call`: a store that behaves as a map goes on doing so;
* `World.behavesAs`: a tidy store behaves as the map of what it holds;
* `Backend.Tidy.get_congr`: look-ups in tidy stores of one kind.
-/

namespace KeyCustody

/-! ### Maps -/

/-- The terms on which a store behaves as a map. -/
structure Terms (C : Type) where
  /-- The error with which a call under a context is refused, if it is. -/
  refuses : C → StoreCall → Option Error
  /-- Listings come in the order of names. -/
  sorted : Bool

/-- Why a plain store refuses a call: first for an empty name, then because the context has
ended. -/
def StoreCall.refusal (ended : Bool) (k : StoreCall) : Option Error :=
  if k.name? = some "" then some (.invalid .emptyKey)
  else if ended then some .canceled
  else none

/-- The terms of a plain store. -/
def Terms.plain {C : Type} (ended : C → Bool) (sorted : Bool) : Terms C where
  refuses c k := k.refusal (ended c)
  sorted := sorted

namespace Table

/-- What a call gives on a map, and the map afterwards. -/
def perform : StoreCall → Table → Except Error StoreReply × Table
  | .create name value, t =>
    if t.contains name then (.error (.alreadyExists name), t)
    else (.ok .done, t.insert name value)
  | .get name, t =>
    match t.get? name with
    | some value => (.ok (.value value), t)
    | none => (.error (.notFound name), t)
  | .delete name, t => (.ok .done, t.erase name)
  | .list pattern, t => (.ok (.names (t.names.filter (Glob.accepts pattern))), t)
  | .status, t => (.ok .done, t)

/-- The same for a call that may be refused. -/
def answer (refusal : Option Error) (k : StoreCall) (t : Table) :
    Except Error StoreReply × Table :=
  match refusal with
  | some e => (.error e, t)
  | none => t.perform k

/-- How a map answers calls on some terms, one after the other. -/
def serve {C : Type} (m : Terms C) :
    List (C × StoreCall) → Table → List (Except Error StoreReply) × Table
  | [], t => ([], t)
  | (c, k) :: calls, t =>
    let (r, t) := t.answer (m.refuses c k) k
    let (rs, t) := t.serve m calls
    (r :: rs, t)

end Table

/-! ### Stores that behave as maps -/

/-- The reply is that of the map.  If listings come in any order, they name each name once all
the same. -/
def Agrees (sorted : Bool) : Except Error StoreReply → Except Error StoreReply → Prop
  | .ok (.names found), .ok (.names names) => found.Perm names ∧ (sorted = true → found = names)
  | r, r' => r = r'

/-- A reply agrees with itself. -/
theorem Agrees.refl (sorted : Bool) (r : Except Error StoreReply) : Agrees sorted r r := by
  rcases r with e | _ | _ | names
  · rfl
  · rfl
  · rfl
  · exact ⟨.rfl, fun _ => rfl⟩

/-- Where listings are in order, replies that agree are the same. -/
theorem Agrees.eq {r r' : Except Error StoreReply} (h : Agrees true r r') : r = r' := by
  rcases r with e | _ | _ | found <;> rcases r' with e' | _ | _ | names <;> try exact h
  exact congrArg (fun names => Except.ok (StoreReply.names names)) (h.2 rfl)

namespace Host

variable {C S : Type}

/-- Every sequence of calls on the store is answered as by the map. -/
def BehavesAs (h : Host C S) (m : Terms C) (s : S) (t : Table) : Prop :=
  ∀ calls : List (C × StoreCall),
    List.Forall₂ (Agrees m.sorted) (h.serve calls s).1 (t.serve m calls).1

/-- **A store that behaves as a map goes on doing so** after every call. -/
theorem BehavesAs.call {h : Host C S} {m : Terms C} {s : S} {t : Table}
    (hs : h.BehavesAs m s t) (c : C) (k : StoreCall) :
    Agrees m.sorted (h.call c k s).1 (t.answer (m.refuses c k) k).1 ∧
      h.BehavesAs m (h.call c k s).2 (t.answer (m.refuses c k) k).2 :=
  ⟨(List.forall₂_cons.1 (hs [(c, k)])).1,
    fun calls => (List.forall₂_cons.1 (hs ((c, k) :: calls))).2⟩

end Host

/-! ### Tidy stores behave as maps -/

/-- A call on a world's store is one request. -/
theorem World.call_host {σ : Type} [Mishaps σ] (c : Context) (k : StoreCall) (w : World σ) :
    (World.host σ).call c k w =
      (k.reply (w.answer c k.request).1, (w.answer c k.request).2) := by
  unfold Host.call
  change Program.runOn (World.answer c) _ w = _
  rw [← Program.run_eq_runOn]
  cases k <;> exact Routine.run_map c _ _ w

namespace DataDir

instance (name : String) : Decidable (Short name) :=
  inferInstanceAs (Decidable (_ ≤ _))

/-- A change leaves a directory where it is. -/
theorem path_add (d : DataDir) (file : Bytes) (e : DirEntry) : (d.add file e).path = d.path := by
  unfold add
  split <;> rfl

theorem path_drop (d : DataDir) (file : Bytes) : (d.drop file).path = d.path := by
  unfold drop
  split <;> rfl

/-- A search in a tidy directory fails for a name that is too long. -/
theorem Tidy.find_long {d : DataDir} (hd : d.Tidy) {name : String} (hlong : ¬ Short name) :
    d.find (FileName.encode name) = .error .longName := by
  obtain ⟨path, root⟩ := d
  obtain ⟨records, hroot, -, -⟩ := hd
  simp only at hroot
  subst hroot
  rw [find_folder, if_pos (Nat.lt_of_not_le hlong)]

end DataDir

/-- Why a directory refuses the name of a call, if it does. -/
def StoreCall.longName? (k : StoreCall) : Option Error :=
  k.name?.bind fun name => if DataDir.Short name then none else some (.invalid (.longFileName name))

namespace BackendKind

/-- Why a store of the kind refuses a call.  Memory asks only of creations that the name be
non-empty, and a directory sees whether a name is too long when it looks at the files. -/
def refuses (ended : Bool) : BackendKind → StoreCall → Option Error
  | .memory, .create name value => (StoreCall.create name value).refusal ended
  | .memory, _ => if ended then some .canceled else none
  | .database, k => k.refusal ended
  | .files, k => (k.refusal ended).or k.longName?

/-- The terms on which a store of the kind behaves as a map. -/
def terms {C : Type} (kind : BackendKind) (ended : C → Bool) : Terms C where
  refuses c k := kind.refuses (ended c) k
  sorted := kind != .files

end BackendKind

/-- The kind of a store. -/
def Backend.kind : Backend → BackendKind
  | .memory _ => .memory
  | .database _ => .database
  | .files _ => .files

/-- The path of the directory in which the store keeps one file per name, if it does. -/
def Backend.path? : Backend → Option String
  | .files d => some d.path
  | _ => none

/-- The store is tidy and holds what the map holds. -/
structure Backend.Holds (b : Backend) (t : Table) : Prop where
  tidy : b.Tidy
  stored : ∀ name, b.stored? name = t.get? name

namespace Backend

variable {b : Backend} {t : Table} {ended : Bool}

/-- A table holds what it holds. -/
theorem holds_memory (t : Table) : (Backend.memory t).Holds t :=
  ⟨trivial, fun _ => rfl⟩

theorem holds_database (t : Table) : (Backend.database t).Holds t :=
  ⟨trivial, fun _ => rfl⟩

theorem Holds.memory_eq {t' : Table} (h : (Backend.memory t').Holds t) : t' = t :=
  Table.ext h.stored

theorem Holds.database_eq {t' : Table} (h : (Backend.database t').Holds t) : t' = t :=
  Table.ext h.stored

/-- A call on the store under a context that lives or has ended. -/
def call (ended : Bool) (b : Backend) : StoreCall → Except Error StoreReply × Backend
  | .create name value =>
    let (r, b) := b.create (.steady ended) name value
    (r.map fun _ => .done, b)
  | .get name => ((b.get (.steady ended) name).map .value, b)
  | .delete name =>
    let (r, b) := b.delete (.steady ended) name
    (r.map fun _ => .done, b)
  | .list pattern => ((if ended then .error .canceled else b.listed pattern).map .names, b)
  | .status => ((b.status (.steady ended)).map fun _ => .done, b)

/-- What a call may find out about a name of a table. -/
theorem name_cases (name : String) :
    (name = "" ∧ requireKey name = .error (.invalid .emptyKey)) ∨
      (name ≠ "" ∧ requireKey name = .ok ()) := by
  by_cases hname : name = ""
  · exact .inl ⟨hname, hname ▸ rfl⟩
  · exact .inr ⟨hname, requireKey_of_ne hname⟩

/-- A map in memory is a map. -/
theorem call_memory (t : Table) (k : StoreCall) :
    (Backend.memory t).call ended k =
      ((t.answer (BackendKind.memory.refuses ended k) k).1,
        .memory (t.answer (BackendKind.memory.refuses ended k) k).2) := by
  cases k with
  | create name value =>
      rcases name_cases name with ⟨rfl, hkey⟩ | ⟨hname, hkey⟩
      · rfl
      · cases ended <;> by_cases htaken : t.contains name = true <;>
          simp [call, Backend.create, BackendKind.refuses, StoreCall.refusal, StoreCall.name?,
            Table.answer, Table.perform, Signal.whole, Signal.steady, hname, hkey, htaken,
            Except.map]
  | get name =>
      cases ended with
      | true => rfl
      | false => cases hfound : t.get? name <;>
          simp [call, Backend.get, BackendKind.refuses, Table.answer, Table.perform,
            Signal.whole, Signal.steady, hfound, bind, Except.bind, Except.map]
  | delete name => cases ended <;> rfl
  | list pattern => cases ended <;> rfl
  | status => cases ended <;> rfl

/-- A database is a map. -/
theorem call_database (t : Table) (k : StoreCall) :
    (Backend.database t).call ended k =
      ((t.answer (BackendKind.database.refuses ended k) k).1,
        .database (t.answer (BackendKind.database.refuses ended k) k).2) := by
  cases k with
  | create name value =>
      rcases name_cases name with ⟨rfl, hkey⟩ | ⟨hname, hkey⟩
      · rfl
      · cases ended <;> by_cases htaken : t.contains name = true <;>
          simp [call, Backend.create, BackendKind.refuses, StoreCall.refusal, StoreCall.name?,
            Table.answer, Table.perform, Signal.steady, hname, hkey, htaken, Except.map]
  | get name =>
      rcases name_cases name with ⟨rfl, hkey⟩ | ⟨hname, hkey⟩
      · rfl
      · cases ended <;> cases hfound : t.get? name <;>
          simp [call, Backend.get, BackendKind.refuses, StoreCall.refusal, StoreCall.name?,
            Table.answer, Table.perform, Signal.whole, Signal.steady, hname, hkey, hfound, bind,
            Except.bind, Except.map]
  | delete name =>
      rcases name_cases name with ⟨rfl, hkey⟩ | ⟨hname, hkey⟩
      · rfl
      · cases ended <;>
          simp [call, Backend.delete, BackendKind.refuses, StoreCall.refusal, StoreCall.name?,
            Table.answer, Table.perform, Signal.whole, Signal.steady, hname, hkey, Except.map]
  | list pattern => cases ended <;> rfl
  | status => cases ended <;> rfl

/-- A listing of the store names what the map names. -/
theorem Holds.listed (h : b.Holds t) (pattern : String) :
    ∃ names, b.listed pattern = .ok names ∧
      names.Perm (t.names.filter (Glob.accepts pattern)) := by
  obtain ⟨names, hlisted, hnodup, hnames⟩ := exists_listed_tidy h.tidy pattern
  have hnodup' : (t.names.filter (Glob.accepts pattern)).Nodup :=
    (t.sorted_names.imp fun hlt => String.ne_of_lt hlt).filter _
  refine ⟨names, hlisted, (List.perm_ext_iff_of_nodup hnodup hnodup').2 fun name => ?_⟩
  rw [hnames, h.stored, List.mem_filter, Table.mem_names_iff]
  exact and_comm

/-- When a directory refuses a call for something. -/
theorem refuses_files {k : StoreCall} {name : String} (hk : k.name? = some name)
    (hname : name ≠ "") (ended : Bool) :
    BackendKind.files.refuses ended k =
      if ended then some .canceled
      else if DataDir.Short name then none
      else some (.invalid (.longFileName name)) := by
  simp only [BackendKind.refuses, StoreCall.refusal, StoreCall.longName?, hk,
    Option.some.injEq, hname, if_false, Option.bind_some]
  cases ended <;> rfl

/-- A directory looks for what it does not refuse. -/
theorem of_refuses_none {k : StoreCall} {name : String} (hk : k.name? = some name)
    (hallowed : BackendKind.files.refuses ended k = none) :
    name ≠ "" ∧ ended = false ∧ DataDir.Short name := by
  have hname : name ≠ "" := by
    rintro rfl
    simp only [BackendKind.refuses, StoreCall.refusal, hk, if_true, Option.some_or] at hallowed
    cases hallowed
  rw [refuses_files hk hname] at hallowed
  cases ended with
  | true => cases hallowed
  | false =>
      by_cases hshort : DataDir.Short name
      · exact ⟨hname, rfl, hshort⟩
      · simp only [hshort, if_false] at hallowed
        cases hallowed

/-- **What a directory refuses** leaves it as it is. -/
theorem call_refused {d : DataDir} (hd : d.Tidy) {k : StoreCall} {e : Error}
    (hrefused : BackendKind.files.refuses ended k = some e) :
    (Backend.files d).call ended k = (.error e, .files d) := by
  -- of the calls for something, those with a name that is too long get as far as the files
  have hnamed {name : String} (hk : k.name? = some name) :
      (name = "" ∧ e = .invalid .emptyKey) ∨ (name ≠ "" ∧ ended = true ∧ e = .canceled) ∨
        (name ≠ "" ∧ ended = false ∧ e = .invalid (.longFileName name) ∧
          d.find (FileName.encode name) = .error .longName) := by
    by_cases hname : name = ""
    · subst hname
      simp only [BackendKind.refuses, StoreCall.refusal, hk, if_true, Option.some_or,
        Option.some.injEq] at hrefused
      exact .inl ⟨rfl, hrefused.symm⟩
    rw [refuses_files hk hname] at hrefused
    cases ended with
    | true => exact .inr (.inl ⟨hname, rfl, (Option.some.inj hrefused).symm⟩)
    | false =>
        by_cases hshort : DataDir.Short name
        · simp only [hshort, if_true] at hrefused
          cases hrefused
        · simp only [hshort, if_false] at hrefused
          exact .inr (.inr ⟨hname, rfl, (Option.some.inj hrefused).symm, hd.find_long hshort⟩)
  cases k with
  | create name value =>
      rcases hnamed rfl with ⟨rfl, rfl⟩ | ⟨hname, rfl, rfl⟩ | ⟨hname, rfl, rfl, hfind⟩
      · rfl
      all_goals
        simp only [call, Backend.create, DataDir.create_eq, requireKey_of_ne hname, Signal.steady]
      · rfl
      · simp only [hd.find_freshTemp, hfind]
        rfl
  | get name =>
      rcases hnamed rfl with ⟨rfl, rfl⟩ | ⟨hname, rfl, rfl⟩ | ⟨hname, rfl, rfl, hfind⟩
      · rfl
      all_goals
        simp only [call, Backend.get, DataDir.get, DataDir.read, requireKey_of_ne hname]
      · rfl
      · rw [hfind]
        rfl
  | delete name =>
      rcases hnamed rfl with ⟨rfl, rfl⟩ | ⟨hname, rfl, rfl⟩ | ⟨hname, rfl, rfl, hfind⟩
      · rfl
      all_goals
        simp only [call, Backend.delete, DataDir.delete_eq, requireKey_of_ne hname, Signal.steady]
      · rfl
      · simp only [hfind]
        rfl
  | list pattern =>
      cases ended with
      | true =>
          obtain rfl : Error.canceled = e := Option.some.inj hrefused
          rfl
      | false => cases hrefused
  | status =>
      cases ended with
      | true =>
          obtain rfl : Error.canceled = e := Option.some.inj hrefused
          rfl
      | false => cases hrefused

/-- The call on a directory is answered as by the map, and leaves the directory in its place. -/
def FollowsMap (ended : Bool) (d : DataDir) (t : Table) (k : StoreCall) : Prop :=
  Agrees false ((Backend.files d).call ended k).1
      (t.answer (BackendKind.files.refuses ended k) k).1 ∧
    ∃ d', ((Backend.files d).call ended k).2 = .files d' ∧ d'.path = d.path ∧
      (Backend.files d').Holds (t.answer (BackendKind.files.refuses ended k) k).2

section

variable {d : DataDir} {name : String} (h : (Backend.files d).Holds t)

include h

/-- A search in a directory finds what the map finds. -/
theorem Holds.find (hshort : DataDir.Short name) :
    d.find (FileName.encode name) = .ok ((t.get? name).map DirEntry.file) := by
  rw [DataDir.Tidy.find_eq h.tidy hshort, ← h.stored]
  rfl

theorem followsMap_create {value : Bytes}
    (hallowed : BackendKind.files.refuses ended (.create name value) = none) :
    FollowsMap ended d t (.create name value) := by
  have htidy : d.Tidy := h.tidy
  obtain ⟨hname, rfl, hshort⟩ := of_refuses_none rfl hallowed
  have hfind := h.find hshort
  have hfree := htidy.find_freshTemp
  cases hheld : t.get? name with
  | some old =>
      simp only [FollowsMap, hallowed, call, Backend.create, DataDir.create_eq,
        requireKey_of_ne hname, hfree, hfind, hheld, Signal.steady, Table.answer, Table.perform,
        Table.contains]
      exact ⟨rfl, d, rfl, rfl, h⟩
  | none =>
      rw [hheld] at hfind
      simp only [FollowsMap, hallowed, call, Backend.create, DataDir.create_eq,
        requireKey_of_ne hname, hfree, hfind, hheld, Signal.steady, Table.answer, Table.perform,
        Table.contains, Option.isSome_none, Bool.false_eq_true, if_false]
      refine ⟨rfl, _, rfl, d.path_add _ _, htidy.add hfind value, fun other => ?_⟩
      rw [Table.get?_insert, ← h.stored]
      exact content?_add hfind value other

theorem followsMap_get (hallowed : BackendKind.files.refuses ended (.get name) = none) :
    FollowsMap ended d t (.get name) := by
  obtain ⟨hname, rfl, hshort⟩ := of_refuses_none rfl hallowed
  simp only [FollowsMap, hallowed, call, Backend.get, DataDir.get, DataDir.read,
    requireKey_of_ne hname, h.find hshort, Table.answer, Table.perform]
  cases t.get? name <;> exact ⟨rfl, d, rfl, rfl, h⟩

theorem followsMap_delete (hallowed : BackendKind.files.refuses ended (.delete name) = none) :
    FollowsMap ended d t (.delete name) := by
  obtain ⟨hname, rfl, hshort⟩ := of_refuses_none rfl hallowed
  have hfind := h.find hshort
  simp only [FollowsMap, hallowed, call, Backend.delete, DataDir.delete_eq,
    requireKey_of_ne hname, hfind, Signal.steady, Bool.false_eq_true, if_false, Table.answer,
    Table.perform]
  cases hheld : t.get? name with
  | some old =>
      refine ⟨rfl, _, rfl, d.path_drop _, DataDir.Tidy.drop h.tidy name, fun other => ?_⟩
      rw [Table.get?_erase, ← h.stored]
      exact content?_drop hfind other
  | none =>
      refine ⟨rfl, d, rfl, rfl, h.tidy, fun other => ?_⟩
      rw [Table.get?_erase, h.stored]
      by_cases hother : other = name
      · rw [if_pos hother, hother, hheld]
      · rw [if_neg hother]

/-- A tidy directory is a map. -/
theorem followsMap (k : StoreCall) : FollowsMap ended d t k := by
  cases hallowed : BackendKind.files.refuses ended k with
  | some e =>
      simp only [FollowsMap, hallowed, call_refused h.tidy hallowed]
      exact ⟨rfl, d, rfl, rfl, h⟩
  | none =>
      cases k with
      | create name value => exact followsMap_create h hallowed
      | get name => exact followsMap_get h hallowed
      | delete name => exact followsMap_delete h hallowed
      | list pattern =>
          obtain ⟨names, hlisted, hperm⟩ := h.listed pattern
          cases ended with
          | true => cases hallowed
          | false =>
              simp only [FollowsMap, call, hlisted, Bool.false_eq_true, if_false]
              exact ⟨⟨hperm, nofun⟩, d, rfl, rfl, h⟩
      | status =>
          cases ended with
          | true => cases hallowed
          | false =>
              simp only [FollowsMap, call, h.tidy.status_eq]
              exact ⟨rfl, d, rfl, rfl, h⟩

end

/-- **A call on a tidy store** is answered as by the map of what it holds. -/
theorem Holds.call (h : b.Holds t) (ended : Bool) (k : StoreCall) :
    Agrees (b.kind != .files) (b.call ended k).1 (t.answer (b.kind.refuses ended k) k).1 ∧
      (b.call ended k).2.kind = b.kind ∧ (b.call ended k).2.path? = b.path? ∧
      (b.call ended k).2.Holds (t.answer (b.kind.refuses ended k) k).2 := by
  cases b with
  | memory t' =>
      obtain rfl := h.memory_eq
      rw [call_memory]
      exact ⟨.refl _ _, rfl, rfl, holds_memory _⟩
  | database t' =>
      obtain rfl := h.database_eq
      rw [call_database]
      exact ⟨.refl _ _, rfl, rfl, holds_database _⟩
  | files d =>
      obtain ⟨hagrees, d', hd', hpath, hholds⟩ := followsMap h k
      rw [hd']
      exact ⟨hagrees, rfl, congrArg some hpath, hholds⟩

end Backend

namespace World

variable {w : World Unit} {t : Table}

/-- In a calm world a call changes nothing but the store. -/
theorem call_eq (c : Context) (k : StoreCall) (w : World Unit) :
    (World.host Unit).call c k w =
      ((w.backend.call (w.ended c) k).1,
        { w with backend := (w.backend.call (w.ended c) k).2 }) := by
  rw [call_host]
  cases k with
  | list pattern =>
      have hanswer : w.answer c (.list pattern) = w.list c pattern := rfl
      simp only [StoreCall.request, StoreCall.reply, hanswer, list_calm]
      rfl
  | _ => rfl

/-- The terms on which the store of a calm world behaves as a map. -/
def terms (w : World Unit) : Terms Context :=
  w.backend.kind.terms w.ended

/-- **Calls on a tidy store**, one after the other, are answered as by the map of what it holds,
and leave a tidy store that holds what the map holds then. -/
theorem serve_of_holds (h : w.backend.Holds t) (calls : List (Context × StoreCall)) :
    List.Forall₂ (Agrees w.terms.sorted) ((World.host Unit).serve calls w).1
        (t.serve w.terms calls).1 ∧
      ∃ b, ((World.host Unit).serve calls w).2 = { w with backend := b } ∧
        b.kind = w.backend.kind ∧ b.path? = w.backend.path? ∧
        b.Holds (t.serve w.terms calls).2 := by
  induction calls generalizing w t with
  | nil => exact ⟨.nil, _, rfl, rfl, rfl, h⟩
  | cons x calls ih =>
      obtain ⟨c, k⟩ := x
      obtain ⟨hagrees, hkind, hpath, hholds⟩ := h.call (w.ended c) k
      have hcall := call_eq c k w
      have hterms : ({ w with backend := (w.backend.call (w.ended c) k).2 } : World Unit).terms =
          w.terms := by
        unfold terms
        rw [hkind]
        rfl
      obtain ⟨hanswers, b, hb, hkind', hpath', hholds'⟩ :=
        ih (w := { w with backend := (w.backend.call (w.ended c) k).2 }) hholds
      rw [hterms] at hanswers hholds'
      simp only [Host.serve, Table.serve, hcall]
      exact ⟨.cons hagrees hanswers, b, hb, hkind'.trans hkind, hpath'.trans hpath, hholds'⟩

/-- **A tidy store behaves as the map of what it holds.** -/
theorem behavesAs (h : w.backend.Holds t) : (World.host Unit).BehavesAs w.terms w t :=
  fun calls => (serve_of_holds h calls).1

end World

/-! ### Tidy stores of one kind -/

namespace Backend

variable {b b' : Backend} {ended : Bool} {name : String}

/-- What a tidy store refuses leaves it as it is. -/
theorem Tidy.call_refused (hb : b.Tidy) {k : StoreCall} {err : Error}
    (hrefused : b.kind.refuses ended k = some err) : b.call ended k = (.error err, b) := by
  cases b with
  | memory t =>
      have hrefused : BackendKind.memory.refuses ended k = some err := hrefused
      rw [call_memory, hrefused]
      rfl
  | database t =>
      have hrefused : BackendKind.database.refuses ended k = some err := hrefused
      rw [call_database, hrefused]
      rfl
  | files d => exact Backend.call_refused hb hrefused

/-- A look-up that a tidy store does not refuse finds what is held. -/
theorem Tidy.get_of_allowed (hb : b.Tidy) (hname : name ≠ "")
    (hallowed : b.kind.refuses ended (.get name) = none) :
    b.get (.steady ended) name = (b.stored? name).elim (.error (.notFound name)) .ok := by
  cases b with
  | memory t =>
      cases ended with
      | true => cases hallowed
      | false => rfl
  | database t =>
      cases ended with
      | true =>
          have hcanceled : BackendKind.database.refuses true (.get name) = some .canceled :=
            if_neg fun h => hname (Option.some.inj h)
          cases hcanceled.symm.trans hallowed
      | false =>
          simp only [Backend.get, requireKey_of_ne hname]
          rfl
  | files d =>
      obtain ⟨-, rfl, hshort⟩ := of_refuses_none rfl hallowed
      exact hb.get_eq hname hshort

/-- **Look-ups depend on the kind of a tidy store** and on what it holds under the name. -/
theorem Tidy.get_congr (hb : b.Tidy) (hb' : b'.Tidy) (hkind : b'.kind = b.kind)
    (hname : name ≠ "") (hheld : b'.stored? name = b.stored? name) :
    b'.get (.steady ended) name = b.get (.steady ended) name := by
  cases hrefusal : b.kind.refuses ended (.get name) with
  | some err =>
      have hget {a : Backend} (ha : a.Tidy) (hsame : a.kind = b.kind) :
          a.get (.steady ended) name = .error err := by
        have hcall : a.call ended (.get name) = (.error err, a) :=
          ha.call_refused (hsame ▸ hrefusal)
        exact map_eq_error_iff.1 (congrArg Prod.fst hcall)
      rw [hget hb' hkind, hget hb rfl]
  | none =>
      rw [hb'.get_of_allowed hname (hkind ▸ hrefusal), hb.get_of_allowed hname hrefusal, hheld]

/-- A removal that a tidy store does not refuse succeeds. -/
theorem Tidy.delete_of_allowed (hb : b.Tidy) (hname : name ≠ "")
    (hallowed : b.kind.refuses false (.delete name) = none) :
    (b.delete (.steady false) name).1 = .ok () := by
  cases b with
  | memory t => rfl
  | database t =>
      simp only [Backend.delete, requireKey_of_ne hname]
      rfl
  | files d =>
      obtain ⟨-, -, hshort⟩ := of_refuses_none rfl hallowed
      exact hb.delete_eq hname hshort

theorem kind_create (b : Backend) (sig : Signal) (name : String) (value : Bytes) :
    (b.create sig name value).2.kind = b.kind := by
  cases b <;> simp only [Backend.create] <;> repeat' split
  all_goals rfl

theorem kind_delete (b : Backend) (sig : Signal) (name : String) :
    (b.delete sig name).2.kind = b.kind := by
  cases b <;> simp only [Backend.delete] <;> repeat' split
  all_goals rfl

end Backend

/-- All programs leave a store of the kind that it was. -/
theorem Program.kind_run {α : Type} (p : Program α) (c : Context) (w : World Unit) :
    (p.run c w).2.backend.kind = w.backend.kind := by
  refine (p.keeps_anything.run c (fun v => v.backend.kind = w.backend.kind)
    (fun r v _ hv => ⟨trivial, ?_⟩) rfl).2
  cases r with
  | create name value => exact (v.backend.kind_create _ name value).trans hv
  | delete name => exact (v.backend.kind_delete _ name).trans hv
  | _ => rw [World.backend_answer_of_read rfl]; exact hv

end KeyCustody
