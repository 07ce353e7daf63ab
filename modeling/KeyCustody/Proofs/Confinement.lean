import KeyCustody.Proofs.CoupledCalls
import KeyCustody.Proofs.Reports

/-!
# Sealed values are confined

Two runs of the same calls, over the same store and with the same mishaps, are told apart only
by what was different from the start.  Stores are *alike* to an observer if they hold the same
names in the same order, with values that are alike (`Backend.Alike`); whatever a request finds
or changes, it finds or changes alike, for no store looks into the values that it holds.  So
worlds that are alike answer alike (`World.Alike`), and all of the service goes on alike.

For an observer who sees all but sealed values this says that sealed values are confined: they
come back in the replies that give a key, and nowhere else.  Main statements:

* `Backend.Alike.create`, `Backend.Alike.get`, `Backend.Alike.delete`, `Backend.Alike.list`: what
  single accesses do to stores that are alike;
* `World.alike_whole`: worlds that are alike stay so;
* `Service.getKey_of_key`: no other call is answered with a key;
* `Service.sealed_values_confined`: what runs show that differ in sealed values.
-/

namespace KeyCustody

variable {o : Observer} {l : Layout}

open Routine (EndsAlike)

/-! ### Tables -/

/-- The tables hold the same names, with values that are alike. -/
def Table.Alike (o : Observer) (l : Layout) (t t' : Table) : Prop :=
  ∀ name, Option.Rel (o.Stored l name) (t.get? name) (t'.get? name)

namespace Table

variable {t t' : Table}

theorem Alike.refl (o : Observer) (l : Layout) (t : Table) : t.Alike o l t := by
  intro name
  cases t.get? name with
  | none => exact .none
  | some v => exact .some (.refl o l name v)

theorem Alike.contains (h : t.Alike o l t') (name : String) :
    t'.contains name = t.contains name :=
  (Observer.isSome_of_rel (h name)).symm

theorem Alike.names (h : t.Alike o l t') : t'.names = t.names := by
  have hnodup (t : Table) : t.names.Nodup := t.sorted_names.imp fun hlt => String.ne_of_lt hlt
  have hmem (name : String) : name ∈ t'.names ↔ name ∈ t.names := by
    rw [mem_names_iff, mem_names_iff, Observer.isSome_of_rel (h name)]
  have hperm := (List.perm_ext_iff_of_nodup (hnodup t') (hnodup t)).2 hmem
  exact hperm.eq_of_pairwise (fun _ _ _ _ hab hba => absurd (String.lt_trans hab hba)
    (String.lt_irrefl _)) t'.sorted_names t.sorted_names

theorem Alike.insert (h : t.Alike o l t') {name : String} {v v' : Bytes}
    (hstored : o.Stored l name v v') : (t.insert name v).Alike o l (t'.insert name v') := by
  intro other
  rw [get?_insert, get?_insert]
  by_cases hother : other = name
  · rw [if_pos hother, if_pos hother, hother]
    exact .some hstored
  · rw [if_neg hother, if_neg hother]
    exact h other

theorem Alike.erase (h : t.Alike o l t') (name : String) :
    (t.erase name).Alike o l (t'.erase name) := by
  intro other
  rw [get?_erase, get?_erase]
  split
  · exact .none
  · exact h other

end Table

/-! ### Directories -/

/-- What stands under a file name: the same, or files with values written for records that are
alike. -/
inductive DirEntry.Alike (o : Observer) (l : Layout) (file : Bytes) : DirEntry → DirEntry → Prop
  | same (e : DirEntry) : Alike o l file e e
  | written {name : String} {v v' : Bytes} (named : file = FileName.encode name)
      (written : o.Written l name v v') : Alike o l file (.file v) (.file v')

/-- The directories have the same root; if it is there, it holds the same file names, in the
same order, with entries that are alike. -/
inductive DataDir.Alike (o : Observer) (l : Layout) : DataDir → DataDir → Prop
  | lost (d : DataDir) (lost : ∀ es, d.root ≠ .folder es) : Alike o l d d
  | folder {path : String} {es es' : List (Bytes × DirEntry)}
      (names : es'.map Prod.fst = es.map Prod.fst)
      (entries : ∀ file, Option.Rel (DirEntry.Alike o l file) (es.lookup file)
        (es'.lookup file)) : Alike o l ⟨path, .folder es⟩ ⟨path, .folder es'⟩

namespace DataDir

variable {d d' : DataDir} {name : String} {v v' : Bytes}

theorem Alike.refl (o : Observer) (l : Layout) (d : DataDir) : d.Alike o l d := by
  obtain ⟨path, root⟩ := d
  cases root with
  | folder es =>
      refine .folder rfl fun file => ?_
      cases es.lookup file with
      | none => exact .none
      | some e => exact .some (.same e)
  | missing => exact .lost _ nofun
  | file => exact .lost _ nofun

/-- A search fails in both directories or finds entries that are alike. -/
theorem Alike.find (h : d.Alike o l d') (file : Bytes) :
    (∃ e, d.find file = .error e ∧ d'.find file = .error e) ∨
      ∃ found found', d.find file = .ok found ∧ d'.find file = .ok found' ∧
        Option.Rel (DirEntry.Alike o l file) found found' := by
  cases h with
  | lost _ hlost =>
      obtain ⟨e, he⟩ := find_lost hlost file
      exact .inl ⟨e, he, he⟩
  | folder hnames hentries =>
      rw [find_folder, find_folder]
      split
      · exact .inl ⟨_, rfl, rfl⟩
      · exact .inr ⟨_, _, rfl, rfl, hentries file⟩

theorem Alike.freshTemp (h : d.Alike o l d') : d'.freshTemp = d.freshTemp := by
  cases h with
  | lost => rfl
  | folder hnames hentries =>
      have hlength := congrArg List.length hnames
      rw [List.length_map, List.length_map] at hlength
      simp only [DataDir.freshTemp, hnames, hlength]

theorem Alike.fileNames (h : d.Alike o l d') : d'.fileNames = d.fileNames := by
  cases h with
  | lost => rfl
  | folder hnames hentries =>
      change Except.ok _ = Except.ok _
      rw [hnames]

theorem Alike.path (h : d.Alike o l d') : d'.path = d.path := by
  cases h <;> rfl

theorem Alike.add (h : d.Alike o l d') (hwritten : o.Written l name v v') :
    (d.add (FileName.encode name) (.file v)).Alike o l
      (d'.add (FileName.encode name) (.file v')) := by
  cases h with
  | lost d hlost =>
      have hsame (e : DirEntry) : d.add (FileName.encode name) e = d := by
        obtain ⟨path, root⟩ := d
        cases root with
        | folder es => exact absurd rfl (hlost es)
        | _ => rfl
      rw [hsame, hsame]
      exact .lost d hlost
  | folder hnames hentries =>
      refine .folder (by simp [hnames]) fun file => ?_
      have hentry := hentries file
      rw [List.lookup_append, List.lookup_append]
      generalize List.lookup file _ = found at hentry ⊢
      generalize List.lookup file _ = found' at hentry ⊢
      cases hentry with
      | some he => exact .some he
      | none =>
          rw [Option.none_or, Option.none_or, List.lookup_cons, List.lookup_cons]
          by_cases hfile : file = FileName.encode name
          · rw [hfile, beq_self_eq_true]
            exact .some (.written rfl hwritten)
          · rw [beq_false_of_ne hfile]
            exact .none

theorem Alike.drop (h : d.Alike o l d') (file : Bytes) :
    (d.drop file).Alike o l (d'.drop file) := by
  cases h with
  | lost d hlost => exact .refl o l _
  | @folder path es es' hnames hentries =>
      have hfilter (es : List (Bytes × DirEntry)) :
          (es.filter fun e => e.1 != file).map Prod.fst =
            (es.map Prod.fst).filter (· != file) := by
        rw [List.filter_map]
        rfl
      refine .folder (by rw [hfilter, hfilter, hnames]) fun other => ?_
      by_cases hother : other = file
      · rw [hother, lookup_filter_self, lookup_filter_self]
        exact .none
      · rw [lookup_filter_ne hother, lookup_filter_ne hother]
        exact hentries other

/-- A creation has the same outcome in directories that are alike. -/
theorem Alike.create (h : d.Alike o l d') (sig : Signal) (hwritten : o.Written l name v v') :
    (d'.create sig name v').1 = (d.create sig name v).1 ∧
      (d.create sig name v).2.Alike o l (d'.create sig name v').2 := by
  rw [create_eq, create_eq, h.freshTemp]
  cases requireKey name with
  | error e => exact ⟨rfl, h⟩
  | ok _ =>
      simp only
      by_cases hstart : sig.atStart = true
      · rw [if_pos hstart, if_pos hstart]
        exact ⟨rfl, h⟩
      rw [if_neg hstart, if_neg hstart]
      rcases h.find d.freshTemp with ⟨e, he, he'⟩ | ⟨_, _, he, he', -⟩
      · rw [he, he']
        exact ⟨rfl, h⟩
      rw [he, he']
      simp only
      by_cases hcommit : sig.atCommit = true
      · rw [if_pos hcommit, if_pos hcommit]
        exact ⟨rfl, h⟩
      rw [if_neg hcommit, if_neg hcommit]
      rcases h.find (FileName.encode name) with ⟨e, he, he'⟩ | ⟨found, found', he, he', hfound⟩
      · rw [he, he']
        exact ⟨rfl, h⟩
      rw [he, he']
      cases hfound with
      | some _ => exact ⟨rfl, h⟩
      | none => exact ⟨rfl, h.add hwritten⟩

theorem Alike.delete (h : d.Alike o l d') (sig : Signal) (name : String) :
    (d'.delete sig name).1 = (d.delete sig name).1 ∧
      (d.delete sig name).2.Alike o l (d'.delete sig name).2 := by
  rw [delete_eq, delete_eq]
  cases requireKey name with
  | error e => exact ⟨rfl, h⟩
  | ok _ =>
      simp only
      by_cases hstart : sig.atStart = true
      · rw [if_pos hstart, if_pos hstart]
        exact ⟨rfl, h⟩
      rw [if_neg hstart, if_neg hstart]
      rcases h.find (FileName.encode name) with ⟨e, he, he'⟩ | ⟨found, found', he, he', hfound⟩
      · rw [he, he']
        cases e <;> exact ⟨rfl, h⟩
      rw [he, he']
      cases hfound with
      | none => exact ⟨rfl, h⟩
      | @some entry _ hentry =>
          cases hentry with
          | written => exact ⟨rfl, h.drop _⟩
          | same =>
              cases entry with
              | folder => exact ⟨rfl, h⟩
              | file => exact ⟨rfl, h.drop _⟩

theorem Alike.get (h : d.Alike o l d') (sig : Signal) (name : String) :
    EndsAlike (o.Stored l name) (d.get sig name) (d'.get sig name) := by
  have hread : EndsAlike (o.Stored l name)
      ((d.read (FileName.encode name)).mapError (·.toError name))
      ((d'.read (FileName.encode name)).mapError (·.toError name)) := by
    unfold read
    rcases h.find (FileName.encode name) with ⟨e, he, he'⟩ | ⟨found, found', he, he', hfound⟩
    · rw [he, he']
      exact rfl
    rw [he, he']
    cases hfound with
    | none => exact rfl
    | @some entry _ hentry =>
        cases hentry with
        | written hnamed hwritten =>
            obtain rfl := FileName.encode_injective hnamed
            exact .inr hwritten
        | same =>
            cases entry with
            | folder => exact rfl
            | file => exact .refl o l name _
  unfold DataDir.get
  rcases requireKey_cases name with hkey | hkey <;> rw [hkey]
  · rcases sig.whole_cases with hsig | hsig <;> rw [hsig]
    · exact hread
    · exact rfl
  · exact rfl

end DataDir

/-! ### Stores -/

/-- The stores are of one kind and hold the same names, with values that are alike. -/
inductive Backend.Alike (o : Observer) (l : Layout) : Backend → Backend → Prop
  | memory {t t' : Table} (h : t.Alike o l t') : Alike o l (.memory t) (.memory t')
  | database {t t' : Table} (h : t.Alike o l t') : Alike o l (.database t) (.database t')
  | files {d d' : DataDir} (h : d.Alike o l d') : Alike o l (.files d) (.files d')

namespace Backend

variable {b b' : Backend} {name : String} {v v' : Bytes}

theorem Alike.refl (o : Observer) (l : Layout) (b : Backend) : b.Alike o l b := by
  cases b with
  | memory t => exact .memory (.refl o l t)
  | database t => exact .database (.refl o l t)
  | files d => exact .files (.refl o l d)

/-- Stores that are alike hold values that are alike. -/
theorem Alike.stored (h : b.Alike o l b') (name : String) :
    Option.Rel (o.Stored l name) (b.stored? name) (b'.stored? name) := by
  cases h with
  | memory h => exact h name
  | database h => exact h name
  | @files d d' h =>
      change Option.Rel _ (d.content? (FileName.encode name)) (d'.content? (FileName.encode name))
      unfold DataDir.content?
      rcases h.find (FileName.encode name) with ⟨e, he, he'⟩ | ⟨found, found', he, he', hfound⟩
      · rw [he, he']
        exact .none
      rw [he, he']
      cases hfound with
      | none => exact .none
      | @some entry _ hentry =>
          cases hentry with
          | written hnamed hwritten =>
              obtain rfl := FileName.encode_injective hnamed
              exact .some (.inr hwritten)
          | same =>
              cases entry with
              | folder => exact .none
              | file => exact .some (.refl o l name _)

/-- The names of stores that are alike are read alike. -/
theorem Alike.names (h : b.Alike o l b') : b'.table.names = b.table.names := by
  cases h with
  | memory h => exact h.names
  | database h => exact h.names
  | files => rfl

/-- A creation has the same outcome in stores that are alike. -/
theorem Alike.create (h : b.Alike o l b') (sig : Signal) (hwritten : o.Written l name v v') :
    (b'.create sig name v').1 = (b.create sig name v).1 ∧
      (b.create sig name v).2.Alike o l (b'.create sig name v').2 := by
  cases h with
  | memory h =>
      simp only [Backend.create, h.contains]
      rcases requireKey name with e | _
      · exact ⟨rfl, .memory h⟩
      rcases sig.whole with e | _
      · exact ⟨rfl, .memory h⟩
      simp only
      split
      · exact ⟨rfl, .memory h⟩
      · exact ⟨rfl, .memory (h.insert (.inr hwritten))⟩
  | database h =>
      simp only [Backend.create, h.contains]
      rcases requireKey name with e | _
      · exact ⟨rfl, .database h⟩
      simp only
      split
      · exact ⟨rfl, .database h⟩
      split
      · exact ⟨rfl, .database h⟩
      split
      · exact ⟨rfl, .database h⟩
      · exact ⟨rfl, .database (h.insert (.inr hwritten))⟩
  | files h => exact ⟨(h.create sig hwritten).1, .files (h.create sig hwritten).2⟩

/-- A removal has the same outcome in stores that are alike. -/
theorem Alike.delete (h : b.Alike o l b') (sig : Signal) (name : String) :
    (b'.delete sig name).1 = (b.delete sig name).1 ∧
      (b.delete sig name).2.Alike o l (b'.delete sig name).2 := by
  cases h with
  | memory h =>
      simp only [Backend.delete]
      rcases sig.whole with e | _
      · exact ⟨rfl, .memory h⟩
      · exact ⟨rfl, .memory (h.erase name)⟩
  | database h =>
      simp only [Backend.delete]
      rcases requireKey name with e | _
      · exact ⟨rfl, .database h⟩
      rcases sig.whole with e | _
      · exact ⟨rfl, .database h⟩
      · exact ⟨rfl, .database (h.erase name)⟩
  | files h => exact ⟨(h.delete sig name).1, .files (h.delete sig name).2⟩

/-- A look-up finds values that are alike in stores that are alike, or fails with one error. -/
theorem Alike.get (h : b.Alike o l b') (sig : Signal) (name : String) :
    EndsAlike (o.Stored l name) (b.get sig name) (b'.get sig name) := by
  cases h with
  | memory h =>
      simp only [Backend.get]
      rcases sig.whole with e | _
      · exact rfl
      · exact .of_found (h name) (fun _ _ => id) _
  | database h =>
      simp only [Backend.get]
      rcases requireKey name with e | _
      · exact rfl
      rcases sig.whole with e | _
      · exact rfl
      · exact .of_found (h name) (fun _ _ => id) _
  | files h => exact h.get sig name

/-- Listings of stores that are alike start alike. -/
theorem Alike.list (h : b.Alike o l b') (sig : Signal) (pattern : String) :
    b'.list sig pattern = b.list sig pattern := by
  cases h with
  | memory h => simp only [Backend.list, h.names]
  | database h => rfl
  | files h => simp only [Backend.list, DataDir.scan, h.fileNames, h.path]

theorem Alike.status (h : b.Alike o l b') (sig : Signal) : b'.status sig = b.status sig := by
  cases h with
  | memory h => rfl
  | database h => rfl
  | files h =>
      cases h with
      | lost => rfl
      | folder => rfl

end Backend

/-! ### Cursors -/

namespace Cursor

variable {t t' : Table}

/-- A cursor reads nothing but names. -/
theorem step_congr (hnames : t'.names = t.names) (c : Cursor) (sig : Signal) :
    c.step sig t' = c.step sig t := by
  unfold step Table.page
  rw [hnames]

theorem length_entries (hnames : t'.names = t.names) :
    t'.entries.length = t.entries.length := by
  simpa [Table.names] using congrArg List.length hnames

theorem next_congr (hnames : t'.names = t.names) (c : Cursor) (sig : Signal) :
    c.next sig t' = c.next sig t := by
  have hseek (fuel : Nat) (c : Cursor) : seek sig t' fuel c = seek sig t fuel c := by
    induction fuel generalizing c with
    | zero =>
        unfold seek
        rw [step_congr hnames]
        obtain ⟨turn, c'⟩ := c.step sig t
        cases turn <;> rfl
    | succ fuel ih =>
        unfold seek
        rw [step_congr hnames]
        obtain ⟨turn, c'⟩ := c.step sig t
        cases turn with
        | again => exact ih c'
        | _ => rfl
  unfold next turns
  rw [hseek, length_entries hnames]

theorem bound_congr (hnames : t'.names = t.names) (c : Cursor) : c.bound t' = c.bound t := by
  unfold bound
  rw [length_entries hnames]

end Cursor

/-! ### Worlds -/

section Worlds

variable {σ : Type} [Mishaps σ] {w v : World σ}

/-- The worlds differ in their stores and their trails at most, and these are alike. -/
structure World.Alike (o : Observer) (l : Layout) (w v : World σ) : Prop where
  backend : w.backend.Alike o l v.backend
  trail : List.Forall₂ o.Alike w.trail v.trail
  rest : v = { w with backend := v.backend, trail := v.trail }

namespace World

omit [Mishaps σ] in
theorem Alike.refl (o : Observer) (l : Layout) (w : World σ) : w.Alike o l w :=
  ⟨.refl o l w.backend, List.forall₂_same.2 fun event _ => .refl event, rfl⟩

omit [Mishaps σ] in
theorem Alike.ended (h : w.Alike o l v) (c : Context) : v.ended c = w.ended c := by
  rw [h.rest]
  rfl

omit [Mishaps σ] in
/-- Another store that is alike keeps worlds alike. -/
theorem Alike.store (h : w.Alike o l v) {b b' : Backend} (hb : b.Alike o l b') :
    ({ w with backend := b } : World σ).Alike o l { v with backend := b' } := by
  refine ⟨hb, h.trail, ?_⟩
  rw [h.rest]

/-- What an access meets depends neither on the store nor on the trail. -/
theorem meet_with (w : World σ) (b : Backend) (trail : List AuditEvent) (c : Context)
    (a : Access) :
    ({ w with backend := b, trail := trail } : World σ).meet c a =
      ((w.meet c a).1, { (w.meet c a).2 with backend := b, trail := trail }) := by
  unfold meet
  obtain ⟨⟨early, late, err⟩, rest⟩ := Mishaps.strike a w.mishaps
  cases err <;> cases early <;> cases late <;> rfl

/-- What an access meets adds nothing to the trail. -/
theorem trail_meet (w : World σ) (c : Context) (a : Access) :
    (w.meet c a).2.trail = w.trail := by
  unfold meet
  obtain ⟨⟨early, late, err⟩, rest⟩ := Mishaps.strike a w.mishaps
  cases err <;> cases early <;> cases late <;> rfl

/-- Accesses in worlds that are alike meet the same. -/
theorem Alike.meet_cases (h : w.Alike o l v) (c : Context) (a : Access) :
    (∃ e w' v', w.meet c a = (.error e, w') ∧ v.meet c a = (.error e, v') ∧
        w'.Alike o l v') ∨
      ∃ sig w' v', w.meet c a = (.ok sig, w') ∧ v.meet c a = (.ok sig, v') ∧
        w'.Alike o l v' := by
  have hmeet : v.meet c a = ((w.meet c a).1,
      { (w.meet c a).2 with backend := v.backend, trail := v.trail }) := by
    rw [← meet_with w v.backend v.trail c a, ← h.rest]
  have halike : (w.meet c a).2.Alike o l
      { (w.meet c a).2 with backend := v.backend, trail := v.trail } := by
    refine ⟨?_, ?_, rfl⟩
    · rw [backend_meet]
      exact h.backend
    · rw [trail_meet]
      exact h.trail
  rcases hw : w.meet c a with ⟨e | sig, w'⟩
  · rw [hw] at hmeet halike
    exact .inl ⟨e, w', _, rfl, hmeet, halike⟩
  · rw [hw] at hmeet halike
    exact .inr ⟨sig, w', _, rfl, hmeet, halike⟩

/-- The names of a listing are read alike. -/
theorem Alike.nextName (h : w.Alike o l v) (c : Context) (cursor : Cursor) :
    ∃ name next w' v', w.nextName c cursor = (name, next, w') ∧
      v.nextName c cursor = (name, next, v') ∧ w'.Alike o l v' := by
  have hnext (sig : Signal) : cursor.next sig v.backend.table = cursor.next sig w.backend.table :=
    cursor.next_congr h.backend.names sig
  unfold World.nextName
  rw [h.ended c, hnext]
  by_cases hdone : cursor.isDone = true
  · rw [if_pos hdone, if_pos hdone]
    exact ⟨_, _, _, _, rfl, rfl, h⟩
  rw [if_neg hdone, if_neg hdone]
  obtain ⟨name, next⟩ := cursor.next (.steady (w.ended c)) w.backend.table
  rcases h.meet_cases c (.next name) with
    ⟨e, w', v', hw, hv, halike⟩ | ⟨sig, w', v', hw, hv, halike⟩ <;>
    simp only [hw, hv] <;> exact ⟨_, _, _, _, rfl, rfl, halike⟩

theorem Alike.readAll (h : w.Alike o l v) (c : Context) (fuel : Nat) (names : List String)
    (cursor : Cursor) :
    (World.readAll c fuel names cursor v).1 = (World.readAll c fuel names cursor w).1 ∧
      (World.readAll c fuel names cursor w).2.Alike o l
        (World.readAll c fuel names cursor v).2 := by
  induction fuel generalizing names cursor w v with
  | zero => exact ⟨rfl, h⟩
  | succ fuel ih =>
      obtain ⟨name, next, w', v', hw, hv, halike⟩ := h.nextName c cursor
      unfold World.readAll
      rw [hw, hv]
      cases name with
      | some name => exact ih halike _ _
      | none => exact ⟨rfl, halike⟩

/-- Listings of worlds that are alike give the same names in the same order. -/
theorem Alike.list (h : w.Alike o l v) (c : Context) (pattern : String) :
    (v.list c pattern).1 = (w.list c pattern).1 ∧
      (w.list c pattern).2.Alike o l (v.list c pattern).2 := by
  unfold World.list startListing
  rcases h.meet_cases c (.list pattern) with
    ⟨e, w', v', hw, hv, halike⟩ | ⟨sig, w', v', hw, hv, halike⟩ <;>
    simp only [hw, hv]
  · exact ⟨trivial, halike⟩
  · rw [halike.backend.list sig pattern]
    cases w'.backend.list sig pattern with
    | error e => exact ⟨rfl, halike⟩
    | ok cursor =>
        simp only [cursor.bound_congr halike.backend.names]
        exact halike.readAll c _ _ _

end World

/-- Worlds that are alike, whatever is accessed. -/
def World.alikeCoupling (σ : Type) (o : Observer) (l : Layout) : Coupling σ σ where
  holds w v := w.Alike o l v
  covers _ := True

namespace World

open Routine (Matches)

/-- Two stores that are alike give answers that are alike. -/
theorem alike_sound (σ : Type) [Mishaps σ] (o : Observer) (l : Layout) :
    (alikeCoupling σ o l).Sound o l where
  time := by
    apply Matches.lift
    apply Program.Matches.request
    intro c w v h _
    have halike : w.Alike o l v := h
    rw [halike.rest]
    exact ⟨.refl _, halike.backend, halike.trail, rfl⟩
  eventId := by
    apply Program.Matches.request
    intro c w v h _
    have halike : w.Alike o l v := h
    rw [halike.rest]
    exact ⟨rfl, halike.backend, halike.trail, rfl⟩
  emit event event' hevent := by
    apply Program.Matches.request
    intro c w v h _
    have halike : w.Alike o l v := h
    refine ⟨trivial, halike.backend, ?_, ?_⟩
    · exact List.rel_append halike.trail (.cons hevent .nil)
    · rw [halike.rest]
      rfl
  status := by
    apply Program.Matches.request
    intro c w v h _
    simp only [answer]
    rcases Alike.meet_cases h c .status with
      ⟨e, w', v', hw, hv, halike⟩ | ⟨sig, w', v', hw, hv, halike⟩ <;> simp only [hw, hv]
    · exact ⟨rfl, halike⟩
    · exact ⟨.of_eq (halike.backend.status sig).symm, halike⟩
  create name b b' hwritten := by
    apply Program.Matches.request
    intro c w v h _
    simp only [answer]
    rcases Alike.meet_cases h c (.create name) with
      ⟨e, w', v', hw, hv, halike⟩ | ⟨sig, w', v', hw, hv, halike⟩ <;> simp only [hw, hv]
    · exact ⟨rfl, halike⟩
    · obtain ⟨hsame, hstores⟩ := halike.backend.create sig hwritten
      exact ⟨.of_eq hsame.symm, halike.store hstores⟩
  get name _ := by
    apply Program.Matches.request
    intro c w v h _
    simp only [answer]
    rcases Alike.meet_cases h c (.get name) with
      ⟨e, w', v', hw, hv, halike⟩ | ⟨sig, w', v', hw, hv, halike⟩ <;> simp only [hw, hv]
    · exact ⟨rfl, halike⟩
    · exact ⟨halike.backend.get sig name, halike⟩
  delete name _ := by
    apply Program.Matches.request
    intro c w v h _
    simp only [answer]
    rcases Alike.meet_cases h c (.delete name) with
      ⟨e, w', v', hw, hv, halike⟩ | ⟨sig, w', v', hw, hv, halike⟩ <;> simp only [hw, hv]
    · exact ⟨rfl, halike⟩
    · obtain ⟨hsame, hstores⟩ := halike.backend.delete sig name
      exact ⟨.of_eq hsame.symm, halike.store hstores⟩

/-- **Worlds that are alike stay alike**, and all that goes on in them is alike. -/
theorem alike_whole (σ : Type) [Mishaps σ] (o : Observer) (l : Layout) :
    (alikeCoupling σ o l).Whole o l := by
  apply (alike_sound σ o l).whole
  · intro pattern
    apply Program.Matches.request
    intro c w v h _
    obtain ⟨hsame, halike⟩ := World.Alike.list h c pattern
    exact ⟨.of_eq hsame.symm, halike⟩
  · intro w v h
    have halike : w.Alike o l v := h
    rw [halike.rest]
    exact ⟨rfl, rfl⟩
  · intro w v tokens now h
    have halike : w.Alike o l v := h
    refine ⟨halike.backend, halike.trail, ?_⟩
    rw [halike.rest]

end World

end Worlds

/-! ### Who is given a key -/

namespace Service

variable {σ : Type} [Mishaps σ] {s : Service} {caller : Identity} {c : Context} {w w' : World σ}

/-- Only the command that gets a key gives one. -/
theorem keeps_body_key (s : Service) (caller : Identity) (e : Enclave) (command : Command) :
    (s.body caller e command).Keeps (.asking fun _ => True)
      (fun reply => ∀ key, reply = .key key → ∃ name, command = .getKey name)
      fun _ => True := by
  have hgives {α : Type} (a : Routine α) (f : α → Reply) (hother : ∀ x key, f x ≠ .key key) :
      (a >>= fun x => pure (f x)).Keeps (.asking fun _ => True)
        (fun reply => ∀ key, reply = .key key → ∃ name, command = .getKey name)
        fun _ => True := by
    apply Routine.Keeps.seq
    · exact Program.Keeps.weaken (Program.keeps_anything _) fun r _ => by cases r <;> trivial
    · exact fun x => Routine.Keeps.pure fun key hkey => absurd hkey (hother x key)
  cases command with
  | getKey name =>
      exact Program.Keeps.weaken (Program.keeps_anything _) fun r _ => by
        cases r with
        | ok reply => exact fun _ _ => ⟨name, rfl⟩
        | error e => trivial
  | deleteEnclave name =>
      dsimp only [body]
      split
      · exact Routine.Keeps.throw trivial
      · exact hgives _ _ fun _ _ h => by cases h
  | _ => exact hgives _ _ fun _ _ h => by cases h

theorem getKey_of_body {e : Enclave} {command : Command} {key : SealedKey}
    (hok : ((s.body caller e command).attempt.run c w).1 = .ok (.key key)) :
    ∃ name, command = .getKey name := by
  have hends := (Program.Keeps.run (keeps_body_key s caller e command) c (fun _ => True)
    (fun _ _ _ _ => ⟨trivial, trivial⟩) (w := w) trivial).1
  rw [hok] at hends
  exact hends key rfl

/-- **Keys are given to those who ask for them.**  A call that is answered with a key gets it. -/
theorem getKey_of_key {l : Layout} (hover : s.Over l) {call : Call} {key : SealedKey}
    (hserved : s.serve? c caller call w = some (.ok (.key key), w')) :
    ∃ enclave name, call = .command enclave (.getKey name) := by
  have hmapped {α : Type} {a : Routine α} {f : α → Reply} (hother : ∀ x, f x ≠ .key key)
      (hrun : s.run? c (f <$> a).attempt w = some (.ok (.key key), w')) : False := by
    rw [run?_map] at hrun
    obtain ⟨⟨r, _⟩, -, hr⟩ := Option.map_eq_some_iff.1 hrun
    cases r with
    | ok x => exact hother x (Except.ok.inj (Prod.mk.inj hr).1)
    | error e => cases (Prod.mk.inj hr).1
  cases call with
  | command enclave command =>
      obtain ⟨c', tokens, -, hended⟩ := run?_eq_some_iff.1 hserved
      have hok := congrArg Prod.fst hended
      rcases perform_cases hover c' { w with tokens := tokens } caller
        (rfl : s.scopeOf enclave command = _) with
        ⟨err, herror, -⟩ | ⟨w₁, -, -, -, hends, -⟩
      · rw [herror] at hok
        cases hok
      · rw [hends] at hok
        obtain ⟨name, rfl⟩ := getKey_of_body hok
        exact ⟨enclave, name, rfl⟩
  | deletePolicies enclave names =>
      obtain ⟨⟨outcomes, w₁⟩, -, hdone⟩ := Option.bind_eq_some_iff.1 hserved
      cases hdone
  | describeSelf enclave =>
      rw [serve?_eq_run? rfl fun _ _ h => by cases h] at hserved
      exact (hmapped (fun _ h => by cases h) hserved).elim
  | init =>
      rw [serve?_eq_run? rfl fun _ _ h => by cases h] at hserved
      exact (hmapped (fun _ h => by cases h) hserved).elim
  | health =>
      rw [serve?_eq_run? rfl fun _ _ h => by cases h] at hserved
      exact (hmapped (fun _ h => by cases h) hserved).elim

/-- The calls of a transcript that are answered with keys get them. -/
theorem getKey_of_serveAll? {l : Layout} (hover : s.Over l) {steps : List Step}
    {transcript : List Served} (hserved : s.serveAll? steps w = some (transcript, w')) :
    ∀ served ∈ transcript, ∀ key, served.result = .ok (.key key) →
      ∃ enclave name, served.call = .command enclave (.getKey name) := by
  induction steps generalizing w transcript with
  | nil =>
      cases hserved
      exact fun _ h => absurd h List.not_mem_nil
  | cons step steps ih =>
      cases step with
      | call c caller call =>
          obtain ⟨⟨r, w₁⟩, hcall, hserved⟩ := Option.bind_eq_some_iff.1 hserved
          obtain ⟨⟨more, w₂⟩, hrest, hserved⟩ := Option.bind_eq_some_iff.1 hserved
          cases hserved
          intro served hmem key hkey
          rcases List.mem_cons.1 hmem with rfl | hmem
          · obtain rfl : r = .ok (.key key) := hkey
            exact getKey_of_key hover hcall
          · exact ih hrest served hmem key hkey
      | pause tokens now => exact ih hserved

end Service

/-! ### Runs that differ in sealed values -/

/-- The steps are the same, or they create one key with different values. -/
inductive Step.SameButValue : Step → Step → Prop
  | same (step : Step) : SameButValue step step
  | createKey {c : Context} {caller : Identity} {enclave name : String} {value value' : Bytes} :
      SameButValue (.call c caller (.command enclave (.createKey name value)))
        (.call c caller (.command enclave (.createKey name value')))

/-- The calls have one result, or they get one key with different values.  Diagnostics do not
tell them apart. -/
inductive Served.SameButValue : Served → Served → Prop
  | same {call call' : Service.Call} (result : Except Error Reply) :
      SameButValue ⟨call, result⟩ ⟨call', result⟩
  | getKey {enclave name : String} {key : SealedKey} {value : Bytes}
      (hidden : key.diagnostic = ({ key with value := value } : SealedKey).diagnostic) :
      SameButValue ⟨.command enclave (.getKey name), .ok (.key key)⟩
        ⟨.command enclave (.getKey name), .ok (.key { key with value := value })⟩

/-- The values under a name are the same, or they are written for one key of an enclave, with
different sealed values. -/
inductive Layout.SameButValue (l : Layout) : String → Bytes → Bytes → Prop
  | same (name : String) (v : Bytes) : SameButValue l name v v
  | key {e name : String} (valid : ValidEnclaveName e) (key : SealedKey) (value : Bytes) :
      SameButValue l (l.keys e ++ name) (Record.encode key)
        (Record.encode { key with value := value })

/-- It sees all but sealed values. -/
def Observer.outsider : Observer := ⟨false, true⟩

namespace Observer

open Observed (sees)

/-- An outsider sees all of an event. -/
theorem eq_of_alike_event {a b : AuditEvent} (h : outsider.Alike a b) : a = b := h

theorem sees_option {α : Type} [Observed α] (hsees : ∀ a : α, sees outsider a = a) :
    ∀ x : Option α, sees outsider x = x
  | none => rfl
  | some a => congrArg some (hsees a)

theorem sees_policy (p : Policy) : sees outsider p = p := by
  change { p with createdAt := sees outsider p.createdAt } = p
  rw [sees_option fun _ => rfl]

theorem sees_policyInfo (info : PolicyInfo) : sees outsider info = info := by
  change { info with createdAt := sees outsider info.createdAt } = info
  rw [sees_option fun _ => rfl]

theorem sees_selfInfo (info : SelfInfo) : sees outsider info = info := by
  change { info with
    assignment := sees outsider info.assignment
    policy := sees outsider info.policy } = info
  rw [sees_option fun _ => rfl, sees_option sees_policy]

/-- An outsider sees all of a reply that gives no key. -/
theorem sees_reply {reply : Reply} (hother : ∀ key, reply ≠ .key key) :
    sees outsider reply = reply := by
  cases reply with
  | key k => exact absurd rfl (hother k)
  | policy p => exact congrArg Reply.policy (sees_policy p)
  | policyInfo info => exact congrArg Reply.policyInfo (sees_policyInfo info)
  | self info => exact congrArg Reply.self (sees_selfInfo info)
  | _ => rfl

/-- An outsider sees all of a key but its value. -/
theorem eq_of_alike_key {a b : SealedKey} (h : outsider.Alike a b) :
    b = { a with value := b.value } := by
  obtain ⟨-, hat, hby⟩ := SealedKey.alike_iff.1 h
  have hat : a.createdAt = b.createdAt := hat
  rw [hat, hby]

/-- An outsider sees all of an answer but the value of a key that it gives. -/
theorem reply_of_alike {r r' : Except Error Reply} (h : outsider.Alike r r') :
    r = r' ∨ ∃ key key', r = .ok (.key key) ∧ r' = .ok (.key key') ∧
      outsider.Alike key key' := by
  cases r with
  | error e =>
      cases r' with
      | error e' => exact .inl h
      | ok reply => cases h
  | ok reply =>
      cases r' with
      | error e => cases h
      | ok reply' =>
          have hsame : sees outsider reply = sees outsider reply' := Except.ok.inj h
          by_cases hkey : ∃ key, reply = .key key
          · obtain ⟨key, rfl⟩ := hkey
            cases reply' with
            | key key' => exact .inr ⟨key, key', rfl, rfl, Reply.key.inj hsame⟩
            | _ => cases hsame
          · have hother : ∀ key, reply ≠ .key key := fun key h => hkey ⟨key, h⟩
            rw [sees_reply hother] at hsame
            have hother' : ∀ key, reply' ≠ .key key := by
              rintro key rfl
              exact hother _ hsame
            rw [sees_reply hother'] at hsame
            exact .inl (congrArg _ hsame)

/-- Values that an outsider cannot tell apart differ in sealed values at most. -/
theorem sameButValue_of_stored {l : Layout} {name : String} {v v' : Bytes}
    (h : outsider.Stored l name v v') : l.SameButValue name v v' := by
  have hencodes {α : Type} [Record α] [Observed α] (hsees : ∀ a : α, sees outsider a = a)
      {v v' : Bytes} (h : outsider.Encodes α v v') : v = v' := by
    obtain ⟨a, b, rfl, rfl, hab⟩ := h
    have hsame : sees outsider a = sees outsider b := hab
    rw [hsees, hsees] at hsame
    rw [hsame]
  rcases h with rfl | h
  · exact .same name v
  · cases h with
    | registration hwritten =>
        obtain rfl := hencodes (fun _ => rfl) hwritten
        exact .same _ v
    | @owned kind e name v v' hvalid hwritten =>
        cases kind with
        | key =>
            obtain ⟨-, a, b, rfl, rfl, hab⟩ := hwritten
            rw [eq_of_alike_key hab]
            exact .key hvalid a b.value
        | policy =>
            obtain rfl := hencodes sees_policy hwritten.2
            exact .same _ v
        | assignment =>
            obtain rfl := hencodes (fun _ => rfl) hwritten.2
            exact .same _ v

end Observer

namespace Service

variable {σ : Type} [Mishaps σ] {s : Service}

/-- **Sealed values are confined.**  Calls that differ in the values of new keys at most have the
same results, if they do not get a key, with the same errors and the same trail.  The stores
hold the same names, and their values differ in the sealed values of keys at most. -/
theorem sealed_values_confined {settings : Settings} (hmade : ofSettings settings = .ok s)
    {steps steps' : List Step} (hsteps : List.Forall₂ Step.SameButValue steps steps')
    {w w₁ : World σ} {transcript : List Served}
    (hserved : s.serveAll? steps w = some (transcript, w₁)) :
    ∃ transcript' w₁', s.serveAll? steps' w = some (transcript', w₁') ∧
      List.Forall₂ Served.SameButValue transcript transcript' ∧ w₁'.trail = w₁.trail ∧
      ∀ name, Option.Rel (Layout.SameButValue ⟨settings.keyPrefix⟩ name)
        (w₁.backend.stored? name) (w₁'.backend.stored? name) := by
  have hover := over_of_ofSettings hmade
  have halike : List.Forall₂ Observer.outsider.Alike steps steps' := by
    refine hsteps.imp fun a b h => ?_
    cases h with
    | same => exact .refl a
    | createKey => exact rfl
  have hcovered (steps : List Step) (w : World σ) : s.Accesses (fun _ => True) steps w := by
    induction steps generalizing w with
    | nil => trivial
    | cons step steps ih =>
        cases step with
        | call => exact ⟨fun _ _ _ _ => trivial, fun _ _ _ => ih _⟩
        | pause => exact ih _
  obtain ⟨transcript', w₁', hserved', hresults, hholds⟩ := serveAll?_matches
    (World.alike_whole σ .outsider ⟨settings.keyPrefix⟩) hover halike (.refl _ _ w)
    (hcovered steps w) hserved
  have hfinal : w₁.Alike .outsider ⟨settings.keyPrefix⟩ w₁' := hholds
  refine ⟨transcript', w₁', hserved', ?_, ?_, ?_⟩
  · have hgets := getKey_of_serveAll? hover hserved
    refine ((List.forall₂_and_left _ _).2 ⟨hgets, hresults⟩).imp ?_
    rintro ⟨call, r⟩ ⟨call', r'⟩ ⟨hget, hab⟩
    obtain ⟨hcall, hr⟩ := Served.mk.inj hab
    rcases Observer.reply_of_alike hr with rfl | ⟨key, key', rfl, rfl, hkey⟩
    · exact .same r
    · obtain ⟨enclave, name, rfl⟩ := hget key rfl
      have hcall' : call' = .command enclave (.getKey name) := by
        rcases Call.alike_iff.1 hcall with rfl | ⟨_, _, c', hc, rfl, hc'⟩
        · rfl
        · cases hc
          rcases Command.alike_iff.1 hc' with rfl | ⟨_, _, _, hcreate, -, -⟩
          · rfl
          · cases hcreate
      have hhidden := SealedKey.diagnostic_of_alike hkey rfl
      rw [hcall', Observer.eq_of_alike_key hkey]
      rw [Observer.eq_of_alike_key hkey] at hhidden
      exact .getKey hhidden
  · have htrail := hfinal.trail.imp fun _ _ => Observer.eq_of_alike_event
    exact (List.forall₂_eq_eq_eq ▸ htrail : w₁.trail = w₁'.trail).symm
  · intro name
    have hstored := hfinal.backend.stored name
    generalize w₁.backend.stored? name = v at hstored ⊢
    generalize w₁'.backend.stored? name = v' at hstored ⊢
    cases hstored with
    | none => exact .none
    | some h => exact .some (Observer.sameButValue_of_stored h)

/-- A key is created with one of two values, created again in vain, given out, and not removed
for a failure of the store. -/
theorem sealed_values_confined_two_values :
    let s : Service := ⟨Layout.catalog ⟨""⟩, .ofAdmin (some ⟨"root"⟩), "default", 30⟩
    let w := World.stormy (.memory .empty) fun n =>
      if n = 17 then ⟨none, none, some (.unreachable "down")⟩ else .nothing
    let key (value : Bytes) : SealedKey := ⟨value, w.clock 0, ⟨"root"⟩⟩
    let command (c : Command) : Step := .call (.ofToken []) ⟨"root"⟩ (.command "" c)
    let steps (value : Bytes) : List Step := [.call (.ofToken []) ⟨"root"⟩ .init,
      command (.createKey "n" value), command (.createKey "n" value), command (.getKey "n"),
      command (.deleteKey "n")]
    let results (value : Bytes) : List (Except Error Reply) := [.ok .done,
      .ok (.keyInfo ((key value).info "n")), .error (.alreadyExists "n"), .ok (.key (key value)),
      .error (.unreachable "down")]
    ofSettings { Settings.default with admin := some ⟨"root"⟩ } = .ok s ∧
      List.Forall₂ Step.SameButValue (steps [7]) (steps [8, 9]) ∧
      ∃ transcript w₁ transcript' w₁', s.serveAll? (steps [7]) w = some (transcript, w₁) ∧
        transcript.map Served.result = results [7] ∧
        w₁.backend.stored? "enclaves/default/keys/n" = some (Record.encode (key [7])) ∧
        s.serveAll? (steps [8, 9]) w = some (transcript', w₁') ∧
        transcript'.map Served.result = results [8, 9] ∧
        w₁'.backend.stored? "enclaves/default/keys/n" = some (Record.encode (key [8, 9])) ∧
        List.Forall₂ Served.SameButValue transcript transcript' ∧ w₁'.trail = w₁.trail := by
  intro s w key command steps results
  have hmade : ofSettings { Settings.default with admin := some ⟨"root"⟩ } = .ok s := rfl
  have hsteps : List.Forall₂ Step.SameButValue (steps [7]) (steps [8, 9]) :=
    .cons (.same _) (.cons .createKey (.cons .createKey (.cons (.same _) (.cons (.same _) .nil))))
  let ends (value : Bytes) := (s.serveAll? (steps value) w).map fun (transcript, w₁) =>
    (transcript.map Served.result, w₁.backend.stored? "enclaves/default/keys/n")
  have hshown {value : Bytes} {transcript : List Served} {w₁ : World (Nat → Mishap)}
      (hserved : s.serveAll? (steps value) w = some (transcript, w₁))
      (hends : ends value = some (results value, some (Record.encode (key value)))) :
      transcript.map Served.result = results value ∧
        w₁.backend.stored? "enclaves/default/keys/n" = some (Record.encode (key value)) := by
    unfold ends at hends
    rw [hserved] at hends
    exact Prod.mk.inj (Option.some.inj hends)
  have hends : ends [7] = some (results [7], some (Record.encode (key [7]))) := by
    decide +kernel
  have hends' : ends [8, 9] = some (results [8, 9], some (Record.encode (key [8, 9]))) := by
    decide +kernel
  obtain ⟨⟨transcript, w₁⟩, hserved, -⟩ := Option.map_eq_some_iff.1 hends
  obtain ⟨transcript', w₁', hserved', hresults, htrail, -⟩ :=
    sealed_values_confined hmade hsteps hserved
  obtain ⟨hfirst, hstored⟩ := hshown hserved hends
  obtain ⟨hsecond, hstored'⟩ := hshown hserved' hends'
  exact ⟨hmade, hsteps, transcript, w₁, transcript', w₁', hserved, hfirst, hstored, hserved',
    hsecond, hstored', hresults, htrail⟩

end Service

end KeyCustody
