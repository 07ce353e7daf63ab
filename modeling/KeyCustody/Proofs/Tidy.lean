import KeyCustody.Proofs.Listing

/-!
# Tidy directories

A directory that only the service writes to is *tidy*: all its entries are files of stored
names, each name once and none too long (`DataDir.Tidy`).  It is then no more than a list of
names and values, as the other stores are.  Every request keeps a directory tidy, under
mishaps too.  In a tidy store a listing names what is held, each name once, and a name that
was removed can be created again.  Main statements:

* `World.tidy_answer`: what requests keep;
* `Backend.exists_listed_tidy`, `View.exists_run_list`: what a listing of a tidy store gives;
* `Backend.create_after_delete`: a removal makes place for a creation.
-/

namespace KeyCustody

/-! ### Directories -/

namespace DataDir

/-- The entry of a directory for a stored name and its value. -/
def entryOf (r : String × Bytes) : Bytes × DirEntry :=
  (FileName.encode r.1, .file r.2)

/-- A file name of the stored name is not too long. -/
def Short (name : String) : Prop :=
  (FileName.encode name).length ≤ maxFileName

/-- The directory is there, and its entries are files of different stored names. -/
def Tidy (d : DataDir) : Prop :=
  ∃ records : List (String × Bytes), d.root = .folder (records.map entryOf) ∧
    (records.map Prod.fst).Nodup ∧ ∀ r ∈ records, Short r.1

variable {path name : String} {records : List (String × Bytes)} {d : DataDir}

/-- A file is looked up by its stored name. -/
theorem lookup_entryOf (records : List (String × Bytes)) (name : String) :
    (records.map entryOf).lookup (FileName.encode name) =
      (records.lookup name).map DirEntry.file := by
  induction records with
  | nil => rfl
  | cons r records ih =>
      have hsame : (FileName.encode name == FileName.encode r.1) = (name == r.1) := by
        by_cases hname : name = r.1
        · simp [hname]
        · simp [hname, FileName.encode_injective.ne hname]
      rw [List.map_cons, entryOf, List.lookup_cons, List.lookup_cons, hsame, ih]
      cases name == r.1 <;> rfl

/-- A search in a tidy directory fails only for a file name that is too long. -/
theorem find_records (hshort : Short name) :
    (⟨path, .folder (records.map entryOf)⟩ : DataDir).find (FileName.encode name) =
      .ok ((records.lookup name).map DirEntry.file) := by
  rw [find_folder, if_neg (Nat.not_lt.2 hshort), lookup_entryOf]

theorem short_of_find {found : Option DirEntry}
    (h : d.find (FileName.encode name) = .ok found) : Short name := by
  obtain ⟨path, es, rfl⟩ := exists_folder_of_find h
  rw [find_folder] at h
  split at h
  · cases h
  · rename_i hshort
    exact Nat.not_lt.1 hshort

/-- A new file keeps a directory tidy. -/
theorem Tidy.add (hd : d.Tidy) (hfree : d.find (FileName.encode name) = .ok none)
    (value : Bytes) : (d.add (FileName.encode name) (.file value)).Tidy := by
  obtain ⟨path, root⟩ := d
  obtain ⟨records, rfl, hnodup, hshort⟩ := hd
  have hname := short_of_find hfree
  rw [find_records hname] at hfree
  have habsent : name ∉ records.map Prod.fst := by
    intro hmem
    obtain ⟨r, hr, rfl⟩ := List.mem_map.1 hmem
    have hnone : records.lookup r.1 = none := by simpa using hfree
    exact absurd (List.lookup_eq_none_iff.1 hnone r hr) (by simp)
  refine ⟨records ++ [(name, value)], ?_, ?_, ?_⟩
  · simp [DataDir.add, entryOf]
  · rw [List.map_append, List.nodup_append]
    refine ⟨hnodup, List.nodup_singleton _, ?_⟩
    intro other hother new hnew hsame
    have hnamed : new = name := List.mem_singleton.1 hnew
    exact habsent (hnamed ▸ hsame ▸ hother)
  · intro r hr
    rcases List.mem_append.1 hr with hold | hnew
    · exact hshort r hold
    · obtain rfl := List.mem_singleton.1 hnew
      exact hname

/-- A file less keeps a directory tidy. -/
theorem Tidy.drop (hd : d.Tidy) (name : String) : (d.drop (FileName.encode name)).Tidy := by
  obtain ⟨path, root⟩ := d
  obtain ⟨records, rfl, hnodup, hshort⟩ := hd
  refine ⟨records.filter fun r => FileName.encode r.1 != FileName.encode name, ?_, ?_, ?_⟩
  · simp only [DataDir.drop, List.filter_map]
    rfl
  · exact hnodup.sublist (List.filter_sublist.map _)
  · exact fun r hr => hshort r (List.mem_of_mem_filter hr)

/-- A tidy directory has place for a temporary file. -/
theorem Tidy.find_freshTemp (hd : d.Tidy) : d.find d.freshTemp = .ok none := by
  obtain ⟨path, root⟩ := d
  obtain ⟨records, rfl, -, -⟩ := hd
  have hfirst : freshTemp ⟨path, .folder (records.map entryOf)⟩ = tempName 0 := by
    have hfree : tempName 0 ∉ (records.map entryOf).map Prod.fst := by
      intro hmem
      rw [List.map_map] at hmem
      obtain ⟨r, -, hr⟩ := List.mem_map.1 hmem
      exact encode_ne_of_hidden (decode?_tempName 0) hr
    unfold freshTemp
    simp only
    rw [List.range_succ_eq_map, List.find?_cons_of_pos (by simpa using hfree)]
    rfl
  have hlength : ¬ (tempName 0).length > maxFileName := by decide
  have hlookup := lookup_freshTemp path (records.map entryOf)
  rw [find_folder, hlookup, hfirst, if_neg hlength]

end DataDir

/-! ### Stores -/

namespace Backend

/-- The directory of the store, if it has one, is tidy. -/
def Tidy : Backend → Prop
  | .files d => d.Tidy
  | _ => True

variable {b : Backend}

/-- A creation keeps a store tidy. -/
theorem Tidy.create (hb : b.Tidy) (sig : Signal) (name : String) (value : Bytes) :
    (b.create sig name value).2.Tidy := by
  cases b with
  | memory t =>
      unfold Backend.create
      repeat' split
      all_goals trivial
  | database t =>
      unfold Backend.create
      repeat' split
      all_goals trivial
  | files d =>
      have hd : d.Tidy := hb
      simp only [Backend.create, DataDir.create_eq]
      cases requireKey name with
      | error e => exact hd
      | ok _ =>
          cases sig.atStart with
          | true => exact hd
          | false =>
              simp only [Bool.false_eq_true, if_false, hd.find_freshTemp]
              cases sig.atCommit with
              | true => exact hd
              | false =>
                  simp only [Bool.false_eq_true, if_false]
                  rcases hfind : d.find (FileName.encode name) with e | found
                  · exact hd
                  · cases found with
                    | some entry => exact hd
                    | none => exact hd.add hfind value

/-- A removal keeps a store tidy. -/
theorem Tidy.delete (hb : b.Tidy) (sig : Signal) (name : String) :
    (b.delete sig name).2.Tidy := by
  cases b with
  | memory t =>
      unfold Backend.delete
      repeat' split
      all_goals trivial
  | database t =>
      unfold Backend.delete
      repeat' split
      all_goals trivial
  | files d =>
      have hd : d.Tidy := hb
      simp only [Backend.delete, DataDir.delete_eq]
      repeat' split
      all_goals first
        | exact hd
        | exact hd.drop name

/-- **Listings of tidy stores.**  A listing gives the names that are held and that the pattern
matches, each of them once. -/
theorem exists_listed_tidy (hb : b.Tidy) (pattern : String) :
    ∃ names, b.listed pattern = .ok names ∧ names.Nodup ∧
      ∀ name, name ∈ names ↔ Glob.accepts pattern name = true ∧ (b.stored? name).isSome := by
  have htable (t : Table) : (t.names.filter (Glob.accepts pattern)).Nodup ∧
      ∀ name, name ∈ t.names.filter (Glob.accepts pattern) ↔
        Glob.accepts pattern name = true ∧ (t.get? name).isSome := by
    have hnodup : t.names.Nodup := t.sorted_names.imp fun hlt => String.ne_of_lt hlt
    refine ⟨hnodup.filter _, fun name => ?_⟩
    rw [List.mem_filter, Table.mem_names_iff]
    exact and_comm
  cases b with
  | memory t => exact ⟨_, rfl, (htable t).1, (htable t).2⟩
  | database t => exact ⟨_, rfl, (htable t).1, (htable t).2⟩
  | files d =>
      obtain ⟨path, root⟩ := d
      obtain ⟨records, hroot, hnodup, hshort⟩ := hb
      simp only at hroot
      subst hroot
      have hnames : ((records.map DataDir.entryOf).map Prod.fst).filterMap FileName.decode? =
          records.map Prod.fst := by
        rw [List.map_map, List.filterMap_map]
        have hdecode : FileName.decode? ∘ (Prod.fst ∘ DataDir.entryOf) = fun r => some r.1 := by
          funext r
          exact FileName.decode?_encode r.1
        rw [hdecode]
        simp
      have hstored (name : String) (hname : name ∈ records.map Prod.fst) :
          ((Backend.files ⟨path, .folder (records.map DataDir.entryOf)⟩).stored?
            name).isSome := by
        obtain ⟨r, hr, rfl⟩ := List.mem_map.1 hname
        have hlookup : (records.lookup r.1).isSome := List.lookup_isSome_iff.2 ⟨r, hr, by simp⟩
        obtain ⟨value, hvalue⟩ := Option.isSome_iff_exists.1 hlookup
        simp [Backend.stored?, DataDir.content?, DataDir.find_records (hshort r hr), hvalue]
      have hlisted : (Backend.files ⟨path, .folder (records.map DataDir.entryOf)⟩).listed pattern =
          .ok ((records.map Prod.fst).filter (Glob.accepts pattern)) := by
        rw [← hnames]
        rfl
      refine ⟨_, hlisted, hnodup.filter _, fun name => ?_⟩
      constructor
      · intro hmem
        obtain ⟨hname, hmatch⟩ := List.mem_filter.1 hmem
        exact ⟨hmatch, hstored name hname⟩
      · rintro ⟨hmatch, hheld⟩
        obtain ⟨value, hvalue⟩ := Option.isSome_iff_exists.1 hheld
        obtain ⟨names, hfound, hmem⟩ := Backend.exists_listed hmatch hvalue
        rw [hlisted] at hfound
        exact Except.ok.inj hfound ▸ hmem

/-- **A removal makes place.**  After a removal under a context that lives, the name can be
created again. -/
theorem create_after_delete (hb : b.Tidy) {name : String} (hname : name ≠ "")
    (hdeleted : (b.delete (.steady false) name).1 = .ok ()) (value : Bytes) :
    ((b.delete (.steady false) name).2.create (.steady false) name value).1 = .ok () := by
  have hkey := requireKey_of_ne hname
  have htidy := hb.delete (.steady false) name
  cases b with
  | memory t =>
      have hcontains : (t.erase name).contains name = false := by
        simp [Table.contains, Table.get?_erase]
      simp [Backend.delete, Backend.create, Signal.whole, Signal.steady, hkey, hcontains]
  | database t =>
      have hcontains : (t.erase name).contains name = false := by
        simp [Table.contains, Table.get?_erase]
      simp [Backend.delete, Backend.create, Signal.whole, Signal.steady, hkey, hcontains]
  | files d =>
      -- what is left is tidy and has no file of the name
      obtain ⟨d', hleft, hnone⟩ : ∃ d', (Backend.files d).delete (.steady false) name =
          (.ok (), .files d') ∧ d'.find (FileName.encode name) = .ok none := by
        obtain ⟨path, root⟩ := d
        obtain ⟨records, hroot, -, -⟩ := hb
        simp only at hroot
        subst hroot
        simp only [Backend.delete, DataDir.delete_eq, hkey, Signal.steady, Bool.false_eq_true,
          if_false] at hdeleted ⊢
        by_cases hshort : DataDir.Short name
        · have hfind : (⟨path, .folder (records.map DataDir.entryOf)⟩ : DataDir).find
              (FileName.encode name) = .ok ((records.lookup name).map DirEntry.file) :=
            DataDir.find_records hshort
          cases hlookup : records.lookup name with
          | none =>
              rw [hlookup] at hfind
              simp only [hfind, Option.map_none]
              exact ⟨_, rfl, hfind⟩
          | some value =>
              rw [hlookup] at hfind
              simp only [hfind, Option.map_some]
              refine ⟨_, rfl, ?_⟩
              rw [DataDir.find_drop hfind, if_pos rfl]
        · rw [DataDir.find_folder, if_pos (Nat.lt_of_not_le hshort)] at hdeleted
          cases hdeleted
      rw [hleft] at htidy ⊢
      have hd : d'.Tidy := htidy
      simp [Backend.create, DataDir.create_eq, hkey, Signal.steady, hd.find_freshTemp, hnone]

end Backend

/-- **Listings of a namespace.**  Under a context that lives, a listing of a tidy store gives the
names that are held in the namespace and that the pattern matches, each of them once. -/
theorem View.exists_run_list {w : World Unit} {c : Context} (hlive : w.ended c = false)
    (htidy : w.backend.Tidy) (space pattern : String) :
    ∃ names, ((View.under space .whole).list pattern).attempt.run c w = (.ok names, w) ∧
      names.Nodup ∧ ∀ n, n ∈ names ↔ n ≠ "" ∧
        Glob.accepts (space ++ Glob.orAll pattern) (space ++ n) = true ∧
          (w.backend.stored? (space ++ n)).isSome := by
  obtain ⟨fulls, hlisted, hnodup, hfulls⟩ :=
    Backend.exists_listed_tidy htidy (space ++ Glob.orAll pattern)
  have hanswer : (Routine.list (space ++ Glob.orAll pattern)).attempt.run c w =
      (.ok fulls, w) := by
    change w.answer c (.list (space ++ Glob.orAll pattern)) = _
    simp only [World.answer, World.list_calm, hlive, Bool.false_eq_true, if_false, hlisted]
  refine ⟨fulls.filterMap (strip space), ?_, ?_, fun n => ?_⟩
  · change (Routine.list (space ++ Glob.orAll pattern) >>= fun names =>
      pure (names.filterMap (strip space))).attempt.run c w = _
    rw [Routine.run_bind, hanswer]
    rfl
  · refine hnodup.filterMap fun full full' n hn hn' => ?_
    rw [(strip_eq_some_iff.1 hn).1, (strip_eq_some_iff.1 hn').1]
  · simp only [List.mem_filterMap, strip_eq_some_iff]
    constructor
    · rintro ⟨full, hfull, rfl, hn⟩
      exact ⟨hn, (hfulls _).1 hfull⟩
    · rintro ⟨hn, hfull⟩
      exact ⟨_, (hfulls _).2 hfull, rfl, hn⟩

/-- A listing under a context that has ended fails. -/
theorem View.run_list_of_ended {w : World Unit} {c : Context} (hended : w.ended c = true)
    (space pattern : String) :
    ((View.under space .whole).list pattern).attempt.run c w = (.error .canceled, w) := by
  have hanswer : (Routine.list (space ++ Glob.orAll pattern)).attempt.run c w =
      (.error .canceled, w) := by
    change w.answer c (.list (space ++ Glob.orAll pattern)) = _
    simp only [World.answer, World.list_calm, hended, if_true]
  change (Routine.list (space ++ Glob.orAll pattern) >>= fun names =>
    pure (names.filterMap (strip space))).attempt.run c w = _
  rw [Routine.run_bind, hanswer]

/-- **Requests keep a store tidy**, whatever mishaps there are. -/
theorem World.tidy_answer {σ : Type} [Mishaps σ] (c : Context) (r : Request) (w : World σ)
    (hw : w.backend.Tidy) : (w.answer c r).2.backend.Tidy := by
  cases r with
  | create name value =>
      have hkept := w.backend_meet c (.create name)
      simp only [answer]
      rcases hm : w.meet c (.create name) with ⟨e | sig, w'⟩
      · rw [hm] at hkept
        exact hkept ▸ hw
      · rw [hm] at hkept
        have hw' : w'.backend.Tidy := hkept ▸ hw
        exact hw'.create sig name value
  | delete name =>
      have hkept := w.backend_meet c (.delete name)
      simp only [answer]
      rcases hm : w.meet c (.delete name) with ⟨e | sig, w'⟩
      · rw [hm] at hkept
        exact hkept ▸ hw
      · rw [hm] at hkept
        have hw' : w'.backend.Tidy := hkept ▸ hw
        exact hw'.delete sig name
  | _ => rw [World.backend_answer_of_read rfl]; exact hw

end KeyCustody
