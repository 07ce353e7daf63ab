import KeyCustody.Proofs.Listing

/-!
# Parts of a store

`Backend.only p` is the part of a store whose names have a property; the files that stand
for no name stay in every part.  A request on names of the part is answered by the part as
by the whole store, and changes the part as it changes the whole (`World.answer_only`).  A
request on other names leaves the part alone (`World.only_answer_of_spares`).  For a
directory this needs that a creation finds the same free name for its temporary file in the
part as in the whole, which it does because temporary files stay (`DataDir.freshTemp_only`).
Main statements:

* `Program.Keeps.run_only`: a program that stays in a part runs in it as in the whole store;
* `Program.Keeps.run_spares`: a program that spares a part leaves it as it was.
-/

namespace KeyCustody

variable {p : String → Bool}

/-! ### Tables -/

namespace Table

/-- The part of a table whose names have the property. -/
def only (p : String → Bool) (t : Table) : Table :=
  ⟨t.entries.filter fun e => p e.1, t.sorted.filter _⟩

theorem get?_only (t : Table) (name : String) :
    (t.only p).get? name = if p name then t.get? name else none := by
  obtain ⟨es, hs⟩ := t
  simp only [only, get?]
  clear hs
  induction es with
  | nil => simp
  | cons e es ih =>
      rw [List.filter_cons, lookup_entry]
      by_cases he : p e.1 = true
      · rw [if_pos he, lookup_entry, ih]
        by_cases hn : name = e.1
        · simp [hn, he]
        · simp [hn]
      · rw [if_neg he, ih]
        by_cases hn : name = e.1
        · simp [hn, he]
        · simp [hn]

theorem contains_only {t : Table} {name : String} (hname : p name = true) :
    (t.only p).contains name = t.contains name := by
  rw [contains, contains, get?_only, if_pos hname]

theorem names_only (t : Table) : (t.only p).names = t.names.filter p := by
  rw [names, names, only, List.filter_map]
  rfl

theorem only_insert (t : Table) (name : String) (value : Bytes) :
    (t.insert name value).only p =
      if p name then (t.only p).insert name value else t.only p := by
  by_cases hname : p name = true
  · rw [if_pos hname]
    refine ext fun other => ?_
    rw [get?_only, get?_insert, get?_insert, get?_only]
    by_cases ho : other = name
    · simp [ho, hname]
    · simp [ho]
  · rw [if_neg hname]
    refine ext fun other => ?_
    rw [get?_only, get?_insert, get?_only]
    by_cases ho : other = name
    · simp [ho, hname]
    · simp [ho]

theorem only_erase (t : Table) (name : String) :
    (t.erase name).only p = if p name then (t.only p).erase name else t.only p := by
  by_cases hname : p name = true
  · rw [if_pos hname]
    refine ext fun other => ?_
    rw [get?_only, get?_erase, get?_erase, get?_only]
    by_cases ho : other = name
    · simp [ho]
    · simp [ho]
  · rw [if_neg hname]
    refine ext fun other => ?_
    rw [get?_only, get?_erase, get?_only]
    by_cases ho : other = name
    · simp [ho, hname]
    · simp [ho]

end Table

/-! ### Directories -/

namespace DataDir

/-- The file stands for a name with the property, or for none. -/
def stays (p : String → Bool) (file : Bytes) : Bool :=
  (FileName.decode? file).all p

/-- The part of a directory whose files stay. -/
def only (p : String → Bool) (d : DataDir) : DataDir :=
  match d.root with
  | .folder es => { d with root := .folder (es.filter fun e => stays p e.1) }
  | _ => d

theorem stays_encode (name : String) : stays p (FileName.encode name) = p name := by
  simp [stays, FileName.decode?_encode]

theorem stays_tempName (n : Nat) : stays p (tempName n) = true := by
  simp [stays, decode?_tempName]

/-- A look-up among the entries that stay. -/
theorem lookup_filter_stays {es : List (Bytes × DirEntry)} {file : Bytes}
    (hfile : stays p file = true) :
    (es.filter fun e => stays p e.1).lookup file = es.lookup file := by
  induction es with
  | nil => rfl
  | cons e es ih =>
      rw [List.filter_cons, List.lookup_cons]
      by_cases he : file = e.1
      · subst he
        rw [if_pos hfile, List.lookup_cons]
        simp
      · by_cases hs : stays p e.1 = true
        · rw [if_pos hs, List.lookup_cons, ih]
        · rw [if_neg hs, ih, beq_false_of_ne he]

theorem find_only {d : DataDir} {file : Bytes} (hfile : stays p file = true) :
    (d.only p).find file = d.find file := by
  obtain ⟨path, root⟩ := d
  cases root with
  | missing => rfl
  | file => rfl
  | folder es =>
      simp only [only]
      rw [find_folder, find_folder, lookup_filter_stays hfile]

/-- **Temporary files stay**, so the first free name for one is the same. -/
theorem freshTemp_only (d : DataDir) : (d.only p).freshTemp = d.freshTemp := by
  obtain ⟨path, root⟩ := d
  cases root with
  | missing => rfl
  | file => rfl
  | folder es =>
      have hsame (n : Nat) :
          ((es.filter fun e => stays p e.1).map Prod.fst).contains (tempName n) =
            (es.map Prod.fst).contains (tempName n) := by
        rw [Bool.eq_iff_iff, List.contains_iff_mem, List.contains_iff_mem, List.mem_map,
          List.mem_map]
        constructor
        · rintro ⟨e, he, hn⟩
          exact ⟨e, (List.mem_filter.1 he).1, hn⟩
        · rintro ⟨e, he, hn⟩
          exact ⟨e, List.mem_filter.2 ⟨he, hn ▸ stays_tempName n⟩, hn⟩
      obtain ⟨n, -, -, hfound⟩ := find?_free (es.map Prod.fst)
      have hall := hfound es.length (by simp)
      obtain ⟨m, -, -, hfound'⟩ := find?_free ((es.filter fun e => stays p e.1).map Prod.fst)
      have hpart := hfound' (es.filter fun e => stays p e.1).length (by simp)
      have hwide := hfound' es.length (by simpa using List.length_filter_le _ _)
      simp only [hsame] at hwide hpart
      rw [hall] at hwide
      simp only [only, freshTemp, hsame, hall, hpart, Option.getD_some]
      exact congrArg tempName (Option.some.inj hwide).symm

/-- The names of the files that stay. -/
theorem decode?_stays (files : List Bytes) :
    (files.filter (stays p)).filterMap FileName.decode? =
      (files.filterMap FileName.decode?).filter p := by
  induction files with
  | nil => rfl
  | cons file files ih =>
      rw [List.filter_cons, List.filterMap_cons]
      cases hname : FileName.decode? file with
      | none =>
          have hstays : stays p file = true := by simp [stays, hname]
          rw [if_pos hstays, List.filterMap_cons, hname, ih]
      | some name =>
          have hstays : stays p file = p name := by simp [stays, hname]
          rw [hstays]
          by_cases hp : p name = true
          · rw [if_pos hp, List.filterMap_cons, hname, List.filter_cons, if_pos hp, ih]
          · rw [if_neg hp, List.filter_cons, if_neg hp, ih]

theorem only_add (d : DataDir) (name : String) (e : DirEntry) :
    (d.add (FileName.encode name) e).only p =
      if p name then (d.only p).add (FileName.encode name) e else d.only p := by
  obtain ⟨path, root⟩ := d
  cases root with
  | missing => simp [add, only]
  | file => simp [add, only]
  | folder es =>
      simp only [add, only, List.filter_append, List.filter_cons, stays_encode, List.filter_nil]
      by_cases hname : p name = true
      · simp [hname]
      · simp [hname]

theorem only_drop (d : DataDir) (name : String) :
    (d.drop (FileName.encode name)).only p =
      if p name then (d.only p).drop (FileName.encode name) else d.only p := by
  obtain ⟨path, root⟩ := d
  cases root with
  | missing => simp [drop, only]
  | file => simp [drop, only]
  | folder es =>
      simp only [drop, only, List.filter_filter]
      by_cases hname : p name = true
      · rw [if_pos hname]
        simp only [Bool.and_comm]
      · have hkept : (es.filter fun e => stays p e.1 && (e.1 != FileName.encode name)) =
            es.filter fun e => stays p e.1 := by
          refine List.filter_congr fun e _ => ?_
          by_cases he : e.1 = FileName.encode name
          · simp [he, stays_encode, hname]
          · simp [he]
        rw [if_neg hname, hkept]

end DataDir

/-! ### Stores -/

namespace Backend

/-- The part of a store whose names have the property. -/
def only (p : String → Bool) : Backend → Backend
  | .memory t => .memory (t.only p)
  | .database t => .database (t.only p)
  | .files d => .files (d.only p)

theorem get_only {b : Backend} {name : String} (hname : p name = true) (sig : Signal) :
    (b.only p).get sig name = b.get sig name := by
  cases b with
  | memory t => simp only [only, get, Table.get?_only, if_pos hname]
  | database t => simp only [only, get, Table.get?_only, if_pos hname]
  | files d =>
      have hfind := DataDir.find_only (d := d) ((DataDir.stays_encode name).trans hname)
      simp only [only, get, DataDir.get, DataDir.read, hfind]

/-- A creation in a part is the creation in the whole store. -/
theorem create_only {b : Backend} {name : String} (hname : p name = true) (sig : Signal)
    (value : Bytes) :
    (b.only p).create sig name value =
      ((b.create sig name value).1, (b.create sig name value).2.only p) := by
  cases b with
  | memory t =>
      simp only [only, create, Table.contains_only hname]
      cases requireKey name <;> cases sig.whole <;> cases t.contains name <;>
        simp [Table.only_insert, hname]
  | database t =>
      simp only [only, create, Table.contains_only hname]
      cases requireKey name <;> cases sig.atStart <;> cases t.contains name <;>
        cases sig.atCommit <;> simp [Table.only_insert, hname]
  | files d =>
      obtain ⟨n, htemp⟩ := DataDir.freshTemp_eq_tempName d
      have hfindTemp : (d.only p).find d.freshTemp = d.find d.freshTemp :=
        DataDir.find_only (htemp ▸ DataDir.stays_tempName n)
      have hfind := DataDir.find_only (d := d) ((DataDir.stays_encode name).trans hname)
      simp only [only, create, DataDir.create_eq, DataDir.freshTemp_only, hfindTemp, hfind]
      cases requireKey name with
      | error e => rfl
      | ok _ =>
          cases sig.atStart with
          | true => rfl
          | false =>
              cases d.find d.freshTemp with
              | error e => rfl
              | ok _ =>
                  cases sig.atCommit with
                  | true => rfl
                  | false =>
                      cases d.find (FileName.encode name) with
                      | error e => rfl
                      | ok found => cases found <;> simp [DataDir.only_add, hname]

/-- A creation outside a part leaves the part alone. -/
theorem only_create {b : Backend} {name : String} (hname : p name = false) (sig : Signal)
    (value : Bytes) : (b.create sig name value).2.only p = b.only p := by
  cases b with
  | memory t =>
      simp only [create]
      cases requireKey name <;> cases sig.whole <;> cases t.contains name <;>
        simp [only, Table.only_insert, hname]
  | database t =>
      simp only [create]
      cases requireKey name <;> cases sig.atStart <;> cases t.contains name <;>
        cases sig.atCommit <;> simp [only, Table.only_insert, hname]
  | files d =>
      simp only [create, DataDir.create_eq]
      cases requireKey name with
      | error e => rfl
      | ok _ =>
          cases sig.atStart with
          | true => rfl
          | false =>
              cases d.find d.freshTemp with
              | error e => rfl
              | ok _ =>
                  cases sig.atCommit with
                  | true => rfl
                  | false =>
                      cases d.find (FileName.encode name) with
                      | error e => rfl
                      | ok found => cases found <;> simp [only, DataDir.only_add, hname]

/-- A deletion in a part is the deletion in the whole store. -/
theorem delete_only {b : Backend} {name : String} (hname : p name = true) (sig : Signal) :
    (b.only p).delete sig name = ((b.delete sig name).1, (b.delete sig name).2.only p) := by
  cases b with
  | memory t =>
      simp only [only, delete]
      cases sig.whole <;> simp [Table.only_erase, hname]
  | database t =>
      simp only [only, delete]
      cases requireKey name <;> cases sig.whole <;> simp [Table.only_erase, hname]
  | files d =>
      have hfind := DataDir.find_only (d := d) ((DataDir.stays_encode name).trans hname)
      simp only [only, delete, DataDir.delete_eq, hfind]
      cases requireKey name with
      | error e => rfl
      | ok _ =>
          cases sig.atStart with
          | true => rfl
          | false =>
              cases d.find (FileName.encode name) with
              | error e => cases e <;> rfl
              | ok found =>
                  cases found with
                  | none => rfl
                  | some entry => cases entry <;> simp [DataDir.only_drop, hname]

/-- A deletion outside a part leaves the part alone. -/
theorem only_delete {b : Backend} {name : String} (hname : p name = false) (sig : Signal) :
    (b.delete sig name).2.only p = b.only p := by
  cases b with
  | memory t =>
      simp only [delete]
      cases sig.whole <;> simp [only, Table.only_erase, hname]
  | database t =>
      simp only [delete]
      cases requireKey name <;> cases sig.whole <;> simp [only, Table.only_erase, hname]
  | files d =>
      simp only [delete, DataDir.delete_eq]
      cases requireKey name with
      | error e => rfl
      | ok _ =>
          cases sig.atStart with
          | true => rfl
          | false =>
              cases d.find (FileName.encode name) with
              | error e => cases e <;> rfl
              | ok found =>
                  cases found with
                  | none => rfl
                  | some entry => cases entry <;> simp [only, DataDir.only_drop, hname]

/-- A listing within a part gives what it gives in the whole store. -/
theorem listed_only {b : Backend} {pattern : String}
    (hpattern : ∀ name, Glob.accepts pattern name = true → p name = true) :
    (b.only p).listed pattern = b.listed pattern := by
  have hfilter (names : List String) :
      (names.filter p).filter (Glob.accepts pattern) = names.filter (Glob.accepts pattern) := by
    rw [List.filter_filter]
    refine List.filter_congr fun name _ => ?_
    by_cases haccepts : Glob.accepts pattern name = true
    · simp [haccepts, hpattern name haccepts]
    · simp [haccepts]
  cases b with
  | memory t => simp only [only, listed, Table.names_only, hfilter]
  | database t => simp only [only, listed, Table.names_only, hfilter]
  | files d =>
      obtain ⟨path, root⟩ := d
      cases root with
      | missing => rfl
      | file => rfl
      | folder es =>
          have hnames : (DataDir.only p ⟨path, .folder es⟩).fileNames =
              .ok ((es.map Prod.fst).filter (DataDir.stays p)) := by
            rw [List.filter_map]
            rfl
          have hall : (⟨path, .folder es⟩ : DataDir).fileNames = .ok (es.map Prod.fst) := rfl
          simp only [only, listed, hnames, hall, Except.mapError, Except.map, Cursor.shown,
            DataDir.decode?_stays, hfilter]

theorem status_only (b : Backend) (sig : Signal) : (b.only p).status sig = b.status sig := by
  cases b with
  | memory t => rfl
  | database t => rfl
  | files d =>
      obtain ⟨path, root⟩ := d
      cases root <;> rfl

end Backend

/-! ### Worlds -/

/-- What the request names has the property. -/
def Request.Within (p : String → Bool) : Request → Prop
  | .create name _ | .get name | .delete name => p name = true
  | .list pattern => ∀ name, Glob.accepts pattern name = true → p name = true
  | _ => True

/-- The request changes no name with the property. -/
def Request.Spares (p : String → Bool) : Request → Prop
  | .create name _ | .delete name => p name = false
  | _ => True

namespace World

/-- The world over a part of its store. -/
def only {σ : Type} (p : String → Bool) (w : World σ) : World σ :=
  { w with backend := w.backend.only p }

/-- **Requests within a part** are answered alike by the part, and change it alike. -/
theorem answer_only {w : World Unit} {r : Request} (hr : r.Within p) (c : Context) :
    (w.only p).answer c r = ((w.answer c r).1, (w.answer c r).2.only p) := by
  have hended : (w.only p).ended c = w.ended c := rfl
  cases r with
  | create name value =>
      simp only [answer, meet_calm, hended]
      simp only [only, Backend.create_only hr]
  | get name =>
      simp only [answer, meet_calm, hended]
      simp only [only, Backend.get_only hr]
  | delete name =>
      simp only [answer, meet_calm, hended]
      simp only [only, Backend.delete_only hr]
  | list pattern =>
      have hlisted : (w.only p).backend.listed pattern = w.backend.listed pattern :=
        Backend.listed_only hr
      simp only [answer, list_calm, hended, hlisted]
  | status =>
      simp only [answer, meet_calm, hended]
      simp only [only, Backend.status_only]
  | time => rfl
  | eventId => rfl
  | emit event => rfl

/-- **Requests outside a part** leave it alone. -/
theorem only_answer_of_spares {w : World Unit} {r : Request} (hr : r.Spares p) (c : Context) :
    (w.answer c r).2.backend.only p = w.backend.only p := by
  by_cases hwrite : r.isWrite = true
  · cases r with
    | create name value =>
        simp only [answer, meet_calm]
        exact Backend.only_create hr _ value
    | delete name =>
        simp only [answer, meet_calm]
        exact Backend.only_delete hr _
    | _ => cases hwrite
  · rw [World.backend_answer_of_read (Bool.eq_false_iff.2 hwrite) w c]

end World

variable {α : Type} {q : Program α} {fits : α → Prop}

/-- **A program that stays in a part** ends alike in worlds over the same part, and leaves them
over the same part. -/
theorem Program.Keeps.run_only (h : q.Keeps (.asking (Request.Within p)) fits) (c : Context)
    {w v : World Unit} (hwv : w.only p = v.only p) :
    (q.run c v).1 = (q.run c w).1 ∧ (q.run c w).2.only p = (q.run c v).2.only p := by
  refine h.run_simulates c (fun w v => w.only p = v.only p) (fun r w v hr hwv => ?_) hwv
  have hsame : ((v.answer c r).1, (v.answer c r).2.only p) =
      ((w.answer c r).1, (w.answer c r).2.only p) := by
    rw [← World.answer_only hr c, ← World.answer_only hr c, hwv]
  obtain ⟨hvalue, hworld⟩ := Prod.mk.inj hsame
  exact ⟨trivial, hvalue, hworld.symm⟩

/-- **A program that spares a part** leaves it as it was. -/
theorem Program.Keeps.run_spares (h : q.Keeps (.asking (Request.Spares p)) fits) (c : Context)
    (w : World Unit) : (q.run c w).2.backend.only p = w.backend.only p :=
  (h.run c (fun v => v.backend.only p = w.backend.only p)
    (fun _ _ hr hv => ⟨trivial, (World.only_answer_of_spares hr c).trans hv⟩) rfl).2

end KeyCustody
