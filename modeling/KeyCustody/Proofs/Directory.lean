import KeyCustody.Store.DataDir
import Mathlib.Data.List.Nodup
import Mathlib.Data.List.Perm.Subperm
import Mathlib.Data.Nat.Find
import Mathlib.Tactic.Push

/-!
# Stores in a directory

A creation in a directory takes four steps and a temporary file, and a deletion one step.
When nothing comes between the steps, the temporary file leaves no trace: a creation either
adds one file or changes nothing at all.  Main statements:

* `lookup_freshTemp`: the temporary file has a name that no file of the directory has;
* `create_eq`: a creation as one look at the directory;
* `delete_eq`: a deletion as one look at the directory.
-/

/-- Stored names keep their files apart. -/
theorem KeyCustody.FileName.encode_injective : Function.Injective encode := by
  intro m n h
  have read := decode?_encode m
  rw [h, decode?_encode] at read
  exact (Option.some.inj read).symm

namespace KeyCustody.DataDir

/-! ### Finding files -/

/-- In a directory that is there, only the length of a file name stands in the way. -/
theorem find_folder (path : String) (es : List (Bytes × DirEntry)) (file : Bytes) :
    (⟨path, .folder es⟩ : DataDir).find file =
      if file.length > maxFileName then .error .longName else .ok (es.lookup file) := by
  unfold find isLongPath entries
  by_cases h : maxFileName < file.length
  · simp only [gt_iff_lt, h, decide_true, Bool.true_and, if_pos]
    split <;> rfl
  · simp only [gt_iff_lt, h, decide_false, Bool.false_and, Bool.false_eq_true, if_false]
    rfl

/-- In a directory that is not there, no file is found. -/
theorem find_lost {d : DataDir} (lost : ∀ es, d.root ≠ .folder es) (file : Bytes) :
    ∃ e, d.find file = .error e := by
  have noEntries : ∃ e, d.entries = .error e := by
    unfold entries
    cases h : d.root with
    | folder es => exact absurd h (lost es)
    | missing => exact ⟨_, rfl⟩
    | file => exact ⟨_, rfl⟩
  obtain ⟨e, he⟩ := noEntries
  unfold find
  rw [he]
  cases d.isLongPath file with
  | true => exact ⟨_, rfl⟩
  | false => exact ⟨_, rfl⟩

/-- A look-up behind a new entry of another name. -/
theorem lookup_append_ne {es : List (Bytes × DirEntry)} {file f : Bytes} {e : DirEntry}
    (h : f ≠ file) : (es ++ [(file, e)]).lookup f = es.lookup f := by
  have hb : (f == file) = false := beq_false_of_ne h
  simp [List.lookup_append, List.lookup_cons, hb]

/-- A look-up of a new entry. -/
theorem lookup_append_self {es : List (Bytes × DirEntry)} {file : Bytes} {e : DirEntry}
    (h : es.lookup file = none) : (es ++ [(file, e)]).lookup file = some e := by
  simp [List.lookup_append, h]

/-- A look-up after another name was removed. -/
theorem lookup_filter_ne {es : List (Bytes × DirEntry)} {file f : Bytes} (h : f ≠ file) :
    (es.filter fun e => e.1 != file).lookup f = es.lookup f := by
  induction es with
  | nil => rfl
  | cons e es ih =>
      rw [List.filter_cons, List.lookup_cons]
      by_cases he : e.1 = file
      · simp [he, ih, beq_false_of_ne h]
      · have hb : (e.1 != file) = true := by simp [he]
        rw [if_pos hb, List.lookup_cons, ih]

/-- A look-up of a removed name. -/
theorem lookup_filter_self (es : List (Bytes × DirEntry)) (file : Bytes) :
    (es.filter fun e => e.1 != file).lookup file = none := by
  rw [List.lookup_eq_none_iff]
  intro e he
  have other := (List.mem_filter.1 he).2
  rw [bne_iff_ne] at other
  simpa using other.symm

/-- Removing a name that no entry has changes nothing. -/
theorem filter_eq_of_lookup_eq_none {es : List (Bytes × DirEntry)} {file : Bytes}
    (h : es.lookup file = none) : (es.filter fun e => e.1 != file) = es := by
  rw [List.filter_eq_self]
  intro e he
  have other := (List.lookup_eq_none_iff.1 h) e he
  simp only [bne_iff_ne, ne_eq] at other ⊢
  exact fun same => by simp [same] at other

/-- A directory in which a file can be looked for is there. -/
theorem exists_folder_of_find {d : DataDir} {file : Bytes} {found : Option DirEntry}
    (h : d.find file = .ok found) : ∃ path es, d = ⟨path, .folder es⟩ := by
  obtain ⟨path, root⟩ := d
  cases root with
  | folder es => exact ⟨path, es, rfl⟩
  | missing =>
      obtain ⟨e, he⟩ := find_lost (d := ⟨path, .missing⟩) (by simp) file
      rw [he] at h
      cases h
  | file =>
      obtain ⟨e, he⟩ := find_lost (d := ⟨path, .file⟩) (by simp) file
      rw [he] at h
      cases h

/-- What is found after an entry was added. -/
theorem find_add {d : DataDir} {file : Bytes} (h : d.find file = .ok none) (e : DirEntry)
    (f : Bytes) : (d.add file e).find f = if f = file then .ok (some e) else d.find f := by
  obtain ⟨path, es, rfl⟩ := exists_folder_of_find h
  rw [find_folder] at h
  split at h
  · cases h
  rename_i fits
  have free : es.lookup file = none := Except.ok.inj h
  simp only [add]
  by_cases hf : f = file
  · subst hf
    rw [find_folder, if_neg fits, lookup_append_self free, if_pos rfl]
  · rw [find_folder, find_folder, lookup_append_ne hf, if_neg hf]

/-- What is found after an entry was dropped. -/
theorem find_drop {d : DataDir} {file : Bytes} {found : Option DirEntry}
    (h : d.find file = .ok found) (f : Bytes) :
    (d.drop file).find f = if f = file then .ok none else d.find f := by
  obtain ⟨path, es, rfl⟩ := exists_folder_of_find h
  rw [find_folder] at h
  split at h
  · cases h
  rename_i fits
  simp only [drop]
  by_cases hf : f = file
  · subst hf
    rw [find_folder, if_neg fits, lookup_filter_self, if_pos rfl]
  · rw [find_folder, find_folder, lookup_filter_ne hf, if_neg hf]

/-! ### Changing files -/

section

variable {d : DataDir} {file f content : Bytes} {e : FileError}

/-- A file that no entry has can be written. -/
theorem write_of_free (hfree : d.find file = .ok none) :
    d.write file content = .ok (d.add file (.file content)) := by
  simp only [write, hfree]
  rfl

theorem write_of_error (h : d.find file = .error e) : d.write file content = .error e := by
  simp only [write, h]
  rfl

/-- A link to a file is made if the name is free. -/
theorem link_of_file (hfile : d.find file = .ok (some (.file content))) (target : Bytes) :
    d.link file target =
      match d.find target with
      | .error e => .error e
      | .ok (some _) => .error .exists
      | .ok none => .ok (d.add target (.file content)) := by
  simp only [link, hfile]
  rcases d.find target with e | _ | entry <;> rfl

/-- A file can be removed. -/
theorem unlink_of_file (hfile : d.find file = .ok (some (.file content))) :
    d.unlink file = .ok (d.drop file) := by
  simp only [unlink, hfile]
  rfl

theorem unlink_of_error (h : d.find file = .error e) : d.unlink file = .error e := by
  simp only [unlink, h]
  rfl

/-- An entry that was added leaves no trace once it is dropped. -/
theorem drop_add (hfree : d.find file = .ok none) (entry : DirEntry) :
    (d.add file entry).drop file = d := by
  obtain ⟨path, es, rfl⟩ := exists_folder_of_find hfree
  rw [find_folder] at hfree
  split at hfree
  · cases hfree
  · have hnone : es.lookup file = none := Except.ok.inj hfree
    simp [add, drop, List.filter_append, filter_eq_of_lookup_eq_none hnone]

/-- Another entry that was added stays. -/
theorem drop_add_ne (hother : f ≠ file) (entry : DirEntry) :
    (d.add f entry).drop file = (d.drop file).add f entry := by
  obtain ⟨path, root⟩ := d
  cases root <;> simp [add, drop, List.filter_append, hother]

end

/-! ### Temporary files -/

/-- Temporary names tell their numbers apart. -/
theorem tempName_injective {m n : Nat} (h : tempName m = tempName n) : m = n := by
  have text := Bytes.ofText_injective h
  have digits : Nat.toDigits 10 m = Nat.toDigits 10 n := by
    rw [← String.toList_inj] at text
    simpa using text
  rw [← Nat.ofDigitChars_toDigits (b := 10) (n := m) (by omega) (by omega), digits,
    Nat.ofDigitChars_toDigits (by omega) (by omega)]

/-- A file whose name starts as those of temporary files do is hidden. -/
theorem decode?_temp (id : String) : FileName.decode? (Bytes.ofText (".tmp-" ++ id)) = none := by
  have h : (".tmp-" ++ id : String).toList.head? = some '.' := by simp
  simp only [FileName.decode?, Bytes.text?_ofText, Option.bind_eq_bind, Option.bind_some, if_pos h]

/-- Temporary files are hidden. -/
theorem decode?_tempName (n : Nat) : FileName.decode? (tempName n) = none :=
  decode?_temp (toString n)

/-- A hidden file is no stored name. -/
theorem encode_ne_of_hidden {name : String} {file : Bytes}
    (h : FileName.decode? file = none) : FileName.encode name ≠ file := by
  intro same
  rw [← same, FileName.decode?_encode] at h
  cases h

/-- Of one more temporary name than there are files, one is free. -/
theorem exists_free (files : List Bytes) :
    ∃ n, n < files.length + 1 ∧ tempName n ∉ files := by
  by_contra none
  push Not at none
  have distinct : ((List.range (files.length + 1)).map tempName).Nodup :=
    List.nodup_range.map fun _ _ => tempName_injective
  have inside : (List.range (files.length + 1)).map tempName ⊆ files := by
    intro f hf
    obtain ⟨n, hn, rfl⟩ := List.mem_map.1 hf
    exact none n (List.mem_range.1 hn)
  have short := (distinct.subperm inside).length_le
  rw [List.length_map, List.length_range] at short
  omega

/-- The number of the first free temporary name. -/
theorem find?_free (files : List Bytes) :
    ∃ n, tempName n ∉ files ∧ (∀ m < n, tempName m ∈ files) ∧
      ∀ bound, files.length ≤ bound →
        (List.range (bound + 1)).find? (fun m => !files.contains (tempName m)) = some n := by
  have free : ∃ n, tempName n ∉ files := by
    obtain ⟨n, -, hn⟩ := exists_free files
    exact ⟨n, hn⟩
  classical
  refine ⟨Nat.find free, Nat.find_spec free, fun m hm => ?_, fun bound hb => ?_⟩
  · exact not_not.1 (Nat.find_min free hm)
  · have small : Nat.find free < bound + 1 := by
      obtain ⟨n, hn, hfree⟩ := exists_free files
      have := Nat.find_min' free hfree
      omega
    rw [List.find?_range_eq_some]
    refine ⟨by simpa using Nat.find_spec free, by simpa using small, fun m hm => ?_⟩
    simpa using not_not.1 (Nat.find_min free hm)

/-- The temporary file has a name that no file of the directory has. -/
theorem lookup_freshTemp (path : String) (es : List (Bytes × DirEntry)) :
    es.lookup (freshTemp ⟨path, .folder es⟩) = none := by
  obtain ⟨n, free, -, found⟩ := find?_free (es.map Prod.fst)
  have temp : freshTemp ⟨path, .folder es⟩ = tempName n := by
    simp only [freshTemp, found es.length (by simp), Option.getD_some]
  rw [temp, List.lookup_eq_none_iff]
  intro e he
  have other : tempName n ≠ e.1 := fun same => free (List.mem_map.2 ⟨e, he, same.symm⟩)
  simpa using other

/-! ### Whole calls -/

/-- The steps of a creation behind a temporary file that could not be written. -/
theorem run_unwritten {c : Creation} {d : DataDir} {e : FileError} (ended : Bool)
    (h : d.find c.temp = .error e) : c.run ended d = (.error (e.toError c.name), d) := by
  simp only [Creation.run, Creation.step, write_of_error h, unlink_of_error h]

/-- The steps of a creation in a directory that takes the temporary file. -/
theorem run_written {c : Creation} {d : DataDir} (ended : Bool)
    (hidden : FileName.decode? c.temp = none) (free : d.find c.temp = .ok none) :
    c.run ended d =
      if ended then (.error .canceled, d)
      else
        match d.find (FileName.encode c.name) with
        | .error e => (.error (e.toError c.name), d)
        | .ok (some _) => (.error (.alreadyExists c.name), d)
        | .ok none => (.ok (), d.add (FileName.encode c.name) (.file c.value)) := by
  have other : FileName.encode c.name ≠ c.temp := encode_ne_of_hidden hidden
  -- what stands in the directory while the temporary file is there
  have foundTemp : (d.add c.temp (.file c.value)).find c.temp = .ok (some (.file c.value)) := by
    rw [find_add free, if_pos rfl]
  have foundName : (d.add c.temp (.file c.value)).find (FileName.encode c.name) =
      d.find (FileName.encode c.name) := by
    rw [find_add free, if_neg other]
  have unlinked : (d.add c.temp (.file c.value)).unlink c.temp = .ok d := by
    rw [unlink_of_file foundTemp, drop_add free]
  have linked := link_of_file foundTemp (FileName.encode c.name)
  rw [foundName] at linked
  cases ended with
  | true => simp only [Creation.run, Creation.step, write_of_free free, unlinked, if_true]
  | false =>
      rcases hf : d.find (FileName.encode c.name) with e | _ | entry
      · rw [hf] at linked
        simp only [Creation.run, Creation.step, write_of_free free, linked, unlinked,
          Bool.false_eq_true, if_false]
      · rw [hf] at linked foundName
        have unlinkedBoth : ((d.add c.temp (.file c.value)).add (FileName.encode c.name)
            (.file c.value)).unlink c.temp =
              .ok (d.add (FileName.encode c.name) (.file c.value)) := by
          have stillThere : ((d.add c.temp (.file c.value)).add (FileName.encode c.name)
              (.file c.value)).find c.temp = .ok (some (.file c.value)) := by
            rw [find_add foundName, if_neg other.symm, foundTemp]
          rw [unlink_of_file stillThere, drop_add_ne other, drop_add free]
        simp only [Creation.run, Creation.step, write_of_free free, linked, unlinkedBoth,
          Bool.false_eq_true, if_false]
      · rw [hf] at linked
        simp only [Creation.run, Creation.step, write_of_free free, linked, unlinked,
          Bool.false_eq_true, if_false, FileError.toError]

/-- The name for temporary files is one of the numbered ones. -/
theorem freshTemp_eq_tempName (d : DataDir) : ∃ n, d.freshTemp = tempName n := by
  unfold freshTemp
  cases d.root with
  | folder es => exact ⟨_, rfl⟩
  | missing => exact ⟨0, rfl⟩
  | file => exact ⟨0, rfl⟩

/-- Where files can be looked for, the temporary file is not there yet. -/
theorem find_freshTemp {d : DataDir} {found : Option DirEntry}
    (h : d.find d.freshTemp = .ok found) : d.find d.freshTemp = .ok none := by
  obtain ⟨path, es, rfl⟩ := exists_folder_of_find h
  rw [find_folder] at h ⊢
  split at h
  · cases h
  · rw [if_neg ‹_›, lookup_freshTemp]

/-- **A creation in one look.**  A creation that nothing comes between adds one file, or it
fails and changes nothing. -/
theorem create_eq (d : DataDir) (sig : Signal) (name : String) (value : Bytes) :
    d.create sig name value =
      match requireKey name with
      | .error e => (.error e, d)
      | .ok () =>
        if sig.atStart then (.error .canceled, d)
        else
          match d.find d.freshTemp with
          | .error e => (.error (e.toError name), d)
          | .ok _ =>
            if sig.atCommit then (.error .canceled, d)
            else
              match d.find (FileName.encode name) with
              | .error e => (.error (e.toError name), d)
              | .ok (some _) => (.error (.alreadyExists name), d)
              | .ok none => (.ok (), d.add (FileName.encode name) (.file value)) := by
  unfold create
  cases requireKey name with
  | error e => rfl
  | ok u =>
      cases sig.atStart with
      | true => rfl
      | false =>
          simp only [Bool.false_eq_true, if_false]
          cases ht : d.find d.freshTemp with
          | error e => exact run_unwritten _ ht
          | ok found =>
              obtain ⟨n, temp⟩ := d.freshTemp_eq_tempName
              exact run_written sig.atCommit (temp ▸ decode?_tempName n) (find_freshTemp ht)

/-- **A deletion in one look.**  A deletion removes one file, or it changes nothing. -/
theorem delete_eq (d : DataDir) (sig : Signal) (name : String) :
    d.delete sig name =
      match requireKey name with
      | .error e => (.error e, d)
      | .ok () =>
        if sig.atStart then (.error .canceled, d)
        else
          match d.find (FileName.encode name) with
          | .error .missing => (.ok (), d)
          | .error e => (.error (e.toError name), d)
          | .ok none => (.ok (), d)
          | .ok (some .folder) => (.error (FileError.isFolder.toError name), d)
          | .ok (some (.file _)) => (.ok (), d.drop (FileName.encode name)) := by
  unfold delete unlink
  cases requireKey name with
  | error e => rfl
  | ok u =>
      cases sig.atStart with
      | true => rfl
      | false =>
          cases d.find (FileName.encode name) with
          | error e => cases e <;> rfl
          | ok found =>
              cases found with
              | none => rfl
              | some entry => cases entry <;> rfl

end KeyCustody.DataDir
