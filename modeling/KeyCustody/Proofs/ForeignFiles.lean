import KeyCustody.Proofs.DirectoryMap

/-!
# Files of other hands

A directory may hold files that no store ever wrote.  A listing goes by what a file name is read
as, and the look-ups and removals that follow go by what the name is written as.  The reader takes
more than the writer writes: it takes any two hexadecimal digits behind a percent sign, of either
case and for any octet, and a plus sign for the first of them.  So a file is read back under the
name it is listed with exactly if its file name is *canonical*, in the words of the writer.  Main
statements:

* `FileName.canonical_iff`: what is written for the name that a file name is read as;
* `World.readsBack_iff`: when all that a directory lists is found and removed again.
-/

namespace KeyCustody

/-! ### Canonical file names -/

namespace FileName

/-- The characters that are written for names, but for a dot in front. -/
inductive Written : List Char → Prop
  | nil : Written []
  | percent {cs : List Char} (rest : Written cs) : Written ('%' :: '2' :: '5' :: cs)
  | slash {cs : List Char} (rest : Written cs) : Written ('%' :: '2' :: 'F' :: cs)
  | nul {cs : List Char} (rest : Written cs) : Written ('%' :: '0' :: '0' :: cs)
  | plain {c : Char} {cs : List Char} (plain : c ≠ '%' ∧ c ≠ '/' ∧ c ≠ '\x00')
      (rest : Written cs) : Written (c :: cs)

/-- **The file names that are written for names**: nothing is escaped but a percent sign, a slash,
a NUL and a dot in front, each of them in one way, and all of them are. -/
inductive Canonical : Bytes → Prop
  | dot {cs : List Char} (rest : Written cs) :
      Canonical (Bytes.ofText (String.ofList ('%' :: '2' :: 'E' :: cs)))
  | other {cs : List Char} (rest : Written cs) (front : cs.head? ≠ some '.') :
      Canonical (Bytes.ofText (String.ofList cs))

theorem escape_plain {c : Char} (h : c ≠ '%' ∧ c ≠ '/' ∧ c ≠ '\x00') : escape c = [c] := by
  simp [escape, h]

/-- One more character is written. -/
theorem Written.escape_append {cs : List Char} (h : Written cs) (c : Char) :
    Written (escape c ++ cs) := by
  by_cases hplain : c ≠ '%' ∧ c ≠ '/' ∧ c ≠ '\x00'
  · rw [escape_plain hplain]
    exact .plain hplain h
  · obtain rfl | rfl | rfl : c = '%' ∨ c = '/' ∨ c = '\x00' := by tauto
    · exact .percent h
    · exact .slash h
    · exact .nul h

theorem written_flatMap (cs : List Char) : Written (cs.flatMap escape) := by
  induction cs with
  | nil => exact .nil
  | cons c cs ih => exact ih.escape_append c

/-- What is written is written for something. -/
theorem Written.exists_flatMap {cs : List Char} (h : Written cs) :
    ∃ ns : List Char, ns.flatMap escape = cs := by
  induction h with
  | nil => exact ⟨[], rfl⟩
  | percent _ ih => exact ih.imp' ('%' :: ·) fun ns hns => by rw [← hns]; rfl
  | slash _ ih => exact ih.imp' ('/' :: ·) fun ns hns => by rw [← hns]; rfl
  | nul _ ih => exact ih.imp' ('\x00' :: ·) fun ns hns => by rw [← hns]; rfl
  | @plain c cs hplain _ ih =>
      obtain ⟨ns, hns⟩ := ih
      exact ⟨c :: ns, by rw [List.flatMap_cons, escape_plain hplain, hns]; rfl⟩

/-- The file name of every name is canonical. -/
theorem canonical_encode (name : String) : Canonical (encode name) := by
  unfold encode
  generalize hchars : name.toList = ns
  have hfront := head?_encodeChars ns
  cases ns with
  | nil => exact .other .nil nofun
  | cons c cs =>
      by_cases hdot : c = '.'
      · rw [encodeChars, if_pos hdot]
        exact .dot (written_flatMap cs)
      · rw [encodeChars, if_neg hdot] at hfront ⊢
        exact .other (written_flatMap (c :: cs)) hfront

/-- Every canonical file name is the file name of a name. -/
theorem Canonical.exists_name {file : Bytes} (h : Canonical file) :
    ∃ name, encode name = file := by
  cases h with
  | dot rest =>
      obtain ⟨ns, hns⟩ := rest.exists_flatMap
      refine ⟨String.ofList ('.' :: ns), ?_⟩
      rw [encode, String.toList_ofList, encodeChars, if_pos rfl, hns]
      rfl
  | other rest front =>
      obtain ⟨ns, hns⟩ := rest.exists_flatMap
      refine ⟨String.ofList ns, ?_⟩
      rw [encode, String.toList_ofList, ← hns]
      cases ns with
      | nil => rfl
      | cons c ns =>
          have hdot : c ≠ '.' := by
            intro hc
            subst hc
            exact front (by rw [← hns]; rfl)
          rw [encodeChars, if_neg hdot]
          rfl

/-- **What is written for the name that a file name is read as** is the file name itself exactly if
that is canonical. -/
theorem canonical_iff {file : Bytes} {name : String} (h : decode? file = some name) :
    encode name = file ↔ Canonical file := by
  refine ⟨fun hsame => hsame ▸ canonical_encode name, fun hcanonical => ?_⟩
  obtain ⟨written, hwritten⟩ := hcanonical.exists_name
  rw [← hwritten, decode?_encode] at h
  rw [← Option.some.inj h, hwritten]

end FileName

/-! ### Directories of files -/

namespace DataDir

/-- Regular files as they may lie in one directory: their names are all different, none is empty
and none is too long. -/
structure Regular (files : List (Bytes × Bytes)) : Prop where
  nodup : (files.map Prod.fst).Nodup
  named : ∀ f ∈ files, f.1 ≠ []
  short : ∀ f ∈ files, f.1.length ≤ maxFileName

/-- A directory in which these files lie. -/
def ofFiles (path : String) (files : List (Bytes × Bytes)) : DataDir :=
  ⟨path, .folder (files.map fun f => (f.1, .file f.2))⟩

variable {path : String} {files : List (Bytes × Bytes)} {file : Bytes} {name : String}

theorem fileNames_ofFiles : (ofFiles path files).fileNames = .ok (files.map Prod.fst) := by
  have hnames :
      (files.map fun f => (f.1, DirEntry.file f.2)).map Prod.fst = files.map Prod.fst := by
    rw [List.map_map]
    rfl
  rw [← hnames]
  rfl

theorem find_ofFiles (hshort : file.length ≤ maxFileName) :
    (ofFiles path files).find file = .ok ((files.lookup file).map .file) := by
  rw [ofFiles, find_folder, if_neg (by omega)]
  congr 1
  induction files with
  | nil => rfl
  | cons f files ih =>
      rw [List.map_cons, List.lookup_cons, List.lookup_cons, ih]
      cases file == f.1 <;> rfl

/-- The directory without one of its files. -/
theorem drop_ofFiles :
    (ofFiles path files).drop file = ofFiles path (files.filter fun f => f.1 != file) := by
  have hleft : (files.map fun f => (f.1, DirEntry.file f.2)).filter (fun e => e.1 != file) =
      (files.filter fun f => f.1 != file).map fun f => (f.1, DirEntry.file f.2) :=
    List.filter_map
  rw [ofFiles, ofFiles, ← hleft]
  rfl

/-- Without a file of the name, there is nothing to be dropped. -/
theorem filter_of_lookup_none (h : files.lookup file = none) :
    (files.filter fun f => f.1 != file) = files := by
  refine List.filter_eq_self.2 fun f hf => ?_
  have hother : (file != f.1) = true := List.lookup_eq_none_iff.1 h f hf
  rw [bne_iff_ne] at hother ⊢
  exact hother.symm

/-- What a directory gives for a name that can be a file name. -/
theorem get_ofFiles (hname : name ≠ "") (hshort : (FileName.encode name).length ≤ maxFileName) :
    (ofFiles path files).get (.steady false) name =
      (files.lookup (FileName.encode name)).elim (.error (.notFound name)) .ok := by
  unfold get read
  rw [requireKey_of_ne hname, find_ofFiles hshort]
  cases files.lookup (FileName.encode name) <;> rfl

/-- A removal takes the file of the name away and no other one. -/
theorem delete_ofFiles (hname : name ≠ "") (hshort : (FileName.encode name).length ≤ maxFileName) :
    (ofFiles path files).delete (.steady false) name =
      (.ok (), ofFiles path (files.filter fun f => f.1 != FileName.encode name)) := by
  rw [delete_eq, requireKey_of_ne hname, find_ofFiles hshort, ← drop_ofFiles]
  cases hlookup : files.lookup (FileName.encode name) with
  | some content => rfl
  | none =>
      rw [drop_ofFiles, filter_of_lookup_none hlookup]
      rfl

/-- Files that are not written for the name stay, whatever comes of its removal. -/
theorem mem_of_delete_ofFiles (path : String) {f : Bytes × Bytes} (hf : f ∈ files)
    (hother : FileName.encode name ≠ f.1) :
    ∃ left, ((ofFiles path files).delete (.steady false) name).2 = ofFiles path left ∧
      f ∈ left := by
  by_cases hname : name = ""
  · exact ⟨files, by rw [hname]; rfl, hf⟩
  by_cases hshort : (FileName.encode name).length ≤ maxFileName
  · rw [delete_ofFiles hname hshort]
    exact ⟨_, rfl, List.mem_filter.2 ⟨hf, by simpa using hother.symm⟩⟩
  · refine ⟨files, ?_, hf⟩
    have hlong : (ofFiles path files).find (FileName.encode name) = .error .longName := by
      rw [ofFiles, find_folder, if_pos (by omega)]
    rw [delete_eq, requireKey_of_ne hname, hlong]
    rfl

end DataDir

/-- A star alone matches every name. -/
theorem Glob.accepts_star (name : String) : accepts "*" name = true := by
  have hstar : accepts ("" ++ "*") ("" ++ name) = true := accepts_all rfl name
  rwa [String.empty_append, String.empty_append] at hstar

/-! ### What is listed leads back to its file -/

namespace World

variable (w : World Unit) (path : String)

/-- The world with a directory in which these files lie. -/
def holding (files : List (Bytes × Bytes)) : World Unit :=
  { w with backend := .files (.ofFiles path files) }

/-- A name that is listed leads back to its file: it is found, and removing it removes the file for
which it was listed. -/
structure LeadsBack (files : List (Bytes × Bytes)) (c : Context) (name : String) : Prop where
  found : ∀ what, ((World.host Unit).call c (.get name) (w.holding path files)).1 ≠
    .error (.notFound what)
  removed : ∀ f ∈ files, FileName.decode? f.1 = some name → ∃ left,
    (World.host Unit).call c (.delete name) (w.holding path files) =
      (.ok .done, w.holding path left) ∧ f.1 ∉ left.map Prod.fst

/-- **A directory is read back**: whatever is listed comes without repetitions, and every name of it
leads back to its file. -/
def ReadsBack (files : List (Bytes × Bytes)) (c : Context) : Prop :=
  ∀ pattern, ∃ names, (World.host Unit).call c (.list pattern) (w.holding path files) =
    (.ok (.names names), w.holding path files) ∧ names.Nodup ∧
      ∀ name ∈ names, w.LeadsBack path files c name

variable {w} {files : List (Bytes × Bytes)} {c : Context} {name : String}

theorem holding_injective : Function.Injective (w.holding path) := by
  intro files left h
  have hfiles := DirRoot.folder.inj (congrArg DataDir.root (Backend.files.inj
    (congrArg World.backend h)))
  refine List.map_injective_iff.2 (fun f g hfg => ?_) hfiles
  obtain ⟨hname, hcontent⟩ := Prod.mk.inj hfg
  exact Prod.ext hname (DirEntry.file.inj hcontent)

/-- A listing shows the names that the file names are read as. -/
theorem call_list_holding (hlive : w.ended c = false) (pattern : String) :
    (World.host Unit).call c (.list pattern) (w.holding path files) =
      (.ok (.names (Cursor.shown pattern (files.map Prod.fst))), w.holding path files) := by
  have hlive' : (w.holding path files).ended c = false := hlive
  have hlisted : (w.holding path files).backend.listed pattern =
      .ok (Cursor.shown pattern (files.map Prod.fst)) := by
    rw [holding, Backend.listed, DataDir.fileNames_ofFiles]
    rfl
  rw [call_eq, hlive', Backend.call, hlisted]
  rfl

theorem call_get_holding (hlive : w.ended c = false) :
    (World.host Unit).call c (.get name) (w.holding path files) =
      (((DataDir.ofFiles path files).get (.steady false) name).map .value,
        w.holding path files) := by
  have hlive' : (w.holding path files).ended c = false := hlive
  rw [call_eq, hlive']
  rfl

theorem call_delete_holding (hlive : w.ended c = false) :
    (World.host Unit).call c (.delete name) (w.holding path files) =
      (((DataDir.ofFiles path files).delete (.steady false) name).1.map fun _ => .done,
        { w with
          backend := .files ((DataDir.ofFiles path files).delete (.steady false) name).2 }) := by
  have hlive' : (w.holding path files).ended c = false := hlive
  rw [call_eq, hlive']
  rfl

/-- A file with a canonical name is what its name leads to. -/
theorem call_of_canonical (hlive : w.ended c = false) (hfiles : DataDir.Regular files)
    {f : Bytes × Bytes} (hf : f ∈ files) (hread : FileName.decode? f.1 = some name)
    (hcanonical : FileName.Canonical f.1) :
    (World.host Unit).call c (.get name) (w.holding path files) =
        (.ok (.value f.2), w.holding path files) ∧
      (World.host Unit).call c (.delete name) (w.holding path files) =
        (.ok .done, w.holding path (files.filter fun g => g.1 != f.1)) := by
  have hsame : FileName.encode name = f.1 := (FileName.canonical_iff hread).2 hcanonical
  have hname : name ≠ "" := by
    intro hempty
    exact hfiles.named f hf (by rw [← hsame, hempty]; rfl)
  have hshort : (FileName.encode name).length ≤ DataDir.maxFileName := hsame ▸ hfiles.short f hf
  have hlookup : files.lookup f.1 = some f.2 := (lookup_eq_some_iff_mem hfiles.nodup).2 hf
  constructor
  · rw [call_get_holding path hlive, DataDir.get_ofFiles hname hshort, hsame, hlookup]
    rfl
  · rw [call_delete_holding path hlive, DataDir.delete_ofFiles hname hshort, hsame]
    rfl

/-- A file with another name stays when the name is removed that it was listed with. -/
theorem mem_of_not_canonical (hlive : w.ended c = false) {f : Bytes × Bytes} (hf : f ∈ files)
    (hread : FileName.decode? f.1 = some name) (hother : ¬ FileName.Canonical f.1) :
    ∃ left, ((World.host Unit).call c (.delete name) (w.holding path files)).2 =
      w.holding path left ∧ f ∈ left := by
  have hwritten : FileName.encode name ≠ f.1 := fun hsame =>
    hother ((FileName.canonical_iff hread).1 hsame)
  obtain ⟨left, hleft, hstays⟩ := DataDir.mem_of_delete_ofFiles path hf hwritten
  refine ⟨left, ?_, hstays⟩
  rw [call_delete_holding path hlive, hleft]
  rfl

theorem mem_shown_iff {pattern : String} {names : List Bytes} :
    name ∈ Cursor.shown pattern names ↔
      (∃ file ∈ names, FileName.decode? file = some name) ∧ Glob.accepts pattern name = true := by
  rw [Cursor.shown, List.mem_filter, List.mem_filterMap]

/-- Of canonical file names no two are read as one name. -/
theorem nodup_shown (hnodup : (files.map Prod.fst).Nodup)
    (hcanonical : ∀ f ∈ files, ∀ name, FileName.decode? f.1 = some name → FileName.Canonical f.1)
    (pattern : String) : (Cursor.shown pattern (files.map Prod.fst)).Nodup := by
  refine List.Nodup.filter _ (List.pairwise_filterMap.2 ?_)
  refine hnodup.imp_of_mem fun {file other} hfile hother hne name hname name' hname' hsame => hne ?_
  obtain ⟨f, hf, hfirst⟩ := List.mem_map.1 hfile
  obtain ⟨g, hg, hsecond⟩ := List.mem_map.1 hother
  have hf' := (FileName.canonical_iff hname).2 (hfirst ▸ hcanonical f hf name (hfirst ▸ hname))
  have hg' := (FileName.canonical_iff hname').2 (hsecond ▸ hcanonical g hg name' (hsecond ▸ hname'))
  rw [← hf', ← hg', hsame]

/-- **Directories that are read back.**  What is written for the name that a file name is read as is
the file name itself exactly if that is canonical.  A directory of regular files is read back
exactly if every file name in it that is read as a name is canonical.  A file with a canonical name
is what its name leads to, and removing the name takes this file away and no other one; a file
without stays when the name is removed with which it was listed. -/
theorem readsBack_iff (hfiles : DataDir.Regular files) (hlive : w.ended c = false) :
    (∀ file name, FileName.decode? file = some name →
      (FileName.encode name = file ↔ FileName.Canonical file)) ∧
    (w.ReadsBack path files c ↔
      ∀ f ∈ files, ∀ name, FileName.decode? f.1 = some name → FileName.Canonical f.1) ∧
    ∀ f ∈ files, ∀ name, FileName.decode? f.1 = some name →
      (FileName.Canonical f.1 →
        (World.host Unit).call c (.get name) (w.holding path files) =
            (.ok (.value f.2), w.holding path files) ∧
          (World.host Unit).call c (.delete name) (w.holding path files) =
            (.ok .done, w.holding path (files.filter fun g => g.1 != f.1))) ∧
      (¬ FileName.Canonical f.1 → ∃ left,
        ((World.host Unit).call c (.delete name) (w.holding path files)).2 = w.holding path left ∧
          f ∈ left) := by
  refine ⟨fun _ _ => FileName.canonical_iff,
    ⟨fun hback f hf name hread => ?_, fun hcanonical => ?_⟩,
    fun f hf name hread => ⟨call_of_canonical path hlive hfiles hf hread,
      mem_of_not_canonical path hlive hf hread⟩⟩
  · obtain ⟨names, hlisted, -, hleads⟩ := hback "*"
    rw [call_list_holding path hlive] at hlisted
    have hmem : name ∈ Cursor.shown "*" (files.map Prod.fst) :=
      mem_shown_iff.2 ⟨⟨f.1, List.mem_map_of_mem hf, hread⟩, Glob.accepts_star name⟩
    have hnames : names = Cursor.shown "*" (files.map Prod.fst) := by
      simpa using (Prod.mk.inj hlisted).1.symm
    obtain ⟨left, hdelete, hgone⟩ := (hleads name (hnames ▸ hmem)).removed f hf hread
    by_contra hother
    obtain ⟨left', hleft', hstays⟩ := mem_of_not_canonical path hlive hf hread hother
    rw [hdelete] at hleft'
    exact hgone (List.mem_map_of_mem (holding_injective path hleft' ▸ hstays))
  · intro pattern
    refine ⟨_, call_list_holding path hlive pattern,
      nodup_shown hfiles.nodup hcanonical pattern, ?_⟩
    intro name hmem
    obtain ⟨⟨file, hfile, hread⟩, -⟩ := mem_shown_iff.1 hmem
    obtain ⟨f, hf, hfirst⟩ := List.mem_map.1 hfile
    subst hfirst
    obtain ⟨hget, hdelete⟩ :=
      call_of_canonical path hlive hfiles hf hread (hcanonical f hf name hread)
    refine ⟨fun what hmissing => ?_, fun g hg hread' => ⟨_, hdelete, ?_⟩⟩
    · rw [hget] at hmissing
      cases hmissing
    · have hsame : g.1 = f.1 := by
        rw [← (FileName.canonical_iff hread').2 (hcanonical g hg name hread'),
          (FileName.canonical_iff hread).2 (hcanonical f hf name hread)]
      simp [hsame]

/-- A directory with the file of a record, a file whose name is no name and one that is hidden. -/
theorem readsBack_of_records :
    let files : List (Bytes × Bytes) := [(Bytes.ofText "enclaves%2Fx%2Fkeys%2Fk", [7]),
      (Bytes.ofText "bad%zz", [8]), (Bytes.ofText ".tmp-0", [9])]
    let w := World.calm (.memory .empty)
    DataDir.Regular files ∧ w.ended (.ofToken []) = false ∧
      w.ReadsBack "data" files (.ofToken []) := by
  intro files w
  have hfiles : DataDir.Regular files := ⟨by decide +kernel, by decide +kernel, by decide +kernel⟩
  refine ⟨hfiles, rfl, (readsBack_iff "data" hfiles rfl).2.1.2 fun f hf name hread => ?_⟩
  have hwritten : ∀ f ∈ files, ∀ name ∈ FileName.decode? f.1, FileName.encode name = f.1 := by
    decide +kernel
  exact (FileName.canonical_iff hread).1 (hwritten f hf name hread)

/-- A file whose name escapes a letter is listed as that letter, which is not found then and which
is removed without the file.  Next to a file of the plain name, the letter is listed twice. -/
theorem escaped_letter_not_read_back :
    let w := World.calm (.memory .empty)
    let c : Context := .ofToken []
    let escaped : List (Bytes × Bytes) := [(Bytes.ofText "%41", [1])]
    let both : List (Bytes × Bytes) := escaped ++ [(Bytes.ofText "A", [2])]
    let call (k : StoreCall) (files : List (Bytes × Bytes)) :=
      (World.host Unit).call c k (w.holding "data" files)
    DataDir.Regular both ∧ FileName.decode? (Bytes.ofText "%41") = some "A" ∧
      FileName.encode "A" ≠ Bytes.ofText "%41" ∧
      (call (.list "*") escaped).1 = .ok (.names ["A"]) ∧
      (call (.get "A") escaped).1 = .error (.notFound "A") ∧
      call (.delete "A") escaped = (.ok .done, w.holding "data" escaped) ∧
      (call (.list "*") both).1 = .ok (.names ["A", "A"]) ∧
      ¬ w.ReadsBack "data" escaped c := by
  intro w c escaped both call
  have hboth : DataDir.Regular both := ⟨by decide +kernel, by decide +kernel, by decide +kernel⟩
  have hlisted : (call (.list "*") escaped).1 = .ok (.names ["A"]) := by decide +kernel
  have hmissing : (call (.get "A") escaped).1 = .error (.notFound "A") := by decide +kernel
  have hkept : (DataDir.ofFiles "data" escaped).delete (.steady false) "A" =
      (.ok (), .ofFiles "data" escaped) := by decide +kernel
  have hdeleted : call (.delete "A") escaped = (.ok .done, w.holding "data" escaped) := by
    simp only [call]
    rw [call_delete_holding _ rfl, hkept]
    rfl
  refine ⟨hboth, by decide +kernel, by decide +kernel, hlisted, hmissing, hdeleted,
    by decide +kernel, fun hback => ?_⟩
  obtain ⟨names, hnames, -, hleads⟩ := hback "*"
  have hagain : (.ok (.names names) : Except Error StoreReply) = .ok (.names ["A"]) :=
    (congrArg Prod.fst hnames).symm.trans hlisted
  have hsame : names = ["A"] := StoreReply.names.inj (Except.ok.inj hagain)
  exact (hleads "A" (by simp [hsame])).found "A" hmissing

end World

end KeyCustody
