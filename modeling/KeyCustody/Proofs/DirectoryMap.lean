import KeyCustody.Proofs.Maps

/-!
# Directories as maps

A directory of files is used as a store by calls that come one after the other, under contexts
that live or have ended.  It is a map on the terms of directories: a name whose file name would
be too long is refused, and everything else is as on a plain map.  What stands in the directory
is at every moment the map, one file for each name.  Main statement:

* `World.directoryMap`: a directory that was empty is a map, and holds a file for each entry of
  the map and nothing else.
-/

namespace KeyCustody

/-- In a list whose names differ, a look-up finds exactly what is there. -/
theorem lookup_eq_some_iff_mem {κ β : Type} [BEq κ] [LawfulBEq κ] {es : List (κ × β)}
    (hnodup : (es.map Prod.fst).Nodup) {name : κ} {value : β} :
    es.lookup name = some value ↔ (name, value) ∈ es := by
  induction es with
  | nil => simp
  | cons e es ih =>
      obtain ⟨n, v⟩ := e
      obtain ⟨hfresh, hnodup⟩ := List.nodup_cons.1 hnodup
      rw [List.lookup_cons, List.mem_cons, Prod.mk.injEq]
      by_cases hname : name = n
      · have hlater : (name, value) ∉ es := fun hmem =>
          hfresh (List.mem_map.2 ⟨_, hmem, hname⟩)
        simp only [hname, beq_self_eq_true, Option.some.injEq]
        exact ⟨fun hv => .inl ⟨trivial, hv.symm⟩,
          fun h => (h.resolve_right (hname ▸ hlater)).2.symm⟩
      · simp only [beq_false_of_ne hname, ih hnodup]
        exact ⟨.inr, fun h => h.resolve_left fun hsame => hname hsame.1⟩

namespace DataDir

/-- **What stands in a directory** that holds what a map holds: for each entry of the map the
file of its name with its value, and nothing else. -/
theorem exists_entries_perm {d : DataDir} {t : Table} (h : (Backend.files d).Holds t) :
    ∃ es, d.root = .folder es ∧ es.Perm (t.entries.map entryOf) := by
  obtain ⟨records, hroot, hnodup, hshort⟩ : d.Tidy := h.tidy
  refine ⟨_, hroot, .map _ ?_⟩
  have hlookup (name : String) : records.lookup name = t.get? name := by
    obtain ⟨path, root⟩ := d
    simp only at hroot
    subst hroot
    by_cases hname : Short name
    · have hfind := h.find hname
      rw [find_records hname] at hfind
      exact Option.map_injective (fun _ _ hsame => DirEntry.file.inj hsame) (Except.ok.inj hfind)
    · rw [← h.stored]
      have hfind := Tidy.find_long h.tidy hname
      have hnone : records.lookup name = none := List.lookup_eq_none_iff.2 fun r hr => by
        have hother : name ≠ r.1 := fun hsame => hname (hsame ▸ hshort r hr)
        simpa using hother
      simp only [Backend.stored?, content?, hfind, hnone]
  have hnames : t.names.Nodup := t.sorted_names.imp fun hlt => String.ne_of_lt hlt
  refine (List.perm_ext_iff_of_nodup hnodup.of_map hnames.of_map).2 fun r => ?_
  rw [← lookup_eq_some_iff_mem hnodup, hlookup]
  exact lookup_eq_some_iff_mem hnames

end DataDir

namespace World

variable (w : World Unit)

/-- The world with a directory for its store. -/
def onDirectory (path : String) (es : List (Bytes × DirEntry)) : World Unit :=
  { w with backend := .files ⟨path, .folder es⟩ }

/-- Calls on a directory that was empty. -/
structure DirectoryMap (path : String) (calls : List (Context × StoreCall)) : Prop where
  /-- The calls are answered as by a map, but listings come in any order. -/
  answers : List.Forall₂ (Agrees false)
    ((World.host Unit).serve calls (w.onDirectory path [])).1
    (Table.empty.serve (BackendKind.files.terms w.ended) calls).1
  /-- Names whose file names are not too long are as on a plain map. -/
  fits : ∀ c (k : StoreCall), (∀ name ∈ k.name?, (FileName.encode name).length ≤ 255) →
    (BackendKind.files.terms w.ended).refuses c k = k.refusal (w.ended c)
  /-- All others are refused, and nothing changes. -/
  refused : ∀ c (k : StoreCall) name, k.name? = some name → w.ended c = false →
    255 < (FileName.encode name).length →
    (World.host Unit).call c k ((World.host Unit).serve calls (w.onDirectory path [])).2 =
      (.error (.invalid (.longFileName name)),
        ((World.host Unit).serve calls (w.onDirectory path [])).2)
  /-- The directory holds one file for each entry of the map and no other file. -/
  files : ∃ es, ((World.host Unit).serve calls (w.onDirectory path [])).2 =
      w.onDirectory path es ∧
    es.Perm ((Table.empty.serve (BackendKind.files.terms w.ended) calls).2.entries.map
      fun e => (FileName.encode e.1, DirEntry.file e.2)) ∧
    ∀ n, DataDir.tempName n ∉ es.map Prod.fst
  /-- Names are told apart by their files, from which they are read back. -/
  named : Function.Injective FileName.encode ∧
    ∀ name, FileName.decode? (FileName.encode name) = some name

/-- An empty directory holds what the empty map holds. -/
theorem holds_empty (path : String) : (w.onDirectory path []).backend.Holds .empty := by
  refine ⟨⟨[], rfl, .nil, nofun⟩, fun name => ?_⟩
  simp only [onDirectory, Backend.stored?, DataDir.content?, DataDir.find_folder]
  split
  · rename_i hfound
    split at hfound <;> cases hfound
  · rfl

/-- **Directories are maps.**  A directory that was empty answers all calls as a map, and the
map is what stands in the directory. -/
theorem directoryMap (path : String) (calls : List (Context × StoreCall)) :
    w.DirectoryMap path calls := by
  have hterms : (w.onDirectory path []).terms = BackendKind.files.terms w.ended := rfl
  obtain ⟨hanswers, b, hb, hkind, hpath, hholds⟩ := serve_of_holds (w.holds_empty path) calls
  rw [hterms] at hanswers hholds
  cases b with
  | memory t | database t => cases hkind
  | files d =>
      obtain ⟨es, hroot, hperm⟩ := DataDir.exists_entries_perm hholds
      obtain ⟨path', root⟩ := d
      obtain rfl : path' = path := Option.some.inj hpath
      simp only at hroot
      subst hroot
      refine ⟨hanswers, fun c k hshort => ?_, fun c k name hk hlive hlong => ?_,
        ⟨es, hb, hperm, fun n hmem => ?_⟩, FileName.encode_injective, FileName.decode?_encode⟩
      · have hfits : k.longName? = none := by
          unfold StoreCall.longName?
          cases hk : k.name? with
          | none => rfl
          | some name => exact if_pos (hshort name hk)
        simp only [BackendKind.terms, BackendKind.refuses, hfits, Option.or_none]
      · have hrefused :
            BackendKind.files.refuses false k = some (.invalid (.longFileName name)) := by
          have hname : name ≠ "" := by
            rintro rfl
            exact absurd hlong (by decide)
          rw [Backend.refuses_files hk hname]
          exact if_neg (Nat.not_le.2 hlong)
        have hcall := Backend.call_refused hholds.tidy hrefused
        have hlives : ({ w.onDirectory path' [] with
            backend := .files ⟨path', .folder es⟩ } : World Unit).ended c = false := hlive
        rw [hb, call_eq, hlives, hcall]
      · obtain ⟨e, he, hfile⟩ := List.mem_map.1 hmem
        obtain ⟨r, -, rfl⟩ := List.mem_map.1 (hperm.mem_iff.1 he)
        exact DataDir.encode_ne_of_hidden (DataDir.decode?_tempName n) hfile

end World

end KeyCustody
