import KeyCustody.Proofs.Reading
import KeyCustody.Proofs.Writers

/-!
# Races for a name

Any number of calls create names in one directory, and between any two steps of one others may
come.  Everything that the calls return, that readers find and that listings show follows from
whose link was made.

`Scene.Race` is the invariant over all writers, relative to the scene in which the race began:
a link was made to a name that was free, at most one to each name, and all other names are as
they were.  Temporary files stay out of it, as no name is stored under a hidden file.  Main
statements:

* `Scene.Race.step`: every step keeps the invariant;
* `Scene.creates_atomically`: what all that means to callers.
-/

namespace KeyCustody.DataDir

/-! ### All writers -/

namespace Scene

variable {s₀ s : Scene} {done : List Nat} {i : Nat}

/-- A scene in which a race begins.  No call has gone a step (each may wait for its first one as
long as it likes), and every one has a temporary file of its own, of a name that no entry
has. -/
structure Ready (s : Scene) : Prop where
  root : ∃ es, s.dir.root = .folder es
  called : ∀ w ∈ s.writers, w.progress = .called
  hidden : ∀ w ∈ s.writers, ∃ id, w.creation.temp = Bytes.ofText (".tmp-" ++ id)
  short : ∀ w ∈ s.writers, w.creation.temp.length ≤ maxFileName
  unused : ∀ w ∈ s.writers, ¬ s.dir.Holds w.creation.temp
  distinct : (s.writers.map fun w => w.creation.temp).Nodup

section

variable {j : Nat} {k k' : Creation}

theorem creation?_eq_some_iff :
    s.creation? i = some k ↔ ∃ w, s.writers[i]? = some w ∧ w.creation = k :=
  Option.map_eq_some_iff

/-- Temporary files are hidden from readers and listings. -/
theorem Ready.decode?_temp (h : s.Ready) (hi : s.creation? i = some k) :
    FileName.decode? k.temp = none := by
  obtain ⟨w, hw, rfl⟩ := creation?_eq_some_iff.1 hi
  obtain ⟨id, hid⟩ := h.hidden w (List.mem_of_getElem? hw)
  rw [hid, DataDir.decode?_temp]

/-- No two calls share a temporary file. -/
theorem Ready.temp_ne (h : s.Ready) (hi : s.creation? i = some k) (hj : s.creation? j = some k')
    (hij : i ≠ j) : k.temp ≠ k'.temp := by
  obtain ⟨w, hw, rfl⟩ := creation?_eq_some_iff.1 hi
  obtain ⟨w', hw', rfl⟩ := creation?_eq_some_iff.1 hj
  intro hsame
  have hlength : i < (s.writers.map fun w => w.creation.temp).length := by
    simpa using (List.getElem?_eq_some_iff.1 hw).1
  refine hij ((List.getElem?_inj hlength h.distinct).1 ?_)
  rw [List.getElem?_map, List.getElem?_map, hw, hw', Option.map_some, Option.map_some, hsame]

end

/-- What holds at every moment of a race, by whose links were made so far. -/
structure Race (s₀ : Scene) (done : List Nat) (s : Scene) : Prop where
  creations : ∀ i, s.creation? i = s₀.creation? i
  /-- Every writer did what its progress tells. -/
  sound : ∀ (i : Nat) (w : Writer), s.writers[i]? = some w → w.Sound s.dir (i ∈ done)
  /-- A link was made to a name that was free when the race began, and the name holds the
  complete value since. -/
  made : ∀ i ∈ done, ∃ k, s₀.creation? i = some k ∧
    s₀.dir.find (FileName.encode k.name) = .ok none ∧
    s.dir.find (FileName.encode k.name) = .ok (some (.file k.value))
  /-- All other names are as they were. -/
  others : ∀ name, (∀ i ∈ done, ∀ k, s₀.creation? i = some k → k.name ≠ name) →
    s.dir.find (FileName.encode name) = s₀.dir.find (FileName.encode name)
  /-- No two links were made to one name. -/
  once : ∀ i ∈ done, ∀ j ∈ done, ∀ k k', s₀.creation? i = some k → s₀.creation? j = some k' →
    k.name = k'.name → i = j
  /-- Every entry was there, or it is a temporary file, or it was linked. -/
  held : ∀ f, s.dir.Holds f → s₀.dir.Holds f ∨ (∃ i k, s₀.creation? i = some k ∧ f = k.temp) ∨
    ∃ i k, i ∈ done ∧ s₀.creation? i = some k ∧ f = FileName.encode k.name

/-- At the start nothing has been done. -/
theorem Ready.race (h : s.Ready) : Race s [] s := by
  refine ⟨fun _ => rfl, fun i w hi => ?_, nofun, fun _ _ => rfl, nofun, fun f hf => .inl hf⟩
  have hw := List.mem_of_getElem? hi
  have hcalled := h.called w hw
  have hfree : s.dir.find w.creation.temp = .ok none := by
    obtain ⟨⟨path, root⟩, writers⟩ := s
    obtain ⟨es, hes⟩ := h.root
    obtain rfl : root = .folder es := hes
    rw [find_folder, if_neg (Nat.not_lt.2 (h.short w hw))]
    refine congrArg _ (List.lookup_eq_none_iff.2 fun e he => ?_)
    have hunused : w.creation.temp ≠ e.1 :=
      fun hsame => h.unused w hw (holds_folder.2 (hsame ▸ List.mem_map_of_mem he))
    simpa using hunused
  refine ⟨?_, fun _ => List.not_mem_nil, fun r hr => ?_⟩
  · rw [hfree, Writer.temporary, hcalled]
  · rw [Writer.outcome?, hcalled] at hr
    cases hr

/-- A writer still has the creation with which it came into the race. -/
theorem Race.creation?_of_writer (h : Race s₀ done s) {i : Nat} {w : Writer}
    (hw : s.writers[i]? = some w) : s₀.creation? i = some w.creation := by
  rw [← h.creations, creation?, hw, Option.map_some]

/-- What a link did to its name. -/
theorem Race.find_of_mem (h : Race s₀ done s) {i : Nat} {k : Creation} (hi : i ∈ done)
    (hk : s₀.creation? i = some k) :
    s₀.dir.find (FileName.encode k.name) = .ok none ∧
      s.dir.find (FileName.encode k.name) = .ok (some (.file k.value)) := by
  obtain ⟨k', hk', hfound⟩ := h.made i hi
  obtain rfl := Option.some.inj (hk'.symm.trans hk)
  exact hfound

/-- A link is made to a name to which none was made before. -/
theorem Race.name_ne_of_linked (h : Race s₀ done s) {name : String}
    (hfree : s.dir.find (FileName.encode name) = .ok none) {j : Nat} (hj : j ∈ done)
    {k : Creation} (hk : s₀.creation? j = some k) : k.name ≠ name := by
  intro hsame
  have hfound := (h.find_of_mem hj hk).2
  rw [hsame, hfree] at hfound
  cases hfound

/-- **Every step keeps the invariant.** -/
theorem Race.step (hready : s₀.Ready) (h : Race s₀ done s) (i : Nat) (ended : Bool) :
    Race s₀ (done ++ if s.links i then [i] else []) (s.step i ended) := by
  cases hw : s.writers[i]? with
  | none => simpa [Scene.step, Scene.links, hw] using h
  | some w =>
      have hcreation := h.creation?_of_writer hw
      have hhidden := hready.decode?_temp hcreation
      have hmoved := (h.sound i w hw).step hhidden ended
      have hlength : i < s.writers.length := (List.getElem?_eq_some_iff.1 hw).1
      have hlinks : s.links i = w.links s.dir := by simp only [Scene.links, hw]
      simp only [Scene.step, hw, hlinks]
      have hdone (j : Nat) : (j ∈ done ++ if w.links s.dir = true then [i] else []) ↔
          j ∈ done ∨ j = i ∧ w.links s.dir = true := by
        cases w.links s.dir <;> simp
      refine ⟨fun j => ?_, fun j v hv => ?_, fun j hj => ?_, fun name hnew => ?_,
        fun j hj j' hj' k k' hk hk' hsame => ?_, fun f hf => ?_⟩
      · rw [← h.creations, creation?, creation?]
        by_cases hij : i = j
        · subst hij
          rw [List.getElem?_set_self hlength, hw, Option.map_some, Option.map_some,
            hmoved.creation]
        · rw [List.getElem?_set_ne hij]
      · by_cases hij : i = j
        · subst hij
          rw [List.getElem?_set_self hlength] at hv
          obtain rfl := Option.some.inj hv
          simpa only [hdone, true_and] using hmoved.sound
        · -- another writer: its temporary file is not touched
          rw [List.getElem?_set_ne hij] at hv
          have hv₀ := h.creation?_of_writer hv
          have htemp := hmoved.frame v.creation.temp (hready.temp_ne hv₀ hcreation (Ne.symm hij))
            fun _ => (encode_ne_of_hidden (hready.decode?_temp hv₀)).symm
          simpa only [hdone, Ne.symm hij, false_and, or_false] using
            (h.sound j v hv).frame htemp fun _ => hmoved.find_taken hhidden
      · rcases (hdone j).1 hj with hold | ⟨rfl, hlink⟩
        · obtain ⟨k, hk, hfree, hfound⟩ := h.made j hold
          exact ⟨k, hk, hfree, hmoved.find_taken hhidden hfound⟩
        · obtain ⟨hfree, hfound⟩ := hmoved.link hlink
          refine ⟨_, hcreation, ?_, hfound⟩
          rw [← h.others _ fun j hj k => h.name_ne_of_linked hfree hj, hfree]
      · rw [hmoved.find_name hhidden fun hlink hsame => ?_,
          h.others name fun j hj => hnew j ((hdone j).2 (.inl hj))]
        exact hnew i ((hdone i).2 (.inr ⟨rfl, hlink⟩)) _ hcreation hsame.symm
      · rcases (hdone j).1 hj with hold | ⟨rfl, hlink⟩ <;>
          rcases (hdone j').1 hj' with hold' | ⟨rfl, hlink'⟩
        · exact h.once j hold j' hold' k k' hk hk' hsame
        · obtain rfl := Option.some.inj (hcreation.symm.trans hk')
          exact absurd hsame (h.name_ne_of_linked (hmoved.link hlink').1 hold hk)
        · obtain rfl := Option.some.inj (hcreation.symm.trans hk)
          exact absurd hsame.symm (h.name_ne_of_linked (hmoved.link hlink).1 hold' hk')
        · rfl
      · rcases hmoved.held f hf with hold | rfl | ⟨hlink, rfl⟩
        · rcases h.held f hold with hstart | htemp | ⟨j, k, hj, hk, hf⟩
          · exact .inl hstart
          · exact .inr (.inl htemp)
          · exact .inr (.inr ⟨j, k, (hdone j).2 (.inl hj), hk, hf⟩)
        · exact .inr (.inl ⟨i, _, hcreation, rfl⟩)
        · exact .inr (.inr ⟨i, _, (hdone i).2 (.inr ⟨rfl, hlink⟩), hcreation, rfl⟩)

/-- All steps of a race keep the invariant. -/
theorem Race.after (hready : s₀.Ready) (h : Race s₀ done s) (moves : List (Nat × Bool)) :
    Race s₀ (done ++ s.linked moves) (s.after moves) := by
  induction moves generalizing done s with
  | nil => simpa [Scene.linked, Scene.after] using h
  | cons move moves ih =>
      rw [Scene.linked, ← List.append_assoc]
      exact ih (h.step hready move.1 move.2)

/-! ### What callers see -/

/-- The name is not found when the race begins. -/
def New (s : Scene) (name : String) : Prop :=
  s.dir.get (.steady false) name = .error (.notFound name)

/-- A listing may come upon the file names: each of them was there at some moment. -/
def CameUpon (s : Scene) (moves : List (Nat × Bool)) (files : List Bytes) : Prop :=
  ∀ f ∈ files, ∃ earlier, earlier <+: moves ∧ (s.after earlier).dir.Holds f

/-- **Creation is atomic.**  This is what callers see at a moment of a race, after any moves of
the writers. -/
structure Atomic (s : Scene) (moves : List (Nat × Bool)) : Prop where
  /-- What was found when the race began is found as it was. -/
  kept : ∀ name value, s.dir.get (.steady false) name = .ok value →
    (s.after moves).dir.get (.steady false) name = .ok value
  /-- A new name is not found, or found with the complete value of a creation whose link was
  made. -/
  reads : ∀ name, s.New name →
    (s.after moves).dir.get (.steady false) name = .error (.notFound name) ∨
    ∃ i k, i ∈ s.linked moves ∧ s.creation? i = some k ∧ k.name = name ∧
      (s.after moves).dir.get (.steady false) name = .ok k.value
  /-- A creation of a new name succeeds, finds the name taken, or was canceled. -/
  results : ∀ i k r, s.creation? i = some k → s.New k.name → (s.after moves).result? i = some r →
    r = .ok () ∨ r = .error (.alreadyExists k.name) ∨ r = .error .canceled
  /-- Of the creations of one name at most one succeeds. -/
  once : ∀ i j k k', s.creation? i = some k → s.creation? j = some k' → k.name = k'.name →
    (s.after moves).result? i = some (.ok ()) → (s.after moves).result? j = some (.ok ()) → i = j
  /-- The value of a creation that succeeded is found. -/
  stored : ∀ i k, s.creation? i = some k → s.New k.name →
    (s.after moves).result? i = some (.ok ()) →
    (s.after moves).dir.get (.steady false) k.name = .ok k.value
  /-- Once all creations of a new name have returned, and none of them that it was canceled,
  exactly one has succeeded, and its value is found. -/
  winner : ∀ name, s.New name → (∃ i k, s.creation? i = some k ∧ k.name = name) →
    (∀ i k, s.creation? i = some k → k.name = name →
      ∃ r, (s.after moves).result? i = some r ∧ r ≠ .error .canceled) →
    ∃! i, ∃ k, s.creation? i = some k ∧ k.name = name ∧
      (s.after moves).result? i = some (.ok ()) ∧
      (s.after moves).dir.get (.steady false) name = .ok k.value
  /-- A creation that returned has succeeded if and only if its link was made. -/
  links : ∀ i r, (s.after moves).result? i = some r → (r = .ok () ↔ i ∈ s.linked moves)
  /-- A listing, read at whatever moments, yields names of files that were there when the race
  began and names that were linked, and never a temporary file. -/
  listings : ∀ files pattern name, s.CameUpon moves files →
    (Cursor.ofSource (.files pattern (some files))).MayYield name →
    ∃ f ∈ files, FileName.decode? f = some name ∧ (∀ i k, s.creation? i = some k → f ≠ k.temp) ∧
      (s.dir.Holds f ∨
        ∃ i k, i ∈ s.linked moves ∧ s.creation? i = some k ∧ f = FileName.encode k.name)

/-- A listing that starts at some moment of the race comes upon the file names of that moment. -/
theorem cameUpon_of_list {moves : List (Nat × Bool)} {sig : Signal} {pattern : String}
    {cursor : Cursor}
    (hlisted : (Backend.files (s.after moves).dir).list sig pattern = .ok cursor) :
    ∃ files, cursor = .ofSource (.files pattern (some files)) ∧ s.CameUpon moves files := by
  simp only [Backend.list, scan, bind, Except.bind] at hlisted
  rcases sig.whole_cases with hs | hs
  · rw [hs] at hlisted
    cases hfiles : (s.after moves).dir.fileNames with
    | error e =>
        rw [hfiles] at hlisted
        cases hlisted
    | ok files =>
        rw [hfiles] at hlisted
        obtain rfl := Except.ok.inj hlisted
        exact ⟨files, rfl, fun f hf => ⟨moves, List.prefix_rfl, files, hfiles, hf⟩⟩
  · rw [hs] at hlisted
    cases hlisted

/-- The directory matters to a look-up only by what is under the file name. -/
theorem get_congr {d d' : DataDir} {name : String}
    (h : d'.find (FileName.encode name) = d.find (FileName.encode name)) (sig : Signal) :
    d'.get sig name = d.get sig name := by
  simp only [get, read, h]

theorem get_live (d : DataDir) {name : String} (hname : name ≠ "") :
    d.get (.steady false) name =
      (d.read (FileName.encode name)).mapError (·.toError name) := by
  simp only [get, requireKey_of_ne hname]
  rfl

/-- The value of a file is found. -/
theorem get_of_file {d : DataDir} {name : String} {value : Bytes} (hname : name ≠ "")
    (hfile : d.find (FileName.encode name) = .ok (some (.file value))) :
    d.get (.steady false) name = .ok value := by
  simp only [get_live d hname, read, hfile]
  rfl

/-- A new name can be stored, and no entry has it. -/
theorem Ready.free_of_new (h : s.Ready) {name : String} (hnew : s.New name) :
    Writer.Storable name ∧ s.dir.find (FileName.encode name) = .ok none := by
  have hname : name ≠ "" := by
    rintro rfl
    cases hnew
  obtain ⟨⟨path, root⟩, writers⟩ := s
  obtain ⟨es, hes⟩ := h.root
  obtain rfl : root = .folder es := hes
  unfold New at hnew
  rw [get_live _ hname] at hnew
  simp only [read, find_folder] at hnew ⊢
  by_cases hlong : (FileName.encode name).length > maxFileName
  · rw [if_pos hlong] at hnew
    cases hnew
  · rw [if_neg hlong] at hnew ⊢
    refine ⟨⟨hname, Nat.not_lt.1 hlong⟩, ?_⟩
    rcases hfound : es.lookup (FileName.encode name) with _ | _ | _
    · rfl
    all_goals
      rw [hfound] at hnew
      cases hnew

/-- Links that were made stay made. -/
theorem linked_append (s : Scene) (moves more : List (Nat × Bool)) :
    s.linked (moves ++ more) = s.linked moves ++ (s.after moves).linked more := by
  induction moves generalizing s with
  | nil => rfl
  | cons move moves ih => rw [List.cons_append, linked, ih, linked, after, List.append_assoc]

namespace Race

variable {k : Creation} {r : Except Error Unit} {name : String}

/-- What a call has returned, by whether its link was made. -/
theorem ends (h : Race s₀ done s) (hk : s₀.creation? i = some k) (hr : s.result? i = some r) :
    Writer.Ends s.dir k (i ∈ done) r := by
  obtain ⟨w, hw, hresult⟩ := Option.bind_eq_some_iff.1 hr
  obtain rfl := Option.some.inj ((h.creation?_of_writer hw).symm.trans hk)
  exact (h.sound i w hw).ends r (Writer.outcome?_of_result? hresult)

theorem exists_creation (h : Race s₀ done s) (hr : s.result? i = some r) :
    ∃ k, s₀.creation? i = some k := by
  obtain ⟨w, hw, -⟩ := Option.bind_eq_some_iff.1 hr
  exact ⟨w.creation, h.creation?_of_writer hw⟩

/-- A creation succeeds if and only if its link was made. -/
theorem ok_iff_mem (h : Race s₀ done s) (hr : s.result? i = some r) :
    r = .ok () ↔ i ∈ done := by
  obtain ⟨k, hk⟩ := h.exists_creation hr
  cases h.ends hk hr with
  | stored linked => exact iff_of_true rfl linked
  | taken unlinked found => exact iff_of_false nofun unlinked
  | canceled unlinked => exact iff_of_false nofun unlinked
  | refused e unlinked bad => exact iff_of_false nofun unlinked

/-- The value of a link that was made is found. -/
theorem get_of_mem (h : Race s₀ done s) (hi : i ∈ done) (hk : s₀.creation? i = some k)
    (hname : k.name ≠ "") : s.dir.get (.steady false) k.name = .ok k.value :=
  get_of_file hname (h.find_of_mem hi hk).2

/-- A new name is as it was, or it was linked. -/
theorem find_cases (h : Race s₀ done s) (name : String) :
    s.dir.find (FileName.encode name) = s₀.dir.find (FileName.encode name) ∨
      ∃ i k, i ∈ done ∧ s₀.creation? i = some k ∧ k.name = name := by
  by_cases hlinked : ∃ i k, i ∈ done ∧ s₀.creation? i = some k ∧ k.name = name
  · exact .inr hlinked
  · exact .inl (h.others name fun i hi k hk hname => hlinked ⟨i, k, hi, hk, hname⟩)

/-- Once a creation of a new name has returned, but not that it was canceled, some creation of
the name was linked. -/
theorem exists_linked (h : Race s₀ done s) (hready : s₀.Ready) (hk : s₀.creation? i = some k)
    (hnew : s₀.New k.name) (hr : s.result? i = some r) (hcanceled : r ≠ .error .canceled) :
    ∃ j k', j ∈ done ∧ s₀.creation? j = some k' ∧ k'.name = k.name := by
  obtain ⟨hstorable, hfree⟩ := hready.free_of_new hnew
  cases h.ends hk hr with
  | stored linked => exact ⟨i, k, linked, hk, rfl⟩
  | taken unlinked found =>
      rcases h.find_cases k.name with hsame | hlinked
      · rw [hsame, hfree] at found
        cases found
      · exact hlinked
  | canceled unlinked => exact absurd rfl hcanceled
  | refused e unlinked bad => exact absurd hstorable bad

end Race

/-- **Creation is atomic.**  Any number of calls create names in one directory, step by step and
in any order, each under a context that may end at any moment. -/
theorem creates_atomically (hready : s.Ready) (moves : List (Nat × Bool)) : s.Atomic moves := by
  have hrace (moves : List (Nat × Bool)) : Race s (s.linked moves) (s.after moves) := by
    simpa using hready.race.after hready moves
  have h := hrace moves
  constructor
  case kept =>
    intro name value hfound
    rcases h.find_cases name with hsame | ⟨i, k, hi, hk, rfl⟩
    · rw [get_congr hsame, hfound]
    · -- no link was made to a name that was there
      have hfile := find_of_content? (Backend.stored?_of_get (b := .files s.dir) hfound)
      rw [(h.find_of_mem hi hk).1] at hfile
      cases hfile
  case reads =>
    intro name hnew
    rcases h.find_cases name with hsame | ⟨i, k, hi, hk, rfl⟩
    · exact .inl ((get_congr hsame _).trans hnew)
    · exact .inr ⟨i, k, hi, hk, rfl, h.get_of_mem hi hk (hready.free_of_new hnew).1.named⟩
  case results =>
    intro i k r hk hnew hr
    cases h.ends hk hr with
    | stored linked => exact .inl rfl
    | taken unlinked found => exact .inr (.inl rfl)
    | canceled unlinked => exact .inr (.inr rfl)
    | refused e unlinked bad => exact absurd (hready.free_of_new hnew).1 bad
  case once =>
    intro i j k k' hk hk' hsame hi hj
    exact h.once i ((h.ok_iff_mem hi).1 rfl) j ((h.ok_iff_mem hj).1 rfl) k k' hk hk' hsame
  case stored =>
    intro i k hk hnew hi
    exact h.get_of_mem ((h.ok_iff_mem hi).1 rfl) hk (hready.free_of_new hnew).1.named
  case winner =>
    rintro name hnew ⟨i, k, hk, rfl⟩ hreturned
    obtain ⟨r, hr, hcanceled⟩ := hreturned i k hk rfl
    obtain ⟨j, k', hj, hk', hname⟩ := h.exists_linked hready hk hnew hr hcanceled
    obtain ⟨r', hr', -⟩ := hreturned j k' hk' hname
    obtain rfl := (h.ok_iff_mem hr').2 hj
    have hfound := h.get_of_mem hj hk' (hname ▸ (hready.free_of_new hnew).1.named)
    refine ⟨j, ⟨k', hk', hname, hr', hname ▸ hfound⟩, ?_⟩
    rintro i' ⟨l, hl, hlname, hi', -⟩
    exact h.once i' ((h.ok_iff_mem hi').1 rfl) j hj l k' hl hk' (hlname.trans hname.symm)
  case links => exact fun i r hr => h.ok_iff_mem hr
  case listings =>
    intro files pattern name hfiles hyields
    have hwithin : (Cursor.ofSource (.files pattern (some files))).Within fun name =>
        ∃ f ∈ files, FileName.decode? f = some name ∧
          (∀ i k, s.creation? i = some k → f ≠ k.temp) ∧
          (s.dir.Holds f ∨
            ∃ i k, i ∈ s.linked moves ∧ s.creation? i = some k ∧ f = FileName.encode k.name) := by
      intro f hf n hdecoded _
      have hvisible : ∀ i k, s.creation? i = some k → f ≠ k.temp := by
        rintro i k hk rfl
        rw [hready.decode?_temp hk] at hdecoded
        cases hdecoded
      refine ⟨f, hf, hdecoded, hvisible, ?_⟩
      obtain ⟨earlier, ⟨later, rfl⟩, hheld⟩ := hfiles f hf
      rcases (hrace earlier).held f hheld with hstart | ⟨i, k, hk, hsame⟩ | ⟨i, k, hi, hk, hsame⟩
      · exact .inl hstart
      · exact absurd hsame (hvisible i k hk)
      · refine .inr ⟨i, k, ?_, hk, hsame⟩
        rw [linked_append]
        exact List.mem_append_left _ hi
    exact hwithin.of_mayYield hyields

/-- Three calls race for a name.  The first is still writing its temporary file when the second
makes its link, and the third is canceled. -/
theorem second_of_three_creates :
    let call (value : Bytes) (id : String) : Writer :=
      ⟨⟨"k", value, Bytes.ofText (".tmp-" ++ id)⟩, .called⟩
    let s : Scene := ⟨⟨"/data", .folder []⟩, [call [1, 2] "a", call [3] "b", call [4] "c"]⟩
    let moves := [0, 1, 0, 1, 0, 1, 1, 1, 1, 1, 0, 0, 0, 0, 0, 2, 2, 2, 2].map (·, false) ++
      [(2, true), (2, true)]
    s.Ready ∧ (List.range 3).map (s.after moves).result? = [some (.error (.alreadyExists "k")),
      some (.ok ()), some (.error .canceled)] ∧ s.Atomic moves := by
  intro call s moves
  have hready : s.Ready := by
    constructor
    case root => exact ⟨[], rfl⟩
    case called => simp [s, call]
    case hidden =>
      intro w hw
      simp only [s, call, List.mem_cons, List.not_mem_nil, or_false] at hw
      rcases hw with rfl | rfl | rfl
      · exact ⟨"a", rfl⟩
      · exact ⟨"b", rfl⟩
      · exact ⟨"c", rfl⟩
    case short => decide +kernel
    case unused =>
      intro w _ hheld
      cases holds_folder.1 hheld
    case distinct => decide +kernel
  refine ⟨hready, ?_, creates_atomically hready moves⟩
  decide +kernel

end Scene

end KeyCustody.DataDir
