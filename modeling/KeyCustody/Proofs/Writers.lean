import KeyCustody.Proofs.Stored
import KeyCustody.Store.Writers
import Mathlib.Logic.Relation

/-!
# The steps of a writer

A name is created in one step, although the call takes many: by the link to a temporary file
that holds the complete value.  `Writer.Sound` says what a writer has done so far, and
`Writer.Moved` what one step of it changes: its own temporary file, or the name at its link.
Main statements:

* `Writer.Sound.step`: what a step changes, and that the writer goes on as it should;
* `Writer.follows_create`: a writer that nothing comes between is a creation.
-/

namespace KeyCustody.DataDir

/-! ### Files of a directory -/

section Files

variable {d : DataDir} {file f content : Bytes} {e : DirEntry}

/-- The directory has an entry of the name. -/
def Holds (d : DataDir) (file : Bytes) : Prop :=
  ∃ files, d.fileNames = .ok files ∧ file ∈ files

theorem holds_folder {path : String} {es : List (Bytes × DirEntry)} :
    (⟨path, .folder es⟩ : DataDir).Holds file ↔ file ∈ es.map Prod.fst :=
  ⟨fun ⟨_, hfiles, hmem⟩ => Except.ok.inj hfiles ▸ hmem, fun hmem => ⟨_, rfl, hmem⟩⟩

theorem holds_of_add (h : (d.add file e).Holds f) : d.Holds f ∨ f = file := by
  obtain ⟨path, root⟩ := d
  cases root with
  | folder es =>
      have hmem := holds_folder.1 h
      rw [List.map_append, List.mem_append] at hmem
      exact hmem.imp holds_folder.2 List.mem_singleton.1
  | missing => exact .inl h
  | file => exact .inl h

theorem holds_of_drop (h : (d.drop file).Holds f) : d.Holds f := by
  obtain ⟨path, root⟩ := d
  cases root with
  | folder es =>
      obtain ⟨entry, hmem, rfl⟩ := List.mem_map.1 (holds_folder.1 h)
      exact holds_folder.2 (List.mem_map_of_mem (List.mem_filter.1 hmem).1)
  | missing => exact h
  | file => exact h

/-- Where one file can be looked for, only the length of a name stands in the way of another. -/
theorem find_ne_error {found : Option DirEntry} (hfound : d.find file = .ok found)
    (hshort : f.length ≤ maxFileName) (e : FileError) : d.find f ≠ .error e := by
  obtain ⟨path, es, rfl⟩ := exists_folder_of_find hfound
  rw [find_folder, if_neg (Nat.not_lt.2 hshort)]
  exact nofun

/-- A file can be written over. -/
theorem plant_of_file {old : Bytes} (hfile : d.find file = .ok (some (.file old))) :
    d.plant file content = (d.drop file).add file (.file content) := by
  simp only [plant, hfile]

/-- Only the last content of a file counts. -/
theorem plant_add {old : Bytes} (hfree : d.find file = .ok none) :
    (d.add file (.file old)).plant file content = d.add file (.file content) := by
  have hfile : (d.add file (.file old)).find file = .ok (some (.file old)) := by
    rw [find_add hfree, if_pos rfl]
  rw [plant_of_file hfile, drop_add hfree]

theorem find_plant {old : Bytes} (hfile : d.find file = .ok (some (.file old))) (f : Bytes) :
    (d.plant file content).find f =
      if f = file then .ok (some (.file content)) else d.find f := by
  have hdropped : (d.drop file).find file = .ok none := by rw [find_drop hfile, if_pos rfl]
  rw [plant_of_file hfile, find_add hdropped]
  by_cases hf : f = file
  · rw [if_pos hf, if_pos hf]
  · rw [if_neg hf, if_neg hf, find_drop hfile, if_neg hf]

end Files

/-! ### One writer -/

namespace Writer

variable {w : Writer} {d d' : DataDir} {made : Prop}

/-- What the temporary file of the writer holds, if it is there. -/
def temporary (w : Writer) : Option DirEntry :=
  match w.progress with
  | .called | .reached .started | .reached (.finished _) => none
  | .writing n => some (.file (w.creation.value.take n))
  | .reached .written | .reached .checked | .reached (.settled _) =>
    some (.file w.creation.value)

/-- What the call will return, once that is certain. -/
def outcome? (w : Writer) : Option (Except Error Unit) :=
  match w.progress with
  | .reached (.settled r) | .reached (.finished r) => some r
  | _ => none

theorem outcome?_of_result? {r : Except Error Unit} (h : w.result? = some r) :
    w.outcome? = some r := by
  unfold result? at h
  unfold outcome?
  split at h
  · rename_i hp
    rw [hp]
    exact h
  · cases h

/-- A name that a file can have. -/
structure Storable (name : String) : Prop where
  named : name ≠ ""
  short : (FileName.encode name).length ≤ maxFileName

/-- How a creation ends, by whether its link was made. -/
inductive Ends (d : DataDir) (k : Creation) (made : Prop) : Except Error Unit → Prop
  | stored (linked : made) : Ends d k made (.ok ())
  /-- The name is taken. -/
  | taken {entry : DirEntry} (unlinked : ¬ made)
      (found : d.find (FileName.encode k.name) = .ok (some entry)) :
      Ends d k made (.error (.alreadyExists k.name))
  | canceled (unlinked : ¬ made) : Ends d k made (.error .canceled)
  | refused (e : Error) (unlinked : ¬ made) (bad : ¬ Storable k.name) : Ends d k made (.error e)

/-- A name that is taken stays taken. -/
theorem Ends.mono {k : Creation} {r : Except Error Unit} (h : Ends d k made r)
    (hkept : ∀ entry, d.find (FileName.encode k.name) = .ok (some entry) →
      d'.find (FileName.encode k.name) = .ok (some entry)) : Ends d' k made r := by
  cases h with
  | stored linked => exact .stored linked
  | taken unlinked found => exact .taken unlinked (hkept _ found)
  | canceled unlinked => exact .canceled unlinked
  | refused e unlinked bad => exact .refused e unlinked bad

/-- The directory and the links made so far are as the progress of the writer tells. -/
structure Sound (d : DataDir) (made : Prop) (w : Writer) : Prop where
  temp : d.find w.creation.temp = .ok w.temporary
  pending : w.outcome? = none → ¬ made
  ends : ∀ r, w.outcome? = some r → Ends d w.creation made r

theorem Sound.of_pending (htemp : d.find w.creation.temp = .ok w.temporary)
    (hpending : w.outcome? = none) (hunmade : ¬ made) : w.Sound d made := by
  refine ⟨htemp, fun _ => hunmade, fun r hr => ?_⟩
  rw [hpending] at hr
  cases hr

theorem Sound.of_ends {r : Except Error Unit} (htemp : d.find w.creation.temp = .ok w.temporary)
    (hended : w.outcome? = some r) (hends : Ends d w.creation made r) : w.Sound d made := by
  refine ⟨htemp, fun hpending => ?_, fun r' hr => ?_⟩
  · rw [hended] at hpending
    cases hpending
  · rw [hended] at hr
    cases hr
    exact hends

/-- Steps of others do not change what a writer has done. -/
theorem Sound.frame (h : w.Sound d made)
    (htemp : d'.find w.creation.temp = d.find w.creation.temp)
    (hkept : ∀ entry, d.find (FileName.encode w.creation.name) = .ok (some entry) →
      d'.find (FileName.encode w.creation.name) = .ok (some entry)) : w.Sound d' made :=
  ⟨htemp.trans h.temp, h.pending, fun r hr => (h.ends r hr).mono hkept⟩

/-- What one step of a writer changes. -/
structure Moved (d d' : DataDir) (made : Prop) (w w' : Writer) : Prop where
  creation : w'.creation = w.creation
  /-- Only the temporary file is touched, and the name at the link. -/
  frame : ∀ f, f ≠ w.creation.temp → (w.links d = true → f ≠ FileName.encode w.creation.name) →
    d'.find f = d.find f
  /-- The link is made to a name that is free, and to the complete value. -/
  link : w.links d = true → d.find (FileName.encode w.creation.name) = .ok none ∧
    d'.find (FileName.encode w.creation.name) = .ok (some (.file w.creation.value))
  held : ∀ f, d'.Holds f → d.Holds f ∨ f = w.creation.temp ∨
    w.links d = true ∧ f = FileName.encode w.creation.name
  sound : w'.Sound d' (made ∨ w.links d = true)

section

variable {w' : Writer} {name : String}

/-- A step leaves a name as it is, unless it links it. -/
theorem Moved.find_name (h : Moved d d' made w w')
    (hhidden : FileName.decode? w.creation.temp = none)
    (hother : w.links d = true → name ≠ w.creation.name) :
    d'.find (FileName.encode name) = d.find (FileName.encode name) :=
  h.frame _ (encode_ne_of_hidden hhidden)
    fun hlink => FileName.encode_injective.ne (hother hlink)

/-- A name that is taken stays as it is. -/
theorem Moved.find_taken (h : Moved d d' made w w')
    (hhidden : FileName.decode? w.creation.temp = none) {entry : DirEntry}
    (hfound : d.find (FileName.encode name) = .ok (some entry)) :
    d'.find (FileName.encode name) = .ok (some entry) := by
  refine (h.find_name hhidden fun hlink hsame => ?_).trans hfound
  rw [hsame, (h.link hlink).1] at hfound
  cases hfound

end

/-- A step that leaves the directory as it is. -/
theorem Moved.still {p : Progress} (hlinks : w.links d = false)
    (hsound : (⟨w.creation, p⟩ : Writer).Sound d made) :
    Moved d d made w ⟨w.creation, p⟩ := by
  refine ⟨rfl, fun _ _ _ => rfl, fun h => ?_, fun _ h => .inl h, ?_⟩
  · rw [hlinks] at h
    cases h
  · simpa only [hlinks, Bool.false_eq_true, or_false] using hsound

/-- A step that touches the temporary file only. -/
theorem Moved.inTemp {p : Progress} (hlinks : w.links d = false)
    (hframe : ∀ f, f ≠ w.creation.temp → d'.find f = d.find f)
    (hheld : ∀ f, d'.Holds f → d.Holds f ∨ f = w.creation.temp)
    (hsound : (⟨w.creation, p⟩ : Writer).Sound d' made) :
    Moved d d' made w ⟨w.creation, p⟩ := by
  refine ⟨rfl, fun f hf _ => hframe f hf, fun h => ?_, fun f h => ?_, ?_⟩
  · rw [hlinks] at h
    cases h
  · exact (hheld f h).imp_right .inl
  · simpa only [hlinks, Bool.false_eq_true, or_false] using hsound

/-- The step at which the link is made, or is not made. -/
theorem Sound.step_link {k : Creation} (hhidden : FileName.decode? k.temp = none)
    (h : (⟨k, .reached .checked⟩ : Writer).Sound d made) (ended : Bool) :
    Moved d ((⟨k, .reached .checked⟩ : Writer).step ended d).2 made ⟨k, .reached .checked⟩
      ((⟨k, .reached .checked⟩ : Writer).step ended d).1 := by
  have htemp := h.temp
  have hother : FileName.encode k.name ≠ k.temp := encode_ne_of_hidden hhidden
  have hunmade := h.pending rfl
  have hfile : d.find k.temp = .ok (some (.file k.value)) := htemp
  have hlink := link_of_file hfile (FileName.encode k.name)
  cases htarget : d.find (FileName.encode k.name) with
  | error e =>
      rw [htarget] at hlink
      have hlinks : links ⟨k, .reached .checked⟩ d = false := by
        simp only [links, hlink]
        rfl
      simp only [Writer.step, Creation.step, hlink]
      refine .still hlinks (.of_ends htemp rfl (.refused _ hunmade fun hstorable => ?_))
      exact find_ne_error hfile hstorable.short e htarget
  | ok found =>
      cases found with
      | some entry =>
          rw [htarget] at hlink
          have hlinks : links ⟨k, .reached .checked⟩ d = false := by
            simp only [links, hlink]
            rfl
          simp only [Writer.step, Creation.step, hlink]
          exact .still hlinks (.of_ends htemp rfl (.taken hunmade htarget))
      | none =>
          rw [htarget] at hlink
          have hlinks : links ⟨k, .reached .checked⟩ d = true := by
            simp only [links, hlink]
            rfl
          simp only [Writer.step, Creation.step, hlink]
          refine ⟨rfl, fun f _ hf => ?_, fun _ => ⟨htarget, ?_⟩, fun f hf => ?_,
            .of_ends ?_ rfl (.stored (.inr hlinks))⟩
          · rw [find_add htarget, if_neg (hf hlinks)]
          · rw [find_add htarget, if_pos rfl]
          · exact (holds_of_add hf).imp_right fun hf => .inr ⟨hlinks, hf⟩
          · rw [find_add htarget, if_neg hother.symm]
            exact htemp

/-- **One step of a writer.** -/
theorem Sound.step (hhidden : FileName.decode? w.creation.temp = none)
    (h : w.Sound d made) (ended : Bool) :
    Moved d (w.step ended d).2 made w (w.step ended d).1 := by
  obtain ⟨k, p⟩ := w
  obtain ⟨htemp, hpending, hends⟩ := h
  have hother : FileName.encode k.name ≠ k.temp := encode_ne_of_hidden hhidden
  cases p with
  | called =>
      have hunmade := hpending rfl
      by_cases hname : k.name = ""
      · have hkey : requireKey k.name = .error (.invalid .emptyKey) := by rw [hname]; rfl
        simp only [Writer.step, hkey]
        exact .still rfl (.of_ends htemp rfl
          (.refused _ hunmade fun hstorable => hstorable.named hname))
      · simp only [Writer.step, requireKey_of_ne hname]
        cases ended with
        | true => exact .still rfl (.of_ends htemp rfl (.canceled hunmade))
        | false => exact .still rfl (.of_pending htemp rfl hunmade)
  | writing n =>
      have hunmade := hpending rfl
      have hfile : d.find k.temp = .ok (some (.file (k.value.take n))) := htemp
      by_cases hn : n < k.value.length
      · simp only [Writer.step, if_pos hn]
        refine .inTemp rfl (fun f hf => ?_) (fun f hf => ?_) (.of_pending ?_ rfl hunmade)
        · rw [find_plant hfile, if_neg hf]
        · rw [plant_of_file hfile] at hf
          exact (holds_of_add hf).imp_left holds_of_drop
        · rw [find_plant hfile, if_pos rfl]
          rfl
      · simp only [Writer.step, if_neg hn]
        rw [List.take_of_length_le (by omega)] at hfile
        exact .still rfl (.of_pending hfile rfl hunmade)
  | reached p =>
      cases p with
      | started =>
          have hunmade := hpending rfl
          have hfree : d.find k.temp = .ok none := htemp
          simp only [Writer.step, write_of_free hfree]
          refine .inTemp rfl (fun f hf => ?_) (fun f hf => holds_of_add hf)
            (.of_pending ?_ rfl hunmade)
          · rw [find_add hfree, if_neg hf]
          · rw [find_add hfree, if_pos rfl]
            rfl
      | written =>
          have hunmade := hpending rfl
          cases ended with
          | true => exact .still rfl (.of_ends htemp rfl (.canceled hunmade))
          | false => exact .still rfl (.of_pending htemp rfl hunmade)
      | checked => exact Sound.step_link hhidden ⟨htemp, hpending, hends⟩ ended
      | settled r =>
          have hfile : d.find k.temp = .ok (some (.file k.value)) := htemp
          simp only [Writer.step, Creation.step, unlink_of_file hfile]
          refine .inTemp rfl (fun f hf => ?_) (fun f hf => .inl (holds_of_drop hf))
            (.of_ends ?_ rfl ((hends r rfl).mono fun entry hentry => ?_))
          · rw [find_drop hfile, if_neg hf]
          · rw [find_drop hfile, if_pos rfl]
            rfl
          · rw [find_drop hfile, if_neg hother, hentry]
      | finished r => exact .still rfl ⟨htemp, hpending, hends⟩

end Writer

/-! ### A writer alone -/

namespace Writer

/-- The next step of a writer, with nothing in between. -/
def Follows (ended : Bool) (x y : Writer × DataDir) : Prop :=
  y = x.1.step ended x.2

variable {k : Creation} {d : DataDir} {ended : Bool}

/-- The temporary file is written octet by octet. -/
theorem follows_writing (hfree : d.find k.temp = .ok none) {n : Nat} (hn : n ≤ k.value.length) :
    Relation.ReflTransGen (Follows ended)
      (⟨k, .writing n⟩, d.add k.temp (.file (k.value.take n)))
      (⟨k, .reached .written⟩, d.add k.temp (.file k.value)) := by
  induction hleft : k.value.length - n generalizing n with
  | zero =>
      have hlast : ¬ n < k.value.length := by omega
      refine .single ?_
      rw [List.take_of_length_le (by omega)]
      simp only [Follows, Writer.step, if_neg hlast]
  | succ left ih =>
      have hmore : n < k.value.length := by omega
      refine .head ?_ (ih (n := n + 1) (by omega) (by omega))
      simp only [Follows, Writer.step, if_pos hmore, plant_add hfree]

/-- Behind the temporary file, the steps are those of the creation. -/
theorem follows_written (hfree : d.find k.temp = .ok none) :
    Relation.ReflTransGen (Follows ended)
      (⟨k, .reached .written⟩, d.add k.temp (.file k.value))
      (⟨k, .reached (.finished (k.run ended d).1)⟩, (k.run ended d).2) := by
  refine .head rfl (.head rfl (.single ?_))
  simp only [Follows, Creation.run, Creation.step, write_of_free hfree]
  cases ended with
  | true =>
      simp only [Writer.step, Creation.step, if_true]
      cases (d.add k.temp (.file k.value)).unlink k.temp <;> rfl
  | false =>
      simp only [Writer.step, Creation.step, Bool.false_eq_true, if_false]
      cases (d.add k.temp (.file k.value)).link k.temp (FileName.encode k.name) with
      | error e =>
          dsimp only
          cases (d.add k.temp (.file k.value)).unlink k.temp <;> rfl
      | ok d' =>
          dsimp only
          cases d'.unlink k.temp <;> rfl

/-- **A writer that nothing comes between** is a creation: its steps, under a context that does
not change after the first one, end as the creation does. -/
theorem follows_create (d : DataDir) (sig : Signal) (name : String) (value : Bytes) :
    Relation.ReflTransGen (Follows sig.atCommit)
      ((⟨⟨name, value, d.freshTemp⟩, .called⟩ : Writer).step sig.atStart d)
      (⟨⟨name, value, d.freshTemp⟩, .reached (.finished (d.create sig name value).1)⟩,
        (d.create sig name value).2) := by
  rcases requireKey_cases name with hkey | hkey
  · cases hstart : sig.atStart with
    | true => simpa [Writer.step, create, hkey, hstart] using .refl
    | false =>
        simp only [Writer.step, create, hkey, hstart, Bool.false_eq_true, if_false]
        cases hfind : d.find d.freshTemp with
        | error e =>
            rw [run_unwritten _ hfind]
            refine .head rfl (.single ?_)
            simp only [Follows, Writer.step, Creation.step, write_of_error hfind,
              unlink_of_error hfind]
        | ok found =>
            have hfree := find_freshTemp hfind
            refine .head ?_ ((follows_writing hfree (Nat.zero_le _)).trans
              (follows_written hfree))
            simp only [Follows, Writer.step, write_of_free hfree]
            rfl
  · simpa [Writer.step, create, hkey] using .refl

end Writer

end KeyCustody.DataDir
