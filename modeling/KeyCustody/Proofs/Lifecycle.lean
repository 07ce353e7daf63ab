import KeyCustody.Faults
import KeyCustody.Proofs.KeyRuns
import KeyCustody.Proofs.Sweeping

/-!
# The lifecycle of an enclave

When an enclave is deleted, its three namespaces are swept and its registration goes last.  If
something fails on the way, then the registration stays, exactly the records are lost whose
removal succeeded, and the deletion can be repeated (`Registry.Deletes`).  When an enclave is
created, the registration is the only thing that is written, and before it the same three
namespaces are swept; an enclave that is registered is not touched (`Registry.Creates`).  This
holds under all mishaps and over all stores, whatever is left in them.  Main statements:

* `Registry.sweeps_delete`: a deletion sweeps the namespaces of the enclave;
* `Registry.run_delete_of_record`: a deletion that nothing disturbs succeeds;
* `Registry.lifecycle`: deletions and creations of enclaves under mishaps.
-/

namespace KeyCustody

variable {σ : Type} [Mishaps σ] {c : Context} {w : World σ} {l : Layout} {e : String}

/-! ### Routines that fail -/

/-- A look at the clock leaves the store alone. -/
theorem Routine.backend_time (c : Context) (w : World σ) :
    (time.attempt.run c w).2.backend = w.backend := rfl

/-- If two routines in a row end with an error, then the first one does, or it ends with a
value and the second one, where the first one ended, with the error. -/
theorem Routine.of_bind_error {α β : Type} {a : Routine α} {f : α → Routine β} {err : Error}
    (holds : World σ → Prop) (hfailed : ((a >>= f).attempt.run c w).1 = .error err)
    (hfirst : (a.attempt.run c w).1 = .error err → holds (a.attempt.run c w).2)
    (hrest : ∀ x, (a.attempt.run c w).1 = .ok x →
      ((f x).attempt.run c (a.attempt.run c w).2).1 = .error err →
        holds ((f x).attempt.run c (a.attempt.run c w).2).2) :
    holds ((a >>= f).attempt.run c w).2 := by
  rw [run_bind] at hfailed ⊢
  cases ha : (a.attempt.run c w).1 with
  | error err' =>
      rw [ha] at hfailed
      obtain rfl : err' = err := Except.error.inj hfailed
      exact hfirst ha
  | ok x =>
      rw [ha] at hfailed
      exact hrest x ha hfailed

namespace View

variable {space name : String} {value : Bytes}

/-- A creation through a view that fails changes nothing. -/
theorem backend_of_create_error {err : Error}
    (hfailed : (((View.under space .whole).create name value).attempt.run c w).1 = .error err) :
    (((View.under space .whole).create name value).attempt.run c w).2.backend = w.backend := by
  rcases run_create_cases c w space name value with ⟨_, -, hsame⟩ | ⟨hok, -⟩
  · exact hsame
  · rw [hok] at hfailed
    cases hfailed

/-- A removal through a view that succeeds leaves nothing under the name. -/
theorem stored?_of_delete_ok
    (hok : (((View.under space .whole).delete name).attempt.run c w).1 = .ok ()) :
    (((View.under space .whole).delete name).attempt.run c w).2.backend.stored?
      (space ++ name) = none := by
  rcases run_delete_cases c w space name with ⟨err, hfailed, -⟩ | ⟨-, hheld⟩
  · rw [hfailed] at hok
    cases hok
  · rw [hheld, if_pos rfl]

end View

/-! ### Deletions under mishaps -/

namespace Registry

/-- **A deletion sweeps** each of the enclave's namespaces. -/
theorem sweeps_delete (hplain : Glob.hasMeta l.root = false) (e : String) (kind : RecordKind) :
    (l.catalog.delete e).attempt.Sweeps σ (l.space kind e) := by
  have hdone {α : Type} (a : α) : (Program.done a).Sweeps σ (l.space kind e) :=
    fun _ _ => .of_apart fun _ hx => nomatch hx
  have hdescribes : (l.catalog.describe e).Keeps (.asking (Request.ApartFrom (l.space kind e)))
      _ fun _ => True := keeps_describe fun _ => ⟨Request.noConfusion, fun _ => ⟨id, id⟩⟩
  have hunregisters : (l.catalog.cabinet.delete e).Keeps
      (.asking (Request.ApartFrom (l.space kind e))) _ fun _ => True :=
    Cabinet.keeps_delete ⟨Request.noConfusion, fun n => ⟨l.record_ne_space_append e e n kind, id⟩⟩
  unfold delete
  rw [Routine.attempt_bind]
  apply Program.Keeps.sweeps_bind hdescribes
  intro r hr
  cases r with
  | error err => exact hdone _
  | ok info =>
      obtain ⟨he, -⟩ := hr
      change ((l.catalog.purge e >>= fun _ => l.catalog.cabinet.delete e).attempt).Sweeps σ _
      rw [Routine.attempt_bind]
      apply (sweeps_purge hplain he.toValidName kind).bind_apart
      intro r
      cases r with
      | error err => trivial
      | ok _ => exact Program.Keeps.weaken hunregisters fun _ _ => trivial

/-- A deletion that fails leaves alone what is outside the enclave's namespaces. -/
theorem stored?_delete_of_error {err : Error} {full : String}
    (hfailed : ((l.catalog.delete e).attempt.run c w).1 = .error err)
    (hfull : ∀ kind n, full ≠ l.space kind e ++ n) :
    ((l.catalog.delete e).attempt.run c w).2.backend.stored? full = w.backend.stored? full := by
  have hdescribes : (l.catalog.describe e).Keeps (.asking (Request.Avoids full)) _
      fun _ => True := keeps_describe fun _ => ⟨id, id⟩
  have hpurges : (l.catalog.purge e).Keeps (.asking (Request.Avoids full)) (fun _ => True)
      fun _ => True := keeps_purge (fun _ => ⟨id, id⟩) fun kind n => ⟨(hfull kind n).symm, id⟩
  have hdescribed := Program.Keeps.stored?_run_of_avoids
    (Program.Keeps.weaken hdescribes fun _ _ => trivial) c w
  let holds (v : World σ) : Prop := v.backend.stored? full = w.backend.stored? full
  unfold delete at hfailed ⊢
  apply Routine.of_bind_error holds hfailed (fun _ => hdescribed)
  intro info _ hfailed
  have hpurged := (Program.Keeps.stored?_run_of_avoids hpurges.attempt c
    ((l.catalog.describe e).attempt.run c w).2).trans hdescribed
  apply Routine.of_bind_error holds hfailed (fun _ => hpurged)
  intro _ _ hfailed
  exact (congrArg (Backend.stored? · full) (View.backend_of_delete_error hfailed)).trans hpurged

/-- A deletion that succeeds leaves nothing of the enclave. -/
theorem cleared_of_delete (hplain : Glob.hasMeta l.root = false)
    (hok : ((l.catalog.delete e).attempt.run c w).1 = .ok ()) :
    ((l.catalog.delete e).attempt.run c w).2.backend.stored? (l.record e) = none ∧
      ∀ kind n, n ≠ "" →
        ((l.catalog.delete e).attempt.run c w).2.backend.stored? (l.space kind e ++ n) = none := by
  have hpeel {α β : Type} {a : Routine α} {f : α → Routine β} {y : β} {w : World σ} :=
    Routine.of_bind_ok (c := c) (w := w) (a := a) (f := f) (y := y) fun v =>
      v.backend.stored? (l.record e) = none ∧
        ∀ kind n, n ≠ "" → v.backend.stored? (l.space kind e ++ n) = none
  have hdescribes : (l.catalog.describe e).Keeps (.asking fun _ => True) _ fun _ => True :=
    keeps_describe fun _ => trivial
  have hdescribed := (Program.Keeps.run hdescribes c (fun _ => True)
    (fun _ _ _ _ => ⟨trivial, trivial⟩) (w := w) trivial).1
  unfold delete at hok ⊢
  apply hpeel hok
  intro info hinfo hok
  rw [hinfo] at hdescribed
  obtain ⟨he, -⟩ := hdescribed
  apply hpeel hok
  intro _ hpurged hok
  refine ⟨View.stored?_of_delete_ok hok, fun kind n hn => ?_⟩
  have hcleared := purge_cleared hplain he.toValidName hpurged kind hn
  have hunregisters : (l.catalog.cabinet.delete e).Keeps
      (.asking fun r => ¬ r.Creates (l.space kind e ++ n)) _ fun _ => True :=
    Cabinet.keeps_delete id
  exact (Program.Keeps.weaken hunregisters fun _ _ => trivial).run_of_missing c hcleared

/-- A deletion creates nothing. -/
theorem creates_nothing_delete (l : Layout) (e full : String) :
    (l.catalog.delete e).attempt.Keeps (.asking fun r => ¬ r.Creates full) fun _ => True :=
  (keeps_delete (fun _ => id) (fun _ _ => id) (fun _ _ _ _ _ => id) fun _ _ _ => id).attempt

end Registry

/-! ### Deletions that nothing disturbs -/

section Calm

variable {w : World Unit}

/-- Names that are held are removed without a failure, and nothing else is. -/
theorem View.run_deleteAll_of_stored {space : String} {names : List String}
    (hlive : w.ended c = false) (hnodup : names.Nodup)
    (hheld : ∀ n ∈ names, n ≠ "" ∧ (w.backend.stored? (space ++ n)).isSome) :
    (((View.under space .whole).deleteAll names).run c w).1 = none ∧
      ∀ other, (((View.under space .whole).deleteAll names).run c w).2.backend.stored? other =
        if other ∈ names.map (space ++ ·) then none else w.backend.stored? other := by
  induction names generalizing w with
  | nil => exact ⟨rfl, fun _ => (if_neg List.not_mem_nil).symm⟩
  | cons name names ih =>
      obtain ⟨hother, hnodup⟩ := List.nodup_cons.1 hnodup
      obtain ⟨hname, hvalue⟩ := hheld name List.mem_cons_self
      obtain ⟨value, hvalue⟩ := Option.isSome_iff_exists.1 hvalue
      obtain ⟨hok, hrest⟩ := View.run_delete_of_stored hlive hname hvalue
      have hlive' := (((View.under space .whole).delete name).attempt.ended_run w c c).trans hlive
      obtain ⟨hnone, hleft⟩ := ih hlive' hnodup fun n hn => by
        obtain ⟨hne, hstored⟩ := hheld n (List.mem_cons_of_mem _ hn)
        have hdiffers : space ++ n ≠ space ++ name := by
          intro hsame
          obtain rfl := (String.append_right_inj _).1 hsame
          exact hother hn
        rw [hrest, if_neg hdiffers]
        exact ⟨hne, hstored⟩
      unfold deleteAll
      rw [Program.run_bind, Program.run_bind, hok]
      refine ⟨firstError_eq_none.2 ⟨rfl, hnone⟩, fun other => ?_⟩
      change (((View.under space .whole).deleteAll names).run c _).2.backend.stored? other = _
      rw [hleft, hrest, List.map_cons]
      by_cases hfirst : other = space ++ name
      · rw [if_pos hfirst, ite_self, if_pos (hfirst ▸ List.mem_cons_self)]
      · rw [if_neg hfirst]
        simp only [List.mem_cons, hfirst, false_or]

/-- A purge of a tidy store does not fail. -/
theorem View.run_purge_of_tidy {space : String} (hlive : w.ended c = false)
    (htidy : w.backend.Tidy) : ((View.under space .whole).purge.run c w).1 = none := by
  obtain ⟨names, hlist, hnodup, hmem⟩ := exists_run_list hlive htidy space "*"
  unfold purge
  rw [Program.run_bind, hlist]
  refine (run_deleteAll_of_stored hlive hnodup fun n hn => ?_).1
  exact ⟨((hmem n).1 hn).1, ((hmem n).1 hn).2.2⟩

namespace Registry

/-- Purges of a tidy store do not fail. -/
theorem run_purgeSpaces_of_tidy {spaces : List String}
    (hspaces : ∀ space ∈ spaces, Glob.hasMeta space = false) (hlive : w.ended c = false)
    (htidy : w.backend.Tidy) : ((purgeSpaces none spaces).attempt.run c w).1 = .ok none := by
  induction spaces generalizing w with
  | nil => rfl
  | cons space spaces ih =>
      have hpurged : ((View.under space .whole).purge.run c w).1 = none :=
        View.run_purge_of_tidy hlive htidy
      have hlive' := ((View.under space .whole).purge.ended_run w c c).trans hlive
      have htidy' := ((View.under space .whole).purge.keeps_anything.run c
        (fun v => v.backend.Tidy) (fun r v _ hv => ⟨trivial, v.tidy_answer c r hv⟩) htidy).2
      rw [purgeSpaces_cons (hspaces space List.mem_cons_self), Program.run_bind, hpurged]
      exact ih (fun s hs => hspaces s (List.mem_cons_of_mem _ hs)) hlive' htidy'

/-- **Deletions that nothing disturbs.**  A registered enclave of a tidy store is deleted without
an error. -/
theorem run_delete_of_record (hplain : Glob.hasMeta l.root = false) (he : ValidEnclaveName e)
    (hlive : w.ended c = false) (htidy : w.backend.Tidy) {g : Registration}
    (hrecord : w.backend.record? (l.record e) = some g) :
    ((l.catalog.delete e).attempt.run c w).1 = .ok () := by
  have hdescribed : (l.catalog.describe e).attempt.run c w = (.ok (g.info e), w) := by
    have hfound : (l.catalog.cabinet.find? e).attempt.run c w = (.ok (some g), w) :=
      Cabinet.run_find?_of_record hlive he.nonempty hrecord
    unfold describe
    rw [checkEnclaveName_eq_ok_iff.2 he]
    change (l.catalog.cabinet.find? e >>= _).attempt.run c w = _
    rw [Routine.run_bind, hfound]
    rfl
  have hpurged : ((l.catalog.purge e).attempt.run c w).1 = .ok () := by
    have hspaces : ((purgeSpaces none [l.catalog.layout.keys e, l.catalog.layout.policies e,
        l.catalog.layout.identities e]).attempt.run c w).1 = .ok none :=
      run_purgeSpaces_of_tidy (hasMeta_of_mem_spaces hplain he.toValidName) hlive htidy
    unfold purge
    rw [Routine.run_bind, hspaces]
    rfl
  -- the purge leaves the registration, which is removed at last
  have hspares : (l.catalog.purge e).Keeps (.asking (Request.Avoids (l.record e)))
      (fun _ => True) fun _ => True :=
    keeps_purge (fun _ => ⟨id, id⟩) fun kind n => ⟨(l.record_ne_space_append e e n kind).symm, id⟩
  have hkept := Program.Keeps.stored?_run_of_avoids hspares.attempt c w
  obtain ⟨value, hvalue, -⟩ := Backend.record?_eq_some_iff.1 hrecord
  have hlive' := ((l.catalog.purge e).attempt.ended_run w c c).trans hlive
  unfold delete
  rw [Routine.run_bind, hdescribed]
  simp only
  rw [Routine.run_bind, hpurged]
  exact (View.run_delete_of_stored hlive' he.nonempty (hkept.trans hvalue)).1

end Registry

end Calm

/-! ### Creations under mishaps -/

/-- The contract of looking at a store, if the registration is never missed. -/
def Contract.finding (l : Layout) (e : String) : Contract where
  allows r := r.isWrite = false
  assumes
    | .get name, .error (.notFound _) => name ≠ l.record e
    | _, _ => True

/-- An honest look-up finds the registration that is there. -/
theorem World.finding_step {registration : Bytes} {r : Request}
    (hr : (Contract.finding l e).allows r) (hhonest : w.Honest c r)
    (hheld : w.backend.stored? (l.record e) = some registration) :
    (Contract.finding l e).assumes r (w.answer c r).1 ∧
      (w.answer c r).2.backend = w.backend := by
  refine ⟨?_, backend_answer_of_read hr w c⟩
  cases r with
  | get name =>
      cases hanswer : (w.answer c (.get name)).1 with
      | ok value => trivial
      | error err =>
          cases err with
          | notFound what =>
              rintro rfl
              exact hhonest.ne_notFound hheld what hanswer
          | _ => trivial
  | _ => trivial

namespace Registry

variable {creator : Identity}

/-- An enclave that was created without an error was not registered before. -/
theorem fresh_of_create {info : EnclaveInfo}
    (hok : ((l.catalog.create e creator).attempt.run c w).1 = .ok info) :
    ValidEnclaveName e ∧ w.backend.stored? (l.record e) = none := by
  have hcreates {k : Contract} (hall : ∀ r, ¬ r.Removes (l.record e) → k.allows r) :
      (l.catalog.create e creator).Keeps k (fun _ => ValidEnclaveName e ∧ ∃ time, k.assumes
        (.create (l.record e) (Record.encode (⟨time, creator⟩ : Registration))) (.ok ()))
        fun _ => True :=
    keeps_create (fun _ => hall _ id) (hall _ id) (fun _ _ _ => hall _ id)
      (fun _ _ kind n => hall _ (l.record_ne_space_append e e n kind).symm)
      fun _ _ _ => hall _ id
  cases hheld : w.backend.stored? (l.record e) with
  | none =>
      have hpromise := (Program.Keeps.run (hcreates (k := .asking fun _ => True)
        fun _ _ => trivial) c (fun _ => True) (fun _ _ _ _ => ⟨trivial, trivial⟩)
        (w := w) trivial).1
      rw [hok] at hpromise
      exact ⟨hpromise.1, rfl⟩
  | some value =>
      -- the name of the registration is taken
      have hpromise := (Program.Keeps.run (hcreates (k := .taken (l.record e)) fun _ => id) c
        (fun v => v.backend.stored? (l.record e) = some value)
        (fun _ _ hr hv => World.taken_step hr hv) hheld).1
      rw [hok] at hpromise
      obtain ⟨-, _, hcreated⟩ := hpromise
      exact absurd rfl hcreated

/-- An enclave that was created without an error is registered as it is reported, and owns
nothing. -/
theorem stored_of_create (hplain : Glob.hasMeta l.root = false) {info : EnclaveInfo}
    (hok : ((l.catalog.create e creator).attempt.run c w).1 = .ok info) :
    ∃ g : Registration, info = g.info e ∧ g.createdBy = creator ∧
      ((l.catalog.create e creator).attempt.run c w).2.backend.record? (l.record e) = some g ∧
      ∀ kind n, n ≠ "" → ((l.catalog.create e creator).attempt.run c w).2.backend.stored?
        (l.space kind e ++ n) = none := by
  have hpeel {α β : Type} {a : Routine α} {f : α → Routine β} {y : β} {w : World σ} :=
    Routine.of_bind_ok (c := c) (w := w) (a := a) (f := f) (y := y) fun v =>
      ∃ g : Registration, info = g.info e ∧ g.createdBy = creator ∧
        v.backend.record? (l.record e) = some g ∧
        ∀ kind n, n ≠ "" → v.backend.stored? (l.space kind e ++ n) = none
  unfold create at hok ⊢
  apply hpeel hok
  intro _ hnamed hok
  have he := checkEnclaveName_eq_ok_iff.1 hnamed
  apply hpeel hok
  intro found _ hok
  cases found with
  | some g => cases hok
  | none =>
      apply hpeel hok
      intro _ hpurged hok
      have hcleared (kind : RecordKind) {n : String} (hn : n ≠ "") :=
        purge_cleared hplain he.toValidName hpurged kind hn
      apply hpeel hok
      intro time _ hok
      apply hpeel hok
      intro _ hcreated hok
      have hinfo := (Except.ok.inj hok).symm
      have hstays (f : Error → Error) (kind : RecordKind) (n : String) :
          ((l.catalog.cabinet.create e (⟨time, creator⟩ : Registration)).mapError f).Keeps
            (.asking fun r => ¬ r.Creates (l.space kind e ++ n)) (fun _ => True) fun _ => True :=
        Routine.Keeps.mapError (Routine.Keeps.weaken
          (Cabinet.keeps_create (l.record_ne_space_append e e n kind)) (fun _ _ => trivial)
          fun _ => id)
      refine ⟨⟨time, creator⟩, hinfo, rfl, ?_, fun kind n hn => ?_⟩
      · rw [Routine.run_mapError] at hcreated ⊢
        have hstored := View.stored_of_create (mapError_eq_ok_iff.1 hcreated)
        exact Backend.record?_eq_some_iff.2 ⟨_, hstored, Record.decode?_encode _⟩
      · refine (hstays _ kind n).attempt.run_of_missing c ?_
        rw [Routine.backend_time]
        exact hcleared kind hn

/-- A creation that fails leaves alone what is outside the enclave's namespaces. -/
theorem stored?_create_of_error {err : Error} {full : String}
    (hfailed : ((l.catalog.create e creator).attempt.run c w).1 = .error err)
    (hfull : ∀ kind n, full ≠ l.space kind e ++ n) :
    ((l.catalog.create e creator).attempt.run c w).2.backend.stored? full =
      w.backend.stored? full := by
  let holds (v : World σ) : Prop := v.backend.stored? full = w.backend.stored? full
  have hlooks : (l.catalog.cabinet.find? e).Keeps (.asking (Request.Avoids full)) _
      fun _ => True := Cabinet.keeps_find? ⟨id, id⟩
  have hpurges : (l.catalog.purge e).Keeps (.asking (Request.Avoids full)) (fun _ => True)
      fun _ => True := keeps_purge (fun _ => ⟨id, id⟩) fun kind n => ⟨(hfull kind n).symm, id⟩
  have hlooked := Program.Keeps.stored?_run_of_avoids
    (Program.Keeps.weaken hlooks fun _ _ => trivial) c w
  unfold create at hfailed ⊢
  apply Routine.of_bind_error holds hfailed (fun _ => rfl)
  intro _ _ hfailed
  apply Routine.of_bind_error holds hfailed (fun _ => hlooked)
  intro found _ hfailed
  cases found with
  | some g => exact hlooked
  | none =>
      have hpurged := (Program.Keeps.stored?_run_of_avoids hpurges.attempt c
        ((l.catalog.cabinet.find? e).attempt.run c w).2).trans hlooked
      apply Routine.of_bind_error holds hfailed (fun _ => hpurged)
      intro _ _ hfailed
      refine Routine.of_bind_error holds hfailed (fun h => nomatch h) fun time _ hfailed => ?_
      refine Routine.of_bind_error holds hfailed (fun hrefused => ?_) fun _ _ hfailed => ?_
      · rw [Routine.run_mapError] at hrefused ⊢
        obtain ⟨_, hcreated, -⟩ := mapError_eq_error_iff.1 hrefused
        have hsame := (View.backend_of_create_error hcreated).trans (Routine.backend_time c _)
        exact (congrArg (Backend.stored? · full) hsame).trans hpurged
      · cases hfailed

/-- A creation of an enclave that is registered changes nothing, if it is answered honestly. -/
theorem backend_create_of_registered {registration : Bytes}
    (hheld : w.backend.stored? (l.record e) = some registration)
    (hhonest : ∀ m, (l.catalog.create e creator).attempt.HonestFor c m w) :
    ((l.catalog.create e creator).attempt.run c w).2.backend = w.backend := by
  have hmissed : ¬ (Contract.finding l e).MayMiss (l.record e) := by
    rintro ⟨what, hassumed⟩
    exact hassumed rfl
  have hlooks : (l.catalog.create e creator).Keeps (.finding l e) _ fun _ => True :=
    keeps_create (fun _ => rfl) rfl (fun _ h => absurd h hmissed) (fun _ h => absurd h hmissed)
      fun _ h => absurd h hmissed
  have hstep (r : Request) (v : World σ) (hr : (Contract.finding l e).allows r)
      (hv : v.Honest c r) (hsame : v.backend = w.backend) :
      (Contract.finding l e).assumes r (v.answer c r).1 ∧
        (v.answer c r).2.backend = w.backend := by
    obtain ⟨hassumed, hstays⟩ := World.finding_step hr hv (by rw [hsame]; exact hheld)
    exact ⟨hassumed, hstays.trans hsame⟩
  have hkept : (l.catalog.create e creator).attempt.Throughout c
      (fun v => v.backend = w.backend) w := fun m =>
    Program.Keeps.runFor_of_honest hlooks hstep (hhonest m) rfl
  exact hkept.run

/-! ### The lifecycle -/

/-- What becomes of a store when an enclave is to be deleted, and what the exchanges of the
deletion tell of it. -/
structure Deletes (l : Layout) (e : String) (before : Backend) (t : List Exchange)
    (outcome : Except Error Unit) (after : Backend) : Prop where
  /-- After a success nothing of the enclave is left. -/
  done : outcome = .ok () → (∀ kind, before.stored? (l.space kind e) = none) →
    after.stored? (l.record e) = none ∧ ∀ kind n, after.stored? (l.space kind e ++ n) = none
  /-- After a failure the registration is as it was. -/
  registration : ∀ err, outcome = .error err →
    after.stored? (l.record e) = before.stored? (l.record e)
  /-- A listing that succeeded gave all names, and exactly the names that were given were tried. -/
  swept : ∀ kind, Swept (l.space kind e) before t
  /-- What was removed without an error is gone. -/
  gone : ∀ full, ⟨.delete full, .ok ()⟩ ∈ t → after.stored? full = none
  /-- What was not is as it was. -/
  kept : ∀ full, ⟨.delete full, .ok ()⟩ ∉ t → after.stored? full = before.stored? full
  /-- What does not belong to the enclave is as it was. -/
  others : ∀ full, full ≠ l.record e → (∀ kind n, full ≠ l.space kind e ++ n) →
    after.stored? full = before.stored? full

/-- What becomes of a store when an enclave is to be created. -/
structure Creates (l : Layout) (e : String) (creator : Identity) (before : Backend)
    (outcome : Except Error EnclaveInfo) (after : Backend) : Prop where
  /-- Only an enclave that was not registered is created. -/
  fresh : ∀ info, outcome = .ok info → before.stored? (l.record e) = none
  /-- An enclave that was created is registered as it is reported. -/
  done : ∀ info, outcome = .ok info → ∃ g : Registration, info = g.info e ∧
    g.createdBy = creator ∧ after.record? (l.record e) = some g
  /-- An enclave that was created owns nothing. -/
  cleared : ∀ info, outcome = .ok info → (∀ kind, before.stored? (l.space kind e) = none) →
    ∀ kind n, after.stored? (l.space kind e ++ n) = none
  /-- After a failure all registrations are as they were. -/
  registry : ∀ err, outcome = .error err →
    ∀ m, after.stored? (l.record m) = before.stored? (l.record m)

/-- The registry of a layout. -/
theorem eq_catalog_of_ofLayout {r : Registry} (hopened : ofLayout l = .ok r) :
    r = l.catalog ∧ Glob.hasMeta l.root = false := by
  unfold ofLayout at hopened
  cases hentered : View.whole.enter l.registry with
  | error err => simp [hentered, bind, Except.bind] at hopened
  | ok view =>
      simp only [hentered, bind, Except.bind, pure, Except.pure, Except.ok.injEq] at hopened
      obtain ⟨hplain, rfl⟩ := View.enter_eq_ok_iff.1 hentered
      exact ⟨hopened.symm, Layout.hasMeta_registry.symm.trans hplain⟩

/-- **Deletions under mishaps.** -/
theorem deletes_run (hplain : Glob.hasMeta l.root = false) (c : Context) (w : World σ)
    (e : String) :
    Deletes l e w.backend ((l.catalog.delete e).attempt.trace c w)
      ((l.catalog.delete e).attempt.run c w).1
      ((l.catalog.delete e).attempt.run c w).2.backend where
  done := by
    intro hok hunnamed
    obtain ⟨hrecord, hcleared⟩ := cleared_of_delete hplain hok
    refine ⟨hrecord, fun kind n => ?_⟩
    by_cases hn : n = ""
    · subst hn
      rw [String.append_empty]
      exact (creates_nothing_delete l e _).run_of_missing c (hunnamed kind)
    · exact hcleared kind n hn
  registration := fun err hfailed =>
    stored?_delete_of_error hfailed fun kind n => l.record_ne_space_append e e n kind
  swept := fun kind => sweeps_delete hplain e kind c w
  gone := fun full hremoved => (creates_nothing_delete l e full).stored?_of_removed hremoved
  kept := fun full hkept => (creates_nothing_delete l e full).stored?_of_not_removed hkept
  others := by
    intro full hrecord hfull
    have havoids : (l.catalog.delete e).Keeps (.asking (Request.Avoids full)) (fun _ => True)
        fun _ => True :=
      keeps_delete (fun _ => ⟨id, id⟩) (fun _ _ => ⟨id, id⟩)
        (fun _ _ _ kind n => ⟨(hfull kind n).symm, id⟩) fun _ _ _ => ⟨hrecord.symm, id⟩
    exact Program.Keeps.stored?_run_of_avoids havoids.attempt c w

/-- **Creations under mishaps.** -/
theorem creates_run (hplain : Glob.hasMeta l.root = false) (c : Context) (w : World σ)
    (e : String) (creator : Identity) :
    Creates l e creator w.backend ((l.catalog.create e creator).attempt.run c w).1
      ((l.catalog.create e creator).attempt.run c w).2.backend where
  fresh := fun info hok => (fresh_of_create hok).2
  done := by
    intro info hok
    obtain ⟨g, hinfo, hcreator, hrecord, -⟩ := stored_of_create hplain hok
    exact ⟨g, hinfo, hcreator, hrecord⟩
  cleared := by
    intro info hok hunnamed kind n
    by_cases hn : n = ""
    · subst hn
      have hcreates : (l.catalog.create e creator).Keeps
          (.asking fun r => ¬ r.Creates (l.space kind e ++ "")) _ fun _ => True :=
        keeps_create (fun _ => id) id (fun _ _ _ => id) (fun _ _ _ _ => id)
          fun _ _ _ => l.record_ne_space_append e e "" kind
      refine (Program.Keeps.weaken hcreates fun _ _ => trivial).run_of_missing c ?_
      rw [String.append_empty]
      exact hunnamed kind
    · obtain ⟨g, -, -, -, hcleared⟩ := stored_of_create hplain hok
      exact hcleared kind n hn
  registry := fun err hfailed m =>
    stored?_create_of_error hfailed fun kind n => l.record_ne_space_append m e n kind

/-- **The lifecycle of an enclave.**  In every world, whatever fails and wherever it is canceled:
a deletion that succeeds leaves nothing of the enclave, and one that fails leaves its
registration, loses exactly what it removed, and has tried everything that its listings gave.
If the enclave was registered in a tidy store, under a name that enclaves can have, then the
deletion can be repeated, and succeeds if nothing goes wrong.  A creation that succeeds
registers an enclave that was not registered and owns nothing, and one that fails leaves all
registrations.  If the enclave was registered and no look-up reports a name missing that is
there, then its creation changes nothing at all. -/
theorem lifecycle {r : Registry} (hopened : ofLayout l = .ok r) (c : Context) (w : World σ)
    (e : String) (creator : Identity) :
    let deletion := (r.delete e).attempt
    let creation := (r.create e creator).attempt
    Deletes l e w.backend (deletion.trace c w) (deletion.run c w).1
        (deletion.run c w).2.backend ∧
      (∀ (err : Error) (g : Registration) (c' : Context) (v : World Unit),
        (deletion.run c w).1 = .error err → ValidEnclaveName e → w.backend.Tidy →
        w.backend.record? (l.record e) = some g →
        v.backend = (deletion.run c w).2.backend → v.ended c' = false →
          (deletion.run c' v).1 = .ok ()) ∧
      Creates l e creator w.backend (creation.run c w).1 (creation.run c w).2.backend ∧
      ((w.backend.stored? (l.record e)).isSome → (∀ m, creation.HonestFor c m w) →
        (creation.run c w).2.backend = w.backend) := by
  intro deletion creation
  obtain ⟨rfl, hplain⟩ := eq_catalog_of_ofLayout hopened
  have hdeletes := deletes_run hplain c w e
  refine ⟨hdeletes, ?_, creates_run hplain c w e creator, ?_⟩
  · intro err g c' v hfailed he htidy hrecord hsame hlive
    have htidy' := (deletion.keeps_anything.run c (fun v => v.backend.Tidy)
      (fun r v _ hv => ⟨trivial, v.tidy_answer c r hv⟩) htidy).2
    have hrecord' := (Backend.record?_congr (hdeletes.registration err hfailed)).trans hrecord
    rw [← hsame] at htidy' hrecord'
    exact run_delete_of_record hplain he hlive htidy' hrecord'
  · intro hheld hhonest
    obtain ⟨registration, hregistered⟩ := Option.isSome_iff_exists.1 hheld
    exact backend_create_of_registered hregistered hhonest

/-- An enclave owns two keys.  It is deleted, the removal of the second key fails, and the
deletion is repeated. -/
theorem lifecycle_failed_deletion :
    let l : Layout := ⟨""⟩
    let registration : Registration := ⟨(World.calm (.memory .empty)).clock 0, ⟨"root"⟩⟩
    let b : Backend := .memory (((Table.empty.insert "sys/enclaves/e"
      (Record.encode registration)).insert "enclaves/e/keys/a" [1]).insert "enclaves/e/keys/b" [2])
    let down : FaultRule := ⟨.delete, "keys/b", 0, some 1, some (.unreachable "down"), none⟩
    let w : World (List FaultRule) := { World.calm b with mishaps := [down] }
    let deletion := (l.catalog.delete "e").attempt
    ofLayout l = .ok l.catalog ∧ ∃ w₁ w₂,
      deletion.run (.ofToken []) w = (.error (.unreachable "down"), w₁) ∧
      w₁.backend.record? (l.record "e") = some registration ∧
      w₁.backend.stored? "enclaves/e/keys/a" = none ∧
      w₁.backend.stored? "enclaves/e/keys/b" = some [2] ∧
      deletion.run (.ofToken []) (.calm w₁.backend) = (.ok (), w₂) ∧
      w₂.backend.stored? (l.record "e") = none ∧
      w₂.backend.stored? (l.space .key "e" ++ "b") = none := by
  intro l registration b down w deletion
  have hentered : View.whole.enter l.registry = .ok (.under l.registry .whole) :=
    View.enter_eq_ok_iff.2 ⟨by decide, rfl⟩
  have hopened : ofLayout l = .ok l.catalog := by
    unfold ofLayout
    rw [hentered]
    rfl
  have he : ValidEnclaveName "e" := checkEnclaveName_eq_ok_iff.1 rfl
  have hrecord : w.backend.record? (l.record "e") = some registration := by decide +kernel
  obtain ⟨hdeletes, hrepeats, -, -⟩ := lifecycle hopened (.ofToken []) w "e" ⟨"root"⟩
  have hfailed : (deletion.run (.ofToken []) w).1 = .error (.unreachable "down") := by
    decide +kernel
  have hlost : (deletion.run (.ofToken []) w).2.backend.stored? "enclaves/e/keys/a" = none ∧
      (deletion.run (.ofToken []) w).2.backend.stored? "enclaves/e/keys/b" = some [2] := by
    decide +kernel
  have hunnamed (kind : RecordKind) :
      (deletion.run (.ofToken []) w).2.backend.stored? (l.space kind "e") = none := by
    cases kind <;> decide +kernel
  generalize deletion.run (.ofToken []) w = first at *
  obtain ⟨outcome, w₁⟩ := first
  subst hfailed
  have hkept : w₁.backend.record? (l.record "e") = some registration :=
    (Backend.record?_congr (hdeletes.registration _ rfl)).trans hrecord
  have hagain := hrepeats _ registration (.ofToken []) (.calm w₁.backend) rfl he trivial hrecord
    rfl rfl
  have hcleared :=
    (lifecycle hopened (.ofToken []) (World.calm w₁.backend) "e" ⟨"root"⟩).1.done hagain hunnamed
  generalize hsecond : (l.catalog.delete "e").attempt.run (.ofToken []) (.calm w₁.backend) = second
    at hagain hcleared
  obtain ⟨outcome, w₂⟩ := second
  subst hagain
  exact ⟨hopened, w₁, w₂, rfl, hkept, hlost.1, hlost.2, hsecond, hcleared.1, hcleared.2 .key "b"⟩

end Registry

end KeyCustody
