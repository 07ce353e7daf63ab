import KeyCustody.Proofs.CoupledCalls
import KeyCustody.Proofs.Lifecycle

/-!
# Stores that mirror each other

A tidy store is a map from names to values, whatever it is made of: how a request for a name ends
follows from what the store holds under it and from the context of the call, if no file name is
too long (`Backend.Tidy.get_eq` and its neighbours).  So two worlds around tidy stores that hold
records which are alike *mirror* each other (`World.Mirrors`): calm runs go on alike in both.
Listings may differ in their order.  Nothing depends on it but the order in which
assignments are looked at, when those that have a policy are counted, and in which records are
removed.  Main statements:

* `World.mirror_users`: as many identities have a policy, in whatever order they are found;
* `View.run_purge_mirrored`: purges of two stores leave the same;
* `World.mirror_whole`: worlds that mirror each other go on doing so.
-/

namespace KeyCustody

variable {o : Observer} {l : Layout}

/-! ### Tidy stores -/

/-- A search in a tidy directory finds the file of what is held. -/
theorem DataDir.Tidy.find_eq {d : DataDir} {name : String} (hd : d.Tidy) (hshort : Short name) :
    d.find (FileName.encode name) =
      .ok ((d.content? (FileName.encode name)).map DirEntry.file) := by
  obtain ⟨path, root⟩ := d
  obtain ⟨records, hroot, -, -⟩ := hd
  simp only at hroot
  subst hroot
  rw [content?, find_records hshort]
  cases records.lookup name <;> rfl

namespace Backend

variable {b : Backend} {name : String} {ended : Bool}

/-- A look-up in a tidy store finds what is held. -/
theorem Tidy.get_eq (hb : b.Tidy) (hname : name ≠ "") (hshort : DataDir.Short name) :
    b.get (.steady ended) name =
      if ended then .error .canceled
      else (b.stored? name).elim (.error (.notFound name)) .ok := by
  have hkey := requireKey_of_ne hname
  cases b with
  | memory t => cases ended <;> rfl
  | database t =>
      simp only [Backend.get, hkey]
      cases ended <;> rfl
  | files d =>
      have hfind := DataDir.Tidy.find_eq hb hshort
      simp only [Backend.get, DataDir.get, DataDir.read, hkey, hfind, stored?]
      cases ended with
      | true => rfl
      | false => cases d.content? (FileName.encode name) <;> rfl

/-- A creation in a tidy store fails if the name is taken. -/
theorem Tidy.create_eq (hb : b.Tidy) (hname : name ≠ "") (hshort : DataDir.Short name)
    (value : Bytes) :
    (b.create (.steady ended) name value).1 =
      if ended then .error .canceled
      else if (b.stored? name).isSome then .error (.alreadyExists name) else .ok () := by
  have hkey := requireKey_of_ne hname
  cases b with
  | memory t =>
      cases ended <;> cases htaken : (t.get? name).isSome <;>
        simp [Backend.create, Signal.whole, Signal.steady, hkey, stored?, Table.contains, htaken]
  | database t =>
      cases ended <;> cases htaken : (t.get? name).isSome <;>
        simp [Backend.create, Signal.steady, hkey, stored?, Table.contains, htaken]
  | files d =>
      have htemp := DataDir.Tidy.find_freshTemp hb
      have hfind := DataDir.Tidy.find_eq hb hshort
      cases ended <;> cases hheld : d.content? (FileName.encode name) <;>
        simp [Backend.create, DataDir.create_eq, Signal.steady, hkey, htemp, hfind, stored?, hheld]

/-- A removal from a tidy store fails only for its context. -/
theorem Tidy.delete_eq (hb : b.Tidy) (hname : name ≠ "") (hshort : DataDir.Short name) :
    (b.delete (.steady ended) name).1 = if ended then .error .canceled else .ok () := by
  have hkey := requireKey_of_ne hname
  cases b with
  | memory t => cases ended <;> rfl
  | database t =>
      simp only [Backend.delete, hkey]
      cases ended <;> rfl
  | files d =>
      have hfind := DataDir.Tidy.find_eq hb hshort
      simp only [Backend.delete, DataDir.delete_eq, hkey, hfind]
      cases ended with
      | true => rfl
      | false => cases d.content? (FileName.encode name) <;> rfl

/-- A tidy store can be reached. -/
theorem Tidy.status_eq (hb : b.Tidy) :
    b.status (.steady ended) = if ended then .error .canceled else .ok () := by
  cases b with
  | memory t => cases ended <;> rfl
  | database t => cases ended <;> rfl
  | files d =>
      obtain ⟨path, root⟩ := d
      obtain ⟨records, hroot, -, -⟩ := hb
      simp only at hroot
      subst hroot
      cases ended <;> rfl

end Backend

/-! ### Worlds that mirror each other -/

/-- The worlds hold records that are alike under the same names, in tidy stores, and show the same
time and tokens. -/
structure World.Mirrors (o : Observer) (l : Layout) (w v : World Unit) : Prop where
  tidy : w.backend.Tidy
  tidy' : v.backend.Tidy
  stored : ∀ name, Option.Rel (o.Written l name) (w.backend.stored? name)
    (v.backend.stored? name)
  tokens : v.tokens = w.tokens
  now : v.now = w.now
  eventIds : v.eventIds = w.eventIds
  events : v.events = w.events
  trail : List.Forall₂ o.Alike w.trail v.trail

/-- A file name of the stored name that is asked for is not too long. -/
def Access.Short (a : Access) : Prop :=
  ∀ name ∈ a.name?, DataDir.Short name

instance : DecidablePred DataDir.Short := fun name =>
  inferInstanceAs (Decidable ((FileName.encode name).length ≤ DataDir.maxFileName))

instance : DecidablePred Access.Short := fun a =>
  inferInstanceAs (Decidable (∀ name ∈ a.name?, DataDir.Short name))

/-- Worlds that mirror each other, if no file name is too long. -/
def World.mirror (o : Observer) (l : Layout) : Coupling Unit Unit where
  holds w v := w.Mirrors o l v
  covers := Access.Short

namespace World.Mirrors

variable {w v : World Unit} {name : String}

theorem ended (h : w.Mirrors o l v) (c : Context) : v.ended c = w.ended c := by
  unfold World.ended
  rw [h.tokens, h.now]

theorem isSome_eq (h : w.Mirrors o l v) (name : String) :
    (v.backend.stored? name).isSome = (w.backend.stored? name).isSome :=
  (Observer.isSome_of_rel (h.stored name)).symm

/-- Other stores that hold records which are alike keep worlds in step. -/
theorem store (h : w.Mirrors o l v) {b b' : Backend} (hb : b.Tidy) (hb' : b'.Tidy)
    (hstored : ∀ name, Option.Rel (o.Written l name) (b.stored? name) (b'.stored? name)) :
    ({ w with backend := b } : World Unit).Mirrors o l { v with backend := b' } :=
  ⟨hb, hb', hstored, h.tokens, h.now, h.eventIds, h.events, h.trail⟩

/-- What is put under one name in both stores, or taken away there, is alike everywhere else. -/
theorem stored_of_set (h : w.Mirrors o l v) {b b' : Backend} {x y : Option Bytes}
    (hxy : Option.Rel (o.Written l name) x y)
    (hb : ∀ other, b.stored? other = if other = name then x else w.backend.stored? other)
    (hb' : ∀ other, b'.stored? other = if other = name then y else v.backend.stored? other)
    (other : String) : Option.Rel (o.Written l other) (b.stored? other) (b'.stored? other) := by
  rw [hb, hb']
  by_cases hother : other = name
  · rw [if_pos hother, if_pos hother, hother]
    exact hxy
  · rw [if_neg hother, if_neg hother]
    exact h.stored other

/-- Creations end alike. -/
theorem create (h : w.Mirrors o l v) (ended : Bool) (hname : name ≠ "")
    (hshort : DataDir.Short name) {value value' : Bytes}
    (hwritten : o.Written l name value value') :
    (v.backend.create (.steady ended) name value').1 =
        (w.backend.create (.steady ended) name value).1 ∧
      ∀ other, Option.Rel (o.Written l other)
        ((w.backend.create (.steady ended) name value).2.stored? other)
        ((v.backend.create (.steady ended) name value').2.stored? other) := by
  have hsame : (v.backend.create (.steady ended) name value').1 =
      (w.backend.create (.steady ended) name value).1 := by
    rw [h.tidy.create_eq hname hshort, h.tidy'.create_eq hname hshort, h.isSome_eq]
  refine ⟨hsame, fun other => ?_⟩
  rcases w.backend.create_cases (.steady ended) name value with ⟨e, hw⟩ | ⟨hw, -, hwstored⟩
  · rcases v.backend.create_cases (.steady ended) name value' with ⟨e', hv⟩ | ⟨hv, -, -⟩
    · rw [hw, hv]
      exact h.stored other
    · rw [hw, hv] at hsame
      cases hsame
  · rcases v.backend.create_cases (.steady ended) name value' with ⟨e', hv⟩ | ⟨hv, -, hvstored⟩
    · rw [hw, hv] at hsame
      cases hsame
    · exact h.stored_of_set (.some hwritten) hwstored hvstored other

/-- Removals end alike. -/
theorem delete (h : w.Mirrors o l v) (ended : Bool) (hname : name ≠ "")
    (hshort : DataDir.Short name) :
    (v.backend.delete (.steady ended) name).1 = (w.backend.delete (.steady ended) name).1 ∧
      ∀ other, Option.Rel (o.Written l other)
        ((w.backend.delete (.steady ended) name).2.stored? other)
        ((v.backend.delete (.steady ended) name).2.stored? other) := by
  have hsame : (v.backend.delete (.steady ended) name).1 =
      (w.backend.delete (.steady ended) name).1 := by
    rw [h.tidy.delete_eq hname hshort, h.tidy'.delete_eq hname hshort]
  refine ⟨hsame, fun other => ?_⟩
  rcases w.backend.delete_cases (.steady ended) name with ⟨e, hw⟩ | ⟨hw, hwstored⟩
  · rcases v.backend.delete_cases (.steady ended) name with ⟨e', hv⟩ | ⟨hv, -⟩
    · rw [hw, hv]
      exact h.stored other
    · rw [hw, hv] at hsame
      cases hsame
  · rcases v.backend.delete_cases (.steady ended) name with ⟨e', hv⟩ | ⟨hv, hvstored⟩
    · rw [hw, hv] at hsame
      cases hsame
    · exact h.stored_of_set .none hwstored hvstored other

/-- Listings of a namespace give the same names, each of them once, in any order. -/
theorem run_list (h : w.Mirrors o l v) {c : Context} (hlive : w.ended c = false)
    (space pattern : String) :
    ∃ names names', ((View.under space .whole).list pattern).attempt.run c w = (.ok names, w) ∧
      ((View.under space .whole).list pattern).attempt.run c v = (.ok names', v) ∧
      names.Nodup ∧ names.Perm names' ∧
      ∀ n ∈ names, n ≠ "" ∧ (w.backend.stored? (space ++ n)).isSome := by
  obtain ⟨names, hw, hnodup, hnames⟩ := View.exists_run_list hlive h.tidy space pattern
  obtain ⟨names', hv, hnodup', hnames'⟩ :=
    View.exists_run_list ((h.ended c).trans hlive) h.tidy' space pattern
  refine ⟨names, names', hw, hv, hnodup, ?_, fun n hn => ?_⟩
  · rw [List.perm_ext_iff_of_nodup hnodup hnodup']
    intro n
    rw [hnames, hnames', h.isSome_eq]
  · exact ⟨((hnames n).1 hn).1, ((hnames n).1 hn).2.2⟩

end World.Mirrors

/-! ### Requests -/

/-- To who does not see times, all times are alike. -/
theorem Observer.alike_time (htimes : o.times = false) (t t' : Timestamp) : o.Alike t t' := by
  have hblank (t : Timestamp) : Observed.sees o t = Observed.noTime :=
    if_neg (by rw [htimes]; exact Bool.false_ne_true)
  exact (hblank t).trans (hblank t').symm

namespace World

open Routine (Matches EndsAlike)

/-- Requests are answered alike in worlds that mirror each other. -/
theorem mirror_sound (htimes : o.times = false) (l : Layout) : (mirror o l).Sound o l where
  time := by
    apply Matches.lift
    apply Program.Matches.request
    intro c w v h _
    obtain ⟨htidy, htidy', hstored, htokens, hnow, hids, hevents, htrail⟩ := h
    exact ⟨Observer.alike_time htimes _ _, htidy, htidy', hstored, htokens, hnow, hids, hevents,
      htrail⟩
  eventId := by
    apply Program.Matches.request
    intro c w v h _
    obtain ⟨htidy, htidy', hstored, htokens, hnow, hids, hevents, htrail⟩ := h
    refine ⟨?_, htidy, htidy', hstored, htokens, hnow, hids, ?_, htrail⟩
    · change w.eventIds w.events = v.eventIds v.events
      rw [hids, hevents]
    · change v.events + 1 = w.events + 1
      rw [hevents]
  emit event event' hevent := by
    apply Program.Matches.request
    intro c w v h _
    obtain ⟨htidy, htidy', hstored, htokens, hnow, hids, hevents, htrail⟩ := h
    refine ⟨trivial, htidy, htidy', hstored, htokens, hnow, hids, hevents, ?_⟩
    exact List.rel_append htrail (.cons hevent .nil)
  status := by
    apply Program.Matches.request
    intro c w v h _
    have hmirrors : w.Mirrors o l v := h
    refine ⟨EndsAlike.of_eq ?_, h⟩
    change w.backend.status (.steady (w.ended c)) = v.backend.status (.steady (v.ended c))
    rw [hmirrors.tidy.status_eq, hmirrors.tidy'.status_eq, hmirrors.ended c]
  create name value value' hwritten := by
    apply Program.Matches.request
    intro c w v h hcovered
    have hmirrors : w.Mirrors o l v := h
    obtain ⟨hsame, hstored⟩ := hmirrors.create (w.ended c) hwritten.ne_empty
      (hcovered _ List.mem_cons_self name rfl) hwritten
    have hholds := hmirrors.store (hmirrors.tidy.create _ name value)
      (hmirrors.tidy'.create _ name value') hstored
    simp only [answer, meet_calm, hmirrors.ended c]
    exact ⟨EndsAlike.of_eq hsame.symm, hholds⟩
  get name hname := by
    apply Program.Matches.request
    intro c w v h hcovered
    have hmirrors : w.Mirrors o l v := h
    have hshort : DataDir.Short name := hcovered _ List.mem_cons_self name rfl
    refine ⟨?_, h⟩
    change EndsAlike (o.Stored l name) (w.backend.get (.steady (w.ended c)) name)
      (v.backend.get (.steady (v.ended c)) name)
    rw [hmirrors.tidy.get_eq hname hshort, hmirrors.tidy'.get_eq hname hshort, hmirrors.ended c]
    cases w.ended c with
    | true => exact rfl
    | false => exact .of_found (hmirrors.stored name) (fun _ _ => .inr) _
  delete name hname := by
    apply Program.Matches.request
    intro c w v h hcovered
    have hmirrors : w.Mirrors o l v := h
    obtain ⟨hsame, hstored⟩ := hmirrors.delete (w.ended c) hname
      (hcovered _ List.mem_cons_self name rfl)
    have hholds := hmirrors.store (hmirrors.tidy.delete _ name) (hmirrors.tidy'.delete _ name)
      hstored
    simp only [answer, meet_calm, hmirrors.ended c]
    exact ⟨EndsAlike.of_eq hsame.symm, hholds⟩

end World

/-! ### Purges -/

/-- The request is one to the store. -/
def Request.OfStore : Request → Prop
  | .time | .eventId | .emit _ => False
  | _ => True

/-- In a calm world, requests to the store change nothing but the store. -/
theorem World.answer_ofStore {r : Request} (hr : r.OfStore) (c : Context) (w : World Unit) :
    ∃ b, (w.answer c r).2 = { w with backend := b } := by
  cases r with
  | time | eventId | emit => exact absurd hr id
  | list pattern =>
      refine ⟨w.backend, ?_⟩
      simp only [answer, list_calm]
  | create | get | delete | status => exact ⟨_, rfl⟩

namespace View

variable {w v : World Unit} {c : Context}

/-- A purge in a calm world changes nothing but the store, which it keeps tidy. -/
theorem exists_run_purge (htidy : w.backend.Tidy) (c : Context) (space : String) :
    ∃ b : Backend, b.Tidy ∧
      ((View.under space .whole).purge.run c w).2 = { w with backend := b } := by
  have hpurge : (View.under space .whole).purge.Keeps (.asking Request.OfStore) fun _ => True :=
    keeps_purge trivial fun _ => trivial
  obtain ⟨-, b, hb, hrun⟩ := hpurge.run c
    (fun u => ∃ b : Backend, b.Tidy ∧ u = { w with backend := b }) (fun r u hr hu => by
      obtain ⟨b, hb, rfl⟩ := hu
      obtain ⟨b', hb'⟩ := World.answer_ofStore hr c { w with backend := b }
      have htidy' := World.tidy_answer c r { w with backend := b } hb
      rw [hb'] at htidy' ⊢
      exact ⟨trivial, b', htidy', rfl⟩) ⟨w.backend, htidy, rfl⟩
  exact ⟨b, hb, hrun⟩

/-- **Purges of two stores** remove the same, in any order. -/
theorem run_purge_mirrored (h : w.Mirrors o l v) (c : Context) (space : String) :
    ((View.under space .whole).purge.run c w).1 = ((View.under space .whole).purge.run c v).1 ∧
      ((View.under space .whole).purge.run c w).2.Mirrors o l
        ((View.under space .whole).purge.run c v).2 := by
  cases hlive : w.ended c with
  | true =>
      have hended {u : World Unit} (hu : u.ended c = true) :
          (View.under space .whole).purge.run c u = (some .canceled, u) := by
        unfold purge
        rw [Program.run_bind, run_list_of_ended hu]
        rfl
      rw [hended hlive, hended ((h.ended c).trans hlive)]
      exact ⟨rfl, h⟩
  | false =>
      obtain ⟨names, names', hw, hv, hnodup, hperm, hheld⟩ := h.run_list hlive space "*"
      have hpurge {u : World Unit} {names : List String}
          (hlist : ((View.under space .whole).list "*").attempt.run c u = (.ok names, u)) :
          (View.under space .whole).purge.run c u =
            ((View.under space .whole).deleteAll names).run c u := by
        unfold purge
        rw [Program.run_bind, hlist]
      obtain ⟨hnone, hleft⟩ := run_deleteAll_of_stored hlive hnodup hheld
      obtain ⟨hnone', hleft'⟩ := run_deleteAll_of_stored ((h.ended c).trans hlive)
        (hperm.nodup hnodup) fun n hn => by
          rw [h.isSome_eq]
          exact hheld n (hperm.mem_iff.2 hn)
      obtain ⟨b, hb, hrun⟩ := exists_run_purge h.tidy c space
      obtain ⟨b', hb', hrun'⟩ := exists_run_purge h.tidy' c space
      rw [← hpurge hw] at hnone hleft
      rw [← hpurge hv] at hnone' hleft'
      rw [hrun] at hleft ⊢
      rw [hrun'] at hleft' ⊢
      refine ⟨hnone.trans hnone'.symm, h.store hb hb' fun other => ?_⟩
      rw [hleft, hleft']
      have hmem : other ∈ names.map (space ++ ·) ↔ other ∈ names'.map (space ++ ·) :=
        (hperm.map _).mem_iff
      by_cases hother : other ∈ names.map (space ++ ·)
      · rw [if_pos hother, if_pos (hmem.1 hother)]
        exact .none
      · rw [if_neg hother, if_neg (mt hmem.2 hother)]
        exact h.stored other

end View

/-! ### Counting who has a policy -/

/-- The accesses of a search among assignments, if each of them is looked up without an error and
nothing else happens. -/
theorem Enclave.accesses_withPolicy_of_found {w : World Unit} {c : Context} {e : String}
    (policy : String) {names : List String} {found : String → Option Assignment}
    (hfound : ∀ n ∈ names, ((l.handle e).findAssignment (.ofText n)).attempt.run c w =
      (.ok (found n), w)) :
    ((l.handle e).withPolicy policy names).attempt.accesses c w =
      names.flatMap fun n => ((l.handle e).findAssignment (.ofText n)).attempt.accesses c w := by
  induction names with
  | nil => rfl
  | cons n names ih =>
      have hothers := fun m hm => hfound m (List.mem_cons_of_mem n hm)
      unfold withPolicy
      rw [Routine.accesses_bind, hfound n List.mem_cons_self, List.flatMap_cons]
      simp only
      rw [Routine.accesses_bind, run_withPolicy_of_found policy hothers, ih hothers]
      cases found n <;> exact congrArg _ (List.append_nil _)

section

variable {w v : World Unit} {c : Context} {e policy : String}

/-- A look-up through a namespace makes an access. -/
theorem Cabinet.mem_accesses_find? {α : Type} [Record α] {space name : String}
    (hname : name ≠ "") (w : World Unit) (c : Context) :
    ∃ a ∈ ((Cabinet.under space : Cabinet α).find? name).attempt.accesses c w,
      a.access = .get (space ++ name) := by
  refine ⟨⟨.get (space ++ name), errorOf (w.answer c (.get (space ++ name))).1⟩, ?_, rfl⟩
  have hview : ⟨.get (space ++ name), errorOf (w.answer c (.get (space ++ name))).1⟩ ∈
      ((View.under space .whole).get name).attempt.accesses c w := by
    unfold View.get
    rw [requireKey_of_ne hname]
    exact List.mem_append_left _ List.mem_cons_self
  unfold find? get
  change _ ∈ ((((View.under space .whole).get name) >>= _ : Routine α).attempt >>= _).accesses c w
  rw [Program.accesses_bind, Routine.accesses_bind]
  exact List.mem_append_left _ (List.mem_append_left _ hview)

namespace World.Mirrors

/-- An assignment is looked up without an error, if no file name is too long. -/
theorem exists_found (h : w.Mirrors o l v) (hlive : w.ended c = false) (he : ValidEnclaveName e)
    {i : Identity} (hi : i.isUnknown = true ∨ i.Valid)
    (hshort : ∀ a ∈ ((l.handle e).findAssignment i).attempt.accesses c w, a.access.Short) :
    ∃ found, ((l.handle e).findAssignment i).attempt.run c w = (.ok found, w) := by
  rcases hi with hunknown | hvalid
  · refine ⟨none, ?_⟩
    unfold Enclave.findAssignment
    rw [hunknown]
    rfl
  have hknown : i.isUnknown = false := by simpa [Identity.isUnknown] using hvalid.known
  have hlooks : ((l.handle e).findAssignment i).attempt =
      ((l.handle e).assignments.find? i.text).attempt := by
    unfold Enclave.findAssignment
    rw [hknown, Identity.check_eq_ok_iff.2 hvalid]
    rfl
  rw [hlooks] at hshort ⊢
  obtain ⟨a, ha, haccess⟩ : ∃ a ∈ ((l.handle e).assignments.find? i.text).attempt.accesses c w,
      a.access = .get (l.space .assignment e ++ i.text) :=
    Cabinet.mem_accesses_find? hvalid.known w c
  generalize hfull : l.space .assignment e ++ i.text = full at haccess
  have hshort : DataDir.Short full := hshort a ha full (by rw [haccess]; rfl)
  have hne : full ≠ "" := hfull ▸ append_ne_of_requireKey (requireKey_of_ne hvalid.known)
  have hget : w.backend.get (.steady false) full =
      (w.backend.stored? full).elim (.error (.notFound full)) .ok := h.tidy.get_eq hne hshort
  have hstored := h.stored full
  generalize hheld : w.backend.stored? full = x at hstored hget
  generalize v.backend.stored? full = y at hstored
  subst hfull
  cases hstored with
  | none => exact ⟨none, Cabinet.run_find?_of_missing hlive hvalid.known hget⟩
  | some hwritten =>
      obtain ⟨-, a, b, rfl, -, -⟩ := hwritten.owned_inv he
      exact ⟨some a, Cabinet.run_find?_of_record hlive hvalid.known
        (Backend.record?_eq_some_iff.2 ⟨_, hheld, Record.decode?_encode a⟩)⟩

/-- All assignments of a search are looked up without an error. -/
theorem exists_found_of_search (h : w.Mirrors o l v) (hlive : w.ended c = false)
    (he : ValidEnclaveName e) {names : List String}
    (hnames : ∀ n ∈ names, (Identity.ofText n).isUnknown = true ∨ (Identity.ofText n).Valid)
    (hshort : ∀ a ∈ ((l.handle e).withPolicy policy names).attempt.accesses c w,
      a.access.Short) :
    ∀ n ∈ names, ∃ found,
      ((l.handle e).findAssignment (.ofText n)).attempt.run c w = (.ok found, w) := by
  induction names with
  | nil => exact fun _ h => absurd h List.not_mem_nil
  | cons n names ih =>
      unfold Enclave.withPolicy at hshort
      rw [Routine.accesses_bind] at hshort
      obtain ⟨found, hfound⟩ := h.exists_found hlive he (hnames n List.mem_cons_self)
        fun a ha => hshort a (List.mem_append_left _ ha)
      rw [hfound] at hshort
      simp only at hshort
      have hrest := ih (fun m hm => hnames m (List.mem_cons_of_mem _ hm)) fun a ha => by
        refine hshort a (List.mem_append_right _ ?_)
        rw [Routine.accesses_bind]
        exact List.mem_append_left _ ha
      intro m hm
      rcases List.mem_cons.1 hm with rfl | hm
      · exact ⟨found, hfound⟩
      · exact hrest m hm

/-- The names of assignments are texts of valid identities. -/
theorem valid_of_stored (h : w.Mirrors o l v) (he : ValidEnclaveName e) {n : String}
    (hheld : (w.backend.stored? (l.space .assignment e ++ n)).isSome) : Identity.Valid ⟨n⟩ := by
  have hstored := h.stored (l.space .assignment e ++ n)
  generalize w.backend.stored? (l.space .assignment e ++ n) = x at hheld hstored
  generalize v.backend.stored? (l.space .assignment e ++ n) = y at hstored
  cases hstored with
  | none => cases hheld
  | some hwritten =>
      obtain ⟨⟨i, rfl, hvalid⟩, -⟩ := hwritten.owned_inv he
      exact hvalid

end World.Mirrors

end

namespace World

open Routine (Matches EndsAlike)

/-- As many identities have a policy in both worlds. -/
theorem mirror_users (htimes : o.times = false) {e : String} (he : ValidEnclaveName e)
    (policy : String) :
    ((l.handle e).identitiesWithPolicy policy).Matches (mirror o l)
      (fun a b => a.length = b.length) ((l.handle e).identitiesWithPolicy policy) := by
  intro c w v h hcovered
  have hmirrors : w.Mirrors o l v := h
  unfold Enclave.identitiesWithPolicy at hcovered ⊢
  cases hlive : w.ended c with
  | true =>
      have hended {u : World Unit} (hu : u.ended c = true) :
          ((l.handle e).assignments.list "*").attempt.run c u = (.error .canceled, u) :=
        View.run_list_of_ended hu _ "*"
      rw [Routine.run_bind, Routine.run_bind, hended hlive,
        hended ((hmirrors.ended c).trans hlive)]
      exact ⟨rfl, h⟩
  | false =>
      obtain ⟨names, names', hw, hv, hnodup, hperm, hheld⟩ :=
        hmirrors.run_list hlive (l.space .assignment e) "*"
      have hw : ((l.handle e).assignments.list "*").attempt.run c w = (.ok names, w) := hw
      have hv : ((l.handle e).assignments.list "*").attempt.run c v = (.ok names', v) := hv
      rw [Routine.accesses_bind, hw] at hcovered
      have hsearch := fun a ha => hcovered a (List.mem_append_right _ ha)
      have hexists := hmirrors.exists_found_of_search hlive he (fun n hn =>
        Identity.valid_ofText (hmirrors.valid_of_stored he (hheld n hn).2)) hsearch
      choose! found hfound using hexists
      have hfound' := fun n hn => hfound n (hperm.mem_iff.2 hn)
      have hrun := Enclave.run_withPolicy_of_found policy hfound
      have hrun' := Enclave.run_withPolicy_of_found policy hfound'
      -- in the first world the search gives the same in the other order, with the same accesses
      obtain ⟨hends, hholds⟩ := Enclave.matches_withPolicy (mirror_sound htimes l) he policy names'
        c w v h fun a ha => by
          rw [Enclave.accesses_withPolicy_of_found policy hfound', List.mem_flatMap] at ha
          obtain ⟨n, hn, ha⟩ := ha
          refine hsearch a ?_
          change a ∈ ((l.handle e).withPolicy policy names).attempt.accesses c w
          rw [Enclave.accesses_withPolicy_of_found policy hfound]
          exact List.mem_flatMap.2 ⟨n, hperm.mem_iff.2 hn, ha⟩
      rw [hrun'] at hends hholds
      rw [Routine.run_bind, Routine.run_bind, hw, hv]
      simp only [hrun]
      refine ⟨?_, hholds⟩
      rw [← hends.eq]
      change List.length _ = List.length _
      rw [List.length_map, List.length_map]
      exact (hperm.filter _).length_eq

/-- **Worlds that mirror each other go on doing so**, and all that goes on in them is alike. -/
theorem mirror_whole (htimes : o.times = false) (l : Layout) : (mirror o l).Whole o l where
  toSound := mirror_sound htimes l
  list space pattern := by
    intro c w v h _
    have hmirrors : w.Mirrors o l v := h
    cases hlive : w.ended c with
    | true =>
        rw [View.run_list_of_ended hlive, View.run_list_of_ended ((hmirrors.ended c).trans hlive)]
        exact ⟨rfl, h⟩
    | false =>
        obtain ⟨names, names', hw, hv, -, hperm, -⟩ := hmirrors.run_list hlive space pattern
        rw [hw, hv]
        exact ⟨hperm, h⟩
  users e policy he := mirror_users htimes he policy
  purge kind e _ := by
    intro c w v h _
    exact View.run_purge_mirrored h c _
  surroundings w v h := by
    have hmirrors : w.Mirrors o l v := h
    exact ⟨hmirrors.tokens, hmirrors.now⟩
  shift w v tokens now h := by
    have hmirrors : w.Mirrors o l v := h
    exact ⟨hmirrors.tidy, hmirrors.tidy', hmirrors.stored, rfl, rfl, hmirrors.eventIds,
      hmirrors.events, hmirrors.trail⟩

end World

end KeyCustody
