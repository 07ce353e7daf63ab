import KeyCustody.Proofs.Histories
import KeyCustody.Proofs.WellFormed

/-!
# New enclaves and their past

An enclave is emptied before it is registered, so that it starts without the records of an
earlier enclave of the same name.  But whoever stores a record looks for the registration first
and stores later.  If in between the enclave is removed, and registered again, then the record
lands in an enclave that its writer never saw.  Emptying an enclave does not help against
records that are stored after its names were listed.

This is the only way for a new enclave to hold a record from before.  All that it holds was
stored after its names were listed, by calls that had found it registered (`Checked`); and it has
a past if and only if one of these calls was overtaken by the registration (`Overtaken`).  Main
statements:

* `Registry.told_create`: whoever registers an enclave has emptied its namespaces;
* `Logged.exists_checked`: whoever stores a record had found the enclave registered;
* `Service.without_past_iff`: when a new enclave starts without a past;
* `Service.past_returns`: a run in which it does not.
-/

namespace KeyCustody

/-! ### Emptying an enclave -/

/-- The exchanges list the namespace, and then remove every name that was listed. -/
def Emptied (space : String) (told : List Exchange) : Prop :=
  ∃ earlier names later, told = earlier ++ ⟨.list (space ++ "*"), .ok names⟩ :: later ∧
    ∀ n, n ≠ "" → space ++ n ∈ names → ⟨.delete (space ++ n), .ok ()⟩ ∈ later

section Emptied

variable {space : String} {told : List Exchange}

theorem Emptied.append (h : Emptied space told) (more : List Exchange) :
    Emptied space (told ++ more) := by
  obtain ⟨earlier, names, later, rfl, hremoved⟩ := h
  refine ⟨earlier, names, later ++ more, by simp, fun n hn hname => ?_⟩
  exact List.mem_append_left more (hremoved n hn hname)

theorem Emptied.after (h : Emptied space told) (before : List Exchange) :
    Emptied space (before ++ told) := by
  obtain ⟨earlier, names, later, rfl, hremoved⟩ := h
  exact ⟨before ++ earlier, names, later, by simp, hremoved⟩

end Emptied

namespace View

variable {space : String} {told : List Exchange}

/-- A removal that succeeds is one request. -/
theorem told_delete {name : String}
    (h : ((View.under space .whole).delete name).attempt.Told told (.done (.ok ()))) :
    told = [⟨.delete (space ++ name), .ok ()⟩] := by
  rw [delete_attempt] at h
  cases hkey : requireKey name with
  | error e =>
      rw [hkey] at h
      cases h
  | ok _ =>
      rw [hkey] at h
      cases h with
      | answer x hrest =>
          cases hrest
          rfl

/-- A creation that succeeds is one request. -/
theorem told_create {name : String} {value : Bytes}
    (h : ((View.under space .whole).create name value).attempt.Told told (.done (.ok ()))) :
    told = [⟨.create (space ++ name) value, .ok ()⟩] := by
  rw [create_attempt] at h
  cases hkey : requireKey name with
  | error e =>
      rw [hkey] at h
      cases h
  | ok _ =>
      rw [hkey] at h
      cases h with
      | answer x hrest =>
          cases x with
          | error e => cases hrest
          | ok _ =>
              cases hrest
              rfl

/-- If nothing failed, then all names of the list were removed. -/
theorem told_deleteAll {names : List String}
    (h : ((View.under space .whole).deleteAll names).Told told (.done none)) :
    ∀ name ∈ names, ⟨.delete (space ++ name), .ok ()⟩ ∈ told := by
  induction names generalizing told with
  | nil => simp
  | cons name names ih =>
      unfold deleteAll at h
      obtain ⟨first, _, r, rfl, hfirst, hrest⟩ := h.bind_done
      obtain ⟨second, _, more, rfl, hsecond, hlast⟩ := hrest.bind_done
      generalize hend : firstError (errorOf r) more = failure at hlast
      cases hlast
      obtain ⟨hr, rfl⟩ := firstError_eq_none.1 hend
      cases r with
      | error e => cases hr
      | ok _ =>
          obtain rfl := told_delete hfirst
          intro other hother
          rcases List.mem_cons.1 hother with rfl | hlater
          · exact List.mem_cons_self
          · exact List.mem_append_right _ (List.mem_append_left _ (ih hsecond other hlater))

/-- **A purge that succeeds** has emptied the namespace. -/
theorem emptied_of_purge (h : (View.under space .whole).purge.Told told (.done none)) :
    Emptied space told := by
  rw [purge_eq] at h
  cases h with
  | @answer _ _ later _ x hrest =>
      cases x with
      | error e => cases hrest
      | ok names =>
          refine ⟨[], names, later, rfl, fun n hn hname => ?_⟩
          refine told_deleteAll hrest n (List.mem_filterMap.2 ⟨_, hname, ?_⟩)
          exact strip_eq_some_iff.2 ⟨rfl, hn⟩

end View

namespace Registry

variable {l : Layout} {e : String} {told : List Exchange}

/-- If no purge failed, then all of the namespaces were emptied. -/
theorem emptied_of_purgeSpaces {spaces : List String} {earlier : Option Error}
    (hspaces : ∀ space ∈ spaces, Glob.hasMeta space = false)
    (h : (purgeSpaces earlier spaces).attempt.Told told (.done (.ok none))) :
    earlier = none ∧ ∀ space ∈ spaces, Emptied space told := by
  induction spaces generalizing earlier told with
  | nil =>
      cases h
      simp
  | cons first spaces ih =>
      rw [purgeSpaces_cons (hspaces first List.mem_cons_self)] at h
      obtain ⟨begun, rest, failure, rfl, hfirst, hrest⟩ := h.bind_done
      obtain ⟨hnone, hemptied⟩ := ih (fun s hs => hspaces s (List.mem_cons_of_mem _ hs)) hrest
      obtain ⟨rfl, rfl⟩ := firstError_eq_none.1 hnone
      refine ⟨rfl, fun space hspace => ?_⟩
      rcases List.mem_cons.1 hspace with rfl | hlater
      · exact (View.emptied_of_purge hfirst).append rest
      · exact (hemptied space hlater).after begun

theorem emptied_of_purge (hplain : Glob.hasMeta l.root = false) (he : ValidName e)
    (h : (l.catalog.purge e).attempt.Told told (.done (.ok ()))) (kind : RecordKind) :
    Emptied (l.space kind e) told := by
  unfold purge at h
  obtain ⟨begun, rest, failure, rfl, hbegun, hrest⟩ := Routine.told_bind_ok h
  cases failure with
  | some err => cases hrest
  | none =>
      have hemptied := (emptied_of_purgeSpaces (hasMeta_of_mem_spaces hplain he) hbegun).2
      exact (hemptied _ (mem_spaces l kind e)).append rest

/-- **Whoever registers an enclave** has emptied its namespaces, and then stored its
registration. -/
theorem told_create (hplain : Glob.hasMeta l.root = false) {creator : Identity}
    {info : EnclaveInfo} (h : (l.catalog.create e creator).attempt.Told told (.done (.ok info))) :
    ValidEnclaveName e ∧ ∃ (registration : Registration) (before : List Exchange),
      info = registration.info e ∧
        told = before ++ [⟨.create (l.record e) (Record.encode registration), .ok ()⟩] ∧
        ∀ kind, Emptied (l.space kind e) before := by
  unfold create at h
  obtain ⟨_, _, _, rfl, hcheck, hlook⟩ := Routine.told_bind_ok h
  obtain ⟨rfl, hpassed⟩ := Routine.told_ofExcept hcheck
  have he := checkEnclaveName_eq_ok_iff.1 hpassed
  obtain ⟨looked, _, found, rfl, -, hfound⟩ := Routine.told_bind_ok hlook
  cases found with
  | some g => cases hfound
  | none =>
      obtain ⟨purged, _, _, rfl, hpurged, htime⟩ := Routine.told_bind_ok hfound
      obtain ⟨timed, _, time, rfl, -, hcreate⟩ := Routine.told_bind_ok htime
      obtain ⟨_, _, _, rfl, hcreated, hend⟩ := Routine.told_bind_ok hcreate
      obtain rfl := View.told_create (Routine.told_mapError hcreated)
      cases hend
      refine ⟨he, ⟨time, creator⟩, looked ++ purged ++ timed, rfl, ?_, fun kind => ?_⟩
      · simp only [List.nil_append, List.append_nil, List.append_assoc]
        rfl
      · have hemptied := emptied_of_purge hplain he.toValidName hpurged kind
        exact (hemptied.after looked).append timed

end Registry

/-- **A call that registers an enclave** has emptied its namespaces before. -/
theorem Service.told_createEnclave {s : Service} {l : Layout} (hover : s.Over l)
    {caller : Identity} {enclave e : String} {reply : Reply} {told : List Exchange}
    (h : (s.perform caller enclave (.createEnclave e)).attempt.Told told (.done (.ok reply))) :
    ValidEnclaveName e ∧ ∃ (registration : Registration) (before after : List Exchange),
      reply = .enclave (registration.info e) ∧
        told = before ++ ⟨.create (l.record e) (Record.encode registration), .ok ()⟩ :: after ∧
        ∀ kind, Emptied (l.space kind e) before := by
  obtain ⟨done, reported, outcome, rfl, hdone, hreport⟩ := h.bind_done
  obtain rfl : outcome = .ok reply := by
    obtain ⟨_, _, id, rfl, -, hid⟩ := hreport.bind_done
    obtain ⟨_, _, time, rfl, -, htime⟩ := hid.bind_done
    obtain ⟨_, _, _, rfl, -, hend⟩ := htime.bind_done
    cases hend
    rfl
  obtain ⟨gated, body, handle, rfl, -, hbody⟩ := Routine.told_bind_ok hdone
  obtain ⟨created, _, info, rfl, hcreated, hend⟩ := Routine.told_bind_ok hbody
  cases hend
  rw [hover.registry_eq] at hcreated
  obtain ⟨he, registration, before, rfl, rfl, hemptied⟩ :=
    Registry.told_create hover.plain hcreated
  refine ⟨he, registration, gated ++ before, reported, rfl, ?_, fun kind => ?_⟩
  · simp
  · exact (hemptied kind).after gated

/-! ### Emptied namespaces -/

/-- At a moment of the log the strand listed the namespace, and later it removed every name that
it was told. -/
def EmptiedSince (log : List Entry) (i : Nat) (space : String) (q : Nat) : Prop :=
  ∃ names, log[q]? = some (i, ⟨.list (space ++ "*"), .ok names⟩) ∧
    ∀ n, n ≠ "" → space ++ n ∈ names →
      ∃ q', q < q' ∧ log[q']? = some (i, ⟨.delete (space ++ n), .ok ()⟩)

/-- What a strand was told stands in the log. -/
theorem Emptied.exists_since {log : List Entry} {i p : Nat} {space : String}
    (h : Emptied space (own i (log.take p))) : ∃ q, q < p ∧ EmptiedSince log i space q := by
  obtain ⟨earlier, names, later, htold, hremoved⟩ := h
  obtain ⟨q, hq, -, hlater⟩ := exists_getElem?_of_own htold
  obtain ⟨hlt, hlisted⟩ := getElem?_of_take hq
  refine ⟨q, hlt, names, hlisted, fun n hn hname => ?_⟩
  have hmem := hremoved n hn hname
  rw [← hlater, mem_own] at hmem
  obtain ⟨d, hd⟩ := List.mem_iff_getElem?.1 hmem
  rw [List.getElem?_drop] at hd
  exact ⟨q + 1 + d, by omega, (getElem?_of_take hd).2⟩

section Emptying

variable {α σ : Type} [Mishaps σ] {ss₀ ss : List (Strand α)} {w₀ w : World σ}
  {log : List Entry} {i q : Nat} {space n : String} {value : Bytes}

/-- What was there when a namespace was listed was removed later. -/
theorem Logged.removed_of_held (h : Logged ss₀ w₀ log ss w) (hspace : Glob.hasMeta space = false)
    (hemptied : EmptiedSince log i space q) :
    ∃ ss₁ w₁, Logged ss₀ w₀ (log.take q) ss₁ w₁ ∧ ∀ n value, n ≠ "" →
      w₁.backend.stored? (space ++ n) = some value →
        ∃ q', q < q' ∧ log[q']? = some (i, ⟨.delete (space ++ n), .ok ()⟩) := by
  obtain ⟨names, hlisted, hremoved⟩ := hemptied
  obtain ⟨ss₁, w₁, c, next, hbefore, -, hanswer⟩ := h.moment hlisted
  refine ⟨ss₁, w₁, hbefore, fun n value hn hheld => hremoved n hn ?_⟩
  obtain ⟨listed, hnames, hmem⟩ := Backend.exists_listed (Glob.accepts_all hspace n) hheld
  rcases w₁.list_cases c (space ++ "*") with ⟨err, hfailed⟩ | hgiven
  · cases hanswer.symm.trans hfailed
  · exact Except.ok.inj (hnames.symm.trans (hgiven.symm.trans hanswer)) ▸ hmem

/-- What is kept was stored after the namespace was listed. -/
theorem Logged.lt_of_kept (h : Logged ss₀ w₀ log ss w) (hspace : Glob.hasMeta space = false)
    (hemptied : EmptiedSince log i space q) (hn : n ≠ "") {j q' : Nat}
    (hkept : Kept log (space ++ n) value j q') : q < q' := by
  rcases Nat.lt_trichotomy q q' with hlt | rfl | hgt
  · exact hlt
  · obtain ⟨names, hlisted, -⟩ := hemptied
    cases hlisted.symm.trans hkept.stored
  · obtain ⟨ss₁, w₁, hbefore, hremoved⟩ := h.removed_of_held hspace hemptied
    have hheld := hbefore.stored?_of_kept (hkept.take hgt)
    obtain ⟨q'', hlater, hdelete⟩ := hremoved n value hn hheld
    exact absurd hdelete (hkept.left i q'' (hgt.trans hlater))

/-- **What an emptied namespace holds** was stored by somebody since the start. -/
theorem Logged.stored?_iff_of_emptied (h : Logged ss₀ w₀ log ss w)
    (hspace : Glob.hasMeta space = false) (hemptied : EmptiedSince log i space q) (hn : n ≠ "") :
    w.backend.stored? (space ++ n) = some value ↔
      ∃ j q', Kept log (space ++ n) value j q' := by
  refine ⟨fun hheld => ?_, fun ⟨j, q', hkept⟩ => h.stored?_of_kept hkept⟩
  rcases h.stored?_iff.1 hheld with hkept | ⟨hstart, hleft⟩
  · exact hkept
  · -- what was there at the start was still there when the namespace was listed
    obtain ⟨ss₁, w₁, hbefore, hremoved⟩ := h.removed_of_held hspace hemptied
    have hthere : w₁.backend.stored? (space ++ n) = some value :=
      hbefore.stored?_iff.2 (.inr ⟨hstart, fun k hk => hleft k (List.mem_of_mem_take hk)⟩)
    obtain ⟨q', -, hdelete⟩ := hremoved n value hn hthere
    exact absurd (List.mem_iff_getElem?.2 ⟨q', hdelete⟩) (hleft i)

end Emptying

/-! ### Storing a record -/

/-- The contract of storing nothing in an enclave before it was found registered. -/
def Contract.seeking (l : Layout) (e : String) : Contract where
  allows r := ∀ kind n, ¬ r.Creates (l.space kind e ++ n)
  assumes
    | .get name, .ok value =>
      name = l.record e → (Record.decode? value : Option Registration) = none
    | _, _ => True

/-- An answer that is not as assumed finds the enclave registered. -/
theorem Contract.found_of_not_assumed {l : Layout} {e : String} {x : Exchange}
    (hbroken : ¬ (Contract.seeking l e).assumes x.1 x.2) :
    ∃ (registration : Registration) (value : Bytes), Record.decode? value = some registration ∧
      x = ⟨.get (l.record e), .ok value⟩ := by
  obtain ⟨r, answer⟩ := x
  cases r with
  | get name =>
      cases answer with
      | error err => exact absurd trivial hbroken
      | ok value =>
          obtain ⟨rfl, hdecoded⟩ := Classical.not_imp.1 hbroken
          obtain ⟨registration, hsome⟩ := Option.ne_none_iff_exists'.1 hdecoded
          exact ⟨registration, value, hsome, rfl⟩
  | _ => exact absurd trivial hbroken

namespace Service

variable {l : Layout} {e root : String}

/-- No call stores anything in an enclave before it found the enclave registered. -/
theorem seeks_of_callAsks {s : Service} {caller : Identity} {call : Call} {r : Request}
    (he : ValidEnclaveName e) (hasks : CallAsks (.seeking l e) s l caller call r) :
    (Contract.seeking l e).allows r := by
  cases r with
  | create full value =>
      rintro kind n rfl
      have hany : s.AssignsOnly (fun _ => True) call := fun _ _ _ _ _ _ _ _ => trivial
      have hcreates := creates_of_callAsks hany hasks
      generalize hfull : l.space kind e ++ n = full at hcreates
      cases hcreates with
      | registration => exact Layout.record_ne_space_append _ _ _ _ _ hfull.symm
      | owned _ hheld hvalid =>
          obtain ⟨-, rfl, -⟩ :=
            Layout.space_append_inj he.toValidName hvalid.toValidName hfull
          obtain ⟨bytes, hassumed, hdecoded⟩ := hheld
          cases (hassumed rfl).symm.trans hdecoded
  | _ => exact fun _ _ => id

/-- A program of a call of a service with the prefix, before its first request. -/
inductive Begun (root : String) : Program (Except Error Reply) → Prop
  | call {settings : Settings} {s : Service} {caller : Identity} {call : Call}
      {p : Program (Except Error Reply)} (rooted : settings.keyPrefix = root)
      (made : ofSettings settings = .ok s) (begun : p ∈ s.programs caller call) : Begun root p

end Service

/-- Before a strand stored something at one moment of the log, it had found the enclave
registered at another. -/
structure Checked (l : Layout) (e : String) (log : List Entry) (j stored found : Nat) :
    Prop where
  earlier : found < stored
  registered : ∃ (registration : Registration) (value : Bytes),
    Record.decode? value = some registration ∧
      log[found]? = some (j, ⟨.get (l.record e), .ok value⟩)

section Checked

variable {σ : Type} [Mishaps σ] {ss₀ ss : List (Strand (Except Error Reply))} {w₀ w : World σ}
  {log : List Entry} {root e : String}

/-- **Whoever stores a record** of an enclave had found the enclave registered. -/
theorem Logged.exists_checked (h : Logged ss₀ w₀ log ss w)
    (hbegun : ∀ t ∈ ss₀, Service.Begun root t.program) (he : ValidEnclaveName e)
    {kind : RecordKind} {n : String} {value : Bytes} {j q : Nat}
    (hstored : log[q]? =
      some (j, ⟨.create (Layout.space ⟨root⟩ kind e ++ n) value, .ok ()⟩)) :
    ∃ found, Checked ⟨root⟩ e log j q found := by
  obtain ⟨ss₁, w₁, c, next, hbefore, hj, -⟩ := h.moment hstored
  obtain ⟨p, hp, htold⟩ := hbefore.told hj
  have hseeks : p.Keeps (.seeking ⟨root⟩ e) fun _ => True := by
    cases hbegun _ (List.mem_of_getElem? hp) with
    | call hroot hmade hprogram =>
        subst hroot
        exact Service.keeps_programs (Service.over_of_ofSettings hmade)
          (fun _ => Service.seeks_of_callAsks he) hprogram
  -- otherwise it would still be waiting for an answer that tells of the registration
  obtain ⟨x, hx, hbroken⟩ : ∃ x ∈ own j (log.take q),
      ¬ (Contract.seeking ⟨root⟩ e).assumes x.1 x.2 := by
    by_contra hnone
    have hassumed : ∀ x ∈ own j (log.take q), (Contract.seeking ⟨root⟩ e).assumes x.1 x.2 :=
      fun x hx => Classical.byContradiction fun hbroken => hnone ⟨x, hx, hbroken⟩
    exact (hseeks.of_told htold hassumed).1 kind n rfl
  obtain ⟨registration, bytes, hdecoded, rfl⟩ := Contract.found_of_not_assumed hbroken
  obtain ⟨found, hfound⟩ := List.mem_iff_getElem?.1 (mem_own.1 hx)
  obtain ⟨hlt, hlogged⟩ := getElem?_of_take hfound
  exact ⟨found, hlt, registration, bytes, hdecoded, hlogged⟩

end Checked

/-! ### What a new enclave holds -/

/-- Since a moment of the log the enclave has no past: whatever it holds was stored by somebody
who had found it registered after that moment. -/
def WithoutPast {σ : Type} (l : Layout) (e : String) (log : List Entry) (w : World σ)
    (since : Nat) : Prop :=
  ∀ kind n value, n ≠ "" → w.backend.stored? (l.space kind e ++ n) = some value →
    ∃ j q found, Kept log (l.space kind e ++ n) value j q ∧ since < found ∧
      Checked l e log j q found

/-- A registration overtook the strand that stored something at a moment of the log.  The strand
had found the enclave registered, but only before the registration, and it stored after the
names were listed that were removed for the registration. -/
structure Overtaken (l : Layout) (e : String) (log : List Entry) (listed registered j q : Nat) :
    Prop where
  late : listed < q
  checked : ∃ found, Checked l e log j q found
  early : ∀ found, Checked l e log j q found → found < registered

namespace Service

variable {σ : Type} [Mishaps σ] {ss₀ ss : List (Strand (Except Error Reply))} {w₀ w : World σ}
  {log : List Entry}

/-- **New enclaves and their past.**  Calls of services with one prefix over one store take turns
in any order, whatever fails, and one of them reports that it registered an enclave.  Then it
stored the registration that it reports at some moment, and before that moment it listed each
namespace of the enclave, and removed all that it was told.  From then on the enclave holds
exactly what was stored after the listing, by calls that had found the enclave registered, and
was not removed since.  And the enclave has no past if and only if none of these calls was
overtaken by the registration. -/
theorem without_past_iff {settings : Settings} {s : Service} (hmade : ofSettings settings = .ok s)
    {c : Context} {caller : Identity} {enclave e : String} {i : Nat} {reply : Reply}
    (hbegun : ∀ t ∈ ss₀, Begun settings.keyPrefix t.program)
    (hstart : ss₀[i]? = some ⟨c, (s.perform caller enclave (.createEnclave e)).attempt⟩)
    (hrun : Logged ss₀ w₀ log ss w) (hend : valueAt? ss i = some (.ok reply)) :
    let l : Layout := ⟨settings.keyPrefix⟩
    ∃ (registration : Registration) (registered : Nat) (listed : RecordKind → Nat),
      reply = .enclave (registration.info e) ∧
      log[registered]? = some (i, ⟨.create (l.record e) (Record.encode registration), .ok ()⟩) ∧
      (∀ kind, listed kind < registered ∧
        EmptiedSince log i (l.space kind e) (listed kind)) ∧
      (∀ kind n value, n ≠ "" → (w.backend.stored? (l.space kind e ++ n) = some value ↔
        ∃ j q, Kept log (l.space kind e ++ n) value j q ∧ listed kind < q ∧
          ∃ found, Checked l e log j q found)) ∧
      (WithoutPast l e log w registered ↔ ∀ kind n value j q, n ≠ "" →
        Kept log (l.space kind e ++ n) value j q →
          ¬ Overtaken l e log (listed kind) registered j q) := by
  intro l
  have hover := over_of_ofSettings hmade
  obtain ⟨t, hi, hvalue⟩ := Option.bind_eq_some_iff.1 hend
  obtain ⟨p, hp, htold⟩ := hrun.told hi
  rw [Strand.value?_eq_some_iff.1 hvalue] at htold
  obtain ⟨-, rfl⟩ := Strand.mk.inj (Option.some.inj (hstart.symm.trans hp))
  obtain ⟨he, registration, before, after, hreply, hown, hemptied⟩ :=
    told_createEnclave hover htold
  obtain ⟨registered, hregistered, rfl, -⟩ := exists_getElem?_of_own hown
  obtain ⟨listed, hlisted⟩ :=
    Classical.axiomOfChoice fun kind => (hemptied kind).exists_since
  have hspace (kind : RecordKind) : Glob.hasMeta (l.space kind e) = false :=
    Layout.hasMeta_space hover.plain he.toValidName kind
  have hlate {kind : RecordKind} {n : String} {value : Bytes} {j q : Nat} (hn : n ≠ "")
      (hkept : Kept log (l.space kind e ++ n) value j q) : listed kind < q :=
    hrun.lt_of_kept (hspace kind) (hlisted kind).2 hn hkept
  have hchecked {kind : RecordKind} {n : String} {value : Bytes} {j q : Nat}
      (hkept : Kept log (l.space kind e ++ n) value j q) :
      ∃ found, Checked l e log j q found :=
    hrun.exists_checked hbegun he hkept.stored
  refine ⟨registration, registered, listed, hreply, hregistered, hlisted, ?_, ?_, ?_⟩
  · intro kind n value hn
    rw [hrun.stored?_iff_of_emptied (hspace kind) (hlisted kind).2 hn]
    constructor
    · rintro ⟨j, q, hkept⟩
      exact ⟨j, q, hkept, hlate hn hkept, hchecked hkept⟩
    · rintro ⟨j, q, hkept, -⟩
      exact ⟨j, q, hkept⟩
  · intro hpast kind n value j q hn hkept hovertaken
    obtain ⟨j', q', found, hkept', hsince, hfound⟩ :=
      hpast kind n value hn (hrun.stored?_of_kept hkept)
    obtain ⟨rfl, rfl⟩ := hrun.kept_unique hkept hkept'
    have hearly := hovertaken.early found hfound
    omega
  · intro hnone kind n value hn hheld
    obtain ⟨j, q, hkept⟩ :=
      (hrun.stored?_iff_of_emptied (hspace kind) (hlisted kind).2 hn).1 hheld
    by_contra hpast
    refine hnone kind n value j q hn hkept ⟨hlate hn hkept, hchecked hkept, fun found hfound => ?_⟩
    rcases Nat.lt_trichotomy found registered with hlt | rfl | hgt
    · exact hlt
    · -- what was asked at the moment of the registration is no look-up
      obtain ⟨_, _, -, hlooked⟩ := hfound.registered
      cases hlooked.symm.trans hregistered
    · exact absurd ⟨j, q, found, hkept, hgt, hfound⟩ hpast

/-- In a run in which a key is created in an enclave that is removed and registered meanwhile. -/
theorem without_past_iff_overtaken :
    let s : Service := ⟨Layout.catalog ⟨""⟩, .ofAdmin (some ⟨"root"⟩), "default", 30⟩
    let time := (World.calm (.memory .empty)).clock 0
    let old := Record.encode (⟨time, ⟨"root"⟩⟩ : Registration)
    let b : Backend :=
      .memory ((Table.empty.insert "sys/enclaves/default" old).insert "sys/enclaves/e" old)
    let call (enclave : String) (c : Command) : Strand (Except Error Reply) :=
      ⟨.ofToken [], (s.perform ⟨"root"⟩ enclave c).attempt⟩
    let calls := [call "e" (.createKey "n" [7]), call "" (.deleteEnclave "e"),
      call "" (.createEnclave "e")]
    let l : Layout := ⟨""⟩
    ∃ log ss w reply, Logged calls (.calm b) log ss w ∧ valueAt? ss 2 = some (.ok reply) ∧
      ∃ (registration : Registration) (registered : Nat) (listed : RecordKind → Nat),
        reply = .enclave (registration.info "e") ∧
        log[registered]? =
          some (2, ⟨.create (l.record "e") (Record.encode registration), .ok ()⟩) ∧
        (∀ kind, listed kind < registered ∧
          EmptiedSince log 2 (l.space kind "e") (listed kind)) ∧
        (∀ kind n value, n ≠ "" → (w.backend.stored? (l.space kind "e" ++ n) = some value ↔
          ∃ j q, Kept log (l.space kind "e" ++ n) value j q ∧ listed kind < q ∧
            ∃ found, Checked l "e" log j q found)) ∧
        (WithoutPast l "e" log w registered ↔ ∀ kind n value j q, n ≠ "" →
          Kept log (l.space kind "e" ++ n) value j q →
            ¬ Overtaken l "e" log (listed kind) registered j q) := by
  intro s time old b call calls l
  have hmade : ofSettings { Settings.default with admin := some ⟨"root"⟩ } = .ok s := rfl
  have hcall (enclave : String) (c : Command) : Begun "" (call enclave c).program := by
    have hprogram : (call enclave c).program ∈ s.programs ⟨"root"⟩ (.command enclave c) :=
      List.mem_singleton_self _
    exact .call rfl hmade hprogram
  have hbegun : ∀ t ∈ calls, Begun "" t.program := by
    simp only [calls, List.forall_mem_cons, List.not_mem_nil, IsEmpty.forall_iff, implies_true,
      and_true]
    exact ⟨hcall _ _, hcall _ _, hcall _ _⟩
  have hstart : calls[2]? =
      some ⟨.ofToken [], (s.perform ⟨"root"⟩ "" (.createEnclave "e")).attempt⟩ := rfl
  let turns := [0, 0, 0] ++ List.replicate 20 1 ++ List.replicate 20 2 ++ List.replicate 20 0
  have hrun : Logged calls (.calm b) ([] ++ logTurns turns calls (.calm b))
      (takeTurns turns calls (.calm b)).1 (takeTurns turns calls (.calm b)).2 :=
    Logged.start.takeTurns turns
  have hend : valueAt? (takeTurns turns calls (.calm b)).1 2 =
      some (.ok (.enclave ⟨"e", time, ⟨"root"⟩⟩)) := by decide +kernel
  exact ⟨_, _, _, _, hrun, hend, without_past_iff hmade hbegun hstart hrun hend⟩

/-- A call that creates a key finds its enclave registered and waits.  The enclave is removed
and registered again.  Then the call goes on, and stores its key: the new enclave holds it, and
has a past. -/
theorem past_returns :
    let settings := { Settings.default with admin := some ⟨"root"⟩ }
    let s : Service := ⟨Layout.catalog ⟨""⟩, .ofAdmin (some ⟨"root"⟩), "default", 30⟩
    let time := (World.calm (.memory .empty)).clock 0
    let registration : Registration := ⟨time, ⟨"root"⟩⟩
    let b : Backend := .memory ((Table.empty.insert "sys/enclaves/default"
      (Record.encode registration)).insert "sys/enclaves/e" (Record.encode registration))
    let call (enclave : String) (c : Command) : Strand (Except Error Reply) :=
      ⟨.ofToken [], (s.perform ⟨"root"⟩ enclave c).attempt⟩
    let calls := [call "e" (.createKey "n" [7]), call "" (.deleteEnclave "e"),
      call "" (.createEnclave "e")]
    ofSettings settings = .ok s ∧ ∃ log ss w listed registered q,
      Logged calls (.calm b) log ss w ∧
      valueAt? ss 0 = some (.ok (.keyInfo ⟨"n", time, ⟨"root"⟩⟩)) ∧
      valueAt? ss 1 = some (.ok .done) ∧
      valueAt? ss 2 = some (.ok (.enclave (registration.info "e"))) ∧
      log[registered]? =
        some (2, ⟨.create "sys/enclaves/e" (Record.encode registration), .ok ()⟩) ∧
      w.backend.stored? "enclaves/e/keys/n" =
        some (Record.encode (⟨[7], time, ⟨"root"⟩⟩ : SealedKey)) ∧
      Kept log "enclaves/e/keys/n" (Record.encode (⟨[7], time, ⟨"root"⟩⟩ : SealedKey)) 0 q ∧
      Overtaken ⟨""⟩ "e" log listed registered 0 q ∧
      ¬ WithoutPast ⟨""⟩ "e" log w registered := by
  intro settings s time registration b call calls
  have hmade : ofSettings { Settings.default with admin := some ⟨"root"⟩ } = .ok s := rfl
  let turns := [0, 0, 0] ++ List.replicate 20 1 ++ List.replicate 20 2 ++ List.replicate 20 0
  let log := logTurns turns calls (.calm b)
  have hrun : Logged calls (.calm b) log (takeTurns turns calls (.calm b)).1
      (takeTurns turns calls (.calm b)).2 := Logged.start.takeTurns turns
  obtain ⟨hcreated, hdeleted, hregistered, hstored⟩ :
      valueAt? (takeTurns turns calls (.calm b)).1 0 =
          some (.ok (.keyInfo ⟨"n", time, ⟨"root"⟩⟩)) ∧
        valueAt? (takeTurns turns calls (.calm b)).1 1 = some (.ok .done) ∧
        valueAt? (takeTurns turns calls (.calm b)).1 2 =
          some (.ok (.enclave (registration.info "e"))) ∧
        (takeTurns turns calls (.calm b)).2.backend.stored? "enclaves/e/keys/n" =
          some (Record.encode (⟨[7], time, ⟨"root"⟩⟩ : SealedKey)) := by decide +kernel
  -- once the enclave is registered anew, at moment 18, nobody looks for its registration
  obtain ⟨hfound, hrecord, hkey, hquiet⟩ :
      log[1]? = some (0, ⟨.get "sys/enclaves/e", .ok (Record.encode registration)⟩) ∧
        log[18]? = some (2, ⟨.create "sys/enclaves/e" (Record.encode registration), .ok ()⟩) ∧
        log[22]? = some (0, ⟨.create "enclaves/e/keys/n"
          (Record.encode (⟨[7], time, ⟨"root"⟩⟩ : SealedKey)), .ok ()⟩) ∧
        ∀ entry ∈ log.drop 18, entry.2.1 ≠ .get "sys/enclaves/e" ∧
          entry.2.1 ≠ .delete "enclaves/e/keys/n" := by decide +kernel
  have hlater {k : Nat} {entry : Entry} (hk : 18 ≤ k) (hentry : log[k]? = some entry) :
      entry ∈ log.drop 18 := by
    refine List.mem_iff_getElem?.2 ⟨k - 18, ?_⟩
    rw [List.getElem?_drop, Nat.add_sub_cancel' hk, hentry]
  have hearly {j q found : Nat} (hchecked : Checked ⟨""⟩ "e" log j q found) : found < 18 := by
    by_contra hlate
    obtain ⟨_, _, -, hlooked⟩ := hchecked.registered
    exact (hquiet _ (hlater (Nat.le_of_not_lt hlate) hlooked)).1 rfl
  have hkept : Kept log "enclaves/e/keys/n"
      (Record.encode (⟨[7], time, ⟨"root"⟩⟩ : SealedKey)) 0 22 := by
    refine ⟨hkey, fun k k' hk hremoved => ?_⟩
    exact (hquiet _ (hlater (by omega) hremoved)).2 rfl
  have hchecked : Checked ⟨""⟩ "e" log 0 22 1 :=
    ⟨by decide, registration, _, Record.decode?_encode registration, hfound⟩
  have hovertaken : Overtaken ⟨""⟩ "e" log 14 18 0 22 :=
    ⟨by decide, ⟨1, hchecked⟩, fun _ => hearly⟩
  refine ⟨hmade, log, _, _, 14, 18, 22, hrun, hcreated, hdeleted, hregistered, hrecord, hstored,
    hkept, hovertaken, fun hpast => ?_⟩
  obtain ⟨j, q, found, -, hsince, hfound'⟩ := hpast .key "n" _ (by decide) hstored
  have hbefore := hearly hfound'
  omega

end Service

end KeyCustody
