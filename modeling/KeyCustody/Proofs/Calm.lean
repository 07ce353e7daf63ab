import KeyCustody.Proofs.CallFootprint
import KeyCustody.Proofs.Stored

/-!
# Calm worlds

In a calm world nothing ever goes wrong: the source of mishaps is `Unit`.  Under a context
that lives, a look-up of a record that is stored finds it.  So in a calm world a decision is
determined by what the store holds, and asking for it says what the store grants.  Main
statement:

* `Authorizer.decideOver_eq_allow_iff`: the decision over a store allows exactly what the
  store grants.
-/

namespace KeyCustody

/-! ### What a store grants -/

namespace Backend

/-- The store holds a policy for the identity in the enclave that allows the request path: no
deny rule matches it and some allow rule does. -/
def Grants (b : Backend) (l : Layout) (e : String) (i : Identity) (path : String) : Prop :=
  i.Valid ∧ ∃ (a : Assignment) (p : Policy),
    b.record? (l.space .assignment e ++ i.text) = some a ∧ ValidName a.policy ∧
      b.record? (l.space .policy e ++ a.policy) = some p ∧
        Policy.covers p.deny path = false ∧ Policy.covers p.allow path = true

end Backend

/-- The contract of looking at a store that does not change: a look-up finds only what the
store holds. -/
def Contract.looking (b : Backend) : Contract where
  allows r := r.isWrite = false
  assumes
    | .get name, .ok value => b.stored? name = some value
    | _, _ => True

theorem Contract.mayHold_looking {b : Backend} {α : Type} [Record α] {name : String} {a : α} :
    (looking b).MayHold name a ↔ b.record? name = some a :=
  Backend.record?_eq_some_iff.symm

theorem Contract.grants_looking {b : Backend} {l : Layout} {e : String} {i : Identity}
    {path : String} : (looking b).Grants l e i path ↔ b.Grants l e i path := by
  simp only [Grants, Backend.Grants, mayHold_looking, Policy.evaluate_eq_allow_iff]

/-- Looking at a store meets its contract. -/
theorem World.looking_step {σ : Type} [Mishaps σ] {b : Backend} (c : Context) (r : Request)
    (w : World σ) (hread : (Contract.looking b).allows r) (hw : w.backend = b) :
    (Contract.looking b).assumes r (w.answer c r).1 ∧ (w.answer c r).2.backend = b := by
  refine ⟨?_, (World.backend_answer_of_read hread w c).trans hw⟩
  cases r with
  | get name =>
      cases hx : (w.answer c (.get name)).1 with
      | ok value => exact hw ▸ World.stored?_of_answer_get hx
      | error e => trivial
  | _ => trivial

-- so that runs on given stores can be decided
deriving instance DecidableEq for Outcome, Reply

/-! ### Look-ups in calm worlds -/

namespace World

/-- A calm world around a store, with every clock at its start. -/
def calm (b : Backend) : World Unit where
  backend := b
  tokens := .empty
  now := ⟨0, 0⟩
  mishaps := ()
  clock := fun _ => ⟨⟨2000, 1, 1, by decide⟩, 0, 0, by decide⟩
  readings := 0
  eventIds := fun n => toString n
  events := 0
  trail := []

/-- A world like that, in which the given mishaps happen one after the other. -/
def stormy (b : Backend) (mishaps : Nat → Mishap) : World (Nat → Mishap) :=
  { calm b with mishaps := mishaps }

/-- In a calm world an access meets nothing but the signal of its context. -/
theorem meet_calm (w : World Unit) (c : Context) (a : Access) :
    w.meet c a = (.ok (.steady (w.ended c)), w) := rfl

variable {w : World Unit} {c : Context}

/-- A look-up under a context that lives. -/
theorem answer_get_calm (hlive : w.ended c = false) (name : String) :
    w.answer c (.get name) = (w.backend.get ⟨false, false⟩ name, w) := by
  simp only [answer, meet_calm, hlive, Signal.steady]

end World

/-- A routine whose outcome is looked at, as a run. -/
theorem Routine.run_handle {α β σ : Type} [Mishaps σ] (c : Context) (a : Routine α)
    (f : Except Error α → Routine β) (w : World σ) :
    (a.handle f).attempt.run c w =
      (f (a.attempt.run c w).1).attempt.run c (a.attempt.run c w).2 :=
  Program.run_bind c a.attempt _ w

/-- Errors told differently change nothing else. -/
theorem Routine.run_mapError {α σ : Type} [Mishaps σ] (c : Context) (f : Error → Error)
    (a : Routine α) (w : World σ) :
    (a.mapError f).attempt.run c w =
      ((a.attempt.run c w).1.mapError f, (a.attempt.run c w).2) :=
  run_handle c a _ w

/-- A view looks a name up behind its namespace. -/
theorem View.get_under {name : String} (hname : name ≠ "") (space : String) (v : View) :
    (View.under space v).get name = (v.get (space ++ name)).mapError (renameMissing name) := by
  rw [View.get, requireKey_of_ne hname]
  rfl

/-- A look-up through a view under a context that lives. -/
theorem View.run_get_calm {w : World Unit} {c : Context} {space name : String}
    (hlive : w.ended c = false) (hname : name ≠ "") :
    ((View.under space .whole).get name).attempt.run c w =
      ((w.backend.get (.steady false) (space ++ name)).mapError (renameMissing name), w) := by
  rw [get_under hname, Routine.run_mapError]
  change ((w.answer c (.get (space ++ name))).1.mapError (renameMissing name),
    (w.answer c (.get (space ++ name))).2) = _
  rw [World.answer_get_calm hlive]
  rfl

namespace Cabinet

variable {α : Type} [Record α] {w : World Unit} {c : Context} {space name : String} {a : α}

/-- A cabinet finds a record that is stored. -/
theorem run_get_of_record (hlive : w.ended c = false) (hname : name ≠ "")
    (hrecord : w.backend.record? (space ++ name) = some a) :
    ((under space : Cabinet α).get name).attempt.run c w = (.ok a, w) := by
  obtain ⟨value, hstored, hdecoded⟩ := Backend.record?_eq_some_iff.1 hrecord
  have hfull : space ++ name ≠ "" := extend_ne hname
  have hget : w.backend.get (.steady false) (space ++ name) = .ok value :=
    Backend.get_of_stored? hfull hstored
  unfold get
  rw [Routine.run_bind, View.run_get_calm hlive hname, hget]
  simp only [Except.mapError, hdecoded]
  rfl

theorem run_find?_of_record (hlive : w.ended c = false) (hname : name ≠ "")
    (hrecord : w.backend.record? (space ++ name) = some a) :
    ((under space : Cabinet α).find? name).attempt.run c w = (.ok (some a), w) := by
  unfold find?
  rw [Routine.run_handle, run_get_of_record hlive hname hrecord]
  rfl

/-- A cabinet misses a record that a look-up misses. -/
theorem run_find?_of_missing {what : String} (hlive : w.ended c = false) (hname : name ≠ "")
    (hmissing : w.backend.get (.steady false) (space ++ name) = .error (.notFound what)) :
    ((under space : Cabinet α).find? name).attempt.run c w = (.ok none, w) := by
  have hmissed : ((under space : Cabinet α).get name).attempt.run c w =
      (.error (.notFound name), w) := by
    unfold get
    rw [Routine.run_bind, View.run_get_calm hlive hname, hmissing]
    rfl
  unfold find?
  rw [Routine.run_handle, hmissed]
  rfl

theorem run_getNamed_of_record (hlive : w.ended c = false) (hname : ValidName name)
    (hrecord : w.backend.record? (space ++ name) = some a) (kind : String) :
    ((under space : Cabinet α).getNamed kind name).attempt.run c w = (.ok a, w) := by
  unfold getNamed
  rw [checkName_eq_ok_iff.2 hname]
  change (((under space : Cabinet α).get name).mapError _).attempt.run c w = _
  rw [Routine.run_mapError, run_get_of_record hlive hname.nonempty hrecord]
  rfl

end Cabinet

/-- A registered enclave is found registered. -/
theorem Enclave.run_ensureRegistered_of_record {w : World Unit} {c : Context} {l : Layout}
    {e : String} {registration : Registration} (hlive : w.ended c = false) (hname : e ≠ "")
    (hrecord : w.backend.record? (l.record e) = some registration) :
    (l.handle e).ensureRegistered.attempt.run c w = (.ok (), w) := by
  have hfound : ((l.handle e).registry.find? (l.handle e).name).attempt.run c w =
      (.ok (some registration), w) := Cabinet.run_find?_of_record hlive hname hrecord
  unfold ensureRegistered
  rw [Routine.run_bind, hfound]
  rfl

/-! ### Decisions in calm worlds -/

/-- The assignment of a valid identity is found. -/
theorem Enclave.run_findAssignment_of_record {w : World Unit} {c : Context} {l : Layout}
    {e : String} {i : Identity} {a : Assignment} (hlive : w.ended c = false) (hvalid : i.Valid)
    (hrecord : w.backend.record? (l.space .assignment e ++ i.text) = some a) :
    ((l.handle e).findAssignment i).attempt.run c w = (.ok (some a), w) := by
  have hknown : i.isUnknown = false := by simpa [Identity.isUnknown] using hvalid.known
  have hfound : ((l.handle e).assignments.find? i.text).attempt.run c w = (.ok (some a), w) :=
    Cabinet.run_find?_of_record hlive hvalid.known hrecord
  unfold findAssignment
  rw [hknown, Identity.check_eq_ok_iff.2 hvalid]
  exact hfound

/-- The policy in the assignment of an identity decides for it in a calm world. -/
theorem Authorizer.run_decide_of_records (a : Authorizer) {w : World Unit} {c : Context}
    {l : Layout} {e : String} {i : Identity} {asg : Assignment} {p : Policy}
    (hlive : w.ended c = false) (hadmin : a.isAdmin i = false) (hvalid : i.Valid)
    (hassignment : w.backend.record? (l.space .assignment e ++ i.text) = some asg)
    (hname : ValidName asg.policy)
    (hpolicy : w.backend.record? (l.space .policy e ++ asg.policy) = some p) (path : String) :
    (a.decide (l.handle e) i path).attempt.run c w = (.ok (p.evaluate path), w) := by
  have hknown : i.isUnknown = false := by simpa [Identity.isUnknown] using hvalid.known
  have hresolve : ((l.handle e).resolve i).attempt.run c w = (.ok asg.policy, w) := by
    unfold Enclave.resolve
    rw [Routine.run_bind, Enclave.run_findAssignment_of_record hlive hvalid hassignment]
    rfl
  have hread : ((l.handle e).getPolicy asg.policy).attempt.run c w = (.ok p, w) :=
    Cabinet.run_getNamed_of_record hlive hname hpolicy "policy"
  have hresolved : ((l.handle e).resolvePolicy i).attempt.run c w =
      (.ok (asg.policy, p), w) := by
    unfold Enclave.resolvePolicy
    rw [Routine.run_bind, hresolve]
    simp only
    rw [Routine.run_bind, hread]
    rfl
  unfold decide
  rw [hknown, hadmin]
  change (((l.handle e).resolvePolicy i).handle _).attempt.run c w = _
  rw [Routine.run_handle, hresolved]
  rfl

/-- What a store grants is allowed in a calm world. -/
theorem Authorizer.run_decide_of_grants (a : Authorizer) {w : World Unit} {c : Context}
    {l : Layout} {e : String} {i : Identity} {path : String} (hlive : w.ended c = false)
    (hgrants : w.backend.Grants l e i path) :
    (a.decide (l.handle e) i path).attempt.run c w = (.ok .allow, w) := by
  obtain ⟨hvalid, asg, p, hassignment, hname, hpolicy, hdeny, hallow⟩ := hgrants
  have hallowed := Policy.evaluate_eq_allow_iff.2 ⟨hdeny, hallow⟩
  have hknown : i.isUnknown = false := by simpa [Identity.isUnknown] using hvalid.known
  cases hadmin : a.isAdmin i with
  | true =>
      unfold decide
      rw [hknown, hadmin]
      rfl
  | false =>
      rw [← hallowed]
      exact a.run_decide_of_records hlive hadmin hvalid hassignment hname hpolicy path

/-- The decision for an identity in an enclave over a store, with nothing that goes wrong. -/
def Authorizer.decideOver (a : Authorizer) (b : Backend) (handle : Enclave) (i : Identity)
    (path : String) : Except Error Decision :=
  ((a.decide handle i path).attempt.run (.ofToken []) (.calm b)).1

/-- **The decision over a store** allows an identity other than the admin exactly what the
store grants it. -/
theorem Authorizer.decideOver_eq_allow_iff (a : Authorizer) {b : Backend} {l : Layout}
    {e : String} {i : Identity} {path : String} (hadmin : a.isAdmin i = false) :
    a.decideOver b (l.handle e) i path = .ok .allow ↔ b.Grants l e i path := by
  constructor
  · intro hallow
    have hkeeps : (a.decide (l.handle e) i path).Keeps (.looking b)
        (fun d => d = .allow → a.isAdmin i = true ∨ (Contract.looking b).Grants l e i path)
        (fun _ => True) := a.keeps_decide (fun _ => rfl) fun _ _ _ => rfl
    have hrun := (Program.Keeps.run hkeeps (.ofToken []) (fun w => w.backend = b)
      (fun r w => World.looking_step _ r w) (w := World.calm b) rfl).1
    unfold decideOver at hallow
    rw [hallow] at hrun
    rcases hrun rfl with hcontra | hgrants
    · rw [hadmin] at hcontra
      cases hcontra
    · exact Contract.grants_looking.1 hgrants
  · intro hgrants
    have hrun := a.run_decide_of_grants (w := World.calm b) (c := .ofToken []) rfl hgrants
    exact congrArg Prod.fst hrun

end KeyCustody
