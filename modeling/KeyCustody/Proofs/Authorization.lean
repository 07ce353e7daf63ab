import KeyCustody.Proofs.Calm

/-!
# Authorization

Nothing of a gated operation runs unless the stored records permit it.  Two properties make
that precise.  The first is about one run: either the body runs behind the gate, and then
the store held a registration of the scope and a policy that allows the path, or an error
is reported and the store is as it was.  The second is about two runs: a denial depends on
nothing but the caller's assignment and the policy in it.

Both hold for every source of mishaps.  The first needs of a store only that a look-up finds
what is stored (`Contract.looking`), the second only that look-ups of two names give the same
in both stores (`Program.Keeps.run_simulates`).  Main statement:

* `Service.gated_sound`: both properties, for every operation and every body.
-/

namespace KeyCustody

/-! ### What a store grants -/

namespace Backend

/-- Two stores answer every look-up of a name alike. -/
def Agree (b b' : Backend) (name : String) : Prop :=
  ∀ sig, b'.get sig name = b.get sig name

end Backend

/-! ### Runs of gated operations -/

/-- The world after an event was put on the audit trail. -/
def World.logged {σ : Type} (w : World σ) (event : String → Timestamp → AuditEvent) : World σ :=
  { w with
    readings := w.readings + 1
    events := w.events + 1
    trail := w.trail ++ [event (w.eventIds w.events) (w.clock w.readings)] }

namespace Service

variable {σ : Type} [Mishaps σ] {s : Service} {caller : Identity} {enclave : String}
  {op : Operation}

/-- What follows a gated operation: one event tells its outcome. -/
def report {α : Type} (s : Service) (caller : Identity) (enclave : String) (op : Operation)
    (outcome : Except Error α) : Program (Except Error α) := do
  let id ← Program.request .eventId
  let time ← Program.request .time
  Program.request
    (.emit (.ofOutcome id time caller (s.enclaveName enclave) op (errorOf outcome)))
  pure outcome

/-- The event that tells an error. -/
def eventOf (s : Service) (caller : Identity) (enclave : String) (op : Operation)
    (failure : Option Error) (id : String) (time : Timestamp) : AuditEvent :=
  .ofOutcome id time caller (s.enclaveName enclave) op failure

theorem run_report {α : Type} (c : Context) (w : World σ) (outcome : Except Error α) :
    (s.report caller enclave op outcome).run c w =
      (outcome, w.logged (s.eventOf caller enclave op (errorOf outcome))) := rfl

/-- A report does not touch the store. -/
theorem keeps_report {α : Type} {k : Contract} (hidentified : k.allows .eventId)
    (htimed : k.allows .time) (hemitted : ∀ event, k.allows (.emit event))
    (outcome : Except Error α) :
    (s.report caller enclave op outcome).Keeps k fun _ => True := by
  unfold report
  apply Program.Keeps.bind (Program.Keeps.request hidentified)
  intro id _
  apply Program.Keeps.bind (Program.Keeps.request htimed)
  intro time _
  apply Program.Keeps.bind (Program.Keeps.request (hemitted _))
  intro _ _
  trivial

/-- A gated operation ends as its gate and its body do, and then the event tells the outcome. -/
theorem run_gated {α : Type} (c : Context) (w : World σ) (body : Enclave → Routine α) :
    (s.gated caller enclave op body).attempt.run c w =
      let r := (s.gate caller enclave op >>= body).attempt.run c w
      (r.1, r.2.logged (s.eventOf caller enclave op (errorOf r.1))) := by
  change ((s.gate caller enclave op >>= body).attempt >>=
    s.report caller enclave op).run c w = _
  rw [Program.run_bind, run_report]

/-- A gated operation whose gate fails reports the error, whatever its body is. -/
theorem run_gated_of_error {α : Type} {c : Context} {w w₁ : World σ} {e : Error}
    (hgate : (s.gate caller enclave op).attempt.run c w = (.error e, w₁))
    (body : Enclave → Routine α) :
    (s.gated caller enclave op body).attempt.run c w =
      (.error e, w₁.logged (s.eventOf caller enclave op (some e))) := by
  rw [run_gated, Routine.run_bind, hgate]
  rfl

/-- A gated operation that passes its gate is its body, and then the event. -/
theorem run_gated_of_ok {α : Type} {c : Context} {w w₁ : World σ} {h : Enclave}
    (hgate : (s.gate caller enclave op).attempt.run c w = (.ok h, w₁))
    (body : Enclave → Routine α) :
    (s.gated caller enclave op body).attempt.run c w =
      ((body h).attempt >>= s.report caller enclave op).run c w₁ := by
  have hrun : (s.gate caller enclave op >>= body).attempt.run c w =
      (body h).attempt.run c w₁ := by
    rw [Routine.run_bind, hgate]
  change ((s.gate caller enclave op >>= body).attempt >>=
    s.report caller enclave op).run c w = _
  rw [Program.run_bind, hrun, Program.run_bind]

/-- A gate whose decision is to deny fails for want of permission, registered or not. -/
theorem run_gate_of_deny {c : Context} {w w₁ : World σ} {h : Enclave}
    (hhandle : s.registry.handle (s.scope enclave op) = .ok h)
    (hdeny : (s.authorizer.decide h caller op.path).attempt.run c w = (.ok .deny, w₁)) :
    (s.gate caller enclave op).attempt.run c w =
      (.error (.permissionDenied caller.display op.path), w₁) := by
  have hauthorize : (s.authorizer.authorize h caller op).attempt.run c w =
      (.error (.permissionDenied caller.display op.path), w₁) := by
    unfold Authorizer.authorize
    rw [Routine.run_bind, hdeny]
    rfl
  have hrest : (s.authorizer.authorize h caller op >>= fun _ =>
      h.ensureRegistered >>= fun _ => pure h).attempt.run c w =
        (.error (.permissionDenied caller.display op.path), w₁) := by
    rw [Routine.run_bind, hauthorize]
  unfold gate
  rw [hhandle]
  exact hrest

end Service

/-! ### Denials -/

namespace World

variable {σ : Type} [Mishaps σ]

/-- What an access meets does not depend on the store. -/
theorem meet_withBackend (w : World σ) (b : Backend) (c : Context) (a : Access) :
    (w.withBackend b).meet c a = ((w.meet c a).1, (w.meet c a).2.withBackend b) := by
  unfold meet withBackend
  cases hm : Mishaps.strike a w.mishaps with
  | mk m rest =>
      obtain ⟨early, late, err⟩ := m
      cases err <;> cases early <;> cases late <;> rfl

/-- A look-up of a name on which the stores agree is answered alike. -/
theorem answer_get_withBackend {b b' : Backend} {name : String} (hagree : b.Agree b' name)
    (c : Context) {w : World σ} (hw : w.backend = b) :
    (w.withBackend b').answer c (.get name) =
      ((w.answer c (.get name)).1, (w.answer c (.get name)).2.withBackend b') := by
  have hkept := w.backend_meet c (.get name)
  simp only [answer, meet_withBackend]
  cases hm : w.meet c (.get name) with
  | mk met w' =>
      rw [hm] at hkept
      cases met with
      | error e => rfl
      | ok sig =>
          have hstore : w'.backend = b := hkept.trans hw
          have hsame := hagree sig
          simp only [withBackend, hstore, hsame]

end World

/-- Two stores agree on the assignment of an identity in an enclave and on the policy in it.
An identity that is not valid has none. -/
structure Backend.AgreeOn (b b' : Backend) (l : Layout) (e : String) (i : Identity) : Prop where
  assignment : i.Valid → b.Agree b' (l.space .assignment e ++ i.text)
  policy : ∀ a : Assignment, i.Valid →
    b.record? (l.space .assignment e ++ i.text) = some a →
      b.Agree b' (l.space .policy e ++ a.policy)

/-- **A decision depends on two records.**  Stores that agree on the identity's assignment and
on the policy in it bring a decision to the same end. -/
theorem Authorizer.run_decide_withBackend {σ : Type} [Mishaps σ] (a : Authorizer) {l : Layout}
    {e : String} {i : Identity} {path : String} (c : Context) (w : World σ) (b : Backend)
    (hagree : w.backend.AgreeOn b l e i) :
    (a.decide (l.handle e) i path).attempt.run c (w.withBackend b) =
      (((a.decide (l.handle e) i path).attempt.run c w).1,
        ((a.decide (l.handle e) i path).attempt.run c w).2.withBackend b) := by
  -- the contract allows only look-ups on which the stores agree
  let k : Contract :=
    { allows := fun r => ∃ name, r = .get name ∧ w.backend.Agree b name
      assumes := (Contract.looking w.backend).assumes }
  have hkeeps : (a.decide (l.handle e) i path).Keeps k
      (fun d => d = .allow → a.isAdmin i = true ∨ k.Grants l e i path) (fun _ => True) := by
    refine a.keeps_decide (fun hvalid => ⟨_, rfl, hagree.assignment hvalid⟩)
      fun asg hvalid hheld => ?_
    exact ⟨_, rfl, hagree.policy asg hvalid (Contract.mayHold_looking.1 hheld)⟩
  have hsimulates := Program.Keeps.run_simulates hkeeps c
    (fun u v => u.backend = w.backend ∧ v = u.withBackend b) ?_ (w := w) ⟨rfl, rfl⟩
  · exact Prod.ext hsimulates.1 hsimulates.2.2
  · rintro r u v ⟨name, rfl, hname⟩ ⟨hu, rfl⟩
    have hsame := World.answer_get_withBackend hname c hu
    have hstep := World.looking_step c (.get name) u rfl hu
    exact ⟨hstep.1, by rw [hsame], hstep.2, by rw [hsame]⟩

namespace Service

/-! ### Soundness -/

/-- The configured admin is known. -/
theorem isAdmin_iff_of_ofSettings {settings : Settings} {s : Service}
    (hmade : ofSettings settings = .ok s) {i : Identity} :
    s.authorizer.isAdmin i = true ↔ settings.admin = some i ∧ i ≠ .unknown := by
  obtain ⟨rfl, -, -⟩ := eq_of_ofSettings hmade
  have hknown : i.isUnknown = false ↔ i ≠ .unknown := by
    rw [← Bool.not_eq_true, Identity.isUnknown_iff]
  simp [Authorizer.isAdmin, Authorizer.ofAdmin, Option.filter_eq_some_iff, hknown]

/-- What has to hold of the stored records for an operation to run: the scope enclave is
registered, and the caller is the admin of the settings or has a policy there that allows
the path. -/
structure Permits (settings : Settings) (b : Backend) (caller : Identity) (scope : String)
    (op : Operation) : Prop where
  registered : ∃ g : Registration, b.record? (Layout.record ⟨settings.keyPrefix⟩ scope) = some g
  entitled : (settings.admin = some caller ∧ caller ≠ .unknown) ∨
    b.Grants ⟨settings.keyPrefix⟩ scope caller op.path

/-- **Authorization is sound and denials tell nothing.**  In every world, whatever goes wrong,
a gated operation either runs its body on the scope enclave and the stored records permit
it, or it reports an error that its body has no part in, and the store is as it was.  If the
decision is to deny, the operation fails for want of permission, and over any other store
that agrees on the caller's assignment and on the policy in it the same result is reported
with the same event. -/
theorem gated_sound {settings : Settings} {s : Service}
    (hmade : ofSettings settings = .ok s) {σ : Type} [Mishaps σ] (c : Context) (w : World σ)
    (caller : Identity) (enclave : String) (op : Operation) :
    ((∃ handle w₁, Permits settings w.backend caller (s.scope enclave op) op ∧
        s.registry.handle (s.scope enclave op) = .ok handle ∧ w₁.backend = w.backend ∧
        ∀ {α : Type} (body : Enclave → Routine α),
          (s.gated caller enclave op body).attempt.run c w =
            ((body handle).attempt >>= s.report caller enclave op).run c w₁) ∨
      (∃ e w₁, w₁.backend = w.backend ∧
        ∀ {α : Type} (body : Enclave → Routine α),
          (s.gated caller enclave op body).attempt.run c w = (.error e, w₁))) ∧
    (∀ handle w₁, s.registry.handle (s.scope enclave op) = .ok handle →
      (s.authorizer.decide handle caller op.path).attempt.run c w = (.ok .deny, w₁) →
      ∀ {α : Type} (body : Enclave → Routine α),
        (s.gated caller enclave op body).attempt.run c w =
          (.error (.permissionDenied caller.display op.path),
            w₁.logged (s.eventOf caller enclave op
              (some (.permissionDenied caller.display op.path)))) ∧
        ∀ b : Backend,
          w.backend.AgreeOn b ⟨settings.keyPrefix⟩ (s.scope enclave op) caller →
          (s.gated caller enclave op body).attempt.run c (w.withBackend b) =
            (((s.gated caller enclave op body).attempt.run c w).1,
              ((s.gated caller enclave op body).attempt.run c w).2.withBackend b)) := by
  have hover := over_of_ofSettings hmade
  refine ⟨?_, ?_⟩
  · -- one run: the gate only looks at the store, and lets through what the store permits
    have hgate : (s.gate caller enclave op).Keeps (.looking w.backend)
        (fun h => h = Layout.handle ⟨settings.keyPrefix⟩ (s.scope enclave op) ∧
          Passed (.looking w.backend) s ⟨settings.keyPrefix⟩ caller (s.scope enclave op) op.path)
        (fun _ => True) := keeps_gate hover fun _ _ _ => rfl
    have hrun := Program.Keeps.run hgate c (fun v => v.backend = w.backend)
      (fun r v => World.looking_step c r v) rfl
    cases hr : (s.gate caller enclave op).attempt.run c w with
    | mk outcome w₁ =>
        rw [hr] at hrun
        obtain ⟨hends, hstore⟩ := hrun
        cases outcome with
        | error e =>
            exact .inr ⟨e, w₁.logged (s.eventOf caller enclave op (some e)), hstore,
              fun body => run_gated_of_error hr body⟩
        | ok handle =>
            obtain ⟨rfl, hpassed⟩ := hends
            refine .inl ⟨_, w₁, ⟨?_, ?_⟩, hover.handle_eq_ok_iff.2 ⟨hpassed.valid, rfl⟩, hstore,
              fun body => run_gated_of_ok hr body⟩
            · obtain ⟨g, hg⟩ := hpassed.registered
              exact ⟨g, Contract.mayHold_looking.1 hg⟩
            · rcases hpassed.permitted with hadmin | hgrants
              · exact .inl ((isAdmin_iff_of_ofSettings hmade).1 hadmin)
              · exact .inr (Contract.grants_looking.1 hgrants)
  · -- two runs: behind the decision a denial asks the store for nothing
    intro handle w₁ hhandle hdeny α body
    have hdenied := run_gated_of_error (run_gate_of_deny hhandle hdeny) body
    refine ⟨hdenied, fun b hagree => ?_⟩
    have hother : (s.authorizer.decide handle caller op.path).attempt.run c (w.withBackend b) =
        (.ok .deny, w₁.withBackend b) := by
      obtain ⟨-, rfl⟩ := hover.handle_eq_ok_iff.1 hhandle
      rw [s.authorizer.run_decide_withBackend c w b hagree, hdeny]
    rw [run_gated_of_error (run_gate_of_deny hhandle hother) body, hdenied]
    rfl

/-- A caller without an assignment is denied over a store in which the default enclave is
registered as it is over an empty one. -/
theorem gated_sound_unassigned :
    let s : Service := ⟨Layout.catalog ⟨""⟩, .ofAdmin none, "default", 30⟩
    let w := World.calm (.memory .empty)
    let registration : Registration := ⟨w.clock 0, ⟨"root"⟩⟩
    let b : Backend :=
      .memory (Table.empty.insert "sys/enclaves/default" (Record.encode registration))
    ofSettings .default = .ok s ∧ w.backend.AgreeOn b ⟨""⟩ "default" ⟨"ann"⟩ ∧
      ((s.gated ⟨"ann"⟩ "" (.getKey "k") fun h => h.getKey "k").attempt.run (.ofToken [])
        (w.withBackend b)).1 = .error (.permissionDenied "ann" "/v1/key/get/k") := by
  intro s w registration b
  have hmade : ofSettings .default = .ok s := rfl
  have hagree : w.backend.AgreeOn b ⟨""⟩ "default" ⟨"ann"⟩ := by
    refine ⟨fun _ sig => rfl, ?_⟩
    intro a _ habsent
    cases habsent
  have hdeny : (s.authorizer.decide (Layout.handle ⟨""⟩ "default") ⟨"ann"⟩
      "/v1/key/get/k").attempt.run (.ofToken []) w = (.ok .deny, w) := rfl
  have hhandle : s.registry.handle (s.scope "" (.getKey "k")) =
      .ok (Layout.handle ⟨""⟩ "default") :=
    (over_of_ofSettings hmade).handle_eq_ok_iff.2
      ⟨(over_of_ofSettings hmade).validDefault, rfl⟩
  have hsound := (gated_sound hmade (.ofToken []) w ⟨"ann"⟩ "" (.getKey "k")).2
    (Layout.handle ⟨""⟩ "default") w hhandle hdeny fun h => h.getKey "k"
  refine ⟨hmade, hagree, ?_⟩
  rw [hsound.2 b hagree, hsound.1]
  rfl

end Service

end KeyCustody
