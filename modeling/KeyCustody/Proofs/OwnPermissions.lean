import KeyCustody.Proofs.CoupledCalls
import KeyCustody.Proofs.LostDirectory

/-!
# What callers are told they may do

A caller may ask the service about itself, and is told the policy that it has, that it is the
admin, or that it has none.  Requests are decided elsewhere, by the authorizer.  Both look for the
assignment of the caller and for the policy in it, each with its own special cases and its own
errors.  They agree: over any store, what a caller is told gives the decision on every request
path (`SelfInfo.verdict`).  Main statements:

* `Service.decide_eq_verdict`: the decision on a path, from what the caller is told;
* `Service.describeSelf_agrees`: the same for calls of the service.
-/

namespace KeyCustody

/-- **The decision on a request path** that follows from what a caller is told of itself.  The admin
may do everything, and whoever has a policy may do what it allows.  Who has none, or one that is
gone, may do nothing.  If the caller could not be told, nothing is decided for the same reason. -/
def SelfInfo.verdict (path : String) : Except Error SelfInfo → Except Error Decision
  | .ok ⟨_, true, _, _⟩ => .ok .allow
  | .ok ⟨_, false, _, some policy⟩ => .ok (policy.evaluate path)
  | .ok ⟨_, false, _, none⟩ => .ok .deny
  | .error (.unassigned _) => .ok .deny
  | .error (.notFound _) => .ok .deny
  | .error e => .error e

/-! ### Programs that only look names up -/

/-- The contract of looking names up and doing nothing else. -/
def Contract.lookups : Contract := .asking fun r => ∃ name, r = .get name

/-- A look-up in a calm world. -/
theorem World.answer_get_steady (w : World Unit) (c : Context) (name : String) :
    w.answer c (.get name) = (w.backend.get (.steady (w.ended c)) name, w) := rfl

/-- A program that only looks names up leaves a calm world as it is, and comes to the same end in
all calm worlds around one store, if the contexts live or have ended in both. -/
theorem Program.Keeps.run_lookups {α : Type} {p : Program α} (h : p.Keeps .lookups fun _ => True)
    {w w' : World Unit} {c c' : Context} (hended : w'.ended c' = w.ended c)
    (hstore : w'.backend = w.backend) :
    (p.run c w).2 = w ∧ (p.run c' w').1 = (p.run c w).1 := by
  induction p with
  | done a => exact ⟨rfl, rfl⟩
  | ask r next ih =>
      obtain ⟨name, hr⟩ := h.1
      subst hr
      simp only [Program.run]
      rw [World.answer_get_steady, World.answer_get_steady, hended, hstore]
      exact ih _ (h.2 _ trivial)

section Calm

variable {w : World Unit} {c : Context} {l : Layout} {e : String} {i : Identity}

/-! ### Look-ups under contexts that have ended -/

/-- A look-up under a context that has ended is canceled. -/
theorem Backend.get_ended (b : Backend) {full : String} (hfull : full ≠ "") :
    b.get (.steady true) full = .error .canceled := by
  have hkey := requireKey_of_ne hfull
  cases b with
  | memory t => rfl
  | database t => simp only [get, hkey]; rfl
  | files d => simp only [get, DataDir.get, hkey]; rfl

theorem Cabinet.run_find?_of_ended {α : Type} [Record α] {space name : String}
    (hended : w.ended c = true) (hname : name ≠ "") :
    ((under space : Cabinet α).find? name).attempt.run c w = (.error .canceled, w) := by
  have hview :
      ((under space : Cabinet α).view.get name).attempt.run c w = (.error .canceled, w) := by
    unfold View.get
    rw [requireKey_of_ne hname]
    change ((Routine.get (space ++ name)).mapError (View.renameMissing name)).attempt.run c w = _
    rw [Routine.run_mapError]
    change ((w.answer c (.get (space ++ name))).1.mapError (View.renameMissing name), w) = _
    rw [World.answer_get_steady, hended, Backend.get_ended _ (extend_ne hname)]
    rfl
  have hread : ((under space : Cabinet α).get name).attempt.run c w = (.error .canceled, w) := by
    unfold get
    rw [Routine.run_bind, hview]
  unfold find?
  rw [Routine.run_handle, hread]
  rfl

/-! ### The two ways to a policy -/

namespace Enclave

/-- Looking for the assignment of an identity changes nothing. -/
theorem exists_run_findAssignment (w : World Unit) (c : Context) (e : String) (i : Identity) :
    ∃ found, ((l.handle e).findAssignment i).attempt.run c w = (found, w) := by
  have hlooks : ((l.handle e).findAssignment i).attempt.Keeps .lookups fun _ => True :=
    Program.Keeps.weaken (keeps_findAssignment fun _ => ⟨_, rfl⟩) fun _ _ => trivial
  exact ⟨_, Prod.ext rfl (hlooks.run_lookups rfl rfl).1⟩

/-- Looking for a policy changes nothing. -/
theorem exists_run_getPolicy (w : World Unit) (c : Context) (e name : String) :
    ∃ read, ((l.handle e).getPolicy name).attempt.run c w = (read, w) := by
  have hlooks : ((l.handle e).getPolicy name).attempt.Keeps .lookups fun _ => True :=
    Program.Keeps.weaken (keeps_getPolicy ⟨_, rfl⟩) fun _ _ => trivial
  exact ⟨_, Prod.ext rfl (hlooks.run_lookups rfl rfl).1⟩

variable {h : Enclave} {a : Assignment} {read : Except Error Policy}

/-- What an identity is told of its assignment. -/
theorem run_describeIdentity_of_found {found : Except Error (Option Assignment)}
    (hfound : (h.findAssignment i).attempt.run c w = (found, w)) :
    (h.describeIdentity i).attempt.run c w =
      (found.bind fun a => (a.map (·.info i)).elim
        (.error (.notFound ("identity " ++ i.display))) .ok, w) := by
  unfold describeIdentity
  rw [Routine.run_bind, hfound]
  rcases found with err | none | a <;> rfl

/-- An identity without an assignment has no policy. -/
theorem run_resolvePolicy_of_none (hfound : (h.findAssignment i).attempt.run c w = (.ok none, w)) :
    (h.resolvePolicy i).attempt.run c w = (.error (.unassigned i.display), w) := by
  unfold resolvePolicy resolve
  rw [Routine.run_bind, Routine.run_bind, hfound]
  rfl

theorem run_resolvePolicy_of_error {err : Error}
    (hfound : (h.findAssignment i).attempt.run c w = (.error err, w)) :
    (h.resolvePolicy i).attempt.run c w = (.error err, w) := by
  unfold resolvePolicy resolve
  rw [Routine.run_bind, Routine.run_bind, hfound]

/-- The policy of an identity is the one that its assignment names. -/
theorem run_resolvePolicy_of_some
    (hfound : (h.findAssignment i).attempt.run c w = (.ok (some a), w))
    (hread : (h.getPolicy a.policy).attempt.run c w = (read, w)) :
    (h.resolvePolicy i).attempt.run c w = (read.map fun p => (a.policy, p), w) := by
  have hresolved : (h.resolve i).attempt.run c w = (.ok a.policy, w) := by
    unfold resolve
    rw [Routine.run_bind, hfound]
    rfl
  unfold resolvePolicy
  rw [Routine.run_bind, hresolved]
  change (h.getPolicy a.policy >>= fun p => pure (a.policy, p)).attempt.run c w = _
  rw [Routine.run_bind, hread]
  cases read <;> rfl

end Enclave

/-- The policy of an identity decides on it, unless it is the admin. -/
theorem Authorizer.run_decide_of_resolved {a : Authorizer} {h : Enclave} (hknown : i ≠ .unknown)
    (hadmin : a.isAdmin i = false) {resolved : Except Error (String × Policy)}
    (hresolved : (h.resolvePolicy i).attempt.run c w = (resolved, w)) (path : String) :
    (a.decide h i path).attempt.run c w =
      (SelfInfo.verdict path (resolved.map fun r => ⟨i, false, none, some r.2⟩), w) := by
  unfold decide
  rw [if_neg (mt Identity.isUnknown_iff.1 hknown), hadmin]
  change ((h.resolvePolicy i).handle _).attempt.run c w = _
  rw [Routine.run_handle, hresolved]
  rcases resolved with err | resolved
  · cases err <;> rfl
  · rfl

namespace Service

variable {s : Service} {caller : Identity} {enclave : String} {registration : Registration}

/-- In a registered enclave the admin is told that it is. -/
theorem run_describeSelf_of_admin (hadmin : s.authorizer.isAdmin caller = true)
    (hknown : caller ≠ .unknown) {h : Enclave}
    (hopened : (s.registry.registered (s.enclaveName enclave)).attempt.run c w = (.ok h, w)) :
    (s.describeSelf caller enclave).attempt.run c w = (.ok ⟨caller, true, none, none⟩, w) := by
  unfold describeSelf
  rw [if_neg (mt Identity.isUnknown_iff.1 hknown), hadmin, Routine.run_handle, hopened]
  rfl

/-- In a registered enclave a caller with an assignment is told the policy that it names. -/
theorem run_describeSelf_of_found (hadmin : s.authorizer.isAdmin caller = false)
    (hknown : caller ≠ .unknown) {h : Enclave}
    (hopened : (s.registry.registered (s.enclaveName enclave)).attempt.run c w = (.ok h, w))
    {a : Assignment} (hfound : (h.findAssignment caller).attempt.run c w = (.ok (some a), w))
    {read : Except Error Policy} (hread : (h.getPolicy a.policy).attempt.run c w = (read, w)) :
    (s.describeSelf caller enclave).attempt.run c w =
      (read.map fun p => ⟨caller, false, some (a.info caller), some p⟩, w) := by
  unfold describeSelf
  rw [if_neg (mt Identity.isUnknown_iff.1 hknown), hadmin, Routine.run_handle, hopened]
  change ((h.describeIdentity caller).handle _).attempt.run c w = _
  rw [Routine.run_handle, Enclave.run_describeIdentity_of_found hfound]
  change (h.getPolicy a.policy >>= fun p =>
    pure (⟨caller, false, some (a.info caller), some p⟩ : SelfInfo)).attempt.run c w = _
  rw [Routine.run_bind, hread]
  cases read <;> rfl

/-- **What a caller is told and what is decided on it** in a registered enclave: one follows from
the other, and only the admin is told no policy. -/
theorem decide_eq_verdict (hover : s.Over l) (hvalid : caller.Valid)
    (he : ValidEnclaveName (s.enclaveName enclave)) (hlive : w.ended c = false)
    (hregistered : w.backend.record? (l.record (s.enclaveName enclave)) = some registration)
    (path : String) :
    ((s.authorizer.decide (l.handle (s.enclaveName enclave)) caller path).attempt.run c w).1 =
        SelfInfo.verdict path ((s.describeSelf caller enclave).attempt.run c w).1 ∧
      ∀ info, ((s.describeSelf caller enclave).attempt.run c w).1 = .ok info →
        (info.isAdmin = true ↔ info.policy = none) := by
  have hknown : caller ≠ .unknown := fun h => hvalid.known (congrArg Identity.text h)
  have hopened := run_registered_of_record hover he hlive hregistered
  cases hadmin : s.authorizer.isAdmin caller with
  | true =>
      rw [run_describeSelf_of_admin hadmin hknown hopened, Authorizer.run_decide_of_admin hadmin]
      exact ⟨rfl, fun info hinfo => by simp [← Except.ok.inj hinfo]⟩
  | false =>
      obtain ⟨found, hfound⟩ := Enclave.exists_run_findAssignment (l := l) w c
        (s.enclaveName enclave) caller
      have hdescribed := Enclave.run_describeIdentity_of_found hfound
      -- both go by the assignment, and if there is one by the policy that it names
      rcases found with err | none | a
      · rw [run_describeSelf_of_error hover hadmin he hlive hregistered hknown hdescribed,
          Authorizer.run_decide_of_resolved hknown hadmin
            (Enclave.run_resolvePolicy_of_error hfound)]
        exact ⟨by cases err <;> rfl, by simp⟩
      · rw [run_describeSelf_of_error hover hadmin he hlive hregistered hknown hdescribed,
          Authorizer.run_decide_of_resolved hknown hadmin
            (Enclave.run_resolvePolicy_of_none hfound)]
        exact ⟨rfl, by simp⟩
      · obtain ⟨read, hread⟩ := Enclave.exists_run_getPolicy (l := l) w c
          (s.enclaveName enclave) a.policy
        rw [run_describeSelf_of_found hadmin hknown hopened hfound hread,
          Authorizer.run_decide_of_resolved hknown hadmin
            (Enclave.run_resolvePolicy_of_some hfound hread)]
        rcases read with err | policy
        · exact ⟨rfl, by simp [Except.map]⟩
        · exact ⟨rfl, fun info hinfo => by simp [← Except.ok.inj hinfo]⟩

/-! ### Calls -/

/-- Who asks about itself under a context that has ended is not told. -/
theorem run_describeSelf_of_ended (hover : s.Over l) (hknown : caller ≠ .unknown)
    (he : ValidEnclaveName (s.enclaveName enclave)) (hended : w.ended c = true) :
    (s.describeSelf caller enclave).attempt.run c w = (.error .canceled, w) := by
  have hensured : (l.handle (s.enclaveName enclave)).ensureRegistered.attempt.run c w =
      (.error .canceled, w) := by
    have hlooked : ((l.handle (s.enclaveName enclave)).registry.find?
        (l.handle (s.enclaveName enclave)).name).attempt.run c w = (.error .canceled, w) :=
      Cabinet.run_find?_of_ended hended he.nonempty
    unfold Enclave.ensureRegistered
    rw [Routine.run_bind, hlooked]
  unfold describeSelf
  rw [if_neg (mt Identity.isUnknown_iff.1 hknown), Routine.run_handle,
    run_registered_of_ensured hover he hensured]
  rfl

/-- **What a caller is told of itself agrees with the decisions on it.** -/
structure Agreement (told : Except Error SelfInfo) (decided : String → Except Error Decision) :
    Prop where
  /-- Whoever is told a policy may do what the policy allows. -/
  policy : ∀ info p, told = .ok info → info.policy = some p → ∀ path,
    decided path = .ok (p.evaluate path)
  /-- Whoever is told to be the admin may do everything. -/
  admin : ∀ info, told = .ok info → info.isAdmin = true → ∀ path, decided path = .ok .allow
  /-- Whoever is told to have no policy may do nothing. -/
  unassigned : ∀ who, told = .error (.unassigned who) → ∀ path, decided path = .ok .deny
  /-- Nor may a caller whose policy is gone. -/
  notFound : ∀ what, told = .error (.notFound what) → ∀ path, decided path = .ok .deny

/-- Verdicts agree with what they follow from, if only the admin is told no policy. -/
theorem agreement_of_verdict {told : Except Error SelfInfo}
    {decided : String → Except Error Decision}
    (hverdict : ∀ path, decided path = SelfInfo.verdict path told)
    (hadmin : ∀ info, told = .ok info → (info.isAdmin = true ↔ info.policy = none)) :
    Agreement told decided where
  policy info p htold hp path := by
    have hother : info.isAdmin = false := by
      rw [← Bool.not_eq_true, hadmin info htold, hp]
      exact nofun
    obtain ⟨identity, isAdmin, assignment, policy⟩ := info
    obtain rfl : policy = some p := hp
    obtain rfl : isAdmin = false := hother
    rw [hverdict, htold]
    rfl
  admin info htold his path := by
    obtain ⟨identity, isAdmin, assignment, policy⟩ := info
    obtain rfl : isAdmin = true := his
    rw [hverdict, htold]
    rfl
  unassigned who htold path := by
    rw [hverdict, htold]
    rfl
  notFound what htold path := by
    rw [hverdict, htold]
    rfl

/-- What a program tells a caller of itself agrees with the decisions on it over the same store. -/
theorem agreement_of_run (hover : s.Over l) (hvalid : caller.Valid)
    (he : ValidEnclaveName (s.enclaveName enclave))
    (hregistered : w.backend.record? (l.record (s.enclaveName enclave)) = some registration)
    {told : Except Error SelfInfo} {w' : World Unit}
    (hrun : (s.describeSelf caller enclave).attempt.run c w = (told, w')) :
    w' = w ∧ ∀ (v : World Unit) (c' : Context), v.backend = w.backend → v.ended c' = false →
      Agreement told (fun path => ((s.authorizer.decide (l.handle (s.enclaveName enclave)) caller
        path).attempt.run c' v).1) ∧
      (w.ended c = false → ∀ path, ((s.authorizer.decide (l.handle (s.enclaveName enclave)) caller
        path).attempt.run c' v).1 = SelfInfo.verdict path told) := by
  have hknown : caller ≠ .unknown := fun h => hvalid.known (congrArg Identity.text h)
  have hlooks : (s.describeSelf caller enclave).Keeps .lookups (fun _ => True) fun _ => True :=
    keeps_describeSelf hover fun _ full _ => ⟨full, rfl⟩
  have hstill : w' = w := by
    have hleft : ((s.describeSelf caller enclave).attempt.run c w).2 = w :=
      (hlooks.attempt.run_lookups rfl rfl).1
    rw [hrun] at hleft
    exact hleft
  refine ⟨hstill, fun v c' hstore hlive => ?_⟩
  cases hcalled : w.ended c with
  | true =>
      rw [run_describeSelf_of_ended hover hknown he hcalled] at hrun
      have hcanceled : told = .error .canceled := (congrArg Prod.fst hrun).symm
      subst hcanceled
      exact ⟨⟨by simp, by simp, by simp, by simp⟩, by simp⟩
  | false =>
      have hverdict (path : String) := decide_eq_verdict hover hvalid he hcalled hregistered path
      rw [hrun] at hverdict
      have hdecided (path : String) :
          ((s.authorizer.decide (l.handle (s.enclaveName enclave)) caller path).attempt.run c'
            v).1 = SelfInfo.verdict path told := by
        have hdecides : (s.authorizer.decide (l.handle (s.enclaveName enclave)) caller
            path).attempt.Keeps .lookups fun _ => True :=
          Program.Keeps.weaken (s.authorizer.keeps_decide (fun _ => ⟨_, rfl⟩) fun _ _ _ => ⟨_, rfl⟩)
            fun _ _ => trivial
        rw [(hdecides.run_lookups (hlive.trans hcalled.symm) hstore).2]
        exact (hverdict path).1
      exact ⟨agreement_of_verdict hdecided (hverdict "").2, fun _ => hdecided⟩

/-- **Self description agrees with authorization.**  Nothing goes wrong, and a caller whose
identity can be stored asks about itself in a registered enclave.  Over the same store, whatever it
holds and under whatever context that lives, the caller may do what the policy allows that it is
told, it may do everything if it is told that it is the admin, and it may do nothing if it is told
that it has no policy or that its policy is gone.  If the context of the call lives as well, what
the caller is told gives every decision, also one that fails. -/
theorem describeSelf_agrees {settings : Settings} (hmade : ofSettings settings = .ok s)
    (hvalid : caller.Valid) {h : Enclave}
    (hhandle : s.registry.handle (s.enclaveName enclave) = .ok h)
    (hregistered : w.backend.record?
      (Layout.record ⟨settings.keyPrefix⟩ (s.enclaveName enclave)) = some registration)
    {r : Except Error Reply} {w' : World Unit}
    (hserved : s.serve? c caller (.describeSelf enclave) w = some (r, w')) :
    w'.backend = w.backend ∧ ∃ told : Except Error SelfInfo, r = told.map .self ∧
      ∀ (v : World Unit) (c' : Context), v.backend = w.backend → v.ended c' = false →
        Agreement told (fun path => ((s.authorizer.decide h caller path).attempt.run c' v).1) ∧
        (s.Lives c w → ∀ path, ((s.authorizer.decide h caller path).attempt.run c' v).1 =
          SelfInfo.verdict path told) := by
  have hover := over_of_ofSettings hmade
  obtain ⟨he, hsame⟩ := hover.handle_eq_ok_iff.1 hhandle
  subst hsame
  obtain ⟨⟨told, w₁⟩, hrun, hreply⟩ := Option.bind_eq_some_iff.1 hserved
  obtain ⟨hr, hw⟩ := Prod.mk.inj (Option.some.inj hreply)
  obtain ⟨c₁, tokens, hcontext, hended⟩ := run?_eq_some_iff.1 hrun
  obtain ⟨hstill, hagrees⟩ := agreement_of_run (w := { w with tokens := tokens }) hover hvalid he
    hregistered hended
  refine ⟨by rw [← hw, hstill], told, hr.symm, fun v c' hstore hlive => ?_⟩
  obtain ⟨hagreement, hverdict⟩ := hagrees v c' hstore hlive
  refine ⟨hagreement, fun ⟨c₂, tokens', hcontext', hlives⟩ => hverdict ?_⟩
  rw [hcontext] at hcontext'
  obtain ⟨hc, htokens⟩ := Prod.mk.inj (Option.some.inj hcontext')
  rw [hc, htokens]
  exact hlives

/-- The admin prepares the default enclave, creates a policy and gives it to a caller.  The caller
is told this policy, and it decides on the caller. -/
theorem describeSelf_agrees_assigned :
    let s : Service := ⟨Layout.catalog ⟨""⟩, .ofAdmin (some ⟨"root"⟩), "default", 30⟩
    let ask (c : Command) : Step := .call (.ofToken []) ⟨"root"⟩ (.command "" c)
    let steps : List Step := [.call (.ofToken []) ⟨"root"⟩ .init,
      ask (.createPolicy "p" ⟨["/v1/key/get/*"], ["/v1/key/get/x"], none, .unknown⟩),
      ask (.assignPolicy "p" [⟨"ann"⟩])]
    let time := (World.calm (.memory .empty)).clock 0
    let policy : Policy := ⟨["/v1/key/get/*"], ["/v1/key/get/x"], some time, ⟨"root"⟩⟩
    let info : SelfInfo := ⟨⟨"ann"⟩, false, some ⟨⟨"ann"⟩, "p", time, ⟨"root"⟩⟩, some policy⟩
    ∃ transcript w w', s.serveAll? steps (World.calm (.memory .empty)) = some (transcript, w) ∧
      s.serve? (.ofToken []) ⟨"ann"⟩ (.describeSelf "") w = some (.ok (.self info), w') ∧
      ∀ path, ((s.authorizer.decide (Layout.handle ⟨""⟩ "default") ⟨"ann"⟩ path).attempt.run
        (.ofToken []) w).1 = .ok (policy.evaluate path) := by
  intro s ask steps time policy info
  have hmade : ofSettings { Settings.default with admin := some ⟨"root"⟩ } = .ok s := rfl
  have hvalid : Identity.Valid ⟨"ann"⟩ := Identity.check_eq_ok_iff.1 (by decide +kernel)
  have hhandle : s.registry.handle (s.enclaveName "") = .ok (Layout.handle ⟨""⟩ "default") :=
    (over_of_ofSettings hmade).handle_eq_ok_iff.2 ⟨(over_of_ofSettings hmade).validDefault, rfl⟩
  have hregistered : (s.serveAll? steps (World.calm (.memory .empty))).map
      (fun x => x.2.backend.record? "sys/enclaves/default") =
        some (some (⟨time, ⟨"root"⟩⟩ : Registration)) := by decide +kernel
  have htold : ((s.serveAll? steps (World.calm (.memory .empty))).bind fun x =>
      (s.serve? (.ofToken []) ⟨"ann"⟩ (.describeSelf "") x.2).map Prod.fst) =
        some (.ok (.self info)) := by decide +kernel
  have hlives : (s.serveAll? steps (World.calm (.memory .empty))).map
      (fun x => x.2.ended (.ofToken [])) = some false := by decide +kernel
  obtain ⟨⟨transcript, w⟩, hreached, hanswered⟩ := Option.bind_eq_some_iff.1 htold
  obtain ⟨⟨r, w'⟩, hserved, hr⟩ := Option.map_eq_some_iff.1 hanswered
  rw [hreached] at hregistered hlives
  obtain ⟨-, told, htold, hagrees⟩ :=
    describeSelf_agrees hmade hvalid hhandle (Option.some.inj hregistered) hserved
  obtain ⟨hagreement, -⟩ := hagrees w (.ofToken []) rfl (Option.some.inj hlives)
  have hinfo : told = .ok info := by
    cases told with
    | error e => exact absurd (htold.symm.trans hr) (by simp [Except.map])
    | ok known =>
        have hsame : (.ok (.self known) : Except Error Reply) = .ok (.self info) :=
          htold.symm.trans hr
        rw [Reply.self.inj (Except.ok.inj hsame)]
  refine ⟨transcript, w, w', hreached, ?_, hagreement.policy info policy hinfo rfl⟩
  rw [hserved, show r = .ok (.self info) from hr]

end Service

end Calm

end KeyCustody
