import KeyCustody.Proofs.Calm
import KeyCustody.Proofs.Serving

/-!
# Escalation

A decision reads two records: the caller's assignment and the policy that it names.  No call
of a caller creates an assignment for the caller itself, and only a command that sets a
policy creates that policy.  So after a call each of the two records is what it was, or it
is gone, or the call set the policy.  Nothing is assumed of the answers of the store, so
this holds whatever fails on the way.  Main statements:

* `Service.watched_of_serve?`: what becomes of the names that a call does not create;
* `Service.no_self_escalation`: whoever may do more after its own call than before has set
  the policy that its own assignment names.
-/

namespace KeyCustody

/-- The contract of creating none of the watched names. -/
def Contract.avoiding (watched : String → Prop) : Contract where
  allows
    | .create name _ => ¬ watched name
    | _ => True
  assumes _ _ := True

/-- Every watched name holds what it held, or nothing. -/
def Backend.KeepsOrLoses (watched : String → Prop) (b b' : Backend) : Prop :=
  ∀ name, watched name → b'.stored? name = b.stored? name ∨ b'.stored? name = none

/-- No answer brings a watched name to hold anything new. -/
theorem World.avoiding_step {σ : Type} [Mishaps σ] {watched : String → Prop} {b : Backend}
    (c : Context) (r : Request) (w : World σ) (hr : (Contract.avoiding watched).allows r)
    (hw : b.KeepsOrLoses watched w.backend) :
    b.KeepsOrLoses watched (w.answer c r).2.backend := by
  intro name hname
  have hcreates : ¬ r.Creates name := by
    intro hr'
    cases r with
    | create other value => exact hr (hr' ▸ hname)
    | _ => exact hr'
  rcases w.stored?_answer_of_not_creates hcreates c with hsame | hlost
  · rw [hsame]
    exact hw name hname
  · exact .inr hlost

namespace Service

variable {σ : Type} [Mishaps σ] {s : Service} {l : Layout} {caller : Identity} {call : Call}

/-- The call sets the policy of the name in the enclave. -/
def Sets (s : Service) (call : Call) (e name : String) : Prop :=
  ∃ enclave policy, call = .command enclave (.createPolicy name policy) ∧
    s.enclaveName enclave = e

/-- The names that a call of the caller does not create: the caller's own assignments, and the
policies that the call does not set. -/
inductive Watched (s : Service) (l : Layout) (caller : Identity) (call : Call) : String → Prop
  | assignment {e : String} (valid : ValidEnclaveName e) :
      Watched s l caller call (l.space .assignment e ++ caller.text)
  | policy {e name : String} (valid : ValidEnclaveName e) (unset : ¬ s.Sets call e name) :
      Watched s l caller call (l.space .policy e ++ name)

/-- A watched name is an assignment of the caller or a policy that the call does not set. -/
theorem Watched.of_space {e name : String} {kind : RecordKind} (he : ValidEnclaveName e)
    (h : Watched s l caller call (l.space kind e ++ name)) :
    (kind = .assignment ∧ name = caller.text) ∨ (kind = .policy ∧ ¬ s.Sets call e name) := by
  generalize hfull : l.space kind e ++ name = full at h
  cases h with
  | assignment he' =>
      obtain ⟨rfl, -, rfl⟩ := Layout.space_append_inj he.toValidName he'.toValidName hfull
      exact .inl ⟨rfl, rfl⟩
  | policy he' hunset =>
      obtain ⟨rfl, rfl, rfl⟩ := Layout.space_append_inj he.toValidName he'.toValidName hfull
      exact .inr ⟨rfl, hunset⟩

/-- No registration is watched. -/
theorem not_watched_record (e : String) : ¬ Watched s l caller call (l.record e) := by
  intro h
  generalize hfull : l.record e = full at h
  cases h with
  | assignment => exact Layout.record_ne_space_append _ _ _ _ _ hfull
  | policy => exact Layout.record_ne_space_append _ _ _ _ _ hfull

/-- No call creates what is watched. -/
theorem not_watched_of_asks {k : Contract} {full : String} {value : Bytes}
    (hasks : CallAsks k s l caller call (.create full value)) :
    ¬ Watched s l caller call full := by
  generalize hr : Request.create full value = r at hasks
  induction hasks with
  | gate | eventId | time | emit | describeSelf | health => cases hr
  | @body enclave c r hpassed hbody =>
      subst hr
      have hvalid := hpassed.valid
      generalize hcreate : Request.create full value = r at hbody
      cases hbody with
      | createKey_create =>
          cases hcreate
          intro hwatched
          rcases hwatched.of_space hvalid with ⟨hkind, -⟩ | ⟨hkind, -⟩ <;> cases hkind
      | @createPolicy_create name policy =>
          cases hcreate
          intro hwatched
          rcases hwatched.of_space hvalid with ⟨hkind, -⟩ | ⟨-, hunset⟩
          · cases hkind
          · exact hunset ⟨enclave, policy, rfl, rfl⟩
      | assignPolicy_create _ _ _ _ hother =>
          cases hcreate
          intro hwatched
          rcases hwatched.of_space hvalid with ⟨-, htext⟩ | ⟨hkind, -⟩
          · exact hother (congrArg Identity.mk htext)
          · cases hkind
      | createEnclave_create =>
          cases hcreate
          exact not_watched_record _
      | _ => cases hcreate
  | deletePolicy _ _ ih =>
      -- the call and its parts set no policy, so they watch the same names
      intro hwatched
      refine ih hr ?_
      cases hwatched with
      | assignment hvalid => exact .assignment hvalid
      | policy hvalid =>
          refine .policy hvalid ?_
          rintro ⟨enclave, policy, hcall, -⟩
          cases hcall
  | init hasks =>
      subst hr
      generalize hcreate : Request.create full value = r at hasks
      cases hasks with
      | createEnclave_create =>
          cases hcreate
          exact not_watched_record _
      | _ => cases hcreate

/-- **What becomes of the watched names.**  After a call each of them holds what it held
before, or nothing. -/
theorem watched_of_serve? (hover : s.Over l) {c : Context} {w w' : World σ}
    {r : Except Error Reply} (hserved : s.serve? c caller call w = some (r, w')) :
    w.backend.KeepsOrLoses (Watched s l caller call) w'.backend := by
  refine serve?_preserves (fun v => w.backend.KeepsOrLoses (Watched s l caller call) v.backend)
    (fun _ _ h => h) (fun p hp c v hv => ?_) (fun _ _ => .inl rfl) hserved
  have hkeeps : p.Keeps (.avoiding (Watched s l caller call)) (fun _ => True) := by
    refine keeps_programs hover (fun r hr => ?_) hp
    cases r with
    | create full value => exact not_watched_of_asks hr
    | _ => trivial
  exact (hkeeps.run c _ (fun r v hr hv => ⟨trivial, World.avoiding_step c r v hr hv⟩) hv).2

/-- A record that is found after a call was there before, if its name is watched. -/
theorem record?_of_serve? {α : Type} [Record α] (hover : s.Over l) {c : Context}
    {w w' : World σ} {r : Except Error Reply}
    (hserved : s.serve? c caller call w = some (r, w')) {name : String}
    (hwatched : Watched s l caller call name) {a : α}
    (hafter : w'.backend.record? name = some a) : w.backend.record? name = some a := by
  obtain ⟨value, hstored, hdecoded⟩ := Backend.record?_eq_some_iff.1 hafter
  rcases watched_of_serve? hover hserved name hwatched with hsame | hlost
  · exact Backend.record?_eq_some_iff.2 ⟨value, hsame ▸ hstored, hdecoded⟩
  · rw [hlost] at hstored
    cases hstored

/-- **Nobody grants itself more.**  If a caller other than the admin may use a request path in
an enclave after its own call that it might not use before, whatever failed during the call,
then the call set a policy there: the one that the caller's own assignment names. -/
theorem no_self_escalation {settings : Settings} {s : Service}
    (hmade : ofSettings settings = .ok s) {c : Context} {w w' : World σ} {caller : Identity}
    (hcaller : s.authorizer.isAdmin caller = false) {call : Call} {r : Except Error Reply}
    (hserved : s.serve? c caller call w = some (r, w')) {e path : String} {handle : Enclave}
    (hhandle : s.registry.handle e = .ok handle)
    (hbefore : s.authorizer.decideOver w.backend handle caller path ≠ .ok .allow)
    (hafter : s.authorizer.decideOver w'.backend handle caller path = .ok .allow) :
    ∃ (enclave : String) (a : Assignment) (policy : Policy),
      call = .command enclave (.createPolicy a.policy policy) ∧ s.enclaveName enclave = e ∧
        w.backend.record? (Layout.space ⟨settings.keyPrefix⟩ .assignment e ++ caller.text) =
          some a := by
  have hover := over_of_ofSettings hmade
  obtain ⟨hvalid, rfl⟩ := hover.handle_eq_ok_iff.1 hhandle
  rw [Ne, s.authorizer.decideOver_eq_allow_iff hcaller] at hbefore
  obtain ⟨hknown, a, p, hassignment, hname, hpolicy, hrules⟩ :=
    (s.authorizer.decideOver_eq_allow_iff hcaller).1 hafter
  have hassigned := record?_of_serve? hover hserved (.assignment hvalid) hassignment
  by_cases hsets : s.Sets call e a.policy
  · obtain ⟨enclave, policy, hcall, henclave⟩ := hsets
    exact ⟨enclave, a, policy, hcall, henclave, hassigned⟩
  · have hheld := record?_of_serve? hover hserved (.policy hvalid hsets) hpolicy
    exact absurd ⟨hknown, a, p, hassigned, hname, hheld, hrules⟩ hbefore

/-- A caller that may set the policy it has does so and may read a key afterwards. -/
theorem no_self_escalation_own_policy :
    let s : Service := ⟨Layout.catalog ⟨""⟩, .ofAdmin none, "default", 30⟩
    let time := (World.calm (.memory .empty)).clock 0
    let registration : Registration := ⟨time, ⟨"root"⟩⟩
    let assignment : Assignment := ⟨"p", time, ⟨"root"⟩⟩
    let policy : Policy := ⟨["/v1/policy/create/p"], [], some time, ⟨"root"⟩⟩
    let b : Backend := .memory (((Table.empty.insert "sys/enclaves/default"
      (Record.encode registration)).insert "enclaves/default/identities/ann"
      (Record.encode assignment)).insert "enclaves/default/policies/p" (Record.encode policy))
    let call := Call.command "" (.createPolicy "p" (.ofRules ["*"] []))
    let handle := Layout.handle ⟨""⟩ "default"
    ∃ r w', s.serve? (.ofToken []) ⟨"ann"⟩ call (.calm b) = some (r, w') ∧
      s.authorizer.decideOver b handle ⟨"ann"⟩ "/v1/key/get/k" = .ok .deny ∧
      s.authorizer.decideOver w'.backend handle ⟨"ann"⟩ "/v1/key/get/k" = .ok .allow ∧
      ∃ (enclave : String) (a : Assignment) (rules : Policy),
        call = .command enclave (.createPolicy a.policy rules) ∧
          s.enclaveName enclave = "default" ∧
            b.record? "enclaves/default/identities/ann" = some a := by
  intro s time registration assignment policy b call handle
  have hmade : ofSettings .default = .ok s := rfl
  have hhandle : s.registry.handle "default" = .ok handle :=
    (over_of_ofSettings hmade).handle_eq_ok_iff.2
      ⟨(over_of_ofSettings hmade).validDefault, rfl⟩
  have hbefore : s.authorizer.decideOver b handle ⟨"ann"⟩ "/v1/key/get/k" = .ok .deny := by
    decide +kernel
  have hserved : (s.serve? (.ofToken []) ⟨"ann"⟩ call (.calm b)).any (fun served =>
      s.authorizer.decideOver served.2.backend handle ⟨"ann"⟩ "/v1/key/get/k" =
        .ok .allow) = true := by
    decide +kernel
  obtain ⟨⟨r, w'⟩, hserved, hallowed⟩ := (Option.any_eq_true _ _).1 hserved
  have hafter := of_decide_eq_true hallowed
  refine ⟨r, w', hserved, hbefore, hafter, ?_⟩
  refine no_self_escalation hmade (w := .calm b) rfl hserved hhandle ?_ hafter
  change s.authorizer.decideOver b handle ⟨"ann"⟩ "/v1/key/get/k" ≠ .ok .allow
  rw [hbefore]
  decide

end Service

end KeyCustody
