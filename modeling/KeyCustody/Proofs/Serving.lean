import KeyCustody.Calls
import KeyCustody.Proofs.CallFootprint

/-!
# Serving calls

Most calls run one program; a deletion of several policies runs one for each.  So a property
of a whole call follows from what each of its programs keeps to.  `Service.CallAsks` is the
footprint of a call, and its rules are those of the gate, of the commands, and of the calls
that need no permission.  Main statements:

* `Service.keeps_programs`: the programs of a call keep to its footprint;
* `Service.serve?_preserves`: a call preserves what the answers to its requests preserve;
* `Service.serve?_simulates`: a call has the same result in worlds that answer its requests
  alike.
-/

namespace KeyCustody

namespace Service

variable {k : Contract} {l : Layout}

/-! ### Footprints -/

/-- **The footprint of a call.** -/
inductive CallAsks (k : Contract) (s : Service) (l : Layout) (caller : Identity) :
    Call → Request → Prop
  | gate {enclave full : String} {c : Command} (valid : ValidEnclaveName (s.scopeOf enclave c))
      (looks : GateLooks k l caller (s.scopeOf enclave c) full) :
      CallAsks k s l caller (.command enclave c) (.get full)
  | body {enclave : String} {c : Command} {r : Request}
      (passed : Passed k s l caller (s.scopeOf enclave c) c.operation.path)
      (asks : Asks k s l caller (s.scopeOf enclave c) c r) :
      CallAsks k s l caller (.command enclave c) r
  | eventId {enclave : String} {c : Command} :
      CallAsks k s l caller (.command enclave c) .eventId
  | time {enclave : String} {c : Command} : CallAsks k s l caller (.command enclave c) .time
  | emit {enclave : String} {c : Command} {event : AuditEvent} :
      CallAsks k s l caller (.command enclave c) (.emit event)
  | deletePolicy {enclave name : String} {names : List String} {r : Request}
      (named : name ∈ names)
      (asks : CallAsks k s l caller (.command enclave (.deletePolicy name)) r) :
      CallAsks k s l caller (.deletePolicies enclave names) r
  | describeSelf {enclave full : String} (valid : ValidEnclaveName (s.enclaveName enclave))
      (looks : SelfLooks l caller (s.enclaveName enclave) full) :
      CallAsks k s l caller (.describeSelf enclave) (.get full)
  | init {enclave : String} {r : Request}
      (asks : Asks k s l (s.authorizer.admin.getD .unknown) enclave
        (.createEnclave s.defaultEnclave) r) :
      CallAsks k s l caller .init r
  | health : CallAsks k s l caller .health .status

/-- The programs that a call runs one after the other. -/
def programs (s : Service) (caller : Identity) : Call → List (Program (Except Error Reply))
  | .command enclave c => [(s.perform caller enclave c).attempt]
  | .deletePolicies enclave names =>
    names.map fun name => (s.perform caller enclave (.deletePolicy name)).attempt
  | .describeSelf enclave => [(Reply.self <$> s.describeSelf caller enclave).attempt]
  | .init => [((fun _ => Reply.done) <$> s.init).attempt]
  | .health => [((fun _ => Reply.done) <$> health).attempt]

/-- **Every program of a call keeps to the call's footprint.** -/
theorem keeps_programs {s : Service} (hover : s.Over l) {caller : Identity} {call : Call}
    (hallowed : ∀ r, CallAsks k s l caller call r → k.allows r)
    {p : Program (Except Error Reply)} (hp : p ∈ s.programs caller call) :
    p.Keeps k (fun _ => True) := by
  have hcommand {enclave : String} {c : Command}
      (hasks : ∀ r, CallAsks k s l caller (.command enclave c) r → k.allows r) :
      (s.perform caller enclave c).attempt.Keeps k (fun _ => True) := by
    refine Program.Keeps.weaken (keeps_perform hover ?_ ?_ ?_ ?_ ?_) fun _ _ => trivial
    · exact fun hvalid full hlooks => hasks _ (.gate hvalid hlooks)
    · exact fun hpassed r hbody => hasks _ (.body hpassed hbody)
    · exact hasks _ .eventId
    · exact hasks _ .time
    · exact fun event => hasks _ .emit
  cases call with
  | command enclave c =>
      obtain rfl := List.mem_singleton.1 hp
      exact hcommand hallowed
  | deletePolicies enclave names =>
      obtain ⟨name, hname, rfl⟩ := List.mem_map.1 hp
      exact hcommand fun r hr => hallowed r (.deletePolicy hname hr)
  | describeSelf enclave =>
      obtain rfl := List.mem_singleton.1 hp
      have hself : (s.describeSelf caller enclave).Keeps k (fun _ => True) (fun _ => True) :=
        keeps_describeSelf hover fun hvalid full hlooks =>
          hallowed _ (.describeSelf hvalid hlooks)
      exact Program.Keeps.weaken (keeps_reply hself) fun _ _ => trivial
  | init =>
      obtain rfl := List.mem_singleton.1 hp
      have hasks (r : Request) (hr : Asks k s l (s.authorizer.admin.getD .unknown) ""
          (.createEnclave s.defaultEnclave) r) : k.allows r := hallowed r (.init hr)
      have hcreate := Registry.keeps_create (m := s.defaultEnclave)
        (fun hvalid => hasks _ (.createEnclave_look hvalid)) (hasks _ .time)
        (fun hvalid hmissed kind => hasks _ (.createEnclave_list hvalid hmissed))
        (fun hvalid hmissed kind name => hasks _ (.createEnclave_remove hvalid hmissed))
        fun hvalid hmissed time => hasks _ (.createEnclave_create hvalid hmissed)
      have hensure := Registry.keeps_ensure
        (fun hvalid => hasks _ (.createEnclave_look hvalid))
        (Routine.Keeps.weaken hcreate (fun _ _ => trivial) fun _ => id)
      have hinit : s.init.Keeps k (fun _ => True) (fun _ => True) := by
        unfold init
        rw [hover.registry_eq]
        exact keeps_reply hensure
      exact Program.Keeps.weaken (keeps_reply hinit) fun _ _ => trivial
  | health =>
      obtain rfl := List.mem_singleton.1 hp
      have hasked : health.Keeps k (fun _ => True) fun _ => True :=
        Program.Keeps.weaken (Program.Keeps.request (hallowed _ .health)) fun r _ => by
          cases r <;> trivial
      exact Program.Keeps.weaken (keeps_reply hasked) fun _ _ => trivial

/-! ### Runs of calls -/

variable {σ : Type} [Mishaps σ] {s : Service} {caller : Identity} {c : Context}

/-- A program runs under the context of its call, in a world whose tokens include the call's. -/
theorem run?_eq_some_iff {α : Type} {p : Program α} {w w' : World σ} {a : α} :
    s.run? c p w = some (a, w') ↔
      ∃ c' tokens, s.callContext? c w.tokens w.now = some (c', tokens) ∧
        p.run c' { w with tokens := tokens } = (a, w') := by
  unfold run?
  cases hcontext : s.callContext? c w.tokens w.now with
  | none => simp
  | some given =>
      obtain ⟨c', tokens⟩ := given
      constructor
      · intro h
        exact ⟨c', tokens, rfl, Option.some.inj h⟩
      · rintro ⟨c'', tokens', hgiven, hrun⟩
        cases hgiven
        exact congrArg some hrun

/-- The context of a call that starts now lives. -/
def Lives (s : Service) (c : Context) (w : World σ) : Prop :=
  ∃ c' tokens, s.callContext? c w.tokens w.now = some (c', tokens) ∧
    ({ w with tokens := tokens } : World σ).ended c' = false

/-- A value that is told differently. -/
theorem run?_map {α β : Type} {a : Routine α} {f : α → β} {w : World σ} :
    s.run? c (f <$> a).attempt w =
      (s.run? c a.attempt w).map fun (r, w') => (r.map f, w') := by
  unfold run?
  cases hcontext : s.callContext? c w.tokens w.now with
  | none => rfl
  | some given =>
      obtain ⟨c', tokens⟩ := given
      exact congrArg some (Routine.run_map c' a f { w with tokens := tokens })

/-- A call of one program is a run of it. -/
theorem serve?_eq_run? {call : Call} {p : Program (Except Error Reply)}
    (hsingle : s.programs caller call = [p]) (hcall : ∀ e names, call ≠ .deletePolicies e names)
    (w : World σ) : s.serve? c caller call w = s.run? c p w := by
  cases call with
  | deletePolicies e names => exact absurd rfl (hcall e names)
  | command e command =>
      obtain rfl := List.singleton_inj.1 hsingle
      rfl
  | describeSelf e =>
      obtain rfl := List.singleton_inj.1 hsingle
      rw [run?_map, serve?]
      cases s.run? c (s.describeSelf caller e).attempt w <;> rfl
  | init =>
      obtain rfl := List.singleton_inj.1 hsingle
      rw [run?_map, serve?]
      cases s.run? c s.init.attempt w <;> rfl
  | health =>
      obtain rfl := List.singleton_inj.1 hsingle
      rw [run?_map, serve?]
      cases s.run? c health.attempt w <;> rfl

/-- **Calls in worlds that answer alike.**  If related worlds show the same time and tokens and
bring the programs of a call to the same values, then the call has the same result in both
and leaves them related. -/
theorem serve?_simulates {τ : Type} [Mishaps τ] {call : Call}
    (related : World σ → World τ → Prop)
    (hclock : ∀ w v, related w v → v.tokens = w.tokens ∧ v.now = w.now)
    (htokens : ∀ w v tokens, related w v →
      related { w with tokens := tokens } { v with tokens := tokens })
    (hprograms : ∀ p ∈ s.programs caller call, ∀ c w v, related w v →
      (p.run c v).1 = (p.run c w).1 ∧ related (p.run c w).2 (p.run c v).2)
    {w w' : World σ} {v : World τ} {r : Except Error Reply} (hwv : related w v)
    (hserved : s.serve? c caller call w = some (r, w')) :
    ∃ v', s.serve? c caller call v = some (r, v') ∧ related w' v' := by
  have hsingle {p : Program (Except Error Reply)} {w w' : World σ} {v : World τ}
      {r : Except Error Reply} (hp : p ∈ s.programs caller call) (hwv : related w v)
      (hrun : s.run? c p w = some (r, w')) :
      ∃ v', s.run? c p v = some (r, v') ∧ related w' v' := by
    obtain ⟨c', tokens, hcontext, hended⟩ := run?_eq_some_iff.1 hrun
    obtain ⟨htoken, hnow⟩ := hclock w v hwv
    rw [← htoken, ← hnow] at hcontext
    obtain ⟨hsame, hrelated⟩ := hprograms p hp c' _ _ (htokens w v tokens hwv)
    rw [hended] at hsame hrelated
    exact ⟨_, run?_eq_some_iff.2 ⟨c', tokens, hcontext, Prod.ext hsame rfl⟩, hrelated⟩
  by_cases hbulk : ∃ e names, call = .deletePolicies e names
  · obtain ⟨e, all, rfl⟩ := hbulk
    have hdeleted (names : List String) (hnames : ∀ name ∈ names, name ∈ all) :
        ∀ {w w' : World σ} {v : World τ} {outcomes : List Outcome}, related w v →
          s.deletePolicies? c caller e names w = some (outcomes, w') →
            ∃ v', s.deletePolicies? c caller e names v = some (outcomes, v') ∧
              related w' v' := by
      induction names with
      | nil =>
          intro w w' v outcomes hwv hserved
          cases hserved
          exact ⟨v, rfl, hwv⟩
      | cons name names ih =>
          intro w w' v outcomes hwv hserved
          unfold deletePolicies? at hserved
          obtain ⟨⟨r, w₁⟩, hfirst, hserved⟩ := Option.bind_eq_some_iff.1 hserved
          obtain ⟨⟨more, w₂⟩, hrest, hserved⟩ := Option.bind_eq_some_iff.1 hserved
          cases hserved
          have hp : (s.perform caller e (.deletePolicy name)).attempt ∈
              s.programs caller (.deletePolicies e all) :=
            List.mem_map.2 ⟨name, hnames name List.mem_cons_self, rfl⟩
          obtain ⟨v₁, hfirst', hwv₁⟩ := hsingle hp hwv hfirst
          obtain ⟨v₂, hrest', hwv₂⟩ :=
            ih (fun n hn => hnames n (List.mem_cons_of_mem _ hn)) hwv₁ hrest
          refine ⟨v₂, ?_, hwv₂⟩
          unfold deletePolicies?
          exact Option.bind_eq_some_iff.2 ⟨(r, v₁), hfirst',
            Option.bind_eq_some_iff.2 ⟨(more, v₂), hrest', rfl⟩⟩
    obtain ⟨⟨outcomes, w₁⟩, hall, hserved⟩ := Option.bind_eq_some_iff.1 hserved
    cases hserved
    obtain ⟨v₁, hall', hwv₁⟩ := hdeleted all (fun _ => id) hwv hall
    exact ⟨v₁, Option.bind_eq_some_iff.2 ⟨(outcomes, v₁), hall', rfl⟩, hwv₁⟩
  · obtain ⟨p, hp⟩ : ∃ p, s.programs caller call = [p] := by
      cases call with
      | deletePolicies e names => exact absurd ⟨e, names, rfl⟩ hbulk
      | _ => exact ⟨_, rfl⟩
    have hcall : ∀ e names, call ≠ .deletePolicies e names :=
      fun e names h => hbulk ⟨e, names, h⟩
    rw [serve?_eq_run? hp hcall] at hserved ⊢
    exact hsingle (hp ▸ List.mem_singleton_self p) hwv hserved

/-- **What a call preserves.**  A call preserves what its programs preserve and what does not
depend on the tokens given out. -/
theorem serve?_preserves {call : Call} (inv : World σ → Prop)
    (htokens : ∀ w tokens, inv w → inv { w with tokens := tokens })
    (hprograms : ∀ p ∈ s.programs caller call, ∀ c w, inv w → inv (p.run c w).2)
    {w w' : World σ} {r : Except Error Reply} (hw : inv w)
    (hserved : s.serve? c caller call w = some (r, w')) : inv w' := by
  obtain ⟨v', -, -, hinv⟩ := serve?_simulates (fun w v => v = w ∧ inv w)
    (fun w v h => by rw [h.1]; exact ⟨rfl, rfl⟩)
    (fun w v tokens h => ⟨by rw [h.1], htokens w tokens h.2⟩)
    (fun p hp c w v h => by rw [h.1]; exact ⟨rfl, rfl, hprograms p hp c w h.2⟩)
    ⟨rfl, hw⟩ hserved
  exact hinv

end Service

end KeyCustody
