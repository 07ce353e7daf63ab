import KeyCustody.Proofs.Coupling
import KeyCustody.Proofs.Surfacing

/-!
# Coupled calls

If the routines of a service match (`Program.Matches`), so do its calls, and whole sequences of
calls: from worlds that correspond, calls that are alike give results that are alike and leave
worlds that correspond.  Main statements:

* `Service.matches_perform`: commands that are alike match;
* `Service.serve?_matches`: what that says of one call;
* `Service.serveAll?_matches`: what it says of a sequence of calls, between which time passes
  and tokens are given out and canceled.
-/

namespace KeyCustody

open Routine (Matches)

open Observed (sees)

section Commands

variable {σ τ : Type} [Mishaps σ] [Mishaps τ] {K : Coupling σ τ} {o : Observer} {l : Layout}

/-! ### The gate -/

namespace Authorizer

variable {e path : String} {i : Identity}

theorem matches_decide (hK : K.Sound o l) (he : ValidEnclaveName e) (a : Authorizer) :
    (a.decide (l.handle e) i path).Matches K Eq (a.decide (l.handle e) i path) := by
  unfold decide
  split
  · exact Matches.pure rfl
  split
  · exact Matches.pure rfl
  apply Matches.handle (Enclave.matches_resolvePolicy hK he i)
  · rintro ⟨name, p⟩ ⟨name', p'⟩ ⟨-, halike⟩
    exact Matches.pure (Policy.evaluate_of_alike halike path)
  · intro err
    cases err <;> first
      | exact Matches.throw _
      | exact Matches.pure rfl

theorem matches_authorize (hK : K.Sound o l) (he : ValidEnclaveName e) (a : Authorizer)
    (op : Operation) :
    (a.authorize (l.handle e) i op).Matches K Eq (a.authorize (l.handle e) i op) := by
  unfold authorize
  apply Matches.bind (matches_decide hK he a)
  rintro d _ rfl
  cases d with
  | allow => exact Matches.pure rfl
  | deny => exact Matches.throw _

end Authorizer

namespace Service

variable {s : Service} {caller : Identity} {enclave : String}

theorem matches_gate (hK : K.Sound o l) (hover : s.Over l) (op : Operation) :
    (s.gate caller enclave op).Matches K
      (fun h h' => h' = h ∧ ∃ e, ValidEnclaveName e ∧ h = l.handle e)
      (s.gate caller enclave op) := by
  unfold gate
  apply Matches.check
  intro h hfound
  obtain ⟨he, rfl⟩ := hover.handle_eq_ok_iff.1 hfound
  apply Matches.bind (s.authorizer.matches_authorize hK he op)
  intro _ _ _
  apply Matches.bind (Enclave.matches_ensureRegistered hK _)
  intro _ _ _
  exact Matches.pure ⟨rfl, _, he, rfl⟩

/-- Two gated operations match if their bodies do; their events are alike. -/
theorem matches_gated {α : Type} [Observed α] (hK : K.Sound o l) (hover : s.Over l)
    {op : Operation} {body body' : Enclave → Routine α}
    (hbody : ∀ e, ValidEnclaveName e →
      (body (l.handle e)).Matches K o.Alike (body' (l.handle e))) :
    (s.gated caller enclave op body).Matches K o.Alike (s.gated caller enclave op body') := by
  have hpassed : (s.gate caller enclave op >>= body).Matches K o.Alike
      (s.gate caller enclave op >>= body') := by
    apply Matches.bind (matches_gate hK hover op)
    rintro h _ ⟨rfl, e, he, rfl⟩
    exact hbody e he
  unfold gated
  apply Program.Matches.bind hpassed
  intro r r' hr
  apply Program.Matches.bind hK.eventId
  rintro id _ rfl
  have htimed : (Program.request .time).Matches K o.Alike (Program.request .time) :=
    fun c w v hwv hcovered => hK.time c w v hwv hcovered
  apply Program.Matches.bind htimed
  intro time time' htime
  apply Program.Matches.bind
    (hK.emit _ _ (hr.errorOf ▸ AuditEvent.alike_ofOutcome htime id caller _ op _))
  intro _ _ _
  exact Program.Matches.pure hr

theorem matches_assignOne (hK : K.Sound o l) {e : String} (he : ValidEnclaveName e)
    (s : Service) (policy : String) (i : Identity) :
    (s.assignOne (l.handle e) caller policy i).Matches K Eq
      (s.assignOne (l.handle e) caller policy i) := by
  unfold assignOne
  by_cases hadmin : s.authorizer.isAdmin i = true
  · rw [if_pos hadmin]
    exact Matches.throw _
  rw [if_neg hadmin]
  by_cases hself : i = caller
  · rw [if_pos hself]
    exact Matches.throw _
  rw [if_neg hself]
  exact Matches.map (Enclave.matches_assignPolicy hK he policy i caller) fun _ _ _ => rfl

theorem matches_assignEach (hK : K.Sound o l) {e : String} (he : ValidEnclaveName e)
    (s : Service) (policy : String) (identities : List Identity) :
    (s.assignEach (l.handle e) caller policy identities).Matches K Eq
      (s.assignEach (l.handle e) caller policy identities) := by
  induction identities with
  | nil => exact Program.Matches.pure rfl
  | cons i identities ih =>
      unfold assignEach
      apply Program.Matches.bind (matches_assignOne hK he s policy i)
      intro r r' hr
      obtain rfl := hr.eq
      apply Program.Matches.bind ih
      rintro more _ rfl
      exact Program.Matches.pure rfl

/-! ### Commands -/

/-- Names that come in different orders are the same once they are sorted. -/
theorem sortNames_of_perm {names names' : List String} (h : names.Perm names') :
    sortNames names = sortNames names' := by
  have hsorted (names : List String) : (sortNames names).Pairwise (· ≤ ·) := by
    have hle : (sortNames names).Pairwise fun a b => decide (a ≤ b) = true :=
      @List.pairwise_mergeSort _ (fun a b : String => decide (a ≤ b))
        (fun a b c hab hbc => decide_eq_true
          (String.le_trans (of_decide_eq_true hab) (of_decide_eq_true hbc)))
        (fun a b => by simpa using String.le_total a b) names
    exact hle.imp fun hab => of_decide_eq_true hab
  have hperm : (sortNames names).Perm (sortNames names') :=
    ((List.mergeSort_perm names _).trans h).trans (List.mergeSort_perm names' _).symm
  exact hperm.eq_of_pairwise (fun a b _ _ hab hba => String.le_antisymm hab hba)
    (hsorted names) (hsorted names')

/-- A listing of a cabinet is told alike. -/
theorem matches_sorted (hK : K.Whole o l) (space pattern : String) :
    (do pure (.names (sortNames (← (View.under space .whole).list pattern))) :
      Routine Reply).Matches K o.Alike
      (do pure (.names (sortNames (← (View.under space .whole).list pattern)))) :=
  Matches.map (hK.list space pattern) fun _ _ hperm => by
    rw [sortNames_of_perm hperm]
    exact .refl _

theorem matches_body (hK : K.Whole o l) (hover : s.Over l) {e : String}
    (he : ValidEnclaveName e) (command : Command) :
    (s.body caller (l.handle e) command).Matches K o.Alike
      (s.body caller (l.handle e) command) := by
  have hdone {α : Type} {a : Routine α} (ha : a.Matches K Eq a) :
      (do let _ ← a; pure .done : Routine Reply).Matches K o.Alike (do let _ ← a; pure .done) :=
    Matches.map ha fun _ _ _ => .refl _
  have hsound := hK.toSound
  cases command with
  | createKey name value =>
      exact Matches.map (Enclave.matches_createKey hsound he rfl caller)
        fun _ _ h => congrArg Reply.keyInfo h
  | getKey name =>
      exact Matches.map (Enclave.matches_getKey hsound he) fun _ _ h => congrArg Reply.key h
  | describeKey name =>
      exact Matches.map (Enclave.matches_describeKey hsound he)
        fun _ _ h => congrArg Reply.keyInfo h
  | deleteKey name => exact hdone (Enclave.matches_deleteKey hsound)
  | listKeys pattern => exact matches_sorted hK _ pattern
  | createPolicy name policy =>
      exact Matches.map (Enclave.matches_setPolicy hsound he policy caller)
        fun _ _ h => congrArg Reply.policyInfo h
  | getPolicy name =>
      exact Matches.map (Enclave.matches_getPolicy hsound he)
        fun _ _ h => congrArg Reply.policy h
  | describePolicy name =>
      exact Matches.map (Enclave.matches_describePolicy hsound he)
        fun _ _ h => congrArg Reply.policyInfo h
  | deletePolicy name => exact hdone (Enclave.matches_deletePolicy hK he)
  | listPolicies pattern => exact matches_sorted hK _ pattern
  | assignPolicy policy identities =>
      exact Matches.map (Matches.lift (matches_assignEach hsound he s policy identities))
        fun _ _ h => congrArg (fun outcomes => sees o (Reply.outcomes outcomes)) h
  | describeIdentity i =>
      exact Matches.map (Enclave.matches_describeIdentity hsound he i)
        fun _ _ h => congrArg Reply.assignment h
  | deleteIdentity i => exact hdone (Enclave.matches_unassign hsound i)
  | listIdentities pattern => exact matches_sorted hK _ pattern
  | createEnclave name =>
      unfold body
      rw [hover.registry_eq]
      exact Matches.map (Registry.matches_create hK caller)
        fun _ _ h => congrArg Reply.enclave h
  | describeEnclave name =>
      unfold body
      rw [hover.registry_eq]
      exact Matches.map (Registry.matches_describe hsound) fun _ _ h => congrArg Reply.enclave h
  | deleteEnclave name =>
      dsimp only [body]
      rw [hover.registry_eq]
      split
      · exact Matches.throw _
      · exact hdone (Registry.matches_delete hK)
  | listEnclaves pattern =>
      unfold body
      rw [hover.registry_eq]
      exact matches_sorted hK _ pattern
  | status => exact hdone hsound.status

/-- **Commands that are alike match.** -/
theorem matches_perform (hK : K.Whole o l) (hover : s.Over l) {command command' : Command}
    (halike : o.Alike command command') :
    (s.perform caller enclave command).Matches K o.Alike
      (s.perform caller enclave command') := by
  rcases Command.alike_iff.1 halike with rfl | ⟨name, value, value', rfl, rfl, hvalue⟩
  · exact matches_gated hK.toSound hover fun e he => matches_body hK hover he command
  · apply matches_gated hK.toSound hover
    intro e he
    exact Matches.map (Enclave.matches_createKey hK.toSound he hvalue caller)
      fun _ _ h => congrArg Reply.keyInfo h

theorem matches_describeSelf (hK : K.Sound o l) (hover : s.Over l) :
    (s.describeSelf caller enclave).Matches K o.Alike (s.describeSelf caller enclave) := by
  have hregistered : (s.registry.registered (s.enclaveName enclave)).Matches K
      (fun h h' => h' = h ∧ ∃ e, ValidEnclaveName e ∧ h = l.handle e)
      (s.registry.registered (s.enclaveName enclave)) := by
    unfold Registry.registered
    apply Matches.check
    intro h hfound
    obtain ⟨he, rfl⟩ := hover.handle_eq_ok_iff.1 hfound
    apply Matches.bind (Enclave.matches_ensureRegistered hK _)
    intro _ _ _
    exact Matches.pure ⟨rfl, _, he, rfl⟩
  unfold describeSelf
  split
  · exact Matches.throw _
  apply Matches.handle hregistered
  · rintro h _ ⟨rfl, e, he, rfl⟩
    simp only
    split
    · exact Matches.pure (.refl _)
    apply Matches.handle (Enclave.matches_describeIdentity hK he caller)
    · intro info info' hinfo
      simp only
      rw [← AssignmentInfo.policy_of_alike hinfo]
      exact Matches.map (Enclave.matches_getPolicy hK he) fun p p' hp =>
        congrArg₂ (fun (a : AssignmentInfo) (p : Policy) =>
          (⟨caller, false, some a, some p⟩ : SelfInfo)) hinfo hp
    · intro err
      cases err <;> exact Matches.throw _
  · intro err
    cases err <;> first
      | exact Matches.throw _
      | (simp only; split <;> exact Matches.throw _)

theorem matches_init (hK : K.Whole o l) (hover : s.Over l) : s.init.Matches K Eq s.init := by
  unfold init
  rw [hover.registry_eq]
  exact Matches.map (Registry.matches_ensure hK _) fun _ _ _ => rfl

/-! ### Calls -/

variable {call call' : Call} {c : Context} {w w' : World σ} {v : World τ}

/-- The programs of single calls that are alike match. -/
theorem exists_matching (hK : K.Whole o l) (hover : s.Over l) (halike : o.Alike call call')
    (hsingle : ∀ e names, call ≠ .deletePolicies e names) :
    ∃ p q, s.programs caller call = [p] ∧ s.programs caller call' = [q] ∧
      p.Matches K o.Alike q := by
  have hends {a b : Routine Reply} (h : a.Matches K o.Alike b) :
      a.attempt.Matches K o.Alike b.attempt :=
    Program.Matches.weaken h fun _ _ => Routine.EndsAlike.alike
  rcases Call.alike_iff.1 halike with rfl | ⟨enclave, d, d', rfl, rfl, hd⟩
  · cases call with
    | command enclave d => exact ⟨_, _, rfl, rfl, hends (matches_perform hK hover (.refl d))⟩
    | deletePolicies enclave names => exact absurd rfl (hsingle enclave names)
    | describeSelf enclave =>
        have hself : (Reply.self <$> s.describeSelf caller enclave).Matches K o.Alike
            (Reply.self <$> s.describeSelf caller enclave) :=
          Matches.map (matches_describeSelf hK.toSound hover) fun _ _ h => congrArg Reply.self h
        exact ⟨_, _, rfl, rfl, hends hself⟩
    | init =>
        have hinit : ((fun _ => Reply.done) <$> s.init).Matches K o.Alike
            ((fun _ => Reply.done) <$> s.init) :=
          Matches.map (matches_init hK hover) fun _ _ _ => .refl _
        exact ⟨_, _, rfl, rfl, hends hinit⟩
    | health =>
        have hhealth : ((fun _ => Reply.done) <$> health).Matches K o.Alike
            ((fun _ => Reply.done) <$> health) :=
          Matches.map hK.status fun _ _ _ => .refl _
        exact ⟨_, _, rfl, rfl, hends hhealth⟩
  · exact ⟨_, _, rfl, rfl, hends (matches_perform hK hover hd)⟩

/-- Programs that match, as single calls. -/
theorem run?_matches {α β : Type} {rel : α → β → Prop} {p : Program α} {q : Program β}
    (hK : K.Whole o l) (hpq : p.Matches K rel q) (hwv : K.holds w v)
    (hcovered : ∀ c' tokens, s.callContext? c w.tokens w.now = some (c', tokens) →
      ∀ a ∈ p.accesses c' { w with tokens := tokens }, K.covers a.access)
    {a : α} (hrun : s.run? c p w = some (a, w')) :
    ∃ b v', s.run? c q v = some (b, v') ∧ rel a b ∧ K.holds w' v' := by
  obtain ⟨c', tokens, hcontext, hended⟩ := run?_eq_some_iff.1 hrun
  obtain ⟨htokens, hnow⟩ := hK.surroundings w v hwv
  have hshifted : K.holds { w with tokens := tokens } { v with tokens := tokens } := by
    have hsame : { v with tokens := tokens, now := w.now } = { v with tokens := tokens } := by
      rw [← hnow]
    exact hsame ▸ hK.shift w v tokens w.now hwv
  obtain ⟨hrel, hholds⟩ := hpq c' _ _ hshifted (hcovered c' tokens hcontext)
  rw [hended] at hrel hholds
  rw [← htokens, ← hnow] at hcontext
  exact ⟨_, _, run?_eq_some_iff.2 ⟨c', tokens, hcontext, rfl⟩, hrel, hholds⟩

/-- The accesses of a program and of those that run after it. -/
theorem accessesOf?_cons {c' : Context} {tokens : Tokens} {p : Program (Except Error Reply)}
    {ps : List (Program (Except Error Reply))} {log : List Attempt}
    (hcontext : s.callContext? c w.tokens w.now = some (c', tokens))
    (hlog : s.accessesOf? c ps (p.run c' { w with tokens := tokens }).2 = some log) :
    s.accessesOf? c (p :: ps) w =
      some (p.accesses c' { w with tokens := tokens } ++ log) := by
  unfold accessesOf?
  rw [hcontext]
  simp only [Option.bind_eq_bind, Option.bind_some, hlog]
  rfl

/-- Deletions that are served have their accesses. -/
theorem accessesOf?_of_deletePolicies? {enclave : String} {names : List String}
    {outcomes : List Outcome} (hserved : s.deletePolicies? c caller enclave names w =
      some (outcomes, w')) :
    ∃ log, s.accessesOf? c (s.programs caller (.deletePolicies enclave names)) w = some log := by
  induction names generalizing w outcomes with
  | nil => exact ⟨[], rfl⟩
  | cons name names ih =>
      unfold deletePolicies? at hserved
      obtain ⟨⟨r, w₁⟩, hrun, hserved⟩ := Option.bind_eq_some_iff.1 hserved
      obtain ⟨⟨more, w₂⟩, hrest, hserved⟩ := Option.bind_eq_some_iff.1 hserved
      cases hserved
      obtain ⟨c', tokens, hcontext, hended⟩ := run?_eq_some_iff.1 hrun
      obtain ⟨log, hlog⟩ := ih hrest
      exact ⟨_, accessesOf?_cons hcontext (by rw [hended]; exact hlog)⟩

/-- Deletions of several policies match. -/
theorem deletePolicies?_matches {enclave : String} {names : List String}
    {outcomes : List Outcome} (hK : K.Whole o l) (hover : s.Over l) (hwv : K.holds w v)
    (hcovered : ∀ log, s.accessesOf? c (s.programs caller (.deletePolicies enclave names)) w =
      some log → ∀ a ∈ log, K.covers a.access)
    (hserved : s.deletePolicies? c caller enclave names w = some (outcomes, w')) :
    ∃ v', s.deletePolicies? c caller enclave names v = some (outcomes, v') ∧
      K.holds w' v' := by
  induction names generalizing w v outcomes with
  | nil =>
      cases hserved
      exact ⟨v, rfl, hwv⟩
  | cons name names ih =>
      unfold deletePolicies? at hserved
      obtain ⟨⟨r, w₁⟩, hrun, hserved⟩ := Option.bind_eq_some_iff.1 hserved
      obtain ⟨⟨more, w₂⟩, hrest, hserved⟩ := Option.bind_eq_some_iff.1 hserved
      cases hserved
      obtain ⟨c', tokens, hcontext, hended⟩ := run?_eq_some_iff.1 hrun
      obtain ⟨log, hlog⟩ := accessesOf?_of_deletePolicies? hrest
      have hall := hcovered _ (accessesOf?_cons hcontext (by rw [hended]; exact hlog))
      have hfirst : ∀ c'' tokens', s.callContext? c w.tokens w.now = some (c'', tokens') →
          ∀ a ∈ (s.perform caller enclave (.deletePolicy name)).attempt.accesses c''
            { w with tokens := tokens' }, K.covers a.access := by
        intro c'' tokens' hgiven a ha
        rw [hcontext] at hgiven
        cases hgiven
        exact hall a (List.mem_append_left _ ha)
      have hperform : (s.perform caller enclave (.deletePolicy name)).Matches K o.Alike
          (s.perform caller enclave (.deletePolicy name)) := matches_perform hK hover (.refl _)
      obtain ⟨r', v₁, hrun', hr, hwv₁⟩ := run?_matches hK hperform hwv hfirst hrun
      obtain ⟨v₂, hrest', hwv₂⟩ := ih hwv₁ (fun log' hlog' a ha => by
        rw [hlog] at hlog'
        cases hlog'
        exact hall a (List.mem_append_right _ ha)) hrest
      refine ⟨v₂, ?_, hwv₂⟩
      unfold deletePolicies?
      rw [hrun']
      simp only [Option.bind_eq_bind, Option.bind_some, hrest', hr.forget]
      rfl

/-- **Calls that are alike match**: from worlds that correspond they give results that are alike
and leave worlds that correspond. -/
theorem serve?_matches (hK : K.Whole o l) (hover : s.Over l) (halike : o.Alike call call')
    (hwv : K.holds w v) (hcovered : ∀ log, s.accesses? c caller call w = some log →
      ∀ a ∈ log, K.covers a.access)
    {r : Except Error Reply} (hserved : s.serve? c caller call w = some (r, w')) :
    ∃ r' v', s.serve? c caller call' v = some (r', v') ∧ o.Alike r r' ∧ K.holds w' v' := by
  by_cases hsingle : ∀ e names, call ≠ .deletePolicies e names
  · have hsingle' : ∀ e names, call' ≠ .deletePolicies e names := by
      rcases Call.alike_iff.1 halike with rfl | ⟨_, _, _, -, rfl, -⟩
      · exact hsingle
      · exact fun _ _ h => by cases h
    obtain ⟨p, q, hp, hq, hpq⟩ := exists_matching hK hover halike hsingle
    rw [serve?_eq_run? hp hsingle] at hserved
    rw [serve?_eq_run? hq hsingle']
    exact run?_matches hK hpq hwv
      (fun c' tokens hcontext => hcovered _ (accesses?_eq hp hcontext)) hserved
  · obtain ⟨enclave, names, rfl⟩ : ∃ e names, call = .deletePolicies e names := by
      simpa using hsingle
    rcases Call.alike_iff.1 halike with rfl | ⟨_, _, _, hcall, -, -⟩
    · obtain ⟨⟨outcomes, w₁⟩, hall, hdone⟩ := Option.bind_eq_some_iff.1 hserved
      cases hdone
      obtain ⟨v', hall', hwv'⟩ := deletePolicies?_matches hK hover hwv hcovered hall
      exact ⟨_, v', Option.bind_eq_some_iff.2 ⟨(outcomes, v'), hall', rfl⟩, .refl _, hwv'⟩
    · cases hcall

end Service

end Commands

/-! ### Sequences of calls -/

/-- What comes next: a call, or a pause in which time passes and tokens are given out and
canceled. -/
inductive Step where
  | call (c : Context) (caller : Identity) (call : Service.Call)
  | pause (tokens : Tokens) (now : Instant)

/-- A call that was served, with its result. -/
structure Served where
  call : Service.Call
  result : Except Error Reply

instance : Observed Step where
  sees o
    | .call c caller call => .call c caller (sees o call)
    | .pause tokens now => .pause tokens now

instance : Observed Served where
  sees o served := ⟨sees o served.call, sees o served.result⟩

/-- The stored name that an access asks for. -/
def Access.name? : Access → Option String
  | .create name | .get name | .delete name => some name
  | .list _ | .status | .next _ => none

namespace Service

section

variable {σ : Type} [Mishaps σ]

/-- Serves calls one after the other, if the clock can show all their deadlines. -/
def serveAll? (s : Service) : List Step → World σ → Option (List Served × World σ)
  | [], w => some ([], w)
  | .call c caller call :: steps, w => do
    let (r, w) ← s.serve? c caller call w
    let (more, w) ← s.serveAll? steps w
    pure (⟨call, r⟩ :: more, w)
  | .pause tokens now :: steps, w => s.serveAll? steps { w with tokens := tokens, now := now }

/-- All accesses that the calls make, one after the other, are of a kind. -/
def Accesses (s : Service) (ok : Access → Prop) : List Step → World σ → Prop
  | [], _ => True
  | .call c caller call :: steps, w =>
    (∀ log, s.accesses? c caller call w = some log → ∀ a ∈ log, ok a.access) ∧
      ∀ r w', s.serve? c caller call w = some (r, w') → s.Accesses ok steps w'
  | .pause tokens now :: steps, w => s.Accesses ok steps { w with tokens := tokens, now := now }

instance decidableAccesses (s : Service) (ok : Access → Prop) [DecidablePred ok] :
    (steps : List Step) → (w : World σ) → Decidable (s.Accesses ok steps w)
  | [], _ => .isTrue trivial
  | .call c caller call :: steps, w =>
    have := decidableAccesses s ok steps
    decidable_of_iff
      ((∀ log ∈ s.accesses? c caller call w, ∀ a ∈ log, ok a.access) ∧
        ∀ served ∈ s.serve? c caller call w, s.Accesses ok steps served.2)
      (and_congr_right fun _ => ⟨fun h r w' => h (r, w'), fun h served => h served.1 served.2⟩)
  | .pause tokens now :: steps, w =>
    decidableAccesses s ok steps { w with tokens := tokens, now := now }

end

variable {σ τ : Type} [Mishaps σ] [Mishaps τ] {K : Coupling σ τ} {o : Observer} {l : Layout}
  {s : Service}

/-- Steps that are alike are both calls, of one caller under one context, or the same pause. -/
theorem step_alike_cases {a b : Step} (h : o.Alike a b) :
    (∃ c caller call call', a = .call c caller call ∧ b = .call c caller call' ∧
        o.Alike call call') ∨
      ∃ tokens now, a = .pause tokens now ∧ b = .pause tokens now := by
  cases a with
  | call c caller call =>
      cases b with
      | call c' caller' call' =>
          obtain ⟨rfl, rfl, hcall⟩ := Step.call.inj h
          exact .inl ⟨c, caller, call, call', rfl, rfl, hcall⟩
      | pause => cases h
  | pause tokens now =>
      cases b with
      | call => cases h
      | pause =>
          cases h
          exact .inr ⟨tokens, now, rfl, rfl⟩

/-- **Sequences of calls that are alike match.** -/
theorem serveAll?_matches (hK : K.Whole o l) (hover : s.Over l) {steps steps' : List Step}
    (halike : List.Forall₂ o.Alike steps steps') {w w' : World σ} {v : World τ}
    (hwv : K.holds w v) (hcovered : s.Accesses K.covers steps w) {transcript : List Served}
    (hserved : s.serveAll? steps w = some (transcript, w')) :
    ∃ transcript' v', s.serveAll? steps' v = some (transcript', v') ∧
      List.Forall₂ o.Alike transcript transcript' ∧ K.holds w' v' := by
  induction halike generalizing w v transcript with
  | nil =>
      cases hserved
      exact ⟨[], v, rfl, .nil, hwv⟩
  | @cons step step' steps steps' hstep _ ih =>
      rcases step_alike_cases hstep with ⟨c, caller, call, call', rfl, rfl, hcall⟩ |
        ⟨tokens, now, rfl, rfl⟩
      · obtain ⟨hfirst, hlater⟩ := hcovered
        obtain ⟨⟨r, w₁⟩, hone, hserved⟩ := Option.bind_eq_some_iff.1 hserved
        obtain ⟨⟨more, w₂⟩, hrest, hdone⟩ := Option.bind_eq_some_iff.1 hserved
        cases hdone
        obtain ⟨r', v₁, hone', hr, hwv₁⟩ := serve?_matches hK hover hcall hwv hfirst hone
        obtain ⟨more', v₂, hrest', hmore, hwv₂⟩ := ih hwv₁ (hlater r w₁ hone) hrest
        refine ⟨⟨call', r'⟩ :: more', v₂, ?_, .cons ?_ hmore, hwv₂⟩
        · exact Option.bind_eq_some_iff.2 ⟨(r', v₁), hone',
            Option.bind_eq_some_iff.2 ⟨(more', v₂), hrest', rfl⟩⟩
        · exact congrArg₂ Served.mk hcall hr
      · exact ih (hK.shift w v tokens now hwv) hcovered hserved

end Service

end KeyCustody
