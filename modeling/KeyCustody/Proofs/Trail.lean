import KeyCustody.Proofs.Confinement

/-!
# The audit trail is a faithful log

Whatever fails and whatever is canceled, a gated call leaves exactly one event, and the event
tells what became of the call.  Two things make it so: only `Service.report` puts events on the
trail, behind whatever the gate and the command did, and it knows the outcome.  So all other
requests are silent (`Request.events`), the gate and the commands consist of silent requests
(`Service.silent_passed`), and so do the calls that need no permission
(`Service.silent_programs`).  Main statements:

* `World.logs_answer`: what one request puts on the trail;
* `Service.perform_logs`: a command leaves one event, and the event tells its result;
* `Service.serve?_logs`: what each kind of call leaves;
* `Service.trail_faithful`: what a whole run leaves.
-/

namespace KeyCustody

/-! ### What requests leave -/

/-- On the way from one world to another these events came onto the trail, and the clock stood
still. -/
structure World.Logs {σ : Type} (w : World σ) (events : List AuditEvent) (w' : World σ) :
    Prop where
  trail : w'.trail = w.trail ++ events
  now : w'.now = w.now

/-- What a request puts on the trail. -/
def Request.events : Request → List AuditEvent
  | .emit event => [event]
  | _ => []

namespace World

variable {σ : Type} {w w' w'' : World σ} {events more : List AuditEvent}

theorem Logs.nothing (w : World σ) : w.Logs [] w :=
  ⟨(List.append_nil _).symm, rfl⟩

theorem Logs.append (h : w.Logs events w') (h' : w'.Logs more w'') :
    w.Logs (events ++ more) w'' :=
  ⟨by rw [h'.trail, h.trail, List.append_assoc], h'.now.trans h.now⟩

variable [Mishaps σ]

theorem logs_meet (w : World σ) (c : Context) (a : Access) : w.Logs [] (w.meet c a).2 := by
  refine ⟨by rw [trail_meet, List.append_nil], ?_⟩
  unfold meet
  obtain ⟨⟨early, late, err⟩, rest⟩ := Mishaps.strike a w.mishaps
  cases err <;> cases early <;> cases late <;> rfl

/-- What an access meets, as one of two cases. -/
theorem logs_of_meet {c : Context} {a : Access} {met : Except Error Signal}
    (h : w.meet c a = (met, w')) : w.Logs [] w' := by
  have hlogs := w.logs_meet c a
  rw [h] at hlogs
  exact hlogs

theorem logs_nextName (w : World σ) (c : Context) (cursor : Cursor) :
    w.Logs [] (w.nextName c cursor).2.2 := by
  unfold nextName
  by_cases hdone : cursor.isDone = true
  · rw [if_pos hdone]
    exact .nothing w
  rw [if_neg hdone]
  obtain ⟨name, next⟩ := cursor.next (.steady (w.ended c)) w.backend.table
  rcases hmeet : w.meet c (.next name) with ⟨e | sig, w'⟩ <;> simp only [hmeet] <;>
    exact logs_of_meet hmeet

theorem logs_readAll (c : Context) (fuel : Nat) (names : List String) (cursor : Cursor)
    (w : World σ) : w.Logs [] (readAll c fuel names cursor w).2 := by
  induction fuel generalizing names cursor w with
  | zero => exact .nothing w
  | succ fuel ih =>
      have hnext := w.logs_nextName c cursor
      unfold readAll
      rcases hn : w.nextName c cursor with ⟨_ | name, next, w'⟩ <;> rw [hn] at hnext
      · exact hnext
      · exact hnext.append (ih _ _ w')

theorem logs_list (w : World σ) (c : Context) (pattern : String) :
    w.Logs [] (w.list c pattern).2 := by
  unfold list startListing
  rcases hmeet : w.meet c (.list pattern) with ⟨e | sig, w'⟩
  · exact logs_of_meet hmeet
  · simp only
    cases w'.backend.list sig pattern with
    | error e => exact logs_of_meet hmeet
    | ok cursor => exact (logs_of_meet hmeet).append (logs_readAll c _ _ _ w')

/-- **What a request leaves** on the trail, whatever it meets. -/
theorem logs_answer (w : World σ) (c : Context) (r : Request) :
    w.Logs r.events (w.answer c r).2 := by
  cases r with
  | create name value =>
      simp only [answer]
      rcases hmeet : w.meet c (.create name) with ⟨e | sig, w'⟩ <;>
        exact ⟨(logs_of_meet hmeet).trail, (logs_of_meet hmeet).now⟩
  | get name =>
      simp only [answer]
      rcases hmeet : w.meet c (.get name) with ⟨e | sig, w'⟩ <;> exact logs_of_meet hmeet
  | delete name =>
      simp only [answer]
      rcases hmeet : w.meet c (.delete name) with ⟨e | sig, w'⟩ <;>
        exact ⟨(logs_of_meet hmeet).trail, (logs_of_meet hmeet).now⟩
  | list pattern => exact w.logs_list c pattern
  | status =>
      simp only [answer]
      rcases hmeet : w.meet c .status with ⟨e | sig, w'⟩ <;> exact logs_of_meet hmeet
  | time => exact ⟨(List.append_nil _).symm, rfl⟩
  | eventId => exact ⟨(List.append_nil _).symm, rfl⟩
  | emit event => exact ⟨rfl, rfl⟩

end World

/-- The contract of putting nothing on the trail. -/
def Contract.silent : Contract := .asking fun r => r.events = []

/-- A program that puts nothing on the trail leaves nothing there. -/
theorem Program.Keeps.logs_run {α σ : Type} [Mishaps σ] {p : Program α}
    (h : p.Keeps .silent fun _ => True) (c : Context) (w : World σ) :
    w.Logs [] (p.run c w).2 := by
  refine (Program.Keeps.run h c (fun v => w.Logs [] v) ?_ (.nothing w)).2
  intro r v hr hv
  refine ⟨trivial, ?_⟩
  have hasked := v.logs_answer c r
  rw [show r.events = [] from hr] at hasked
  exact hv.append hasked

/-! ### What an event tells -/

/-- **What an event has to tell** of a gated operation that a caller asked for in an enclave,
given how it ended. -/
structure AuditEvent.Tells {α : Type} (event : AuditEvent) (s : Service) (caller : Identity)
    (enclave : String) (op : Operation) (result : Except Error α) : Prop where
  success : event.success = true ↔ ∃ a, result = .ok a
  denial : event.kind = .permissionDenied ↔
    ∃ who path, result = .error (.permissionDenied who path)
  kind : event.kind ≠ .permissionDenied → event.kind = .ofOperation op
  path : event.path = some op.path
  unknown : caller = .unknown → event.identity = none
  known : caller ≠ .unknown → event.identity = some caller.text
  standard : enclave = "" ∨ op.isEnclaveAdmin = true → event.enclave = some s.defaultEnclave
  named : enclave ≠ "" → op.isEnclaveAdmin = false → event.enclave = some enclave
  faultless : ∀ a, result = .ok a → event.error = none
  failed : ∀ e, result = .error e → event.error = some (e.code ++ ": " ++ e.message)

namespace EventType

/-- No operation has the kind of event that denials have. -/
theorem ofOperation_ne_permissionDenied (op : Operation) : ofOperation op ≠ .permissionDenied := by
  cases op <;> exact nofun

end EventType

namespace AuditEvent

variable {id : String} {time : Timestamp} {caller : Identity} {enclave : String} {op : Operation}

/-- The fields of an event that do not depend on the outcome. -/
theorem ofOutcome_path (failure : Option Error) :
    (ofOutcome id time caller enclave op failure).path = some op.path := by
  rcases failure with _ | e
  · rfl
  · cases e <;> rfl

theorem ofOutcome_enclave (failure : Option Error) :
    (ofOutcome id time caller enclave op failure).enclave = some enclave := by
  rcases failure with _ | e
  · rfl
  · cases e <;> rfl

theorem ofOutcome_identity (failure : Option Error) :
    (ofOutcome id time caller enclave op failure).identity =
      if caller.isUnknown then none else some caller.text := by
  rcases failure with _ | e
  · rfl
  · cases e <;> rfl

/-- How an event tells a failure. -/
theorem ofOutcome_error (e : Error) :
    (ofOutcome id time caller enclave op (some e)).success = false ∧
      (ofOutcome id time caller enclave op (some e)).error = some (e.code ++ ": " ++ e.message) := by
  cases e <;> exact ⟨rfl, rfl⟩

/-- The kind of event of a failure. -/
theorem ofOutcome_kind (id : String) (time : Timestamp) (caller : Identity) (enclave : String)
    (op : Operation) (e : Error) :
    ((∃ who path, e = .permissionDenied who path) ∧
        (ofOutcome id time caller enclave op (some e)).kind = .permissionDenied) ∨
      ((¬ ∃ who path, e = .permissionDenied who path) ∧
        (ofOutcome id time caller enclave op (some e)).kind = .ofOperation op) := by
  cases e with
  | permissionDenied who path => exact .inl ⟨⟨who, path, rfl⟩, rfl⟩
  | _ => exact .inr ⟨nofun, rfl⟩

end AuditEvent

namespace Service

variable {s : Service} {caller : Identity} {enclave : String} {command : Command}

/-- Commands that name no enclave and commands on enclaves are about the default enclave. -/
theorem enclaveName_target_of_standard (s : Service)
    (h : enclave = "" ∨ command.operation.isEnclaveAdmin = true) :
    s.enclaveName (target command enclave) = s.defaultEnclave := by
  have htarget : target command enclave = "" := by
    unfold target
    rcases h with rfl | hadmin
    · exact ite_self _
    · exact if_pos hadmin
  rw [htarget]
  rfl

/-- All other commands are about the enclave that they name. -/
theorem enclaveName_target_of_named (s : Service) (hnamed : enclave ≠ "")
    (hother : command.operation.isEnclaveAdmin = false) :
    s.enclaveName (target command enclave) = enclave := by
  have htarget : target command enclave = enclave := if_neg (Bool.eq_false_iff.1 hother)
  rw [htarget]
  exact if_neg fun hempty => hnamed (String.isEmpty_iff.1 hempty)

/-- The event that a command leaves tells its result. -/
theorem tells_ofOutcome {α : Type} (s : Service) (caller : Identity) (enclave id : String)
    (time : Timestamp) (command : Command) (result : Except Error α) :
    (AuditEvent.ofOutcome id time caller (s.enclaveName (target command enclave))
      command.operation (errorOf result)).Tells s caller enclave command.operation result where
  success := by
    cases result with
    | ok a => exact ⟨fun _ => ⟨a, rfl⟩, fun _ => rfl⟩
    | error e => simp [errorOf, (AuditEvent.ofOutcome_error e).1]
  denial := by
    cases result with
    | ok a => exact iff_of_false (EventType.ofOperation_ne_permissionDenied _) nofun
    | error e =>
        rcases AuditEvent.ofOutcome_kind id time caller
          (s.enclaveName (target command enclave)) command.operation e with
          ⟨⟨who, path, rfl⟩, hkind⟩ | ⟨hother, hkind⟩
        · exact iff_of_true hkind ⟨who, path, rfl⟩
        · refine iff_of_false ?_ fun ⟨who, path, h⟩ => hother ⟨who, path, Except.error.inj h⟩
          rw [errorOf, hkind]
          exact EventType.ofOperation_ne_permissionDenied _
  kind := by
    intro hother
    cases result with
    | ok a => rfl
    | error e =>
        rcases AuditEvent.ofOutcome_kind id time caller
          (s.enclaveName (target command enclave)) command.operation e with
          ⟨-, hkind⟩ | ⟨-, hkind⟩
        · exact absurd hkind hother
        · exact hkind
  path := AuditEvent.ofOutcome_path _
  unknown := by
    rintro rfl
    exact AuditEvent.ofOutcome_identity _
  known := by
    intro hknown
    rw [AuditEvent.ofOutcome_identity, if_neg fun h => hknown (Identity.isUnknown_iff.1 h)]
  standard := by
    intro hstandard
    rw [AuditEvent.ofOutcome_enclave, s.enclaveName_target_of_standard hstandard]
  named := by
    intro hnamed hother
    rw [AuditEvent.ofOutcome_enclave, s.enclaveName_target_of_named hnamed hother]
  faultless := by
    rintro a rfl
    rfl
  failed := by
    rintro e rfl
    exact (AuditEvent.ofOutcome_error e).2

/-! ### What calls leave -/

variable {l : Layout}

/-- No command puts anything on the trail itself. -/
theorem Asks.events {k : Contract} {e : String} {r : Request}
    (h : Asks k s l caller e command r) : r.events = [] := by
  cases h <;> rfl

/-- The gate and the command behind it are silent. -/
theorem silent_passed (hover : s.Over l) (caller : Identity) (enclave : String)
    (op : Operation) (command : Command) :
    (s.gate caller enclave op >>= fun e => s.body caller e command).attempt.Keeps .silent
      fun _ => True := by
  apply Routine.Keeps.attempt
  apply Routine.Keeps.bind (keeps_gate hover fun _ _ _ => rfl)
  rintro e ⟨rfl, -⟩
  exact keeps_body hover fun r hr => hr.events

/-- A call that needs no permission. -/
def Call.Ungated : Call → Prop
  | .command _ _ | .deletePolicies _ _ => False
  | .describeSelf _ | .init | .health => True

/-- Calls that need no permission are silent. -/
theorem silent_programs (hover : s.Over l) {call : Call} (hungated : call.Ungated)
    {p : Program (Except Error Reply)} (hp : p ∈ s.programs caller call) :
    p.Keeps .silent fun _ => True := by
  apply keeps_programs hover _ hp
  intro r hr
  cases hr with
  | describeSelf _ _ => rfl
  | init hasks => exact hasks.events
  | health => rfl
  | _ => exact hungated.elim

variable {σ : Type} [Mishaps σ] {c : Context} {w w' : World σ}

/-- **A command leaves one event**, and the event tells its result. -/
theorem perform_logs (hover : s.Over l) (caller : Identity) (enclave : String)
    (command : Command) (c : Context) (w : World σ) :
    ∃ event : AuditEvent,
      event.Tells s caller enclave command.operation
        ((s.perform caller enclave command).attempt.run c w).1 ∧
      w.Logs [event] ((s.perform caller enclave command).attempt.run c w).2 := by
  have hsilent := Program.Keeps.logs_run
    (silent_passed hover caller (target command enclave) command.operation command) c w
  unfold perform
  rw [run_gated]
  exact ⟨_, tells_ofOutcome s caller enclave _ _ command _, hsilent.append ⟨rfl, rfl⟩⟩

/-- A program that runs as one call leaves what it leaves in any world. -/
theorem run?_logs {α : Type} {p : Program α} {r : α} (left : α → List AuditEvent → Prop)
    (hp : ∀ (c : Context) (w : World σ), ∃ events, left (p.run c w).1 events ∧
      w.Logs events (p.run c w).2)
    (hrun : s.run? c p w = some (r, w')) : ∃ events, left r events ∧ w.Logs events w' := by
  obtain ⟨c', tokens, -, hended⟩ := run?_eq_some_iff.1 hrun
  obtain ⟨events, hleft, hlogs⟩ := hp c' { w with tokens := tokens }
  rw [hended] at hleft hlogs
  exact ⟨events, hleft, hlogs.trail, hlogs.now⟩

/-- **The events that a call leaves**, given its result: one for a command, one for each name of
a deletion of several policies, and none for a call that needs no permission. -/
inductive Leaves (s : Service) (caller : Identity) :
    Call → Except Error Reply → List AuditEvent → Prop
  | command {enclave : String} {command : Command} {result : Except Error Reply}
      {event : AuditEvent} (tells : event.Tells s caller enclave command.operation result) :
      Leaves s caller (.command enclave command) result [event]
  | deletePolicies {enclave : String} {names : List String} {outcomes : List Outcome}
      {events : List AuditEvent} (named : outcomes.map Outcome.item = names)
      (tell : List.Forall₂ (fun (outcome : Outcome) (event : AuditEvent) =>
        event.Tells s caller enclave (.deletePolicy outcome.item) outcome.result)
        outcomes events) :
      Leaves s caller (.deletePolicies enclave names) (.ok (.outcomes outcomes)) events
  | ungated {call : Call} {result : Except Error Reply} (ungated : call.Ungated) :
      Leaves s caller call result []

/-- What is told of a result is told of it without its value. -/
theorem tells_forget {event : AuditEvent} {op : Operation} {α β : Type}
    {result : Except Error α} (f : α → β) (h : event.Tells s caller enclave op result) :
    event.Tells s caller enclave op (result.map f) := by
  cases result with
  | ok a =>
      exact { h with
        success := iff_of_true (h.success.2 ⟨a, rfl⟩) ⟨f a, rfl⟩
        denial := iff_of_false (fun hd => nomatch h.denial.1 hd) nofun
        faultless := fun _ _ => h.faultless a rfl
        failed := nofun }
  | error e =>
      exact { h with
        success := iff_of_false (fun hs => nomatch h.success.1 hs) nofun
        denial := h.denial.trans ⟨fun ⟨who, path, he⟩ => ⟨who, path, by cases he; rfl⟩,
          fun ⟨who, path, he⟩ => ⟨who, path, by cases he; rfl⟩⟩
        faultless := nofun
        failed := fun e' he => h.failed e' (by cases he; rfl) }

/-- A deletion of several policies leaves one event for each name, in their order. -/
theorem deletePolicies?_logs (hover : s.Over l) {names : List String} {outcomes : List Outcome}
    (hserved : s.deletePolicies? c caller enclave names w = some (outcomes, w')) :
    ∃ events, outcomes.map Outcome.item = names ∧
      List.Forall₂ (fun (outcome : Outcome) (event : AuditEvent) =>
        event.Tells s caller enclave (.deletePolicy outcome.item) outcome.result)
        outcomes events ∧
      w.Logs events w' := by
  induction names generalizing w outcomes with
  | nil =>
      cases hserved
      exact ⟨[], rfl, .nil, .nothing _⟩
  | cons name names ih =>
      unfold deletePolicies? at hserved
      obtain ⟨⟨r, w₁⟩, hrun, hserved⟩ := Option.bind_eq_some_iff.1 hserved
      obtain ⟨⟨more, w₂⟩, hrest, hserved⟩ := Option.bind_eq_some_iff.1 hserved
      cases hserved
      obtain ⟨_, ⟨event, htells, rfl⟩, hfirst⟩ := run?_logs
        (fun r events => ∃ event : AuditEvent,
          event.Tells s caller enclave (.deletePolicy name) r ∧ events = [event])
        (fun c w => by
          obtain ⟨event, htells, hlogs⟩ := perform_logs hover caller enclave (.deletePolicy name) c w
          exact ⟨_, ⟨event, htells, rfl⟩, hlogs⟩) hrun
      obtain ⟨events, hnamed, htell, hlogs⟩ := ih hrest
      exact ⟨event :: events, congrArg (name :: ·) hnamed, .cons (tells_forget _ htells) htell,
        hfirst.append hlogs⟩

/-- **What a call leaves** on the trail. -/
theorem serve?_logs (hover : s.Over l) {call : Call} {r : Except Error Reply}
    (hserved : s.serve? c caller call w = some (r, w')) :
    ∃ events, s.Leaves caller call r events ∧ w.Logs events w' := by
  by_cases hungated : call.Ungated
  · -- a call that needs no permission is one silent program
    obtain ⟨p, hp, hsingle⟩ : ∃ p, s.programs caller call = [p] ∧
        ∀ e names, call ≠ .deletePolicies e names := by
      cases call with
      | command enclave command => exact hungated.elim
      | deletePolicies enclave names => exact hungated.elim
      | _ => exact ⟨_, rfl, nofun⟩
    rw [serve?_eq_run? hp hsingle] at hserved
    have hsilent : p.Keeps .silent fun _ => True :=
      silent_programs hover hungated (hp ▸ List.mem_singleton_self p)
    exact run?_logs (s.Leaves caller call)
      (fun c w => ⟨[], .ungated hungated, hsilent.logs_run c w⟩) hserved
  · cases call with
    | command enclave command =>
        exact run?_logs (s.Leaves caller (.command enclave command)) (fun c w => by
          obtain ⟨event, htells, hlogs⟩ := perform_logs hover caller enclave command c w
          exact ⟨[event], .command htells, hlogs⟩) hserved
    | deletePolicies enclave names =>
        obtain ⟨⟨outcomes, w₁⟩, hall, hdone⟩ := Option.bind_eq_some_iff.1 hserved
        cases hdone
        obtain ⟨events, hnamed, htell, hlogs⟩ := deletePolicies?_logs hover hall
        exact ⟨events, .deletePolicies hnamed htell, hlogs⟩
    | _ => exact absurd trivial hungated

/-! ### What runs leave -/

/-- **The log of a run**: the events of its calls, in the order of the calls. -/
inductive Logbook (s : Service) : List Step → List Served → List AuditEvent → Prop
  | nil : Logbook s [] [] []
  | call {c : Context} {caller : Identity} {call : Call} {result : Except Error Reply}
      {events more : List AuditEvent} {steps : List Step} {transcript : List Served}
      (leaves : s.Leaves caller call result events) (rest : Logbook s steps transcript more) :
      Logbook s (.call c caller call :: steps) (⟨call, result⟩ :: transcript) (events ++ more)
  | pause {tokens : Tokens} {now : Instant} {events : List AuditEvent} {steps : List Step}
      {transcript : List Served} (rest : Logbook s steps transcript events) :
      Logbook s (.pause tokens now :: steps) transcript events

/-- Whenever a call comes, the clock can show when its time will be up. -/
def Timely (s : Service) : Instant → List Step → Prop
  | _, [] => True
  | now, .call _ _ _ :: steps => (now.after? s.timeout).isSome = true ∧ s.Timely now steps
  | _, .pause _ now :: steps => s.Timely now steps

/-- A program runs as one call if the clock can show when its time will be up. -/
theorem exists_run? {α : Type} (hshown : (w.now.after? s.timeout).isSome = true) (c : Context)
    (p : Program α) : ∃ r w', s.run? c p w = some (r, w') := by
  obtain ⟨deadline, hdeadline⟩ := Option.isSome_iff_exists.1 hshown
  have hcontext : s.callContext? c w.tokens w.now =
      some ((c.child w.tokens).1.withDeadline deadline, (c.child w.tokens).2) := by
    unfold callContext? Context.withTimeout?
    rw [hdeadline]
    rfl
  exact ⟨_, _, run?_eq_some_iff.2 ⟨_, _, hcontext, rfl⟩⟩

/-- A deletion of several policies takes no time, so the deadlines of all can be shown. -/
theorem exists_deletePolicies? (hover : s.Over l)
    (hshown : (w.now.after? s.timeout).isSome = true) (c : Context) (caller : Identity)
    (enclave : String) (names : List String) :
    ∃ outcomes w', s.deletePolicies? c caller enclave names w = some (outcomes, w') := by
  induction names generalizing w with
  | nil => exact ⟨[], w, rfl⟩
  | cons name names ih =>
      obtain ⟨r, w₁, hrun⟩ :=
        exists_run? hshown c (s.perform caller enclave (.deletePolicy name)).attempt
      have hnow : w₁.now = w.now := by
        obtain ⟨events, -, hlogs⟩ := serve?_logs hover
          (show s.serve? c caller (.command enclave (.deletePolicy name)) w = some (r, w₁)
            from hrun)
        exact hlogs.now
      obtain ⟨more, w₂, hrest⟩ := ih (hnow.symm ▸ hshown)
      exact ⟨_, w₂, Option.bind_eq_some_iff.2 ⟨(r, w₁), hrun,
        Option.bind_eq_some_iff.2 ⟨(more, w₂), hrest, rfl⟩⟩⟩

/-- A call is served if the clock can show when its time will be up. -/
theorem exists_serve? (hover : s.Over l) (hshown : (w.now.after? s.timeout).isSome = true)
    (c : Context) (caller : Identity) (call : Call) :
    ∃ r w', s.serve? c caller call w = some (r, w') := by
  by_cases hbulk : ∃ enclave names, call = .deletePolicies enclave names
  · obtain ⟨enclave, names, rfl⟩ := hbulk
    obtain ⟨outcomes, w', hall⟩ := exists_deletePolicies? hover hshown c caller enclave names
    exact ⟨_, w', Option.bind_eq_some_iff.2 ⟨(outcomes, w'), hall, rfl⟩⟩
  · obtain ⟨p, hp⟩ : ∃ p, s.programs caller call = [p] := by
      cases call with
      | deletePolicies enclave names => exact absurd ⟨enclave, names, rfl⟩ hbulk
      | _ => exact ⟨_, rfl⟩
    rw [serve?_eq_run? hp fun enclave names h => hbulk ⟨enclave, names, h⟩]
    exact exists_run? hshown c p

/-- A run in which every deadline can be shown comes to its end. -/
theorem exists_serveAll? (hover : s.Over l) {steps : List Step} {w : World σ}
    (htimely : s.Timely w.now steps) :
    ∃ transcript w', s.serveAll? steps w = some (transcript, w') := by
  induction steps generalizing w with
  | nil => exact ⟨[], w, rfl⟩
  | cons step steps ih =>
      cases step with
      | call c caller call =>
          obtain ⟨hshown, hlater⟩ := htimely
          obtain ⟨r, w₁, hone⟩ := exists_serve? hover hshown c caller call
          obtain ⟨events, -, hlogs⟩ := serve?_logs hover hone
          obtain ⟨more, w₂, hrest⟩ := ih (hlogs.now.symm ▸ hlater)
          exact ⟨_, w₂, Option.bind_eq_some_iff.2 ⟨(r, w₁), hone,
            Option.bind_eq_some_iff.2 ⟨(more, w₂), hrest, rfl⟩⟩⟩
      | pause tokens now => exact ih (w := { w with tokens := tokens, now := now }) htimely

/-- What a run leaves on the trail is its log. -/
theorem serveAll?_logs (hover : s.Over l) {steps : List Step} {w w' : World σ}
    {transcript : List Served} (hserved : s.serveAll? steps w = some (transcript, w')) :
    ∃ events, s.Logbook steps transcript events ∧ w'.trail = w.trail ++ events := by
  induction steps generalizing w transcript with
  | nil =>
      cases hserved
      exact ⟨[], .nil, (List.append_nil _).symm⟩
  | cons step steps ih =>
      cases step with
      | call c caller call =>
          obtain ⟨⟨r, w₁⟩, hone, hserved⟩ := Option.bind_eq_some_iff.1 hserved
          obtain ⟨⟨more, w₂⟩, hrest, hdone⟩ := Option.bind_eq_some_iff.1 hserved
          cases hdone
          obtain ⟨events, hleaves, hlogs⟩ := serve?_logs hover hone
          obtain ⟨later, hbook, htrail⟩ := ih hrest
          refine ⟨events ++ later, .call hleaves hbook, ?_⟩
          rw [htrail, hlogs.trail, List.append_assoc]
      | pause tokens now =>
          obtain ⟨events, hbook, htrail⟩ := ih hserved
          exact ⟨events, .pause hbook, htrail⟩

/-- **The audit trail is a faithful log.**  Whatever fails and whatever is canceled, a run of
calls comes to its end if the clock can show all deadlines, and what it adds to the trail is
its log: in the order of the calls one event for each command, whatever enclave it names, one
for each name of a deletion of several policies and none for the other calls, and every event
tells how its command ended. -/
theorem trail_faithful {settings : Settings} (hmade : ofSettings settings = .ok s)
    (steps : List Step) (w : World σ) :
    (s.Timely w.now steps → ∃ transcript w', s.serveAll? steps w = some (transcript, w')) ∧
      ∀ transcript w', s.serveAll? steps w = some (transcript, w') →
        ∃ events, s.Logbook steps transcript events ∧ w'.trail = w.trail ++ events :=
  ⟨exists_serveAll? (over_of_ofSettings hmade),
    fun _ _ hserved => serveAll?_logs (over_of_ofSettings hmade) hserved⟩

/-- A key is created and denied to a stranger, two policies are to be deleted when the store
fails, and a call is canceled.  An enclave of a malformed name is asked for, and a caller without
a credential asks for a new one. -/
theorem trail_faithful_mishaps :
    let s : Service := ⟨Layout.catalog ⟨""⟩, .ofAdmin (some ⟨"root"⟩), "default", 30⟩
    let w := World.stormy (.memory .empty) fun n =>
      if n = 15 then ⟨none, none, some (.unreachable "down")⟩ else .nothing
    let ask (caller enclave : String) (c : Command) : Step :=
      .call (.ofToken []) ⟨caller⟩ (.command enclave c)
    let steps : List Step := [.call (.ofToken []) ⟨"root"⟩ .init,
      ask "root" "" (.createKey "n" [7]), ask "ann" "" (.getKey "n"),
      ask "root" "a/b" (.getKey "n"),
      .call (.ofToken []) ⟨"root"⟩ (.deletePolicies "default" ["p", "q"]),
      .call (.ofToken []) ⟨"ann"⟩ (.describeSelf ""), .call (.ofToken []) ⟨"root"⟩ .health,
      .pause ⟨99, [[8]]⟩ w.now, .call (.ofToken [8]) ⟨"root"⟩ (.command "e" .status),
      ask "" "e" (.createEnclave "e")]
    let tell (event : AuditEvent) := (event.kind, event.identity, event.enclave, event.error)
    let told : List (EventType × Option String × Option String × Option String) :=
      [(.keyCreated, some "root", some "default", none),
        (.permissionDenied, some "ann", some "default",
          some "permission_denied: permission denied: ann may not access /v1/key/get/n"),
        (.keyAccessed, some "root", some "a/b", some ("invalid_argument: invalid argument: " ++
          "enclave name \"a/b\" contains an illegal character")),
        (.policyDeleted, some "root", some "default", none),
        (.policyDeleted, some "root", some "default",
          some "unreachable: backend unreachable: down"),
        (.statusChecked, some "root", some "default", some "canceled: operation canceled"),
        (.permissionDenied, none, some "default", some ("permission_denied: permission " ++
          "denied: <unknown> may not access /v1/enclave/create/e"))]
    ofSettings { Settings.default with admin := some ⟨"root"⟩ } = .ok s ∧
      s.Timely w.now steps ∧ ∃ transcript w' events,
        s.serveAll? steps w = some (transcript, w') ∧ s.Logbook steps transcript events ∧
        w'.trail = events ∧ events.map tell = told := by
  intro s w ask steps tell told
  have hmade : ofSettings { Settings.default with admin := some ⟨"root"⟩ } = .ok s := rfl
  have htimely : s.Timely w.now steps := by simp only [steps, ask, Timely]; decide
  obtain ⟨hended, hlogged⟩ := trail_faithful hmade steps w
  obtain ⟨transcript, w', hserved⟩ := hended htimely
  obtain ⟨events, hbook, htrail⟩ := hlogged transcript w' hserved
  have hshown : (s.serveAll? steps w).map (fun served => served.2.trail.map tell) =
      some told := by decide +kernel
  rw [hserved] at hshown
  obtain rfl : w'.trail = events := htrail
  exact ⟨hmade, htimely, transcript, w', _, hserved, hbook, rfl, Option.some.inj hshown⟩

end Service

end KeyCustody
