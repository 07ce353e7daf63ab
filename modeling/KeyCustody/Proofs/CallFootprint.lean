import KeyCustody.Proofs.Footprint

/-!
# Footprints of calls

A call is the gate, the body of its command and an event on the audit trail.  The footprint
of a command is the inductive `Service.Asks`, with one rule for each kind of request that
the text of a command holds and with what is known when the request is made.  Main
statements:

* `Authorizer.keeps_decide`: a decision looks at the caller's assignment and at the policy
  in it, and allows only what they grant;
* `Service.keeps_gate`: what was granted to an operation that passed the gate;
* `Service.keeps_body`: every command keeps to its footprint;
* `Service.keeps_perform`: the same for whole calls.
-/

namespace KeyCustody

variable {k : Contract}

/-! ### The registry -/

namespace View

variable {space : String}

/-- All names of a list are removed, each with one deletion. -/
theorem keeps_deleteAll (names : List String)
    (removed : ∀ name ∈ names, k.allows (.delete (space ++ name))) :
    ((View.under space .whole).deleteAll names).Keeps k (fun _ => True) := by
  induction names with
  | nil => exact Program.Keeps.pure trivial
  | cons name names ih =>
      have rest := ih fun other h => removed other (List.mem_cons_of_mem _ h)
      unfold deleteAll
      refine Program.Keeps.bind (keeps_delete (removed name List.mem_cons_self)) fun _ _ => ?_
      exact Program.Keeps.bind rest fun _ _ => Program.Keeps.pure trivial

/-- What is purged through a view lies under it. -/
theorem keeps_purge (listed : k.allows (.list (space ++ "*")))
    (removed : ∀ name, k.allows (.delete (space ++ name))) :
    (View.under space .whole).purge.Keeps k (fun _ => True) := by
  unfold purge
  refine Program.Keeps.bind (keeps_list listed) fun r _ => ?_
  cases r with
  | ok names => exact keeps_deleteAll names fun name _ => removed name
  | error e => exact Program.Keeps.pure trivial

end View

namespace Registry

variable {l : Layout} {m : String}

/-- What is purged lies in the namespaces purged. -/
theorem keeps_purgeSpaces (spaces : List String) (earlier : Option Error)
    (listed : ∀ space ∈ spaces, k.allows (.list (space ++ "*")))
    (removed : ∀ space ∈ spaces, ∀ name, k.allows (.delete (space ++ name))) :
    (purgeSpaces earlier spaces).Keeps k (fun _ => True) (fun _ => True) := by
  induction spaces generalizing earlier with
  | nil => exact Routine.Keeps.pure trivial
  | cons space spaces ih =>
      unfold purgeSpaces
      refine Routine.Keeps.check (fun _ _ => trivial) fun view entered => ?_
      obtain ⟨-, rfl⟩ := View.enter_eq_ok_iff.1 entered
      have here := List.mem_cons_self (a := space) (l := spaces)
      refine Routine.Keeps.seq
        (Routine.Keeps.lift (View.keeps_purge (listed space here) (removed space here)))
        fun failure => ?_
      exact ih _ (fun s hs => listed s (List.mem_cons_of_mem _ hs))
        fun s hs => removed s (List.mem_cons_of_mem _ hs)

/-- A purge removes only what the enclave owns. -/
theorem keeps_purge (listed : ∀ kind, k.allows (.list (l.space kind m ++ "*")))
    (removed : ∀ kind name, k.allows (.delete (l.space kind m ++ name))) :
    (l.catalog.purge m).Keeps k (fun _ => True) (fun _ => True) := by
  have spaces : ∀ space ∈ [l.keys m, l.policies m, l.identities m],
      ∃ kind, space = l.space kind m := by
    intro space hs
    simp only [List.mem_cons, List.not_mem_nil, or_false] at hs
    rcases hs with rfl | rfl | rfl
    · exact ⟨.key, rfl⟩
    · exact ⟨.policy, rfl⟩
    · exact ⟨.assignment, rfl⟩
  unfold purge
  refine Routine.Keeps.bind (keeps_purgeSpaces _ none (fun space hs => ?_) fun space hs => ?_)
    fun failure _ => ?_
  · obtain ⟨kind, rfl⟩ := spaces space hs
    exact listed kind
  · obtain ⟨kind, rfl⟩ := spaces space hs
    exact removed kind
  · cases failure with
    | some e => exact Routine.Keeps.throw trivial
    | none => exact Routine.Keeps.pure trivial

/-- An enclave is purged and registered only after its registration was missed. -/
theorem keeps_create {creator : Identity}
    (looked : ValidEnclaveName m → k.allows (.get (l.record m))) (timed : k.allows .time)
    (listed : ValidEnclaveName m → k.MayMiss (l.record m) →
      ∀ kind, k.allows (.list (l.space kind m ++ "*")))
    (removed : ValidEnclaveName m → k.MayMiss (l.record m) →
      ∀ kind name, k.allows (.delete (l.space kind m ++ name)))
    (created : ValidEnclaveName m → k.MayMiss (l.record m) → ∀ time,
      k.allows (.create (l.record m) (Record.encode (⟨time, creator⟩ : Registration)))) :
    (l.catalog.create m creator).Keeps k
      (fun _ => ValidEnclaveName m ∧ ∃ time, k.assumes
        (.create (l.record m) (Record.encode (⟨time, creator⟩ : Registration))) (.ok ()))
      (fun _ => True) := by
  unfold create
  refine Routine.Keeps.check (fun _ _ => trivial) fun _ passed => ?_
  have valid := checkEnclaveName_eq_ok_iff.1 passed
  refine Routine.Keeps.bind (Cabinet.keeps_find? (looked valid)) fun found seen => ?_
  cases found with
  | some g => exact Routine.Keeps.throw trivial
  | none =>
      refine Routine.Keeps.bind (keeps_purge (listed valid seen) (removed valid seen))
        fun _ _ => ?_
      refine Routine.Keeps.bind (Routine.Keeps.time timed) fun time _ => ?_
      refine Routine.Keeps.bind (Routine.Keeps.mapError (Routine.Keeps.weaken
        (Cabinet.keeps_create (created valid seen time)) (fun _ => id) fun _ _ => trivial))
        fun _ stored => ?_
      exact Routine.Keeps.pure ⟨valid, time, stored⟩

theorem keeps_describe (looked : ValidEnclaveName m → k.allows (.get (l.record m))) :
    (l.catalog.describe m).Keeps k
      (fun _ => ValidEnclaveName m ∧ ∃ g : Registration, k.MayHold (l.record m) g)
      (fun _ => True) := by
  unfold describe
  refine Routine.Keeps.check (fun _ _ => trivial) fun _ passed => ?_
  have valid := checkEnclaveName_eq_ok_iff.1 passed
  refine Routine.Keeps.bind (Cabinet.keeps_find? (looked valid)) fun found seen => ?_
  cases found with
  | some g => exact Routine.Keeps.pure ⟨valid, g, seen⟩
  | none => exact Routine.Keeps.throw trivial

/-- Making sure of an enclave is creating it, and describing it if it is there. -/
theorem keeps_ensure {creator : Identity}
    (looked : ValidEnclaveName m → k.allows (.get (l.record m)))
    (create : (l.catalog.create m creator).Keeps k (fun _ => True) (fun _ => True)) :
    (l.catalog.ensure m creator).Keeps k (fun _ => True) (fun _ => True) := by
  unfold ensure
  refine Routine.Keeps.handle create (fun _ _ => Routine.Keeps.ofExcept trivial) fun e _ => ?_
  cases e <;> first
    | exact Routine.Keeps.weaken (keeps_describe looked) (fun _ _ => trivial) fun _ => id
    | exact Routine.Keeps.ofExcept trivial

/-- An enclave is removed only after its registration was found. -/
theorem keeps_delete (looked : ValidEnclaveName m → k.allows (.get (l.record m)))
    (listed : ValidEnclaveName m → ∀ kind, k.allows (.list (l.space kind m ++ "*")))
    (removed : ValidEnclaveName m → ∀ (g : Registration), k.MayHold (l.record m) g →
      ∀ kind name, k.allows (.delete (l.space kind m ++ name)))
    (unregistered : ValidEnclaveName m → ∀ (g : Registration), k.MayHold (l.record m) g →
      k.allows (.delete (l.record m))) :
    (l.catalog.delete m).Keeps k (fun _ => True) (fun _ => True) := by
  unfold delete
  refine Routine.Keeps.bind (keeps_describe looked) fun _ ⟨valid, g, held⟩ => ?_
  refine Routine.Keeps.bind (keeps_purge (listed valid) (removed valid g held)) fun _ _ => ?_
  exact Routine.Keeps.weaken (Cabinet.keeps_delete (unregistered valid g held))
    (fun _ _ => trivial) fun _ => id

end Registry

/-! ### The gate -/

/-- By the contract, look-ups may show that the identity has a policy in the enclave that
allows the request path. -/
def Contract.Grants (k : Contract) (l : Layout) (e : String) (i : Identity) (path : String) :
    Prop :=
  i.Valid ∧ ∃ (a : Assignment) (p : Policy), k.MayHold (l.space .assignment e ++ i.text) a ∧
    ValidName a.policy ∧ k.MayHold (l.space .policy e ++ a.policy) p ∧
      p.evaluate path = .allow

/-- **Decisions.**  A decision looks at the identity's assignment and at the policy in it, and
allows only what they grant, or anything to the admin. -/
theorem Authorizer.keeps_decide (a : Authorizer) {l : Layout} {e : String} {i : Identity}
    {path : String}
    (looked : i.Valid → k.allows (.get (l.space .assignment e ++ i.text)))
    (read : ∀ a : Assignment, i.Valid → k.MayHold (l.space .assignment e ++ i.text) a →
      k.allows (.get (l.space .policy e ++ a.policy))) :
    (a.decide (l.handle e) i path).Keeps k
      (fun d => d = .allow → a.isAdmin i = true ∨ k.Grants l e i path) (fun _ => True) := by
  unfold decide
  split
  · exact Routine.Keeps.pure fun h => by cases h
  split
  · rename_i admin
    exact Routine.Keeps.pure fun _ => .inl admin
  · refine Routine.Keeps.handle (Enclave.keeps_resolvePolicy looked read) ?_ fun err _ => ?_
    · rintro ⟨name, p⟩ ⟨asg, valid, held, named, heldP⟩
      exact Routine.Keeps.pure fun allowed => .inr ⟨valid, asg, p, held, named, heldP, allowed⟩
    · cases err <;> first
        | exact Routine.Keeps.throw trivial
        | exact Routine.Keeps.pure fun h => by cases h

namespace Service

variable {l : Layout}

/-- What the gate looks up for a caller in the scope enclave. -/
inductive GateLooks (k : Contract) (l : Layout) (caller : Identity) (scope : String) :
    String → Prop
  | assignment (valid : caller.Valid) :
      GateLooks k l caller scope (l.space .assignment scope ++ caller.text)
  | policy {a : Assignment} (valid : caller.Valid)
      (held : k.MayHold (l.space .assignment scope ++ caller.text) a) :
      GateLooks k l caller scope (l.space .policy scope ++ a.policy)
  | registration : GateLooks k l caller scope (l.record scope)

/-- What is known behind the gate: the scope is a valid enclave name, the caller is the admin
or was granted the path, and the scope is registered. -/
structure Passed (k : Contract) (s : Service) (l : Layout) (caller : Identity)
    (scope path : String) : Prop where
  valid : ValidEnclaveName scope
  permitted : s.authorizer.isAdmin caller = true ∨ k.Grants l scope caller path
  registered : ∃ g : Registration, k.MayHold (l.record scope) g

/-- **The gate** lets only permitted operations on registered enclaves through. -/
theorem keeps_gate {s : Service} (hover : s.Over l) {caller : Identity} {enclave : String}
    {op : Operation}
    (looked : ValidEnclaveName (s.scope enclave op) → ∀ full,
      GateLooks k l caller (s.scope enclave op) full → k.allows (.get full)) :
    (s.gate caller enclave op).Keeps k
      (fun h => h = l.handle (s.scope enclave op) ∧
        Passed k s l caller (s.scope enclave op) op.path)
      (fun _ => True) := by
  unfold gate
  refine Routine.Keeps.check (fun _ _ => trivial) fun h found => ?_
  obtain ⟨valid, rfl⟩ := hover.handle_eq_ok_iff.1 found
  have looks := looked valid
  have decided : (s.authorizer.decide (l.handle (s.scope enclave op)) caller op.path).Keeps k
      (fun d => d = .allow → s.authorizer.isAdmin caller = true ∨
        k.Grants l (s.scope enclave op) caller op.path)
      (fun _ => True) :=
    s.authorizer.keeps_decide (fun known => looks _ (.assignment known))
      fun a known held => looks _ (.policy known held)
  have authorized : (s.authorizer.authorize (l.handle (s.scope enclave op)) caller op).Keeps k
      (fun _ => s.authorizer.isAdmin caller = true ∨
        k.Grants l (s.scope enclave op) caller op.path)
      (fun _ => True) := by
    unfold Authorizer.authorize
    refine Routine.Keeps.bind decided fun d allowed => ?_
    cases d with
    | allow => exact Routine.Keeps.pure (allowed rfl)
    | deny => exact Routine.Keeps.throw trivial
  refine Routine.Keeps.bind authorized fun _ permitted => ?_
  refine Routine.Keeps.bind (Enclave.keeps_ensureRegistered (looks _ .registration))
    fun _ registered => ?_
  exact Routine.Keeps.pure ⟨rfl, valid, permitted, registered⟩

/-- A gated call is the gate, the body and the event. -/
theorem keeps_gated {α : Type} {s : Service} {caller : Identity} {enclave : String}
    {op : Operation} {body : Enclave → Routine α} {through : Enclave → Prop} {good : α → Prop}
    (gate : (s.gate caller enclave op).Keeps k through fun _ => True)
    (rest : ∀ e, through e → (body e).Keeps k good fun _ => True)
    (identified : k.allows .eventId) (timed : k.allows .time)
    (emitted : ∀ event, k.allows (.emit event)) :
    (s.gated caller enclave op body).Keeps k good fun _ => True := by
  unfold gated
  refine Program.Keeps.bind (Routine.Keeps.bind gate rest) fun r done => ?_
  refine Program.Keeps.bind (Program.Keeps.request identified) fun id _ => ?_
  refine Program.Keeps.bind (Program.Keeps.request timed) fun time _ => ?_
  exact Program.Keeps.bind (Program.Keeps.request (emitted _)) fun _ _ => Program.Keeps.pure done

/-! ### Commands -/

/-- **The footprint of a command.**  The requests that the body of a command may make in the
enclave `e`, each with what is known when it is made. -/
inductive Asks (k : Contract) (s : Service) (l : Layout) (caller : Identity) (e : String) :
    Command → Request → Prop
  | time {c : Command} : Asks k s l caller e c .time
  | createKey_look {name : String} {value : Bytes} :
      Asks k s l caller e (.createKey name value) (.get (l.record e))
  | createKey_create {name : String} {value : Bytes} {time : Timestamp} {g : Registration}
      (registered : k.MayHold (l.record e) g) (valid : ValidName name) :
      Asks k s l caller e (.createKey name value) (.create (l.space .key e ++ name)
        (Record.encode (⟨value, time, caller⟩ : SealedKey)))
  | getKey {name : String} :
      Asks k s l caller e (.getKey name) (.get (l.space .key e ++ name))
  | describeKey {name : String} :
      Asks k s l caller e (.describeKey name) (.get (l.space .key e ++ name))
  | deleteKey {name : String} (valid : ValidName name) :
      Asks k s l caller e (.deleteKey name) (.delete (l.space .key e ++ name))
  | listKeys {pattern : String} :
      Asks k s l caller e (.listKeys pattern) (.list (l.space .key e ++ Glob.orAll pattern))
  | createPolicy_look {name : String} {policy : Policy} :
      Asks k s l caller e (.createPolicy name policy) (.get (l.record e))
  | createPolicy_remove {name : String} {policy : Policy} (valid : ValidName name) :
      Asks k s l caller e (.createPolicy name policy) (.delete (l.space .policy e ++ name))
  | createPolicy_create {name : String} {policy : Policy} {time : Timestamp}
      {g : Registration} (registered : k.MayHold (l.record e) g) (valid : ValidName name)
      (checked : policy.check = .ok ()) :
      Asks k s l caller e (.createPolicy name policy) (.create (l.space .policy e ++ name)
        (Record.encode (Enclave.storedPolicy policy time caller)))
  | getPolicy {name : String} :
      Asks k s l caller e (.getPolicy name) (.get (l.space .policy e ++ name))
  | describePolicy {name : String} :
      Asks k s l caller e (.describePolicy name) (.get (l.space .policy e ++ name))
  | deletePolicy_look {name : String} :
      Asks k s l caller e (.deletePolicy name) (.get (l.space .policy e ++ name))
  | deletePolicy_list {name : String} :
      Asks k s l caller e (.deletePolicy name) (.list (l.space .assignment e ++ "*"))
  | deletePolicy_search {name identity : String} :
      Asks k s l caller e (.deletePolicy name) (.get (l.space .assignment e ++ identity))
  | deletePolicy_remove {name : String} (valid : ValidName name) :
      Asks k s l caller e (.deletePolicy name) (.delete (l.space .policy e ++ name))
  | listPolicies {pattern : String} :
      Asks k s l caller e (.listPolicies pattern)
        (.list (l.space .policy e ++ Glob.orAll pattern))
  | assignPolicy_look {policy : String} {identities : List Identity} :
      Asks k s l caller e (.assignPolicy policy identities) (.get (l.record e))
  | assignPolicy_read {policy : String} {identities : List Identity} :
      Asks k s l caller e (.assignPolicy policy identities)
        (.get (l.space .policy e ++ policy))
  | assignPolicy_remove {policy : String} {identities : List Identity} {i : Identity}
      (named : i ∈ identities) (valid : i.Valid) (other : i ≠ caller)
      (ruled : s.authorizer.isAdmin i = false) :
      Asks k s l caller e (.assignPolicy policy identities)
        (.delete (l.space .assignment e ++ i.text))
  | assignPolicy_create {policy : String} {identities : List Identity} {i : Identity}
      {time : Timestamp} {g : Registration} {p : Policy}
      (registered : k.MayHold (l.record e) g) (held : k.MayHold (l.space .policy e ++ policy) p)
      (named : i ∈ identities) (valid : i.Valid) (other : i ≠ caller)
      (ruled : s.authorizer.isAdmin i = false) :
      Asks k s l caller e (.assignPolicy policy identities)
        (.create (l.space .assignment e ++ i.text)
          (Record.encode (⟨policy, time, caller⟩ : Assignment)))
  | describeIdentity {i : Identity} :
      Asks k s l caller e (.describeIdentity i) (.get (l.space .assignment e ++ i.text))
  | deleteIdentity {i : Identity} (valid : i.Valid) :
      Asks k s l caller e (.deleteIdentity i) (.delete (l.space .assignment e ++ i.text))
  | listIdentities {pattern : String} :
      Asks k s l caller e (.listIdentities pattern)
        (.list (l.space .assignment e ++ Glob.orAll pattern))
  | createEnclave_look {m : String} (valid : ValidEnclaveName m) :
      Asks k s l caller e (.createEnclave m) (.get (l.record m))
  | createEnclave_list {m : String} {kind : RecordKind} (valid : ValidEnclaveName m)
      (missed : k.MayMiss (l.record m)) :
      Asks k s l caller e (.createEnclave m) (.list (l.space kind m ++ "*"))
  | createEnclave_remove {m name : String} {kind : RecordKind} (valid : ValidEnclaveName m)
      (missed : k.MayMiss (l.record m)) :
      Asks k s l caller e (.createEnclave m) (.delete (l.space kind m ++ name))
  | createEnclave_create {m : String} {time : Timestamp} (valid : ValidEnclaveName m)
      (missed : k.MayMiss (l.record m)) :
      Asks k s l caller e (.createEnclave m)
        (.create (l.record m) (Record.encode (⟨time, caller⟩ : Registration)))
  | describeEnclave {m : String} (valid : ValidEnclaveName m) :
      Asks k s l caller e (.describeEnclave m) (.get (l.record m))
  | deleteEnclave_look {m : String} (valid : ValidEnclaveName m) :
      Asks k s l caller e (.deleteEnclave m) (.get (l.record m))
  | deleteEnclave_list {m : String} {kind : RecordKind} (valid : ValidEnclaveName m) :
      Asks k s l caller e (.deleteEnclave m) (.list (l.space kind m ++ "*"))
  | deleteEnclave_remove {m name : String} {kind : RecordKind} {g : Registration}
      (valid : ValidEnclaveName m) (spared : m ≠ s.defaultEnclave)
      (held : k.MayHold (l.record m) g) :
      Asks k s l caller e (.deleteEnclave m) (.delete (l.space kind m ++ name))
  | deleteEnclave_unregister {m : String} {g : Registration} (valid : ValidEnclaveName m)
      (spared : m ≠ s.defaultEnclave) (held : k.MayHold (l.record m) g) :
      Asks k s l caller e (.deleteEnclave m) (.delete (l.record m))
  | listEnclaves {pattern : String} :
      Asks k s l caller e (.listEnclaves pattern) (.list (l.registry ++ Glob.orAll pattern))
  | status : Asks k s l caller e .status .status

/-- An assignment to one identity, other than the caller and the admin. -/
theorem keeps_assignOne {s : Service} {caller i : Identity} {e policy : String}
    (looked : k.allows (.get (l.record e))) (timed : k.allows .time)
    (read : k.allows (.get (l.space .policy e ++ policy)))
    (removed : i.Valid → i ≠ caller → s.authorizer.isAdmin i = false →
      k.allows (.delete (l.space .assignment e ++ i.text)))
    (created : ∀ (g : Registration) (p : Policy) time, k.MayHold (l.record e) g → i.Valid →
      k.MayHold (l.space .policy e ++ policy) p → i ≠ caller → s.authorizer.isAdmin i = false →
      k.allows (.create (l.space .assignment e ++ i.text)
        (Record.encode (⟨policy, time, caller⟩ : Assignment)))) :
    (s.assignOne (l.handle e) caller policy i).Keeps k (fun _ => True) fun _ => True := by
  unfold assignOne
  by_cases admin : s.authorizer.isAdmin i = true
  · rw [if_pos admin]
    exact Routine.Keeps.throw trivial
  rw [if_neg admin]
  by_cases self : i = caller
  · rw [if_pos self]
    exact Routine.Keeps.throw trivial
  rw [if_neg self]
  have ruled : s.authorizer.isAdmin i = false := Bool.eq_false_iff.2 admin
  refine Routine.Keeps.bind (Enclave.keeps_assignPolicy looked timed read
    (fun valid => removed valid self ruled)
    fun g p time registered valid held => created g p time registered valid held self ruled)
    fun _ _ => ?_
  exact Routine.Keeps.pure trivial

/-- Several assignments, each to an identity that the caller may give a policy to. -/
theorem keeps_assignEach {s : Service} {caller : Identity} {e policy : String}
    (identities all : List Identity) (within : ∀ i ∈ identities, i ∈ all)
    (allowed : ∀ r, Asks k s l caller e (.assignPolicy policy all) r → k.allows r) :
    (s.assignEach (l.handle e) caller policy identities).Keeps k (fun _ => True) := by
  induction identities with
  | nil => exact Program.Keeps.pure trivial
  | cons i identities ih =>
      have named := within i List.mem_cons_self
      have one : (s.assignOne (l.handle e) caller policy i).Keeps k (fun _ => True)
          (fun _ => True) :=
        keeps_assignOne (allowed _ .assignPolicy_look) (allowed _ .time)
          (allowed _ .assignPolicy_read)
          (fun valid self ruled => allowed _ (.assignPolicy_remove named valid self ruled))
          fun g p time registered valid held self ruled =>
            allowed _ (.assignPolicy_create registered held named valid self ruled)
      unfold assignEach
      refine Program.Keeps.bind one fun r _ => ?_
      refine Program.Keeps.bind (ih fun j hj => within j (List.mem_cons_of_mem _ hj))
        fun more _ => ?_
      exact Program.Keeps.pure trivial

/-- A routine whose value is told on and not looked at. -/
theorem keeps_reply {α β : Type} {good : α → Prop} {a : Routine α} {f : α → β}
    (h : a.Keeps k good fun _ => True) :
    (a >>= fun x => pure (f x) : Routine β).Keeps k (fun _ => True) fun _ => True :=
  Routine.Keeps.bind h fun _ _ => Routine.Keeps.pure trivial

/-- **Every command keeps to its footprint.** -/
theorem keeps_body {s : Service} (hover : s.Over l) {caller : Identity} {e : String}
    {c : Command} (allowed : ∀ r, Asks k s l caller e c r → k.allows r) :
    (s.body caller (l.handle e) c).Keeps k (fun _ => True) (fun _ => True) := by
  have timed := allowed _ .time
  cases c with
  | createKey name value =>
      exact keeps_reply (Enclave.keeps_createKey (allowed _ .createKey_look) timed
        fun g time registered valid => allowed _ (.createKey_create registered valid))
  | getKey name => exact keeps_reply (Enclave.keeps_getKey (allowed _ .getKey))
  | describeKey name =>
      unfold body Enclave.describeKey
      exact keeps_reply (keeps_reply (Enclave.keeps_getKey (allowed _ .describeKey)))
  | deleteKey name =>
      exact keeps_reply (Enclave.keeps_deleteKey fun valid => allowed _ (.deleteKey valid))
  | listKeys pattern => exact keeps_reply (Cabinet.keeps_list (allowed _ .listKeys))
  | createPolicy name policy =>
      exact keeps_reply (Enclave.keeps_setPolicy (allowed _ .createPolicy_look) timed
        (fun valid => allowed _ (.createPolicy_remove valid))
        fun g time registered valid checked =>
          allowed _ (.createPolicy_create registered valid checked))
  | getPolicy name => exact keeps_reply (Enclave.keeps_getPolicy (allowed _ .getPolicy))
  | describePolicy name =>
      unfold body Enclave.describePolicy
      exact keeps_reply (keeps_reply (Enclave.keeps_getPolicy (allowed _ .describePolicy)))
  | deletePolicy name =>
      exact keeps_reply (Enclave.keeps_deletePolicy (allowed _ .deletePolicy_look)
        (allowed _ .deletePolicy_list) (fun _ => allowed _ .deletePolicy_search)
        fun valid => allowed _ (.deletePolicy_remove valid))
  | listPolicies pattern => exact keeps_reply (Cabinet.keeps_list (allowed _ .listPolicies))
  | assignPolicy policy identities =>
      exact keeps_reply (Routine.Keeps.lift
        (keeps_assignEach identities identities (fun _ => id) allowed))
  | describeIdentity i =>
      exact keeps_reply (Enclave.keeps_describeIdentity
        fun _ => allowed _ .describeIdentity)
  | deleteIdentity i =>
      exact keeps_reply (Enclave.keeps_unassign fun valid => allowed _ (.deleteIdentity valid))
  | listIdentities pattern =>
      exact keeps_reply (Cabinet.keeps_list (allowed _ .listIdentities))
  | createEnclave m =>
      unfold body
      rw [hover.registry_eq]
      exact keeps_reply (Registry.keeps_create
        (fun valid => allowed _ (.createEnclave_look valid)) timed
        (fun valid missed kind => allowed _ (.createEnclave_list valid missed))
        (fun valid missed kind name => allowed _ (.createEnclave_remove valid missed))
        fun valid missed time => allowed _ (.createEnclave_create valid missed))
  | describeEnclave m =>
      unfold body
      rw [hover.registry_eq]
      exact keeps_reply (Registry.keeps_describe
        fun valid => allowed _ (.describeEnclave valid))
  | deleteEnclave m =>
      dsimp only [body]
      rw [hover.registry_eq]
      by_cases spared : m = s.defaultEnclave
      · rw [if_pos spared]
        exact Routine.Keeps.throw trivial
      · rw [if_neg spared]
        exact keeps_reply (Registry.keeps_delete
          (fun valid => allowed _ (.deleteEnclave_look valid))
          (fun valid kind => allowed _ (.deleteEnclave_list valid))
          (fun valid g held kind name => allowed _ (.deleteEnclave_remove valid spared held))
          fun valid g held => allowed _ (.deleteEnclave_unregister valid spared held))
  | listEnclaves pattern =>
      unfold body
      rw [hover.registry_eq]
      exact keeps_reply (Cabinet.keeps_list (allowed _ .listEnclaves))
  | status =>
      have asked : Routine.status.Keeps k (fun _ => True) fun _ => True :=
        Program.Keeps.weaken (Program.Keeps.request (allowed _ .status)) fun r _ => by
          cases r <;> trivial
      exact keeps_reply asked

/-! ### Calls -/

/-- The enclave in which a command for an enclave is authorized. -/
def scopeOf (s : Service) (enclave : String) (c : Command) : String :=
  s.scope (target c enclave) c.operation

/-- **Every call keeps to the footprint of its gate and its command.** -/
theorem keeps_perform {s : Service} (hover : s.Over l) {caller : Identity} {enclave : String}
    {c : Command}
    (looked : ValidEnclaveName (s.scopeOf enclave c) → ∀ full,
      GateLooks k l caller (s.scopeOf enclave c) full → k.allows (.get full))
    (allowed : Passed k s l caller (s.scopeOf enclave c) c.operation.path →
      ∀ r, Asks k s l caller (s.scopeOf enclave c) c r → k.allows r)
    (identified : k.allows .eventId) (timed : k.allows .time)
    (emitted : ∀ event, k.allows (.emit event)) :
    (s.perform caller enclave c).Keeps k (fun _ => True) fun _ => True := by
  refine keeps_gated (keeps_gate hover looked) ?_ identified timed emitted
  rintro e ⟨rfl, passed⟩
  exact keeps_body hover (allowed passed)

/-- What a caller looks up to learn of itself. -/
inductive SelfLooks (l : Layout) (caller : Identity) (e : String) : String → Prop
  | registration : SelfLooks l caller e (l.record e)
  | assignment (valid : caller.Valid) :
      SelfLooks l caller e (l.space .assignment e ++ caller.text)
  | policy {name : String} (valid : caller.Valid) :
      SelfLooks l caller e (l.space .policy e ++ name)

/-- Whoever asks about itself changes nothing. -/
theorem keeps_describeSelf {s : Service} (hover : s.Over l) {caller : Identity}
    {enclave : String}
    (looked : ValidEnclaveName (s.enclaveName enclave) → ∀ full,
      SelfLooks l caller (s.enclaveName enclave) full → k.allows (.get full)) :
    (s.describeSelf caller enclave).Keeps k (fun _ => True) fun _ => True := by
  have registered : (s.registry.registered (s.enclaveName enclave)).Keeps k
      (fun h => ValidEnclaveName (s.enclaveName enclave) ∧
        h = l.handle (s.enclaveName enclave))
      (fun _ => True) := by
    unfold Registry.registered
    refine Routine.Keeps.check (fun _ _ => trivial) fun h found => ?_
    obtain ⟨valid, rfl⟩ := hover.handle_eq_ok_iff.1 found
    refine Routine.Keeps.bind
      (Enclave.keeps_ensureRegistered (looked valid _ .registration)) fun _ _ => ?_
    exact Routine.Keeps.pure ⟨valid, rfl⟩
  unfold describeSelf
  split
  · exact Routine.Keeps.throw trivial
  · refine Routine.Keeps.handle registered ?_ fun err _ => ?_
    · rintro h ⟨valid, rfl⟩
      have looks := looked valid
      dsimp only
      split
      · exact Routine.Keeps.pure trivial
      · refine Routine.Keeps.handle
          (Enclave.keeps_describeIdentity fun known => looks _ (.assignment known)) ?_
          fun err _ => ?_
        · rintro info ⟨a, rfl, known, held⟩
          refine Routine.Keeps.bind (Enclave.keeps_getPolicy (looks _ (.policy known)))
            fun p _ => ?_
          exact Routine.Keeps.pure trivial
        · cases err <;> exact Routine.Keeps.throw trivial
    · cases err with
      | notFound what => dsimp only; split <;> exact Routine.Keeps.throw trivial
      | _ => exact Routine.Keeps.throw trivial

end Service

end KeyCustody
