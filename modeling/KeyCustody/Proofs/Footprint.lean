import KeyCustody.Proofs.Contract
import KeyCustody.Proofs.Namespaces

/-!
# Footprints

What a routine may ask of the store follows from its text: which names it may look up,
create and remove, and which namespaces it may list.  These *footprints* hold for every
answer the store may give, so also for stores that fail, for contexts that end and for
routines that take turns with others.

Each lemma here is about one routine of a view, a cabinet or an enclave.  It holds for any
contract that allows the routine's requests, and tells of its value what the contract
assumes of the answers: `Contract.MayHold` and `Contract.MayMiss`.
-/

namespace KeyCustody

variable {k : Contract}

/-- By the contract, a look-up may find a value that encodes the record. -/
def Contract.MayHold (k : Contract) {α : Type} [Record α] (name : String) (a : α) : Prop :=
  ∃ value, k.assumes (.get name) (.ok value) ∧ Record.decode? value = some a

/-- By the contract, a look-up may miss the name. -/
def Contract.MayMiss (k : Contract) (name : String) : Prop :=
  ∃ what, k.assumes (.get name) (.error (.notFound what))

/-! ### Views and cabinets -/

namespace View

variable {space name : String}

/-- A look-up through a view is one look-up of the full name. -/
theorem keeps_get (allowed : k.allows (.get (space ++ name))) :
    ((View.under space .whole).get name).Keeps k
      (fun value => k.assumes (.get (space ++ name)) (.ok value))
      (fun e => (∃ what, e = .notFound what) → k.MayMiss (space ++ name)) := by
  unfold View.get
  refine Routine.Keeps.check (fun e refused => ?_) fun _ _ => ?_
  · rintro ⟨what, rfl⟩
    unfold requireKey at refused
    split at refused <;> cases refused
  · refine Routine.Keeps.mapError ⟨allowed, fun x hx => ?_⟩
    cases x with
    | ok value => exact hx
    | error e =>
        rintro ⟨what, missing⟩
        cases e <;> first
          | exact ⟨_, hx⟩
          | cases missing

/-- A creation through a view is one creation of the full name. -/
theorem keeps_create {value : Bytes} (allowed : k.allows (.create (space ++ name) value)) :
    ((View.under space .whole).create name value).Keeps k
      (fun _ => k.assumes (.create (space ++ name) value) (.ok ())) (fun _ => True) := by
  unfold View.create
  refine Routine.Keeps.check (fun _ _ => trivial) fun _ _ => ?_
  refine Routine.Keeps.mapError ⟨allowed, fun x hx => ?_⟩
  cases x with
  | ok u => exact hx
  | error e => trivial

/-- A deletion through a view is one deletion of the full name. -/
theorem keeps_delete (allowed : k.allows (.delete (space ++ name))) :
    ((View.under space .whole).delete name).Keeps k
      (fun _ => k.assumes (.delete (space ++ name)) (.ok ())) (fun _ => True) := by
  unfold View.delete
  refine Routine.Keeps.check (fun _ _ => trivial) fun _ _ => ?_
  refine ⟨allowed, fun x hx => ?_⟩
  cases x with
  | ok u => exact hx
  | error e => trivial

/-- A listing through a view is one listing in the namespace. -/
theorem keeps_list {pattern : String}
    (allowed : k.allows (.list (space ++ Glob.orAll pattern))) :
    ((View.under space .whole).list pattern).Keeps k
      (fun shown => ∃ names, k.assumes (.list (space ++ Glob.orAll pattern)) (.ok names) ∧
        shown = names.filterMap (strip space))
      (fun _ => True) := by
  refine ⟨allowed, fun x hx => ?_⟩
  cases x with
  | ok names => exact ⟨names, hx, rfl⟩
  | error e => trivial

end View

namespace Cabinet

variable {α : Type} [Record α] {space name : String}

/-- The cabinet of the records in a namespace. -/
abbrev under (space : String) : Cabinet α := ⟨.under space .whole⟩

theorem keeps_create {a : α} (allowed : k.allows (.create (space ++ name) (Record.encode a))) :
    ((under space : Cabinet α).create name a).Keeps k
      (fun _ => k.assumes (.create (space ++ name) (Record.encode a)) (.ok ()))
      (fun _ => True) :=
  View.keeps_create allowed

theorem keeps_get (allowed : k.allows (.get (space ++ name))) :
    ((under space : Cabinet α).get name).Keeps k
      (fun a => k.MayHold (space ++ name) a)
      (fun e => (∃ what, e = .notFound what) → k.MayMiss (space ++ name)) := by
  unfold get
  refine Routine.Keeps.bind (View.keeps_get allowed) fun value found => ?_
  cases decoded : (Record.decode? value : Option α) with
  | some a => exact Routine.Keeps.pure ⟨value, found, decoded⟩
  | none =>
      refine Routine.Keeps.throw ?_
      rintro ⟨what, h⟩
      cases h

/-- What is found may be held, and what is not may be missing. -/
theorem keeps_find? (allowed : k.allows (.get (space ++ name))) :
    ((under space : Cabinet α).find? name).Keeps k
      (fun found => match found with
        | some a => k.MayHold (space ++ name) a
        | none => k.MayMiss (space ++ name))
      (fun _ => True) := by
  refine Routine.Keeps.handle (keeps_get allowed) (fun a held => ?_) fun e missing => ?_
  · exact Routine.Keeps.pure held
  · cases e <;> first
      | exact Routine.Keeps.pure (missing ⟨_, rfl⟩)
      | exact Routine.Keeps.throw trivial

/-- A replacement removes and creates the one name, however often. -/
theorem keeps_replaceValue {value : Bytes} (removed : k.allows (.delete (space ++ name)))
    (created : k.allows (.create (space ++ name) value)) (n : Nat) :
    (replaceValue (.under space .whole) name value n).Keeps k (fun _ => True)
      (fun _ => True) := by
  induction n with
  | zero => exact Routine.Keeps.throw trivial
  | succ n ih =>
      refine Routine.Keeps.bind (View.keeps_delete removed) fun _ _ => ?_
      refine Routine.Keeps.handle (View.keeps_create created) (fun _ _ => ?_) fun e _ => ?_
      · exact Routine.Keeps.ofExcept trivial
      · cases e <;> first
          | exact ih
          | exact Routine.Keeps.ofExcept trivial

theorem keeps_replace {a : α} (removed : k.allows (.delete (space ++ name)))
    (created : k.allows (.create (space ++ name) (Record.encode a))) :
    ((under space : Cabinet α).replace name a).Keeps k (fun _ => True) (fun _ => True) :=
  keeps_replaceValue removed created attempts

omit [Record α] in
theorem keeps_delete (allowed : k.allows (.delete (space ++ name))) :
    ((under space : Cabinet α).delete name).Keeps k
      (fun _ => k.assumes (.delete (space ++ name)) (.ok ())) (fun _ => True) :=
  View.keeps_delete allowed

omit [Record α] in
theorem keeps_list {pattern : String}
    (allowed : k.allows (.list (space ++ Glob.orAll pattern))) :
    ((under space : Cabinet α).list pattern).Keeps k (fun _ => True) (fun _ => True) :=
  (View.keeps_list allowed).weaken (fun _ _ => trivial) fun _ => id

/-- A record that is asked for by its kind has a valid name. -/
theorem keeps_getNamed {kind : String} (allowed : k.allows (.get (space ++ name))) :
    ((under space : Cabinet α).getNamed kind name).Keeps k
      (fun a => ValidName name ∧ k.MayHold (space ++ name) a) (fun _ => True) := by
  unfold getNamed
  refine Routine.Keeps.check (fun _ _ => trivial) fun _ passed => ?_
  have valid := checkName_eq_ok_iff.1 passed
  refine Routine.Keeps.mapError (Routine.Keeps.weaken (keeps_get allowed) ?_ ?_)
  · exact fun a held => ⟨valid, held⟩
  · exact fun _ _ => trivial

end Cabinet

/-! ### Enclaves -/

namespace Enclave

variable {l : Layout} {e : String}

/-- An enclave counts as registered if its registration was found. -/
theorem keeps_ensureRegistered (allowed : k.allows (.get (l.record e))) :
    (l.handle e).ensureRegistered.Keeps k
      (fun _ => ∃ g : Registration, k.MayHold (l.record e) g) (fun _ => True) := by
  unfold ensureRegistered
  refine Routine.Keeps.bind (Cabinet.keeps_find? allowed) fun found seen => ?_
  cases found with
  | some g => exact Routine.Keeps.pure ⟨g, seen⟩
  | none => exact Routine.Keeps.throw trivial

/-- A new key is stored as told. -/
theorem keeps_createKey {name : String} {value : Bytes} {creator : Identity}
    (looked : k.allows (.get (l.record e))) (timed : k.allows .time)
    (created : ∀ (g : Registration) time, k.MayHold (l.record e) g → ValidName name →
      k.allows (.create (l.space .key e ++ name)
        (Record.encode (⟨value, time, creator⟩ : SealedKey)))) :
    ((l.handle e).createKey name value creator).Keeps k
      (fun info => ValidName name ∧ ∃ time, info = ⟨name, time, creator⟩ ∧
        k.assumes (.create (l.space .key e ++ name)
          (Record.encode (⟨value, time, creator⟩ : SealedKey))) (.ok ()))
      (fun _ => True) := by
  unfold createKey
  refine Routine.Keeps.bind (keeps_ensureRegistered looked) fun _ ⟨g, registered⟩ => ?_
  refine Routine.Keeps.check (fun _ _ => trivial) fun _ passed => ?_
  have valid := checkName_eq_ok_iff.1 passed
  refine Routine.Keeps.bind (Routine.Keeps.time timed) fun time _ => ?_
  refine Routine.Keeps.bind (Cabinet.keeps_create (created g time registered valid))
    fun _ stored => ?_
  exact Routine.Keeps.pure ⟨valid, time, rfl, stored⟩

theorem keeps_getKey {name : String} (looked : k.allows (.get (l.space .key e ++ name))) :
    ((l.handle e).getKey name).Keeps k
      (fun key => ValidName name ∧ k.MayHold (l.space .key e ++ name) key) (fun _ => True) :=
  Cabinet.keeps_getNamed looked

theorem keeps_deleteKey {name : String}
    (removed : ValidName name → k.allows (.delete (l.space .key e ++ name))) :
    ((l.handle e).deleteKey name).Keeps k
      (fun _ => k.assumes (.delete (l.space .key e ++ name)) (.ok ())) (fun _ => True) :=
  Routine.Keeps.check (fun _ _ => trivial) fun _ passed =>
    Cabinet.keeps_delete (removed (checkName_eq_ok_iff.1 passed))

/-- The policy as it is stored for a creator. -/
def storedPolicy (policy : Policy) (time : Timestamp) (creator : Identity) : Policy :=
  { policy.normalize with createdAt := some time, createdBy := creator }

theorem keeps_setPolicy {name : String} {policy : Policy} {creator : Identity}
    (looked : k.allows (.get (l.record e))) (timed : k.allows .time)
    (removed : ValidName name → k.allows (.delete (l.space .policy e ++ name)))
    (created : ∀ (g : Registration) time, k.MayHold (l.record e) g → ValidName name →
      policy.check = .ok () → k.allows (.create (l.space .policy e ++ name)
        (Record.encode (storedPolicy policy time creator)))) :
    ((l.handle e).setPolicy name policy creator).Keeps k (fun _ => True) (fun _ => True) := by
  unfold setPolicy
  refine Routine.Keeps.bind (keeps_ensureRegistered looked) fun _ ⟨g, registered⟩ => ?_
  refine Routine.Keeps.check (fun _ _ => trivial) fun _ passed => ?_
  have valid := checkName_eq_ok_iff.1 passed
  refine Routine.Keeps.check (fun _ _ => trivial) fun _ checked => ?_
  refine Routine.Keeps.bind (Routine.Keeps.time timed) fun time _ => ?_
  refine Routine.Keeps.bind
    (Cabinet.keeps_replace (removed valid) (created g time registered valid checked)) fun _ _ => ?_
  exact Routine.Keeps.pure trivial

theorem keeps_getPolicy {name : String}
    (looked : k.allows (.get (l.space .policy e ++ name))) :
    ((l.handle e).getPolicy name).Keeps k
      (fun p => ValidName name ∧ k.MayHold (l.space .policy e ++ name) p) (fun _ => True) :=
  Cabinet.keeps_getNamed looked

/-- Only valid identities are looked up. -/
theorem keeps_findAssignment {i : Identity}
    (looked : i.Valid → k.allows (.get (l.space .assignment e ++ i.text))) :
    ((l.handle e).findAssignment i).Keeps k
      (fun found => ∀ a, found = some a →
        i.Valid ∧ k.MayHold (l.space .assignment e ++ i.text) a)
      (fun _ => True) := by
  unfold findAssignment
  split
  · exact Routine.Keeps.pure fun a h => by cases h
  · refine Routine.Keeps.check (fun _ _ => trivial) fun _ passed => ?_
    have valid := Identity.check_eq_ok_iff.1 passed
    refine Routine.Keeps.weaken (Cabinet.keeps_find? (looked valid)) ?_ fun _ => id
    intro found seen a h
    subst h
    exact ⟨valid, seen⟩

theorem keeps_describeIdentity {i : Identity}
    (looked : i.Valid → k.allows (.get (l.space .assignment e ++ i.text))) :
    ((l.handle e).describeIdentity i).Keeps k
      (fun info => ∃ a : Assignment, info = a.info i ∧ i.Valid ∧
        k.MayHold (l.space .assignment e ++ i.text) a)
      (fun _ => True) := by
  unfold describeIdentity
  refine Routine.Keeps.bind (keeps_findAssignment looked) fun found seen => ?_
  cases found with
  | some a => exact Routine.Keeps.pure ⟨a, rfl, seen a rfl⟩
  | none => exact Routine.Keeps.throw trivial

/-- The name of an identity's policy stands in its assignment. -/
theorem keeps_resolve {i : Identity}
    (looked : i.Valid → k.allows (.get (l.space .assignment e ++ i.text))) :
    ((l.handle e).resolve i).Keeps k
      (fun name => ∃ a : Assignment, name = a.policy ∧ i.Valid ∧
        k.MayHold (l.space .assignment e ++ i.text) a)
      (fun _ => True) := by
  unfold resolve
  refine Routine.Keeps.bind (keeps_findAssignment looked) fun found seen => ?_
  cases found with
  | some a => exact Routine.Keeps.pure ⟨a, rfl, seen a rfl⟩
  | none => exact Routine.Keeps.throw trivial

/-- The policy of an identity is the one that its assignment names. -/
theorem keeps_resolvePolicy {i : Identity}
    (looked : i.Valid → k.allows (.get (l.space .assignment e ++ i.text)))
    (read : ∀ a : Assignment, i.Valid → k.MayHold (l.space .assignment e ++ i.text) a →
      k.allows (.get (l.space .policy e ++ a.policy))) :
    ((l.handle e).resolvePolicy i).Keeps k
      (fun resolved => ∃ a : Assignment, i.Valid ∧
        k.MayHold (l.space .assignment e ++ i.text) a ∧ ValidName a.policy ∧
        k.MayHold (l.space .policy e ++ a.policy) resolved.2)
      (fun _ => True) := by
  unfold resolvePolicy
  refine Routine.Keeps.bind (keeps_resolve looked) fun name ⟨a, named, valid, held⟩ => ?_
  subst named
  refine Routine.Keeps.bind (keeps_getPolicy (read a valid held)) fun p ⟨ok, heldP⟩ => ?_
  exact Routine.Keeps.pure ⟨a, valid, held, ok, heldP⟩

/-- The search for those that have a policy looks at assignments only. -/
theorem keeps_identitiesWithPolicy {policy : String}
    (listed : k.allows (.list (l.space .assignment e ++ "*")))
    (looked : ∀ name, k.allows (.get (l.space .assignment e ++ name))) :
    ((l.handle e).identitiesWithPolicy policy).Keeps k (fun _ => True) (fun _ => True) := by
  have searched (names : List String) :
      ((l.handle e).withPolicy policy names).Keeps k (fun _ => True) (fun _ => True) := by
    induction names with
    | nil => exact Routine.Keeps.pure trivial
    | cons name names ih =>
        unfold withPolicy
        refine Routine.Keeps.bind (keeps_findAssignment fun _ => looked _) fun found _ => ?_
        refine Routine.Keeps.bind ih fun more _ => ?_
        cases found <;> exact Routine.Keeps.pure trivial
  unfold identitiesWithPolicy
  exact Routine.Keeps.bind (Cabinet.keeps_list listed) fun names _ => searched names

theorem keeps_hasPolicy {name : String}
    (looked : k.allows (.get (l.space .policy e ++ name))) :
    ((l.handle e).hasPolicy name).Keeps k
      (fun found => ValidName name ∧
        (found = true → ∃ p : Policy, k.MayHold (l.space .policy e ++ name) p))
      (fun _ => True) := by
  unfold hasPolicy
  refine Routine.Keeps.check (fun _ _ => trivial) fun _ passed => ?_
  refine Routine.Keeps.bind (Cabinet.keeps_find? looked) fun found seen => ?_
  refine Routine.Keeps.pure ⟨checkName_eq_ok_iff.1 passed, fun there => ?_⟩
  obtain ⟨p, rfl⟩ := Option.isSome_iff_exists.1 there
  exact ⟨p, seen⟩

/-- A policy is removed only if no assignment with it was found. -/
theorem keeps_deletePolicy {name : String}
    (looked : k.allows (.get (l.space .policy e ++ name)))
    (listed : k.allows (.list (l.space .assignment e ++ "*")))
    (searched : ∀ name, k.allows (.get (l.space .assignment e ++ name)))
    (removed : ValidName name → k.allows (.delete (l.space .policy e ++ name))) :
    ((l.handle e).deletePolicy name).Keeps k (fun _ => True) (fun _ => True) := by
  unfold deletePolicy
  refine Routine.Keeps.bind (keeps_hasPolicy looked) fun found ⟨valid, _⟩ => ?_
  split
  · refine Routine.Keeps.bind (keeps_identitiesWithPolicy listed searched) fun users _ => ?_
    split
    · exact Routine.Keeps.weaken (Cabinet.keeps_delete (removed valid)) (fun _ _ => trivial)
        fun _ => id
    · exact Routine.Keeps.throw trivial
  · exact Routine.Keeps.pure trivial

theorem keeps_assignPolicy {policy : String} {i creator : Identity}
    (looked : k.allows (.get (l.record e))) (timed : k.allows .time)
    (read : k.allows (.get (l.space .policy e ++ policy)))
    (removed : i.Valid → k.allows (.delete (l.space .assignment e ++ i.text)))
    (created : ∀ (g : Registration) (p : Policy) time, k.MayHold (l.record e) g → i.Valid →
      k.MayHold (l.space .policy e ++ policy) p →
      k.allows (.create (l.space .assignment e ++ i.text)
        (Record.encode (⟨policy, time, creator⟩ : Assignment)))) :
    ((l.handle e).assignPolicy policy i creator).Keeps k (fun _ => True) (fun _ => True) := by
  unfold assignPolicy
  split
  · exact Routine.Keeps.throw trivial
  · refine Routine.Keeps.check (fun _ _ => trivial) fun _ passed => ?_
    have valid := Identity.check_eq_ok_iff.1 passed
    refine Routine.Keeps.bind (keeps_ensureRegistered looked) fun _ ⟨g, registered⟩ => ?_
    refine Routine.Keeps.bind (keeps_getPolicy read) fun p ⟨_, held⟩ => ?_
    refine Routine.Keeps.bind (Routine.Keeps.time timed) fun time _ => ?_
    refine Routine.Keeps.bind
      (Cabinet.keeps_replace (removed valid) (created g p time registered valid held))
      fun _ _ => ?_
    exact Routine.Keeps.pure trivial

theorem keeps_unassign {i : Identity}
    (removed : i.Valid → k.allows (.delete (l.space .assignment e ++ i.text))) :
    ((l.handle e).unassign i).Keeps k (fun _ => True) (fun _ => True) := by
  unfold unassign
  split
  · exact Routine.Keeps.pure trivial
  · refine Routine.Keeps.check (fun _ _ => trivial) fun _ passed => ?_
    exact Routine.Keeps.weaken
      (Cabinet.keeps_delete (removed (Identity.check_eq_ok_iff.1 passed)))
      (fun _ _ => trivial) fun _ => id

end Enclave

end KeyCustody
