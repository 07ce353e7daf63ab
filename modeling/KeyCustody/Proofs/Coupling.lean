import KeyCustody.Proofs.Accesses
import KeyCustody.Proofs.Observers

/-!
# Coupled runs

Two runs of the same calls are compared step by step.  A *coupling* says when two worlds
correspond, and to which accesses of the first run this is limited.  Two programs *match* if from
worlds that correspond they end with related values, in worlds that correspond again
(`Program.Matches`).  The rules are those of `Routine.Keeps`, for two programs instead of one.

Every routine matches itself if the answers to single requests do (`Coupling.Sound`), and if
three tasks match that go through a listing (`Coupling.Whole`): two stores may list the same
names in different orders.  Main statements:

* `Enclave.matches_createKey`: two creations of a key match whatever the sealed values are, if
  the observer does not see them;
* `Enclave.matches_deletePolicy`, `Registry.matches_create`, `Registry.matches_delete`: what
  goes through a listing matches.
-/

namespace KeyCustody

/-- Worlds that correspond, and the accesses of the first one that are covered. -/
structure Coupling (σ τ : Type) where
  holds : World σ → World τ → Prop
  covers : Access → Prop

section Rules

variable {σ τ : Type} [Mishaps σ] [Mishaps τ] {K : Coupling σ τ} {α β γ δ : Type}

namespace Program

/-- From worlds that correspond, the programs end with related values, in worlds that
correspond, if all accesses of the first run are covered. -/
def Matches (K : Coupling σ τ) (rel : α → β → Prop) (p : Program α) (q : Program β) : Prop :=
  ∀ c w v, K.holds w v → (∀ a ∈ p.accesses c w, K.covers a.access) →
    rel (p.run c w).1 (q.run c v).1 ∧ K.holds (p.run c w).2 (q.run c v).2

variable {rel rel' : α → β → Prop} {p : Program α} {q : Program β}

theorem Matches.weaken (h : p.Matches K rel q) (weaker : ∀ a b, rel a b → rel' a b) :
    p.Matches K rel' q := by
  intro c w v hwv hcovered
  exact (h c w v hwv hcovered).imp_left (weaker _ _)

/-- Single requests match if they are answered alike. -/
theorem Matches.request {r r' : Request} {rel : r.Answer → r'.Answer → Prop}
    (h : ∀ c w v, K.holds w v → (∀ a ∈ w.accesses c r, K.covers a.access) →
      rel (w.answer c r).1 (v.answer c r').1 ∧ K.holds (w.answer c r).2 (v.answer c r').2) :
    (Program.request r).Matches K rel (Program.request r') := by
  intro c w v hwv hcovered
  exact h c w v hwv fun a ha => hcovered a (List.mem_append_left _ ha)

theorem Matches.pure {a : α} {b : β} (h : rel a b) :
    (Pure.pure a : Program α).Matches K rel (Pure.pure b : Program β) :=
  fun _ _ _ hwv _ => ⟨h, hwv⟩

/-- Two programs after two others. -/
theorem Matches.bind {rel' : γ → δ → Prop} {f : α → Program γ} {g : β → Program δ}
    (h : p.Matches K rel q) (rest : ∀ a b, rel a b → (f a).Matches K rel' (g b)) :
    (p >>= f).Matches K rel' (q >>= g) := by
  intro c w v hwv hcovered
  rw [accesses_bind] at hcovered
  obtain ⟨hrel, hwv'⟩ := h c w v hwv fun a ha => hcovered a (List.mem_append_left _ ha)
  rw [run_bind, run_bind]
  exact rest _ _ hrel c _ _ hwv' fun a ha => hcovered a (List.mem_append_right _ ha)

end Program

namespace Routine

/-- Two routines end with related values or with the same error. -/
def EndsAlike (rel : α → β → Prop) : Except Error α → Except Error β → Prop
  | .ok x, .ok y => rel x y
  | .error e, .error e' => e = e'
  | _, _ => False

/-- The routines match, with the same errors. -/
def Matches (K : Coupling σ τ) (rel : α → β → Prop) (a : Routine α) (b : Routine β) : Prop :=
  a.attempt.Matches K (EndsAlike rel) b.attempt

theorem EndsAlike.eq {r r' : Except Error α} (h : EndsAlike Eq r r') : r = r' := by
  cases r <;> cases r' <;> first
    | exact congrArg _ h
    | cases h

theorem EndsAlike.of_eq {r r' : Except Error α} (h : r = r') : EndsAlike Eq r r' := by
  cases h
  cases r <;> rfl

/-- What is found or not, told as a value or an error. -/
theorem EndsAlike.of_found {rel rel' : α → β → Prop} {x : Option α} {y : Option β}
    (h : Option.Rel rel x y) (weaker : ∀ a b, rel a b → rel' a b) (e : Error) :
    EndsAlike rel' (x.elim (.error e) .ok) (y.elim (.error e) .ok) := by
  cases h with
  | none => exact rfl
  | some hab => exact weaker _ _ hab

theorem EndsAlike.alike {o : Observer} [Observed α] {r r' : Except Error α}
    (h : EndsAlike o.Alike r r') : o.Alike r r' := by
  cases r with
  | ok x =>
      cases r' with
      | ok y => exact congrArg Except.ok h
      | error e => exact absurd h id
  | error e =>
      cases r' with
      | ok y => exact absurd h id
      | error e' => exact congrArg (fun e => Observed.sees o (Except.error e : Except Error α)) h

theorem EndsAlike.errorOf {rel : α → β → Prop} {r : Except Error α} {r' : Except Error β}
    (h : EndsAlike rel r r') : errorOf r = KeyCustody.errorOf r' := by
  cases r <;> cases r' <;> first
    | exact congrArg _ h
    | cases h
    | rfl

/-- Values that nobody looks at make no difference. -/
theorem EndsAlike.forget {rel : α → β → Prop} {r : Except Error α} {r' : Except Error β}
    (h : EndsAlike rel r r') : (r.map fun _ => ()) = r'.map fun _ => () := by
  cases r <;> cases r' <;> first
    | exact congrArg _ h
    | cases h
    | rfl

variable {rel : α → β → Prop} {rel' : γ → δ → Prop} {a : Routine α} {b : Routine β}
  {f : α → Routine γ} {g : β → Routine δ}

theorem Matches.weaken {rel'' : α → β → Prop} (h : a.Matches K rel b)
    (weaker : ∀ x y, rel x y → rel'' x y) : a.Matches K rel'' b := by
  refine Program.Matches.weaken h fun r r' hr => ?_
  cases r <;> cases r' <;> first
    | exact weaker _ _ hr
    | exact hr

theorem Matches.pure {x : α} {y : β} (h : rel x y) :
    (Pure.pure x : Routine α).Matches K rel (Pure.pure y : Routine β) :=
  fun _ _ _ hwv _ => ⟨h, hwv⟩

theorem Matches.throw (e : Error) :
    (MonadExcept.throw e : Routine α).Matches K rel (MonadExcept.throw e : Routine β) :=
  fun _ _ _ hwv _ => ⟨rfl, hwv⟩

/-- Two routines after two others; an error skips them. -/
theorem Matches.bind (h : a.Matches K rel b) (rest : ∀ x y, rel x y → (f x).Matches K rel' (g y)) :
    (a >>= f).Matches K rel' (b >>= g) := by
  refine Program.Matches.bind h fun r r' hr => ?_
  cases r with
  | ok x =>
      cases r' with
      | ok y => exact rest x y hr
      | error e => cases hr
  | error e =>
      cases r' with
      | ok y => cases hr
      | error e' => exact fun _ _ _ hwv _ => ⟨hr, hwv⟩

/-- Two routines whose values or errors are looked at. -/
theorem Matches.handle {f : Except Error α → Routine γ} {g : Except Error β → Routine δ}
    (h : a.Matches K rel b) (onValue : ∀ x y, rel x y → (f (.ok x)).Matches K rel' (g (.ok y)))
    (onError : ∀ e, (f (.error e)).Matches K rel' (g (.error e))) :
    (a.handle f).Matches K rel' (b.handle g) := by
  refine Program.Matches.bind h fun r r' hr => ?_
  cases r with
  | ok x =>
      cases r' with
      | ok y => exact onValue x y hr
      | error e => cases hr
  | error e =>
      cases r' with
      | ok y => cases hr
      | error e' => exact hr ▸ onError e

/-- What is computed without asking. -/
theorem Matches.ofExcept {r : Except Error α} {r' : Except Error β} (h : EndsAlike rel r r') :
    (Routine.ofExcept r).Matches K rel (Routine.ofExcept r') :=
  fun _ _ _ hwv _ => ⟨h, hwv⟩

/-- Errors told differently. -/
theorem Matches.mapError {t : Error → Error} (h : a.Matches K rel b) :
    (a.mapError t).Matches K rel (b.mapError t) :=
  h.handle (fun _ _ hxy => Matches.ofExcept hxy) fun _ => Matches.ofExcept rfl

/-- The same check in front of two routines. -/
theorem Matches.check {r : Except Error α} {f : α → Routine γ} {g : α → Routine δ}
    (rest : ∀ x, r = .ok x → (f x).Matches K rel' (g x)) :
    (Routine.ofExcept r >>= f).Matches K rel' (Routine.ofExcept r >>= g) := by
  cases r with
  | ok x => exact rest x rfl
  | error e => exact Matches.throw e

/-- Programs that cannot fail. -/
theorem Matches.lift {p : Program α} {q : Program β} (h : p.Matches K rel q) :
    Routine.Matches K rel (ExceptT.lift p) (ExceptT.lift q) :=
  Program.Matches.bind h fun _ _ hxy => Matches.pure hxy

/-- Values told differently. -/
theorem Matches.map {f : α → γ} {g : β → δ} (h : a.Matches K rel b)
    (told : ∀ x y, rel x y → rel' (f x) (g y)) :
    (a >>= fun x => Pure.pure (f x)).Matches K rel' (b >>= fun y => Pure.pure (g y)) :=
  h.bind fun x y hxy => Matches.pure (told x y hxy)

end Routine

end Rules

/-! ### What couplings keep to -/

/-- The requests of related programs are answered alike.  Names are never empty. -/
structure Coupling.Sound {σ τ : Type} [Mishaps σ] [Mishaps τ] (K : Coupling σ τ) (o : Observer)
    (l : Layout) : Prop where
  time : Routine.time.Matches K o.Alike Routine.time
  eventId : (Program.request .eventId).Matches K Eq (Program.request .eventId)
  emit : ∀ event event', o.Alike event event' →
    (Program.request (.emit event)).Matches K (fun _ _ => True) (Program.request (.emit event'))
  status : Routine.status.Matches K Eq Routine.status
  create : ∀ name v v', o.Written l name v v' →
    (Routine.create name v).Matches K Eq (Routine.create name v')
  get : ∀ name, name ≠ "" → (Routine.get name).Matches K (o.Stored l name) (Routine.get name)
  delete : ∀ name, name ≠ "" → (Routine.delete name).Matches K Eq (Routine.delete name)

/-- What goes through a listing comes out alike too, and worlds that correspond show the same
time and tokens. -/
structure Coupling.Whole {σ τ : Type} [Mishaps σ] [Mishaps τ] (K : Coupling σ τ) (o : Observer)
    (l : Layout) : Prop extends Coupling.Sound K o l where
  list : ∀ space pattern, ((View.under space .whole).list pattern).Matches K List.Perm
    ((View.under space .whole).list pattern)
  users : ∀ e policy, ValidEnclaveName e →
    ((l.handle e).identitiesWithPolicy policy).Matches K (fun a b => a.length = b.length)
      ((l.handle e).identitiesWithPolicy policy)
  purge : ∀ kind e, ValidEnclaveName e →
    (View.under (l.space kind e) .whole).purge.Matches K Eq
      (View.under (l.space kind e) .whole).purge
  surroundings : ∀ w v, K.holds w v → v.tokens = w.tokens ∧ v.now = w.now
  shift : ∀ w v tokens now, K.holds w v →
    K.holds { w with tokens := tokens, now := now } { v with tokens := tokens, now := now }

section Routines

variable {σ τ : Type} [Mishaps σ] [Mishaps τ] {K : Coupling σ τ} {o : Observer} {l : Layout}

open Routine (Matches)

/-! ### Views and cabinets -/

/-- A name behind a namespace is not empty. -/
theorem append_ne_of_requireKey {space name : String} (h : requireKey name = .ok ()) :
    space ++ name ≠ "" := by
  intro hempty
  have hname : name = "" := by
    have hchars := congrArg String.toList hempty
    rw [String.toList_append] at hchars
    exact String.toList_inj.1 (List.append_eq_nil_iff.1 hchars).2
  rw [hname] at h
  cases h

namespace View

variable {space name : String}

theorem matches_get (hK : K.Sound o l) :
    ((View.under space .whole).get name).Matches K (o.Stored l (space ++ name))
      ((View.under space .whole).get name) := by
  unfold View.get
  apply Matches.check
  intro _ hkey
  exact Matches.mapError (hK.get _ (append_ne_of_requireKey hkey))

theorem matches_create {v v' : Bytes} (hK : K.Sound o l)
    (hwritten : o.Written l (space ++ name) v v') :
    ((View.under space .whole).create name v).Matches K Eq
      ((View.under space .whole).create name v') := by
  unfold View.create
  apply Matches.check
  intro _ _
  exact Matches.mapError (hK.create _ v v' hwritten)

theorem matches_delete (hK : K.Sound o l) :
    ((View.under space .whole).delete name).Matches K Eq
      ((View.under space .whole).delete name) := by
  unfold View.delete
  apply Matches.check
  intro _ hkey
  exact hK.delete _ (append_ne_of_requireKey hkey)

/-- The same names are removed in the same order. -/
theorem matches_deleteAll (hK : K.Sound o l) (names : List String) :
    ((View.under space .whole).deleteAll names).Matches K Eq
      ((View.under space .whole).deleteAll names) := by
  induction names with
  | nil => exact Program.Matches.pure rfl
  | cons name names ih =>
      unfold deleteAll
      apply Program.Matches.bind (matches_delete hK)
      rintro r r' hr
      obtain rfl := hr.eq
      apply Program.Matches.bind ih
      rintro more _ rfl
      exact Program.Matches.pure rfl

end View

namespace Cabinet

variable {α : Type} [Record α] [Observed α] {space name : String}

omit [Observed α] in
theorem matches_create {a b : α} (hK : K.Sound o l)
    (hwritten : o.Written l (space ++ name) (Record.encode a) (Record.encode b)) :
    ((under space : Cabinet α).create name a).Matches K Eq
      ((under space : Cabinet α).create name b) :=
  View.matches_create hK hwritten

theorem matches_get (hK : K.Sound o l) (hreads : o.Reads l space α) :
    ((under space : Cabinet α).get name).Matches K o.Alike
      ((under space : Cabinet α).get name) := by
  unfold get
  apply Matches.bind (View.matches_get hK)
  intro v v' hstored
  have hdecoded := hreads name v v' hstored
  generalize (Record.decode? v : Option α) = a at hdecoded
  generalize (Record.decode? v' : Option α) = b at hdecoded
  cases hdecoded with
  | some hab => exact Matches.pure hab
  | none => exact Matches.throw _

theorem matches_find? (hK : K.Sound o l) (hreads : o.Reads l space α) :
    ((under space : Cabinet α).find? name).Matches K (Option.Rel o.Alike)
      ((under space : Cabinet α).find? name) := by
  unfold find?
  apply Matches.handle (matches_get hK hreads)
  · exact fun a b hab => Matches.pure (.some hab)
  · intro e
    cases e <;> first
      | exact Matches.pure .none
      | exact Matches.throw _

theorem matches_getNamed (hK : K.Sound o l) (hreads : o.Reads l space α) (kind : String) :
    ((under space : Cabinet α).getNamed kind name).Matches K o.Alike
      ((under space : Cabinet α).getNamed kind name) := by
  unfold getNamed
  apply Matches.check
  intro _ _
  exact Matches.mapError (matches_get hK hreads)

theorem matches_replaceValue {v v' : Bytes} (hK : K.Sound o l)
    (hwritten : o.Written l (space ++ name) v v') (n : Nat) :
    (replaceValue (.under space .whole) name v n).Matches K Eq
      (replaceValue (.under space .whole) name v' n) := by
  induction n with
  | zero => exact Matches.throw _
  | succ n ih =>
      unfold replaceValue
      apply Matches.bind (View.matches_delete hK)
      intro _ _ _
      apply Matches.handle (View.matches_create hK hwritten)
      · exact fun _ _ hu => Matches.ofExcept hu
      · intro e
        cases e <;> first
          | exact ih
          | exact Matches.ofExcept rfl

omit [Observed α] in
theorem matches_replace {a b : α} (hK : K.Sound o l)
    (hwritten : o.Written l (space ++ name) (Record.encode a) (Record.encode b)) :
    ((under space : Cabinet α).replace name a).Matches K Eq
      ((under space : Cabinet α).replace name b) :=
  matches_replaceValue hK hwritten attempts

end Cabinet

/-! ### Enclaves -/

namespace Enclave

variable {e name : String}

theorem matches_ensureRegistered (hK : K.Sound o l) (e : String) :
    (l.handle e).ensureRegistered.Matches K Eq (l.handle e).ensureRegistered := by
  unfold ensureRegistered
  apply Matches.bind (Cabinet.matches_find? hK Observer.reads_registry)
  intro found found' hfound
  cases hfound with
  | some _ => exact Matches.pure rfl
  | none => exact Matches.throw _

/-- A new key is told alike whatever its value. -/
theorem matches_createKey {value value' : Bytes} (hK : K.Sound o l) (he : ValidEnclaveName e)
    (hvalue : Observed.seesValue o value = Observed.seesValue o value') (creator : Identity) :
    ((l.handle e).createKey name value creator).Matches K o.Alike
      ((l.handle e).createKey name value' creator) := by
  unfold createKey
  apply Matches.bind (matches_ensureRegistered hK e)
  intro _ _ _
  apply Matches.check
  intro _ hchecked
  apply Matches.bind hK.time
  intro time time' htime
  have halike : o.Alike (⟨value, time, creator⟩ : SealedKey) ⟨value', time', creator⟩ :=
    SealedKey.alike_iff.2 ⟨hvalue, htime, rfl⟩
  have hwritten : RecordKind.key.Written o name
      (Record.encode (⟨value, time, creator⟩ : SealedKey))
      (Record.encode (⟨value', time', creator⟩ : SealedKey)) :=
    ⟨checkName_eq_ok_iff.1 hchecked, _, _, rfl, rfl, halike⟩
  apply Matches.bind (Cabinet.matches_create hK (.owned he hwritten))
  intro _ _ _
  exact Matches.pure (SealedKey.alike_info halike name)

theorem matches_getKey (hK : K.Sound o l) (he : ValidEnclaveName e) :
    ((l.handle e).getKey name).Matches K o.Alike ((l.handle e).getKey name) :=
  Cabinet.matches_getNamed hK (Observer.reads_keys he) "key"

theorem matches_describeKey (hK : K.Sound o l) (he : ValidEnclaveName e) :
    ((l.handle e).describeKey name).Matches K o.Alike ((l.handle e).describeKey name) :=
  Matches.map (matches_getKey hK he) fun _ _ h => SealedKey.alike_info h name

theorem matches_deleteKey (hK : K.Sound o l) :
    ((l.handle e).deleteKey name).Matches K Eq ((l.handle e).deleteKey name) := by
  unfold deleteKey
  apply Matches.check
  intro _ _
  exact View.matches_delete hK

theorem matches_setPolicy (hK : K.Sound o l) (he : ValidEnclaveName e) (policy : Policy)
    (creator : Identity) :
    ((l.handle e).setPolicy name policy creator).Matches K o.Alike
      ((l.handle e).setPolicy name policy creator) := by
  unfold setPolicy
  apply Matches.bind (matches_ensureRegistered hK e)
  intro _ _ _
  apply Matches.check
  intro _ hchecked
  apply Matches.check
  intro _ _
  apply Matches.bind hK.time
  intro time time' htime
  have halike : o.Alike (storedPolicy policy time creator) (storedPolicy policy time' creator) :=
    congrArg (fun t : Timestamp => storedPolicy policy t creator) htime
  have hwritten : RecordKind.policy.Written o name
      (Record.encode (storedPolicy policy time creator))
      (Record.encode (storedPolicy policy time' creator)) :=
    ⟨checkName_eq_ok_iff.1 hchecked, _, _, rfl, rfl, halike⟩
  apply Matches.bind (Cabinet.matches_replace hK (.owned he hwritten))
  intro _ _ _
  exact Matches.pure (Policy.alike_info halike name)

theorem matches_getPolicy (hK : K.Sound o l) (he : ValidEnclaveName e) :
    ((l.handle e).getPolicy name).Matches K o.Alike ((l.handle e).getPolicy name) :=
  Cabinet.matches_getNamed hK (Observer.reads_policies he) "policy"

theorem matches_describePolicy (hK : K.Sound o l) (he : ValidEnclaveName e) :
    ((l.handle e).describePolicy name).Matches K o.Alike ((l.handle e).describePolicy name) :=
  Matches.map (matches_getPolicy hK he) fun _ _ h => Policy.alike_info h name

theorem matches_hasPolicy (hK : K.Sound o l) (he : ValidEnclaveName e) :
    ((l.handle e).hasPolicy name).Matches K Eq ((l.handle e).hasPolicy name) := by
  unfold hasPolicy
  apply Matches.check
  intro _ _
  apply Matches.map (Cabinet.matches_find? hK (Observer.reads_policies he))
  intro found found' hfound
  cases hfound <;> rfl

theorem matches_findAssignment (hK : K.Sound o l) (he : ValidEnclaveName e) (i : Identity) :
    ((l.handle e).findAssignment i).Matches K (Option.Rel o.Alike)
      ((l.handle e).findAssignment i) := by
  unfold findAssignment
  split
  · exact Matches.pure .none
  · apply Matches.check
    intro _ _
    exact Cabinet.matches_find? hK (Observer.reads_assignments he)

/-- Among the same names, in the same order, the same identities have the policy. -/
theorem matches_withPolicy (hK : K.Sound o l) (he : ValidEnclaveName e) (policy : String)
    (names : List String) :
    ((l.handle e).withPolicy policy names).Matches K Eq
      ((l.handle e).withPolicy policy names) := by
  induction names with
  | nil => exact Matches.pure rfl
  | cons name names ih =>
      unfold withPolicy
      apply Matches.bind (matches_findAssignment hK he _)
      intro found found' hfound
      apply Matches.bind ih
      rintro more _ rfl
      cases hfound with
      | none => exact Matches.pure rfl
      | some hab =>
          apply Matches.pure
          rw [Assignment.policy_of_alike hab]

theorem matches_deletePolicy (hK : K.Whole o l) (he : ValidEnclaveName e) :
    ((l.handle e).deletePolicy name).Matches K Eq ((l.handle e).deletePolicy name) := by
  unfold deletePolicy
  apply Matches.bind (matches_hasPolicy hK.toSound he)
  rintro found _ rfl
  split
  · apply Matches.bind (hK.users e name he)
    intro users users' hlength
    have hempty : users.isEmpty = users'.isEmpty := by
      cases users <;> cases users' <;> first
        | rfl
        | cases hlength
    rw [hempty, hlength]
    split
    · exact View.matches_delete hK.toSound
    · exact Matches.throw _
  · exact Matches.pure rfl

theorem matches_assignPolicy (hK : K.Sound o l) (he : ValidEnclaveName e) (policy : String)
    (i creator : Identity) :
    ((l.handle e).assignPolicy policy i creator).Matches K o.Alike
      ((l.handle e).assignPolicy policy i creator) := by
  unfold assignPolicy
  split
  · exact Matches.throw _
  apply Matches.check
  intro _ hchecked
  apply Matches.bind (matches_ensureRegistered hK e)
  intro _ _ _
  apply Matches.bind (matches_getPolicy hK he)
  intro _ _ _
  apply Matches.bind hK.time
  intro time time' htime
  have halike : o.Alike (⟨policy, time, creator⟩ : Assignment) ⟨policy, time', creator⟩ :=
    congrArg (fun t : Timestamp => (⟨policy, t, creator⟩ : Assignment)) htime
  have hwritten : RecordKind.assignment.Written o i.text
      (Record.encode (⟨policy, time, creator⟩ : Assignment))
      (Record.encode (⟨policy, time', creator⟩ : Assignment)) :=
    ⟨⟨i, rfl, Identity.check_eq_ok_iff.1 hchecked⟩, _, _, rfl, rfl, halike⟩
  apply Matches.bind (Cabinet.matches_replace hK (.owned he hwritten))
  intro _ _ _
  exact Matches.pure (Assignment.alike_info halike i)

theorem matches_resolvePolicy (hK : K.Sound o l) (he : ValidEnclaveName e) (i : Identity) :
    ((l.handle e).resolvePolicy i).Matches K (fun x y => x.1 = y.1 ∧ o.Alike x.2 y.2)
      ((l.handle e).resolvePolicy i) := by
  have hresolved : ((l.handle e).resolve i).Matches K Eq ((l.handle e).resolve i) := by
    unfold resolve
    apply Matches.bind (matches_findAssignment hK he i)
    intro found found' hfound
    cases hfound with
    | none => exact Matches.throw _
    | some hab => exact Matches.pure (Assignment.policy_of_alike hab)
  unfold resolvePolicy
  apply Matches.bind hresolved
  rintro name _ rfl
  exact Matches.map (matches_getPolicy hK he) fun _ _ h => ⟨rfl, h⟩

theorem matches_describeIdentity (hK : K.Sound o l) (he : ValidEnclaveName e) (i : Identity) :
    ((l.handle e).describeIdentity i).Matches K o.Alike ((l.handle e).describeIdentity i) := by
  unfold describeIdentity
  apply Matches.bind (matches_findAssignment hK he i)
  intro found found' hfound
  cases hfound with
  | none => exact Matches.throw _
  | some hab => exact Matches.pure (Assignment.alike_info hab i)

theorem matches_unassign (hK : K.Sound o l) (i : Identity) :
    ((l.handle e).unassign i).Matches K Eq ((l.handle e).unassign i) := by
  unfold unassign
  split
  · exact Matches.pure rfl
  · apply Matches.check
    intro _ _
    exact View.matches_delete hK

end Enclave

/-! ### The registry -/

namespace Registry

variable {m : String}

theorem matches_purgeSpaces (hK : K.Whole o l) (he : ValidEnclaveName m) {spaces : List String}
    (hspaces : ∀ space ∈ spaces, ∃ kind, space = l.space kind m) (earlier : Option Error) :
    (purgeSpaces earlier spaces).Matches K Eq (purgeSpaces earlier spaces) := by
  induction spaces generalizing earlier with
  | nil => exact Matches.pure rfl
  | cons space spaces ih =>
      obtain ⟨kind, rfl⟩ := hspaces space List.mem_cons_self
      unfold purgeSpaces
      apply Matches.check
      intro view hentered
      obtain ⟨-, rfl⟩ := View.enter_eq_ok_iff.1 hentered
      apply Matches.bind (Matches.lift (hK.purge kind m he))
      rintro failure _ rfl
      exact ih (fun s hs => hspaces s (List.mem_cons_of_mem _ hs)) _

theorem matches_purge (hK : K.Whole o l) (he : ValidEnclaveName m) :
    (l.catalog.purge m).Matches K Eq (l.catalog.purge m) := by
  have hspaces : ∀ space ∈ [l.keys m, l.policies m, l.identities m],
      ∃ kind, space = l.space kind m := by
    intro space hs
    simp only [List.mem_cons, List.not_mem_nil, or_false] at hs
    rcases hs with rfl | rfl | rfl
    · exact ⟨.key, rfl⟩
    · exact ⟨.policy, rfl⟩
    · exact ⟨.assignment, rfl⟩
  unfold purge
  apply Matches.bind (matches_purgeSpaces hK he hspaces none)
  rintro failure _ rfl
  cases failure with
  | some e => exact Matches.throw e
  | none => exact Matches.pure rfl

theorem matches_create (hK : K.Whole o l) (creator : Identity) :
    (l.catalog.create m creator).Matches K o.Alike (l.catalog.create m creator) := by
  unfold create
  apply Matches.check
  intro _ hchecked
  have he := checkEnclaveName_eq_ok_iff.1 hchecked
  apply Matches.bind (Cabinet.matches_find? hK.toSound Observer.reads_registry)
  intro found found' hfound
  cases hfound with
  | some _ => exact Matches.throw _
  | none =>
      apply Matches.bind (matches_purge hK he)
      intro _ _ _
      apply Matches.bind hK.time
      intro time time' htime
      have halike : o.Alike (⟨time, creator⟩ : Registration) ⟨time', creator⟩ :=
        congrArg (fun t : Timestamp => (⟨t, creator⟩ : Registration)) htime
      apply Matches.bind (Matches.mapError (Cabinet.matches_create hK.toSound
        (.registration ⟨_, _, rfl, rfl, halike⟩)))
      intro _ _ _
      exact Matches.pure (Registration.alike_info halike m)

theorem matches_describe (hK : K.Sound o l) :
    (l.catalog.describe m).Matches K o.Alike (l.catalog.describe m) := by
  unfold describe
  apply Matches.check
  intro _ _
  apply Matches.bind (Cabinet.matches_find? hK Observer.reads_registry)
  intro found found' hfound
  cases hfound with
  | some hab => exact Matches.pure (Registration.alike_info hab m)
  | none => exact Matches.throw _

theorem matches_ensure (hK : K.Whole o l) (creator : Identity) :
    (l.catalog.ensure m creator).Matches K o.Alike (l.catalog.ensure m creator) := by
  unfold ensure
  apply Matches.handle (matches_create hK creator)
  · exact fun _ _ h => Matches.ofExcept h
  · intro e
    cases e <;> first
      | exact matches_describe hK.toSound
      | exact Matches.ofExcept rfl

theorem matches_delete (hK : K.Whole o l) :
    (l.catalog.delete m).Matches K Eq (l.catalog.delete m) := by
  cases hchecked : checkEnclaveName m with
  | error e =>
      have hrefused : l.catalog.delete m = throw e := by
        unfold delete describe
        rw [hchecked]
        rfl
      rw [hrefused]
      exact Matches.throw e
  | ok _ =>
      unfold delete
      apply Matches.bind (matches_describe hK.toSound)
      intro _ _ _
      apply Matches.bind (matches_purge hK (checkEnclaveName_eq_ok_iff.1 hchecked))
      intro _ _ _
      exact View.matches_delete hK.toSound

end Registry

/-! ### Listings in one order -/

/-- A sound coupling is whole if listings give the same names in the same order. -/
theorem Coupling.Sound.whole (hK : K.Sound o l)
    (hlist : ∀ pattern, (Routine.list pattern).Matches K Eq (Routine.list pattern))
    (surroundings : ∀ w v, K.holds w v → v.tokens = w.tokens ∧ v.now = w.now)
    (shift : ∀ w v tokens now, K.holds w v →
      K.holds { w with tokens := tokens, now := now } { v with tokens := tokens, now := now }) :
    K.Whole o l := by
  have hview (space pattern : String) : ((View.under space .whole).list pattern).Matches K Eq
      ((View.under space .whole).list pattern) :=
    Matches.map (hlist _) fun _ _ h => congrArg _ h
  refine ⟨hK, fun space pattern => ?_, fun e policy he => ?_, fun kind e _ => ?_, surroundings,
    shift⟩
  · exact Matches.weaken (hview space pattern) fun _ _ h => h ▸ .refl _
  · unfold Enclave.identitiesWithPolicy
    apply Matches.bind (hview _ "*")
    rintro names _ rfl
    exact Matches.weaken (Enclave.matches_withPolicy hK he policy names) fun _ _ h =>
      congrArg List.length h
  · unfold View.purge
    apply Program.Matches.bind (hview _ "*")
    intro r r' hr
    obtain rfl := hr.eq
    cases r with
    | ok names => exact View.matches_deleteAll hK names
    | error e => exact Program.Matches.pure rfl

end Routines

end KeyCustody
