import KeyCustody.Proofs.Accesses
import KeyCustody.Proofs.Authorization
import KeyCustody.Proofs.WellFormed

/-!
# Failures that surface

No failure of the store is swallowed: a call fails with the error of the first access that failed,
whatever comes after it.  Only two findings are no failures, that a name to look up is missing and
that a name to create is taken; what a call makes of these is its business.

What carries this is that no failure looks like such a finding.  If only faults are injected, then
a failure never says that a name is taken or that an identity has no policy, and the failure of a
look-up does not say either that something is missing.  So whoever tells such findings
differently, or goes on after them, lets failures through.  Main statements:

* `Routine.Surfaces` with one rule for each way of building a routine;
* `View.run_deleteAll`: a loop that goes on after failures keeps the first one;
* `Service.failures_surface`: the calls.
-/

namespace KeyCustody

open Error (isPlain isPlainLookup)

variable {w : World (Nat → Mishap)} {c : Context} {e : Error}

/-- The failures of a program are plain. -/
theorem Program.isPlain_of_accesses {α : Type} (h : w.OnlyFaults) (p : Program α)
    (hfailed : Attempt.first? (p.accesses c w) = some e) : e.isPlain = true := by
  induction p generalizing w with
  | done a => cases hfailed
  | ask r next ih =>
      change Attempt.first? (_ ++ _) = _ at hfailed
      rw [Attempt.first?_append] at hfailed
      cases hhere : Attempt.first? (w.accesses c r) with
      | some e' =>
          rw [hhere] at hfailed
          obtain rfl : e' = e := Option.some.inj hfailed
          exact (h.answer_of_accesses hhere).2.1
      | none =>
          rw [hhere] at hfailed
          exact ih _ (h.answer c r) hfailed

namespace Routine

variable {α β : Type} {kind : Error → Bool}

/-- The routine fails with the first failure of its accesses, which is of the kind. -/
def Surfaces (kind : Error → Bool) (a : Routine α) : Prop :=
  ∀ (c : Context) (w : World (Nat → Mishap)) (e : Error), w.OnlyFaults →
    Attempt.first? (a.attempt.accesses c w) = some e →
      (a.attempt.run c w).1 = .error e ∧ kind e = true

namespace Surfaces

/-- A routine that ends at once makes no accesses. -/
theorem ofExcept (r : Except Error α) : (Routine.ofExcept r).Surfaces kind := by
  intro c w e _ hfailed
  cases hfailed

theorem pure (x : α) : (Pure.pure x : Routine α).Surfaces kind :=
  ofExcept (.ok x)

theorem throw (e : Error) : (MonadExcept.throw e : Routine α).Surfaces kind :=
  ofExcept (.error e)

/-- A look at the clock is no access. -/
theorem time : Routine.time.Surfaces kind := by
  intro c w e _ hfailed
  cases hfailed

/-- The failures of every routine are plain. -/
theorem plain {a : Routine α} (h : a.Surfaces kind) : a.Surfaces isPlain := by
  intro c w e hfaults hfailed
  exact ⟨(h c w e hfaults hfailed).1, Program.isPlain_of_accesses hfaults _ hfailed⟩

/-- One routine after the other. -/
theorem bind {a : Routine α} {f : α → Routine β} (ha : a.Surfaces kind)
    (hf : ∀ x, (f x).Surfaces kind) : (a >>= f).Surfaces kind := by
  intro c w e hfaults hfailed
  rw [accesses_bind, Attempt.first?_append] at hfailed
  rw [run_bind]
  cases hfirst : Attempt.first? (a.attempt.accesses c w) with
  | some e' =>
      rw [hfirst] at hfailed
      obtain rfl : e' = e := Option.some.inj hfailed
      obtain ⟨hrun, hkind⟩ := ha c w e' hfaults hfirst
      rw [hrun]
      exact ⟨rfl, hkind⟩
  | none =>
      rw [hfirst, Option.none_or] at hfailed
      cases hrun : (a.attempt.run c w).1 with
      | error e' =>
          rw [hrun] at hfailed
          cases hfailed
      | ok x =>
          rw [hrun] at hfailed
          exact hf x c _ e (hfaults.run c _) hfailed

/-- A routine whose value or error is looked at, if failures are let through. -/
theorem handle {a : Routine α} {f : Except Error α → Routine β} (ha : a.Surfaces kind)
    (hpasses : ∀ e, kind e = true → f (.error e) = MonadExcept.throw e)
    (hf : ∀ r, (f r).Surfaces kind) : (a.handle f).Surfaces kind := by
  intro c w e hfaults hfailed
  change Attempt.first? ((a.attempt >>= fun r => (f r).attempt).accesses c w) = _ at hfailed
  rw [Program.accesses_bind, Attempt.first?_append] at hfailed
  rw [run_handle]
  cases hfirst : Attempt.first? (a.attempt.accesses c w) with
  | some e' =>
      rw [hfirst] at hfailed
      obtain rfl : e' = e := Option.some.inj hfailed
      obtain ⟨hrun, hkind⟩ := ha c w e' hfaults hfirst
      rw [hrun, hpasses e' hkind]
      exact ⟨rfl, hkind⟩
  | none =>
      rw [hfirst, Option.none_or] at hfailed
      exact hf _ c _ e (hfaults.run c _) hfailed

/-- Errors told differently, but not failures. -/
theorem mapError {a : Routine α} {f : Error → Error} (ha : a.Surfaces kind)
    (hpasses : ∀ e, kind e = true → f e = e) : (a.mapError f).Surfaces kind := by
  apply ha.handle
  · intro e hkind
    change Routine.ofExcept (.error (f e)) = _
    rw [hpasses e hkind]
    rfl
  · intro r
    exact ofExcept _

/-- A value that is told differently. -/
theorem map {a : Routine α} {f : α → β} (ha : a.Surfaces kind) :
    (a >>= fun x => Pure.pure (f x)).Surfaces kind :=
  ha.bind fun x => pure (f x)

end Surfaces

/-- What a request tells is the first failure among its accesses, if there is one. -/
theorem surfaces_of_request {r : Request} {a : Routine α} {kind : Error → Bool}
    (haccesses : ∀ c (w : World (Nat → Mishap)), a.attempt.accesses c w = w.accesses c r ++ [])
    (hrun : ∀ c (w : World (Nat → Mishap)) e,
      r.errorIn? (w.answer c r).1 = some e → (a.attempt.run c w).1 = .error e)
    (hkind : ∀ e, e.isPlain = true → (∀ name, r = .get name → e.isPlainLookup = true) →
      kind e = true) : a.Surfaces kind := by
  intro c w e hfaults hfailed
  rw [haccesses, List.append_nil] at hfailed
  obtain ⟨hanswer, hplain, hlookup⟩ := hfaults.answer_of_accesses hfailed
  exact ⟨hrun c w e hanswer, hkind e hplain hlookup⟩

theorem eq_error_of_errorOf {x : Except Error α} {e : Error} (h : errorOf x = some e) :
    x = .error e := by
  cases x <;> cases h
  rfl

theorem surfaces_get (name : String) : (Routine.get name).Surfaces isPlainLookup :=
  surfaces_of_request (r := .get name) (fun _ _ => rfl) (fun _ _ _ => eq_error_of_errorOf)
    fun _ _ hlookup => hlookup name rfl

theorem surfaces_create (name : String) (value : Bytes) :
    (Routine.create name value).Surfaces isPlain :=
  surfaces_of_request (r := .create name value) (fun _ _ => rfl)
    (fun _ _ _ => eq_error_of_errorOf) fun _ hplain _ => hplain

theorem surfaces_delete (name : String) : (Routine.delete name).Surfaces isPlain :=
  surfaces_of_request (r := .delete name) (fun _ _ => rfl) (fun _ _ _ => eq_error_of_errorOf)
    fun _ hplain _ => hplain

theorem surfaces_list (pattern : String) : (Routine.list pattern).Surfaces isPlain :=
  surfaces_of_request (r := .list pattern) (fun _ _ => rfl) (fun _ _ _ => eq_error_of_errorOf)
    fun _ hplain _ => hplain

theorem surfaces_status : Routine.status.Surfaces isPlain :=
  surfaces_of_request (r := .status) (fun _ _ => rfl) (fun _ _ _ => eq_error_of_errorOf)
    fun _ hplain _ => hplain

end Routine

/-! ### Views and cabinets -/

namespace View

open Routine (Surfaces)

theorem surfaces_get (v : View) (name : String) : (v.get name).Surfaces isPlainLookup := by
  induction v generalizing name with
  | whole => exact Routine.surfaces_get name
  | under space inner ih =>
      apply Surfaces.bind (Surfaces.ofExcept _)
      intro _
      apply Surfaces.mapError (ih (space ++ name))
      intro e hlookup
      cases e <;> first | rfl | cases hlookup

theorem surfaces_create (v : View) (name : String) (value : Bytes) :
    (v.create name value).Surfaces isPlain := by
  induction v generalizing name with
  | whole => exact Routine.surfaces_create name value
  | under space inner ih =>
      apply Surfaces.bind (Surfaces.ofExcept _)
      intro _
      apply Surfaces.mapError (ih (space ++ name))
      intro e hplain
      cases e <;> first | rfl | cases hplain

theorem surfaces_delete (v : View) (name : String) : (v.delete name).Surfaces isPlain := by
  induction v generalizing name with
  | whole => exact Routine.surfaces_delete name
  | under space inner ih =>
      apply Surfaces.bind (Surfaces.ofExcept _)
      intro _
      exact ih (space ++ name)

theorem surfaces_list (v : View) (pattern : String) : (v.list pattern).Surfaces isPlain := by
  induction v generalizing pattern with
  | whole => exact Routine.surfaces_list pattern
  | under space inner ih => exact Surfaces.map (ih _)

/-- **Removals that go on.**  A loop that goes on after failures keeps the first one. -/
theorem run_deleteAll {space : String} (names : List String) (hnames : ∀ name ∈ names, name ≠ "")
    (c : Context) (w : World (Nat → Mishap)) :
    (((View.under space .whole).deleteAll names).run c w).1 =
      Attempt.first? (((View.under space .whole).deleteAll names).accesses c w) := by
  induction names generalizing w with
  | nil => rfl
  | cons name names ih =>
      have hone : ((View.under space .whole).delete name).attempt =
          .ask (.delete (space ++ name)) .done := by
        rw [delete_attempt, requireKey_of_ne (hnames name List.mem_cons_self)]
      have hrest := ih (fun n hn => hnames n (List.mem_cons_of_mem _ hn))
        (w.answer c (.delete (space ++ name))).2
      unfold deleteAll
      rw [hone, Program.run_bind, Program.run_bind, Program.accesses_bind, Program.accesses_bind,
        Attempt.first?_append, Attempt.first?_append]
      change firstError (errorOf (w.answer c (.delete (space ++ name))).1) _ =
        (Attempt.first? [_]).or (Option.or _ none)
      rw [Attempt.first?_singleton, Option.or_none]
      exact congrArg (Option.or _) hrest

/-- A purge gives the first failure of its accesses. -/
theorem run_purge (space : String) (c : Context) (w : World (Nat → Mishap)) :
    ((View.under space .whole).purge.run c w).1 =
      Attempt.first? ((View.under space .whole).purge.accesses c w) := by
  have hlisted := w.errorOf_list c (space ++ "*")
  rw [purge_eq]
  unfold Program.run Program.accesses
  rw [Attempt.first?_append, ← hlisted]
  rcases w.answer c (.list (space ++ "*")) with ⟨e | names, w'⟩
  · rfl
  · have hshown : ∀ name ∈ names.filterMap (strip space), name ≠ "" := by
      intro name hname
      obtain ⟨full, -, hstrip⟩ := List.mem_filterMap.1 hname
      exact (strip_eq_some_iff.1 hstrip).2
    exact run_deleteAll _ hshown c w'

end View

namespace Cabinet

open Routine (Surfaces)

variable {α : Type} [Record α]

theorem surfaces_create (s : Cabinet α) (name : String) (a : α) :
    (s.create name a).Surfaces isPlain :=
  View.surfaces_create _ _ _

theorem surfaces_get (s : Cabinet α) (name : String) : (s.get name).Surfaces isPlainLookup := by
  apply Surfaces.bind (View.surfaces_get _ _)
  intro value
  split
  · exact Surfaces.pure _
  · exact Surfaces.throw _

/-- That a record is missing is found by a look-up that did not fail. -/
theorem surfaces_find? (s : Cabinet α) (name : String) :
    (s.find? name).Surfaces isPlainLookup := by
  apply Surfaces.handle (surfaces_get s name)
  · intro e hlookup
    cases e <;> first | rfl | cases hlookup
  · intro r
    split
    · exact Surfaces.pure _
    · exact Surfaces.pure _
    · exact Surfaces.throw _

theorem surfaces_getNamed (s : Cabinet α) (kind name : String) :
    (s.getNamed kind name).Surfaces isPlainLookup := by
  apply Surfaces.bind (Surfaces.ofExcept _)
  intro _
  apply Surfaces.mapError (surfaces_get s name)
  intro e hlookup
  cases e <;> first | rfl | cases hlookup

/-- Another attempt follows only a creation that found its name taken. -/
theorem surfaces_replaceValue (v : View) (name : String) (value : Bytes) (n : Nat) :
    (replaceValue v name value n).Surfaces isPlain := by
  induction n with
  | zero => exact Surfaces.throw _
  | succ n ih =>
      apply Surfaces.bind (View.surfaces_delete v name)
      intro _
      apply Surfaces.handle (View.surfaces_create v name value)
      · intro e hplain
        cases e <;> first | rfl | cases hplain
      · intro r
        split
        · exact ih
        · exact Surfaces.ofExcept _

theorem surfaces_replace (s : Cabinet α) (name : String) (a : α) :
    (s.replace name a).Surfaces isPlain :=
  surfaces_replaceValue _ _ _ _

omit [Record α] in
theorem surfaces_delete (s : Cabinet α) (name : String) : (s.delete name).Surfaces isPlain :=
  View.surfaces_delete _ _

omit [Record α] in
theorem surfaces_list (s : Cabinet α) (pattern : String) : (s.list pattern).Surfaces isPlain :=
  View.surfaces_list _ _

end Cabinet

/-! ### Enclaves -/

namespace Enclave

open Routine (Surfaces)

variable (h : Enclave)

theorem surfaces_ensureRegistered : h.ensureRegistered.Surfaces isPlainLookup := by
  apply Surfaces.bind (Cabinet.surfaces_find? _ _)
  intro found
  cases found
  · exact Surfaces.throw _
  · exact Surfaces.pure _

theorem surfaces_createKey (name : String) (value : Bytes) (creator : Identity) :
    (h.createKey name value creator).Surfaces isPlain := by
  apply Surfaces.bind h.surfaces_ensureRegistered.plain
  intro _
  apply Surfaces.bind (Surfaces.ofExcept _)
  intro _
  apply Surfaces.bind Surfaces.time
  intro time
  exact Surfaces.map (Cabinet.surfaces_create _ _ _)

theorem surfaces_getKey (name : String) : (h.getKey name).Surfaces isPlainLookup :=
  Cabinet.surfaces_getNamed _ _ _

theorem surfaces_deleteKey (name : String) : (h.deleteKey name).Surfaces isPlain := by
  apply Surfaces.bind (Surfaces.ofExcept _)
  intro _
  exact Cabinet.surfaces_delete _ _

theorem surfaces_setPolicy (name : String) (policy : Policy) (creator : Identity) :
    (h.setPolicy name policy creator).Surfaces isPlain := by
  apply Surfaces.bind h.surfaces_ensureRegistered.plain
  intro _
  apply Surfaces.bind (Surfaces.ofExcept _)
  intro _
  apply Surfaces.bind (Surfaces.ofExcept _)
  intro _
  apply Surfaces.bind Surfaces.time
  intro time
  exact Surfaces.map (Cabinet.surfaces_replace _ _ _)

theorem surfaces_getPolicy (name : String) : (h.getPolicy name).Surfaces isPlainLookup :=
  Cabinet.surfaces_getNamed _ _ _

theorem surfaces_findAssignment (i : Identity) :
    (h.findAssignment i).Surfaces isPlainLookup := by
  unfold findAssignment
  split
  · exact Surfaces.pure _
  · apply Surfaces.bind (Surfaces.ofExcept _)
    intro _
    exact Cabinet.surfaces_find? _ _

theorem surfaces_describeIdentity (i : Identity) :
    (h.describeIdentity i).Surfaces isPlainLookup := by
  apply Surfaces.bind (h.surfaces_findAssignment i)
  intro found
  cases found
  · exact Surfaces.throw _
  · exact Surfaces.pure _

theorem surfaces_resolvePolicy (i : Identity) :
    (h.resolvePolicy i).Surfaces isPlainLookup := by
  have hresolve : (h.resolve i).Surfaces isPlainLookup := by
    apply Surfaces.bind (h.surfaces_findAssignment i)
    intro found
    cases found
    · exact Surfaces.throw _
    · exact Surfaces.pure _
  apply Surfaces.bind hresolve
  intro name
  exact Surfaces.map (h.surfaces_getPolicy name)

theorem surfaces_withPolicy (policy : String) (names : List String) :
    (h.withPolicy policy names).Surfaces isPlainLookup := by
  induction names with
  | nil => exact Surfaces.pure _
  | cons name names ih =>
      apply Surfaces.bind (h.surfaces_findAssignment _)
      intro found
      apply Surfaces.bind ih
      intro more
      cases found
      · exact Surfaces.pure _
      · exact Surfaces.pure _

theorem surfaces_deletePolicy (name : String) : (h.deletePolicy name).Surfaces isPlain := by
  have hhas : (h.hasPolicy name).Surfaces isPlainLookup := by
    apply Surfaces.bind (Surfaces.ofExcept _)
    intro _
    exact Surfaces.map (Cabinet.surfaces_find? _ _)
  apply Surfaces.bind hhas.plain
  intro found
  split
  · apply Surfaces.bind (Surfaces.bind (Cabinet.surfaces_list _ _)
      fun names => (h.surfaces_withPolicy name names).plain)
    intro users
    split
    · exact Cabinet.surfaces_delete _ _
    · exact Surfaces.throw _
  · exact Surfaces.pure _

theorem surfaces_assignPolicy (policy : String) (i creator : Identity) :
    (h.assignPolicy policy i creator).Surfaces isPlain := by
  unfold assignPolicy
  split
  · exact Surfaces.throw _
  · apply Surfaces.bind (Surfaces.ofExcept _)
    intro _
    apply Surfaces.bind h.surfaces_ensureRegistered.plain
    intro _
    apply Surfaces.bind (h.surfaces_getPolicy policy).plain
    intro _
    apply Surfaces.bind Surfaces.time
    intro time
    exact Surfaces.map (Cabinet.surfaces_replace _ _ _)

theorem surfaces_unassign (i : Identity) : (h.unassign i).Surfaces isPlain := by
  unfold unassign
  split
  · exact Surfaces.pure _
  · apply Surfaces.bind (Surfaces.ofExcept _)
    intro _
    exact Cabinet.surfaces_delete _ _

end Enclave

/-! ### The registry and the gate -/

namespace Registry

open Routine (Surfaces)

variable {l : Layout} {m : String}

/-- Purges one after the other give the first failure of their accesses, or the one there was
before. -/
theorem run_purgeSpaces {spaces : List String} (earlier : Option Error)
    (hspaces : ∀ space ∈ spaces, Glob.hasMeta space = false) (c : Context)
    (w : World (Nat → Mishap)) :
    ((purgeSpaces earlier spaces).attempt.run c w).1 =
      .ok (earlier.or (Attempt.first? ((purgeSpaces earlier spaces).attempt.accesses c w))) := by
  induction spaces generalizing earlier w with
  | nil => exact congrArg Except.ok Option.or_none.symm
  | cons space spaces ih =>
      have hrest : ∀ s ∈ spaces, Glob.hasMeta s = false :=
        fun s hs => hspaces s (List.mem_cons_of_mem _ hs)
      rw [purgeSpaces_cons (hspaces space List.mem_cons_self), Program.run_bind,
        Program.accesses_bind, Attempt.first?_append, ← View.run_purge, ih _ hrest]
      exact congrArg Except.ok Option.or_assoc

theorem surfaces_purge (hplain : Glob.hasMeta l.root = false) (hm : ValidName m) :
    (l.catalog.purge m).Surfaces isPlain := by
  intro c w e hfaults hfailed
  refine ⟨?_, Program.isPlain_of_accesses hfaults _ hfailed⟩
  have hspaces : ∀ space ∈ [l.keys m, l.policies m, l.identities m], Glob.hasMeta space = false :=
    hasMeta_of_mem_spaces hplain hm
  change Attempt.first? ((purgeSpaces none [l.keys m, l.policies m, l.identities m] >>= _).attempt
    |>.accesses c w) = some e at hfailed
  change ((purgeSpaces none [l.keys m, l.policies m, l.identities m] >>= _).attempt.run c w).1 = _
  have hpurged := run_purgeSpaces none hspaces c w
  rw [Routine.accesses_bind, Attempt.first?_append, hpurged] at hfailed
  rw [Routine.run_bind, hpurged]
  rw [Option.none_or] at hfailed ⊢
  cases hfirst : Attempt.first?
      ((purgeSpaces none [l.keys m, l.policies m, l.identities m]).attempt.accesses c w) with
  | some e' =>
      rw [hfirst] at hfailed
      obtain rfl : e' = e := Option.some.inj hfailed
      rfl
  | none =>
      rw [hfirst] at hfailed
      cases hfailed

theorem surfaces_create (hplain : Glob.hasMeta l.root = false) (creator : Identity) :
    (l.catalog.create m creator).Surfaces isPlain := by
  unfold create
  cases hname : checkEnclaveName m with
  | error e => exact Surfaces.throw e
  | ok _ =>
      apply Surfaces.bind (Surfaces.ofExcept _)
      intro _
      apply Surfaces.bind (Cabinet.surfaces_find? _ _).plain
      intro found
      split
      · exact Surfaces.throw _
      · apply Surfaces.bind (surfaces_purge hplain (checkEnclaveName_eq_ok_iff.1 hname).toValidName)
        intro _
        apply Surfaces.bind Surfaces.time
        intro time
        apply Surfaces.bind _ fun _ => Surfaces.pure _
        apply Surfaces.mapError (Cabinet.surfaces_create _ _ _)
        intro e hplain
        cases e <;> first | rfl | cases hplain

theorem surfaces_describe (r : Registry) (name : String) :
    (r.describe name).Surfaces isPlainLookup := by
  apply Surfaces.bind (Surfaces.ofExcept _)
  intro _
  apply Surfaces.bind (Cabinet.surfaces_find? _ _)
  intro found
  cases found
  · exact Surfaces.throw _
  · exact Surfaces.pure _

/-- The registration is described only after a creation that found it there. -/
theorem surfaces_ensure (hplain : Glob.hasMeta l.root = false) (creator : Identity) :
    (l.catalog.ensure m creator).Surfaces isPlain := by
  apply Surfaces.handle (surfaces_create hplain creator)
  · intro e hplain
    cases e <;> first | rfl | cases hplain
  · intro r
    split
    · exact (surfaces_describe _ _).plain
    · exact Surfaces.ofExcept _

theorem surfaces_delete (hplain : Glob.hasMeta l.root = false) :
    (l.catalog.delete m).Surfaces isPlain := by
  cases hname : checkEnclaveName m with
  | error e =>
      unfold delete describe
      rw [hname]
      exact Surfaces.throw e
  | ok _ =>
      have hm := (checkEnclaveName_eq_ok_iff.1 hname).toValidName
      apply Surfaces.bind (surfaces_describe _ _).plain
      intro _
      apply Surfaces.bind (surfaces_purge hplain hm)
      intro _
      exact Cabinet.surfaces_delete _ _

theorem surfaces_registered (r : Registry) (name : String) :
    (r.registered name).Surfaces isPlainLookup := by
  apply Surfaces.bind (Surfaces.ofExcept _)
  intro h
  exact Surfaces.bind h.surfaces_ensureRegistered fun _ => Surfaces.pure _

end Registry

open Routine (Surfaces)

theorem Authorizer.surfaces_decide (a : Authorizer) (h : Enclave) (i : Identity) (path : String) :
    (a.decide h i path).Surfaces isPlainLookup := by
  unfold decide
  split
  · exact Surfaces.pure _
  split
  · exact Surfaces.pure _
  apply Surfaces.handle (h.surfaces_resolvePolicy i)
  · intro e hlookup
    cases e <;> first | rfl | cases hlookup
  · intro r
    split
    · exact Surfaces.pure _
    · exact Surfaces.pure _
    · exact Surfaces.pure _
    · exact Surfaces.throw _

namespace Service

variable {s : Service} {l : Layout} {caller : Identity} {enclave : String}

theorem surfaces_gate (s : Service) (caller : Identity) (enclave : String) (op : Operation) :
    (s.gate caller enclave op).Surfaces isPlainLookup := by
  apply Surfaces.bind (Surfaces.ofExcept _)
  intro h
  have hauthorized : (s.authorizer.authorize h caller op).Surfaces isPlainLookup := by
    apply Surfaces.bind (s.authorizer.surfaces_decide h caller op.path)
    intro decision
    cases decision
    · exact Surfaces.pure _
    · exact Surfaces.throw _
  apply Surfaces.bind hauthorized
  intro _
  exact Surfaces.bind h.surfaces_ensureRegistered fun _ => Surfaces.pure _

theorem surfaces_assignOne (s : Service) (h : Enclave) (caller : Identity) (policy : String)
    (i : Identity) : (s.assignOne h caller policy i).Surfaces isPlain := by
  unfold assignOne
  by_cases hadmin : s.authorizer.isAdmin i = true
  · rw [if_pos hadmin]
    exact Surfaces.throw _
  rw [if_neg hadmin]
  by_cases hself : i = caller
  · rw [if_pos hself]
    exact Surfaces.throw _
  rw [if_neg hself]
  exact Surfaces.map (h.surfaces_assignPolicy policy i caller)

/-- The body of every command but the one on several identities. -/
theorem surfaces_body (hover : s.Over l) (h : Enclave) {command : Command}
    (hone : ∀ policy identities, command ≠ .assignPolicy policy identities) :
    (s.body caller h command).Surfaces isPlain := by
  cases command with
  | createKey name value => exact Surfaces.map (h.surfaces_createKey name value caller)
  | getKey name => exact Surfaces.map (h.surfaces_getKey name).plain
  | describeKey name => exact Surfaces.map (Surfaces.map (h.surfaces_getKey name).plain)
  | deleteKey name => exact Surfaces.map (h.surfaces_deleteKey name)
  | listKeys pattern => exact Surfaces.map (Cabinet.surfaces_list _ _)
  | createPolicy name policy => exact Surfaces.map (h.surfaces_setPolicy name policy caller)
  | getPolicy name => exact Surfaces.map (h.surfaces_getPolicy name).plain
  | describePolicy name => exact Surfaces.map (Surfaces.map (h.surfaces_getPolicy name).plain)
  | deletePolicy name => exact Surfaces.map (h.surfaces_deletePolicy name)
  | listPolicies pattern => exact Surfaces.map (Cabinet.surfaces_list _ _)
  | assignPolicy policy identities => exact absurd rfl (hone policy identities)
  | describeIdentity i => exact Surfaces.map (h.surfaces_describeIdentity i).plain
  | deleteIdentity i => exact Surfaces.map (h.surfaces_unassign i)
  | listIdentities pattern => exact Surfaces.map (Cabinet.surfaces_list _ _)
  | createEnclave name =>
      unfold body
      rw [hover.registry_eq]
      exact Surfaces.map (Registry.surfaces_create hover.plain caller)
  | describeEnclave name => exact Surfaces.map (Registry.surfaces_describe _ _).plain
  | deleteEnclave name =>
      dsimp only [body]
      rw [hover.registry_eq]
      split
      · exact Surfaces.throw _
      · exact Surfaces.map (Registry.surfaces_delete hover.plain)
  | listEnclaves pattern => exact Surfaces.map (Cabinet.surfaces_list _ _)
  | status => exact Surfaces.map Routine.surfaces_status

/-- A gated operation makes the accesses of its gate and its body; the event is none. -/
theorem accesses_gated {α σ : Type} [Mishaps σ] (op : Operation) (body : Enclave → Routine α)
    (c : Context) (w : World σ) :
    (s.gated caller enclave op body).attempt.accesses c w =
      (s.gate caller enclave op >>= body).attempt.accesses c w := by
  change ((s.gate caller enclave op >>= body).attempt >>=
    s.report caller enclave op).accesses c w = _
  rw [Program.accesses_bind]
  change _ ++ [] = _
  rw [List.append_nil]

/-- A gated operation surfaces what its gate and its body do. -/
theorem surfaces_gated {α : Type} {op : Operation} {body : Enclave → Routine α}
    (hbody : ∀ h, (body h).Surfaces isPlain) :
    (s.gated caller enclave op body).Surfaces isPlain := by
  intro c w e hfaults hfailed
  rw [accesses_gated] at hfailed
  rw [run_gated]
  exact (Surfaces.bind (s.surfaces_gate caller enclave op).plain hbody) c w e hfaults hfailed

theorem surfaces_describeSelf (s : Service) (caller : Identity) (enclave : String) :
    (s.describeSelf caller enclave).Surfaces isPlain := by
  unfold describeSelf
  split
  · exact Surfaces.throw _
  refine Surfaces.plain (?_ : Surfaces isPlainLookup _)
  apply Surfaces.handle (Registry.surfaces_registered _ _)
  · intro e hlookup
    cases e <;> first | rfl | cases hlookup
  · intro r
    split
    · split
      · exact Surfaces.throw _
      · exact Surfaces.throw _
    · exact Surfaces.throw _
    · rename_i h
      split
      · exact Surfaces.pure _
      apply Surfaces.handle (h.surfaces_describeIdentity caller)
      · intro e hlookup
        cases e <;> first | rfl | cases hlookup
      · intro r
        split
        · exact Surfaces.throw _
        · exact Surfaces.throw _
        · exact Surfaces.map (h.surfaces_getPolicy _)

theorem surfaces_init (hover : s.Over l) : s.init.Surfaces isPlain := by
  unfold init
  rw [hover.registry_eq]
  exact Surfaces.map (Registry.surfaces_ensure hover.plain _)

end Service

/-! ### Calls -/

/-- If some access failed, the result is the first failure. -/
def Attempt.Told {α : Type} (log : List Attempt) (r : Except Error α) : Prop :=
  ∀ a ∈ log, ∀ e, a.failure? = some e → ∃ e', first? log = some e' ∧ r = .error e'

theorem Attempt.told_of_first? {α : Type} {log : List Attempt} {r : Except Error α}
    (h : ∀ e, first? log = some e → r = .error e) : Told log r := by
  intro a ha e he
  cases hfirst : first? log with
  | none =>
      rw [List.findSome?_eq_none_iff.1 hfirst a ha] at he
      cases he
  | some e' => exact ⟨e', rfl, h e' hfirst⟩

/-- The result of a routine that surfaces its failures. -/
theorem Routine.Surfaces.told {α : Type} {a : Routine α} {kind : Error → Bool}
    (h : a.Surfaces kind) (hfaults : w.OnlyFaults) :
    Attempt.Told (a.attempt.accesses c w) (a.attempt.run c w).1 :=
  Attempt.told_of_first? fun e hfailed => (h c w e hfaults hfailed).1

namespace Service

section Logs

variable {σ : Type} [Mishaps σ]

/-- The accesses of programs that run one after the other, each in a call of its own. -/
def accessesOf? (s : Service) (c : Context) :
    List (Program (Except Error Reply)) → World σ → Option (List Attempt)
  | [], _ => some []
  | p :: ps, w => do
    let (c', tokens) ← s.callContext? c w.tokens w.now
    let w := { w with tokens := tokens }
    let more ← s.accessesOf? c ps (p.run c' w).2
    pure (p.accesses c' w ++ more)

/-- The accesses of a call, if the clock can show its deadline. -/
def accesses? (s : Service) (c : Context) (caller : Identity) (call : Call) (w : World σ) :
    Option (List Attempt) :=
  s.accessesOf? c (s.programs caller call) w

/-- The accesses for each of several assignments. -/
def itemAccesses (s : Service) (c : Context) (h : Enclave) (caller : Identity) (policy : String) :
    List Identity → World σ → List (List Attempt)
  | [], _ => []
  | i :: is, w =>
    let p := (s.assignOne h caller policy i).attempt
    p.accesses c w :: s.itemAccesses c h caller policy is (p.run c w).2

/-- The accesses that assign a policy: those of the gate, and those for each item. -/
def phases (s : Service) (c : Context) (caller : Identity) (enclave policy : String)
    (identities : List Identity) (w : World σ) : List Attempt × List (List Attempt) :=
  let gate := (s.gate caller enclave (.assignPolicy policy)).attempt
  (gate.accesses c w,
    match gate.run c w with
    | (.ok h, w) => s.itemAccesses c h caller policy identities w
    | (.error _, _) => [])

/-- The same for a whole call, if the clock can show its deadline. -/
def phases? (s : Service) (c : Context) (caller : Identity) (enclave policy : String)
    (identities : List Identity) (w : World σ) : Option (List Attempt × List (List Attempt)) := do
  let (c, tokens) ← s.callContext? c w.tokens w.now
  pure (s.phases c caller enclave policy identities { w with tokens := tokens })

theorem accesses?_eq {s : Service} {c c' : Context} {caller : Identity} {call : Call}
    {w : World σ} {p : Program (Except Error Reply)} {tokens : Tokens}
    (hp : s.programs caller call = [p])
    (hcontext : s.callContext? c w.tokens w.now = some (c', tokens)) :
    s.accesses? c caller call w = some (p.accesses c' { w with tokens := tokens }) := by
  unfold accesses?
  rw [hp]
  simp [accessesOf?, hcontext]

end Logs

variable {s : Service} {l : Layout} {caller : Identity}

/-- The call does several things, each of which may fail on its own. -/
def Call.isBulk : Call → Bool
  | .command _ (.assignPolicy ..) | .deletePolicies .. => true
  | _ => false

/-- Every program of a call that is not on several things surfaces its failures. -/
theorem surfaces_programs (hover : s.Over l) {call : Call} (hone : call.isBulk = false)
    {p : Program (Except Error Reply)} (hp : p ∈ s.programs caller call) :
    Surfaces isPlain (ExceptT.mk p) := by
  cases call with
  | command enclave command =>
      obtain rfl := List.mem_singleton.1 hp
      apply surfaces_gated
      intro h
      apply surfaces_body hover
      rintro policy identities rfl
      cases hone
  | deletePolicies enclave names => cases hone
  | describeSelf enclave =>
      obtain rfl := List.mem_singleton.1 hp
      exact Surfaces.map (s.surfaces_describeSelf caller enclave)
  | init =>
      obtain rfl := List.mem_singleton.1 hp
      exact Surfaces.map (surfaces_init hover)
  | health =>
      obtain rfl := List.mem_singleton.1 hp
      exact Surfaces.map Routine.surfaces_status

/-- The failures for each item are told in its outcome. -/
theorem told_assignEach (h : Enclave) (policy : String) (identities : List Identity)
    (hfaults : w.OnlyFaults) :
    (s.assignEach h caller policy identities).accesses c w =
        (s.itemAccesses c h caller policy identities w).flatten ∧
      List.Forall₂ (fun log (outcome : Outcome) => Attempt.Told log outcome.result)
        (s.itemAccesses c h caller policy identities w)
        ((s.assignEach h caller policy identities).run c w).1 := by
  induction identities generalizing w with
  | nil => exact ⟨rfl, .nil⟩
  | cons i identities ih =>
      obtain ⟨haccesses, houtcomes⟩ := ih (hfaults.run c (s.assignOne h caller policy i).attempt)
      unfold assignEach itemAccesses
      rw [Program.accesses_bind, Program.accesses_bind, Program.run_bind, Program.run_bind,
        haccesses]
      refine ⟨?_, .cons ((s.surfaces_assignOne h caller policy i).told hfaults) houtcomes⟩
      change _ ++ (_ ++ []) = _
      rw [List.append_nil, List.flatten_cons]

/-- A call that assigns a policy is its gate, and then the assignments one after the other. -/
theorem run_assignPolicy (s : Service) (caller : Identity) (enclave policy : String)
    (identities : List Identity) (c : Context) (w : World (Nat → Mishap)) :
    let gate := (s.gate caller enclave (.assignPolicy policy)).attempt
    let call := (s.perform caller enclave (.assignPolicy policy identities)).attempt
    match gate.run c w with
    | (.error e, _) =>
      (call.run c w).1 = .error e ∧ call.accesses c w = gate.accesses c w
    | (.ok h, w₁) =>
      let items := s.assignEach h caller policy identities
      (call.run c w).1 = .ok (.outcomes (items.run c w₁).1) ∧
        call.accesses c w = gate.accesses c w ++ items.accesses c w₁ := by
  intro gate call
  let body (h : Enclave) := s.body caller h (.assignPolicy policy identities)
  have hrun : (call.run c w).1 =
      ((s.gate caller enclave (.assignPolicy policy) >>= body).attempt.run c w).1 := by
    change ((s.gated caller enclave (.assignPolicy policy) body).attempt.run c w).1 = _
    rw [run_gated]
  have haccesses : call.accesses c w =
      (s.gate caller enclave (.assignPolicy policy) >>= body).attempt.accesses c w :=
    accesses_gated (.assignPolicy policy) body c w
  rw [Routine.run_bind] at hrun
  rw [Routine.accesses_bind] at haccesses
  rcases hgate : gate.run c w with ⟨e | h, w₁⟩
  all_goals
    change (s.gate caller enclave (.assignPolicy policy)).attempt.run c w = _ at hgate
    rw [hgate] at hrun haccesses
  · exact ⟨hrun, haccesses.trans (List.append_nil _)⟩
  · have hbody : (body h).attempt = s.assignEach h caller policy identities >>= fun outcomes =>
        .done (.ok (.outcomes outcomes)) := Routine.lift_bind _ _
    simp only [hbody] at hrun haccesses
    rw [Program.run_bind] at hrun
    rw [Program.accesses_bind] at haccesses
    exact ⟨hrun, haccesses.trans (congrArg _ (List.append_nil _))⟩

/-- The failures of the gate are told in the result, and those for each item in its outcome. -/
theorem told_assignPolicy (s : Service) (caller : Identity) (enclave policy : String)
    (identities : List Identity) (c : Context) (hfaults : w.OnlyFaults) :
    let log := s.phases c caller enclave policy identities w
    let call := (s.perform caller enclave (.assignPolicy policy identities)).attempt
    call.accesses c w = log.1 ++ log.2.flatten ∧ Attempt.Told log.1 (call.run c w).1 ∧
      ∀ outcomes, (call.run c w).1 = .ok (.outcomes outcomes) →
        List.Forall₂ (fun log (outcome : Outcome) => Attempt.Told log outcome.result)
          log.2 outcomes := by
  intro log call
  have hparts := s.run_assignPolicy caller enclave policy identities c w
  have hgated := (s.surfaces_gate caller enclave (.assignPolicy policy)).told (c := c) hfaults
  have hfaults₁ := hfaults.run c (s.gate caller enclave (.assignPolicy policy)).attempt
  rcases hgate : (s.gate caller enclave (.assignPolicy policy)).attempt.run c w with
    ⟨err | h, w₁⟩
  · have hlog : log.2 = [] := by
      dsimp only [log, phases]
      rw [hgate]
    simp only [hgate] at hparts hgated
    obtain ⟨hfailed, haccesses⟩ := hparts
    change (call.run c w).1 = _ at hfailed
    rw [hfailed, hlog]
    refine ⟨haccesses.trans (List.append_nil _).symm, ?_, fun _ h => nomatch h⟩
    intro a ha e he
    obtain ⟨e', hfirst, hsame⟩ := hgated a ha e he
    cases hsame
    exact ⟨err, hfirst, rfl⟩
  · have hlog : log.2 = s.itemAccesses c h caller policy identities w₁ := by
      dsimp only [log, phases]
      rw [hgate]
    simp only [hgate] at hparts hgated hfaults₁
    obtain ⟨hdone, haccesses⟩ := hparts
    change (call.run c w).1 = _ at hdone
    rw [hdone, hlog]
    obtain ⟨hitems, houtcomes⟩ := told_assignEach h policy identities hfaults₁
    refine ⟨haccesses.trans (congrArg _ hitems), ?_, ?_⟩
    · -- behind a gate that let the call through there is no failure before
      intro a ha e he
      obtain ⟨e', -, hfailed⟩ := hgated a ha e he
      cases hfailed
    · intro outcomes hreply
      cases hreply
      exact houtcomes

/-- **Failures surface.**  Only faults are injected.  A call that is not on several things fails
with the first failure of its accesses, if some access fails.  A call that assigns a policy fails
so for the accesses of its gate, and otherwise each item fails so for its own accesses. -/
theorem failures_surface {settings : Settings} (hmade : ofSettings settings = .ok s)
    {call : Call} {w' : World (Nat → Mishap)} {r : Except Error Reply} (hfaults : w.OnlyFaults)
    (hserved : s.serve? c caller call w = some (r, w')) :
    (call.isBulk = false →
      ∃ log, s.accesses? c caller call w = some log ∧ Attempt.Told log r) ∧
    ∀ enclave policy identities, call = .command enclave (.assignPolicy policy identities) →
      ∃ gate items, s.phases? c caller enclave policy identities w = some (gate, items) ∧
        s.accesses? c caller call w = some (gate ++ items.flatten) ∧ Attempt.Told gate r ∧
        ∀ outcomes, r = .ok (.outcomes outcomes) →
          List.Forall₂ (fun log (outcome : Outcome) => Attempt.Told log outcome.result)
            items outcomes := by
  have hover := over_of_ofSettings hmade
  constructor
  · intro hone
    obtain ⟨p, hp, hcall⟩ : ∃ p, s.programs caller call = [p] ∧
        ∀ e names, call ≠ .deletePolicies e names := by
      cases call with
      | deletePolicies => cases hone
      | _ => exact ⟨_, rfl, nofun⟩
    rw [serve?_eq_run? hp hcall] at hserved
    obtain ⟨c', tokens, hcontext, hended⟩ := run?_eq_some_iff.1 hserved
    have hmem : p ∈ s.programs caller call := hp ▸ List.mem_singleton_self p
    have hfaults' : ({ w with tokens := tokens } : World (Nat → Mishap)).OnlyFaults := hfaults
    have htold : Attempt.Told (p.accesses c' { w with tokens := tokens })
        (p.run c' { w with tokens := tokens }).1 :=
      (surfaces_programs hover hone hmem).told hfaults'
    rw [hended] at htold
    exact ⟨_, accesses?_eq hp hcontext, htold⟩
  · rintro enclave policy identities rfl
    obtain ⟨c', tokens, hcontext, hended⟩ := run?_eq_some_iff.1 hserved
    have hfaults' : ({ w with tokens := tokens } : World (Nat → Mishap)).OnlyFaults := hfaults
    have haccesses : s.accesses? c caller (.command enclave (.assignPolicy policy identities)) w =
        some ((s.perform caller enclave (.assignPolicy policy identities)).attempt.accesses c'
          { w with tokens := tokens }) := accesses?_eq rfl hcontext
    have hphases : s.phases? c caller enclave policy identities w =
        some (s.phases c' caller enclave policy identities { w with tokens := tokens }) := by
      unfold phases?
      rw [hcontext]
      rfl
    obtain ⟨hlog, htold, houtcomes⟩ :=
      s.told_assignPolicy caller enclave policy identities c' hfaults'
    rw [hended] at htold houtcomes
    exact ⟨_, _, hphases, haccesses.trans (congrArg some hlog), htold, houtcomes⟩

/-- A purge goes on after its first failure, and the call fails with it. -/
theorem failures_surface_purge :
    let s : Service := ⟨Layout.catalog ⟨""⟩, .ofAdmin (some ⟨"root"⟩), "default", 30⟩
    let registration : Registration := ⟨(World.calm (.memory .empty)).clock 0, ⟨"root"⟩⟩
    let t := (Table.empty.insert "sys/enclaves/default" (Record.encode registration)).insert
      "sys/enclaves/e" (Record.encode registration)
    let w := World.stormy
      (.memory ((t.insert "enclaves/e/keys/m" [1]).insert "enclaves/e/keys/n" [2]))
      fun n =>
        if n = 6 then ⟨none, none, some (.unreachable "down")⟩
        else if n = 7 then ⟨none, none, some (.unauthorized "who")⟩
        else .nothing
    ofSettings { Settings.default with admin := some ⟨"root"⟩ } = .ok s ∧ w.OnlyFaults ∧
      ∃ log w', s.serve? (.ofToken []) ⟨"root"⟩ (.command "" (.deleteEnclave "e")) w =
          some (.error (.unreachable "down"), w') ∧
        s.accesses? (.ofToken []) ⟨"root"⟩ (.command "" (.deleteEnclave "e")) w = some log ∧
        log.filterMap Attempt.failure? = [.unreachable "down", .unauthorized "who"] ∧
        Attempt.Told log (.error (.unreachable "down") : Except Error Reply) := by
  intro s registration t w
  have hmade : ofSettings { Settings.default with admin := some ⟨"root"⟩ } = .ok s := rfl
  have hfaults : w.OnlyFaults := by
    intro n e he
    change (if n = 6 then _ else if n = 7 then _ else Mishap.nothing : Mishap).error = _ at he
    split at he
    · cases he
      rfl
    split at he
    · cases he
      rfl
    · cases he
  have hserved := eq_some_of_map_fst
    (x := s.serve? (.ofToken []) ⟨"root"⟩ (.command "" (.deleteEnclave "e")) w)
    (a := .error (.unreachable "down")) (by decide +kernel) w
  obtain ⟨log, hlog, htold⟩ := (failures_surface hmade hfaults hserved).1 rfl
  have hfailures : (s.accesses? (.ofToken []) ⟨"root"⟩ (.command "" (.deleteEnclave "e")) w).map
      (·.filterMap Attempt.failure?) = some [.unreachable "down", .unauthorized "who"] := by
    decide +kernel
  rw [hlog] at hfailures
  exact ⟨hmade, hfaults, log, _, hserved, hlog, Option.some.inj hfailures, htold⟩

end Service

end KeyCustody
