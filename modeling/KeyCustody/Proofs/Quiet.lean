import KeyCustody.Proofs.Surfacing
import KeyCustody.StoreCall

/-!
# Calls that blame no namespace

Namespaces are entered one by one: the registry when the service is set up, three more whenever
an enclave is reached or purged.  Each of them may be refused for a character of patterns in it.

A routine is *quiet* if it never ends in such a refusal, as long as no answer of the store is
one (`Routine.Quiet`).  Routines are shown to be quiet along their texts.  Those that enter a
namespace are quiet because they check the name first of which they make it, under a prefix
that holds no such character.  Nothing is asked of the store; whether it blames a namespace
itself is told by the run (`Program.Hears`), and no connector does so.  Main statements:

* `Program.Keeps.hears_or_runOn`: a contract over any store;
* `Routine.NeverBlames.run_calm`: over a connector, nothing excuses a call;
* `Registry.quiet_purge`: a purge enters the namespaces of a valid name;
* `Service.quiet_perform`: commands, their items included.
-/

namespace KeyCustody

/-- The error says that a namespace holds a character of patterns. -/
def Error.blamesNamespace : Error → Bool
  | .invalid (.patternNamespace _) => true
  | _ => false

/-! ### Runs over any store -/

/-- Some request of the run is answered with an error that blames a namespace. -/
def Program.Hears {α S : Type} (answer : (r : Request) → S → r.Answer × S) : Program α → S → Prop
  | .done _, _ => False
  | .ask r next, s =>
    (∃ e, r.errorIn? (answer r s).1 = some e ∧ e.blamesNamespace = true) ∨
      (next (answer r s).1).Hears answer (answer r s).2

/-- Anything may be asked, as long as no answer blames a namespace. -/
def Contract.quiet : Contract where
  allows _ := True
  assumes r x := ∀ e, r.errorIn? x = some e → e.blamesNamespace = false

/-- **A contract over any store.**  Either the store blames a namespace, or the run ends as it
is promised. -/
theorem Program.Keeps.hears_or_runOn {α S : Type} {fits : α → Prop} {p : Program α}
    (h : p.Keeps .quiet fits) (answer : (r : Request) → S → r.Answer × S) (s : S) :
    p.Hears answer s ∨ fits (p.runOn answer s).1 := by
  induction p generalizing s with
  | done a => exact .inr h
  | ask r next ih =>
      by_cases hheard : ∃ e, r.errorIn? (answer r s).1 = some e ∧ e.blamesNamespace = true
      · exact .inl (.inl hheard)
      · have hquiet : ∀ e, r.errorIn? (answer r s).1 = some e → e.blamesNamespace = false := by
          intro e he
          exact Bool.eq_false_iff.2 fun hblames => hheard ⟨e, he, hblames⟩
        exact (ih _ (h.2 _ hquiet) _).imp_left .inr

namespace Routine

/-- The routine blames no namespace, if no answer does. -/
def Quiet {α : Type} (a : Routine α) : Prop :=
  a.Keeps .quiet (fun _ => True) fun e => e.blamesNamespace = false

/-- Over any store, the call does not end in an error that blames a namespace, unless the store
answers with such an error.  Otherwise a value of it is good. -/
def NeverBlames {α : Type} (good : α → Prop) (a : Routine α) : Prop :=
  ∀ (S : Type) (answer : (r : Request) → S → r.Answer × S) (s : S),
    a.attempt.Hears answer s ∨
      ends good (fun e => e.blamesNamespace = false) (a.attempt.runOn answer s).1

theorem Keeps.neverBlames {α : Type} {good : α → Prop} {a : Routine α}
    (h : a.Keeps .quiet good fun e => e.blamesNamespace = false) : a.NeverBlames good :=
  fun _ answer s => Program.Keeps.hears_or_runOn h answer s

namespace Quiet

variable {α β : Type} {a : Routine α} {f : α → Routine β} {e : Error}

theorem of_keeps {good : α → Prop}
    (h : a.Keeps .quiet good fun e => e.blamesNamespace = false) : a.Quiet :=
  Keeps.weaken h (fun _ _ => trivial) fun _ he => he

theorem pure (x : α) : (Pure.pure x : Routine α).Quiet := trivial

theorem throw (h : e.blamesNamespace = false) : (MonadExcept.throw e : Routine α).Quiet := h

theorem time : Routine.time.Quiet := ⟨trivial, fun _ _ => trivial⟩

/-- What is computed without asking. -/
theorem ofExcept {r : Except Error α} (h : ∀ e, r = .error e → e.blamesNamespace = false) :
    (Routine.ofExcept r).Quiet := by
  cases r with
  | ok x => trivial
  | error e => exact h e rfl

/-- One routine after the other. -/
theorem bind (ha : a.Quiet) (hf : ∀ x, (f x).Quiet) : (a >>= f).Quiet :=
  Keeps.bind ha fun x _ => hf x

/-- A routine whose value or error is looked at. -/
theorem handle {f : Except Error α → Routine β} (ha : a.Quiet) (hvalue : ∀ x, (f (.ok x)).Quiet)
    (herror : ∀ e, e.blamesNamespace = false → (f (.error e)).Quiet) : (a.handle f).Quiet :=
  Keeps.handle ha (fun x _ => hvalue x) herror

/-- Errors told differently. -/
theorem mapError {f : Error → Error} (ha : a.Quiet)
    (hf : ∀ e, e.blamesNamespace = false → (f e).blamesNamespace = false) : (a.mapError f).Quiet :=
  Keeps.mapError (Keeps.weaken ha (fun _ hx => hx) hf)

/-- One request and its answer. -/
theorem of_answer {x : Except Error α} (h : ∀ e, errorOf x = some e → e.blamesNamespace = false) :
    ends (fun _ => True) (fun e => e.blamesNamespace = false) x := by
  cases x with
  | ok a => trivial
  | error e => exact h e rfl

end Quiet

theorem quiet_create (name : String) (value : Bytes) : (create name value).Quiet :=
  ⟨trivial, fun _ h => Quiet.of_answer h⟩

theorem quiet_get (name : String) : (get name).Quiet :=
  ⟨trivial, fun _ h => Quiet.of_answer h⟩

theorem quiet_delete (name : String) : (delete name).Quiet :=
  ⟨trivial, fun _ h => Quiet.of_answer h⟩

theorem quiet_list (pattern : String) : (list pattern).Quiet :=
  ⟨trivial, fun _ h => Quiet.of_answer h⟩

theorem quiet_status : status.Quiet :=
  ⟨trivial, fun _ h => Quiet.of_answer h⟩

end Routine

/-! ### What checks say -/

theorem quiet_requireKey {name : String} : ∀ e, requireKey name = .error e →
    e.blamesNamespace = false := by
  intro e h
  unfold requireKey at h
  split at h
  · exact Except.error.inj h ▸ rfl
  · cases h

theorem quiet_checkName {kind name : String} : ∀ e, checkName kind name = .error e →
    e.blamesNamespace = false := by
  intro e h
  unfold checkName at h
  grind [Error.blamesNamespace]

theorem quiet_checkEnclaveName {name : String} : ∀ e, checkEnclaveName name = .error e →
    e.blamesNamespace = false := by
  intro e h
  unfold checkEnclaveName at h
  cases hname : checkName "enclave" name with
  | error e' =>
      rw [hname] at h
      exact Except.error.inj h ▸ quiet_checkName e' hname
  | ok _ =>
      simp only [hname, bind, Except.bind] at h
      grind [Error.blamesNamespace]

theorem Identity.quiet_check {i : Identity} : ∀ e, i.check = .error e →
    e.blamesNamespace = false := by
  intro e h
  unfold check at h
  grind [Error.blamesNamespace]

theorem Policy.quiet_check {p : Policy} : ∀ e, p.check = .error e →
    e.blamesNamespace = false := by
  intro e h
  unfold check at h
  grind [Error.blamesNamespace]

/-! ### What connectors answer -/

theorem Signal.quiet_whole (sig : Signal) : ∀ e, sig.whole = .error e →
    e.blamesNamespace = false := by
  intro e h
  rcases sig.whole_cases with hs | hs <;> rw [hs] at h <;> cases h
  rfl

namespace Backend

variable {b : Backend} {sig : Signal} {name : String}

theorem quiet_toError (e : FileError) (path : String) :
    (e.toError path).blamesNamespace = false := by
  cases e <;> rfl

theorem quiet_create {value : Bytes} : ∀ e, (b.create sig name value).1 = .error e →
    e.blamesNamespace = false := by
  intro e h
  have hkey : ∀ e, requireKey name = .error e → e.blamesNamespace = false := quiet_requireKey
  have hwhole := sig.quiet_whole
  cases b <;> simp only [create, DataDir.create_eq] at h <;>
    grind [quiet_toError, Error.blamesNamespace]

theorem quiet_get : ∀ e, b.get sig name = .error e → e.blamesNamespace = false := by
  intro e h
  have hkey : ∀ e, requireKey name = .error e → e.blamesNamespace = false := quiet_requireKey
  have hwhole := sig.quiet_whole
  cases b <;> simp only [get, DataDir.get, Option.elim, bind, Except.bind, Except.mapError] at h <;>
    grind [quiet_toError, Error.blamesNamespace]

theorem quiet_delete : ∀ e, (b.delete sig name).1 = .error e → e.blamesNamespace = false := by
  intro e h
  have hkey : ∀ e, requireKey name = .error e → e.blamesNamespace = false := quiet_requireKey
  have hwhole := sig.quiet_whole
  cases b <;> simp only [delete, DataDir.delete_eq] at h <;>
    grind [quiet_toError, Error.blamesNamespace]

theorem quiet_status : ∀ e, b.status sig = .error e → e.blamesNamespace = false := by
  intro e h
  have hwhole := sig.quiet_whole
  cases b <;> simp only [status, DataDir.status, bind, Except.bind] at h <;>
    grind [Error.blamesNamespace]

theorem quiet_listed {pattern : String} : ∀ e, b.listed pattern = .error e →
    e.blamesNamespace = false := by
  intro e h
  cases b with
  | memory t | database t => cases h
  | files d =>
      obtain ⟨e', -, rfl⟩ := mapError_eq_error_iff.1 (map_eq_error_iff.1 h)
      exact quiet_toError e' d.path

end Backend

/-- In a calm world no connector blames a namespace. -/
theorem World.quiet_answer (w : World Unit) (c : Context) (r : Request) :
    ∀ e, r.errorIn? (w.answer c r).1 = some e → e.blamesNamespace = false := by
  intro e h
  cases r with
  | time | eventId | emit => cases h
  | create name value => exact Backend.quiet_create e (Routine.eq_error_of_errorOf h)
  | get name => exact Backend.quiet_get e (Routine.eq_error_of_errorOf h)
  | delete name => exact Backend.quiet_delete e (Routine.eq_error_of_errorOf h)
  | status => exact Backend.quiet_status e (Routine.eq_error_of_errorOf h)
  | list pattern =>
      have hlisted : (w.list c pattern).1 = .error e := Routine.eq_error_of_errorOf h
      rw [list_calm] at hlisted
      dsimp only at hlisted
      split at hlisted
      · exact Except.error.inj hlisted ▸ rfl
      · exact Backend.quiet_listed e hlisted

/-- So over the connectors there are, nothing excuses a call that blames one. -/
theorem Routine.NeverBlames.run_calm {α : Type} {good : α → Prop} {a : Routine α}
    (h : a.NeverBlames good) (c : Context) (w : World Unit) :
    ends good (fun e => e.blamesNamespace = false) (a.attempt.run c w).1 := by
  have hsilent (p : Program (Except Error α)) (w : World Unit) : ¬ p.Hears (World.answer c) w := by
    induction p generalizing w with
    | done _ => exact id
    | ask r next ih =>
        rintro (⟨e, hfailed, hblames⟩ | hlater)
        · rw [w.quiet_answer c r e hfailed] at hblames
          cases hblames
        · exact ih _ _ hlater
  rw [Program.run_eq_runOn]
  exact (h _ (World.answer c) w).resolve_left (hsilent _ w)

/-! ### Views and cabinets -/

open Routine (Quiet)

namespace View

theorem quiet_create (v : View) (name : String) (value : Bytes) : (v.create name value).Quiet := by
  induction v generalizing name with
  | whole => exact Routine.quiet_create name value
  | under space inner ih =>
      refine (Quiet.ofExcept quiet_requireKey).bind fun _ => (ih _).mapError fun e he => ?_
      cases e <;> first | rfl | exact he

theorem quiet_get (v : View) (name : String) : (v.get name).Quiet := by
  induction v generalizing name with
  | whole => exact Routine.quiet_get name
  | under space inner ih =>
      refine (Quiet.ofExcept quiet_requireKey).bind fun _ => (ih _).mapError fun e he => ?_
      cases e <;> first | rfl | exact he

theorem quiet_delete (v : View) (name : String) : (v.delete name).Quiet := by
  induction v generalizing name with
  | whole => exact Routine.quiet_delete name
  | under space inner ih => exact (Quiet.ofExcept quiet_requireKey).bind fun _ => ih _

theorem quiet_list (v : View) (pattern : String) : (v.list pattern).Quiet := by
  induction v generalizing pattern with
  | whole => exact Routine.quiet_list pattern
  | under space inner ih => exact (ih _).bind fun _ => .pure _

/-- The first error of a purge, if there is one, blames no namespace. -/
def QuietError (failure : Option Error) : Prop :=
  ∀ e, failure = some e → e.blamesNamespace = false

theorem QuietError.first {a b : Option Error} (ha : QuietError a) (hb : QuietError b) :
    QuietError (firstError a b) := by
  cases a with
  | none => exact hb
  | some e => exact ha

theorem quiet_deleteAll (v : View) (names : List String) :
    (v.deleteAll names).Keeps .quiet QuietError := by
  induction names with
  | nil => exact nofun
  | cons name names ih =>
      refine Program.Keeps.bind (quiet_delete v name) fun r hr =>
        Program.Keeps.bind ih fun more hmore => ?_
      refine QuietError.first (fun e he => ?_) hmore
      cases r with
      | ok _ => cases he
      | error e' => exact Option.some.inj he ▸ hr

theorem quiet_purge (v : View) : v.purge.Keeps .quiet QuietError := by
  refine Program.Keeps.bind (quiet_list v "*") fun r hr => ?_
  cases r with
  | ok names => exact quiet_deleteAll v names
  | error e => exact fun e' he => Option.some.inj he ▸ hr

end View

namespace Cabinet

variable {α : Type} [Record α] (s : Cabinet α)

theorem quiet_create (name : String) (a : α) : (s.create name a).Quiet :=
  s.view.quiet_create _ _

theorem quiet_get (name : String) : (s.get name).Quiet := by
  refine (s.view.quiet_get name).bind fun value => ?_
  split
  · exact .pure _
  · exact .throw rfl

theorem quiet_find? (name : String) : (s.find? name).Quiet := by
  refine (s.quiet_get name).handle (fun _ => .pure _) fun e he => ?_
  cases e <;> first | exact .pure _ | exact .throw he

theorem quiet_getNamed (kind name : String) : (s.getNamed kind name).Quiet := by
  refine (Quiet.ofExcept quiet_checkName).bind fun _ => (s.quiet_get name).mapError fun e he => ?_
  cases e <;> first | rfl | exact he

theorem quiet_replaceValue (v : View) (name : String) (value : Bytes) (n : Nat) :
    (replaceValue v name value n).Quiet := by
  induction n with
  | zero => exact .throw rfl
  | succ n ih =>
      refine (v.quiet_delete name).bind fun _ => (v.quiet_create name value).handle
        (fun _ => .pure _) fun e he => ?_
      cases e <;> first | exact ih | exact .throw he

theorem quiet_replace (name : String) (a : α) : (s.replace name a).Quiet :=
  quiet_replaceValue _ _ _ _

omit [Record α] in
theorem quiet_delete (name : String) : (s.delete name).Quiet :=
  s.view.quiet_delete name

omit [Record α] in
theorem quiet_list (pattern : String) : (s.list pattern).Quiet :=
  s.view.quiet_list pattern

end Cabinet

/-! ### Enclaves -/

namespace Enclave

variable (h : Enclave)

theorem quiet_ensureRegistered : h.ensureRegistered.Quiet := by
  refine (h.registry.quiet_find? _).bind fun found => ?_
  cases found with
  | some _ => exact .pure _
  | none => exact .throw rfl

theorem quiet_createKey (name : String) (value : Bytes) (creator : Identity) :
    (h.createKey name value creator).Quiet :=
  h.quiet_ensureRegistered.bind fun _ => (Quiet.ofExcept quiet_checkName).bind fun _ =>
    Quiet.time.bind fun _ => (h.keys.quiet_create _ _).bind fun _ => .pure _

theorem quiet_getKey (name : String) : (h.getKey name).Quiet :=
  h.keys.quiet_getNamed _ _

theorem quiet_deleteKey (name : String) : (h.deleteKey name).Quiet :=
  (Quiet.ofExcept quiet_checkName).bind fun _ => h.keys.quiet_delete _

theorem quiet_setPolicy (name : String) (policy : Policy) (creator : Identity) :
    (h.setPolicy name policy creator).Quiet :=
  h.quiet_ensureRegistered.bind fun _ => (Quiet.ofExcept quiet_checkName).bind fun _ =>
    (Quiet.ofExcept Policy.quiet_check).bind fun _ => Quiet.time.bind fun _ =>
      (h.policies.quiet_replace _ _).bind fun _ => .pure _

theorem quiet_getPolicy (name : String) : (h.getPolicy name).Quiet :=
  h.policies.quiet_getNamed _ _

theorem quiet_hasPolicy (name : String) : (h.hasPolicy name).Quiet :=
  (Quiet.ofExcept quiet_checkName).bind fun _ => (h.policies.quiet_find? _).bind fun _ => .pure _

theorem quiet_findAssignment (i : Identity) : (h.findAssignment i).Quiet := by
  unfold findAssignment
  split
  · exact .pure _
  · exact (Quiet.ofExcept Identity.quiet_check).bind fun _ => h.assignments.quiet_find? _

theorem quiet_withPolicy (policy : String) (names : List String) :
    (h.withPolicy policy names).Quiet := by
  induction names with
  | nil => exact .pure _
  | cons name names ih =>
      refine (h.quiet_findAssignment _).bind fun found => ih.bind fun more => ?_
      cases found with
      | some a => exact .pure _
      | none => exact .pure _

theorem quiet_deletePolicy (name : String) : (h.deletePolicy name).Quiet := by
  refine (h.quiet_hasPolicy name).bind fun held => ?_
  cases held with
  | false => exact .pure _
  | true =>
      refine Quiet.bind ((h.assignments.quiet_list _).bind fun _ => h.quiet_withPolicy _ _)
        fun users => ?_
      split
      · exact h.policies.quiet_delete _
      · exact .throw rfl

theorem quiet_assignPolicy (policy : String) (i creator : Identity) :
    (h.assignPolicy policy i creator).Quiet := by
  unfold assignPolicy
  split
  · exact .throw rfl
  · exact (Quiet.ofExcept Identity.quiet_check).bind fun _ => h.quiet_ensureRegistered.bind fun _ =>
      (h.quiet_getPolicy _).bind fun _ => Quiet.time.bind fun _ =>
        (h.assignments.quiet_replace _ _).bind fun _ => .pure _

theorem quiet_resolvePolicy (i : Identity) : (h.resolvePolicy i).Quiet := by
  have hresolve : (h.resolve i).Quiet := by
    refine (h.quiet_findAssignment i).bind fun found => ?_
    cases found with
    | some a => exact .pure _
    | none => exact .throw rfl
  exact hresolve.bind fun _ => (h.quiet_getPolicy _).bind fun _ => .pure _

theorem quiet_describeIdentity (i : Identity) : (h.describeIdentity i).Quiet := by
  refine (h.quiet_findAssignment i).bind fun found => ?_
  cases found with
  | some a => exact .pure _
  | none => exact .throw rfl

theorem quiet_unassign (i : Identity) : (h.unassign i).Quiet := by
  unfold unassign
  split
  · exact .pure _
  · exact (Quiet.ofExcept Identity.quiet_check).bind fun _ => h.assignments.quiet_delete _

end Enclave

/-! ### The registry -/

namespace Registry

open View (QuietError)

theorem quiet_purgeSpaces {spaces : List String}
    (hplain : ∀ space ∈ spaces, Glob.hasMeta space = false) {earlier : Option Error}
    (hearlier : QuietError earlier) :
    (purgeSpaces earlier spaces).Keeps .quiet QuietError fun e => e.blamesNamespace = false := by
  induction spaces generalizing earlier with
  | nil => exact hearlier
  | cons space spaces ih =>
      obtain ⟨hspace, hspaces⟩ := List.forall_mem_cons.1 hplain
      have henter : View.whole.enter space = .ok (.under space .whole) :=
        View.enter_eq_ok_iff.2 ⟨hspace, rfl⟩
      refine Routine.Keeps.check (fun e he => ?_) fun view _ => ?_
      · cases henter.symm.trans he
      · refine Routine.Keeps.bind (Routine.Keeps.lift view.quiet_purge) fun failure hfailure => ?_
        exact ih hspaces (hearlier.first hfailure)

variable {l : Layout} (hplain : Glob.hasMeta l.root = false) {name : String}

include hplain

theorem quiet_purge (hname : ValidName name) : (l.catalog.purge name).Quiet := by
  have hspaces : ∀ space ∈ [l.keys name, l.policies name, l.identities name],
      Glob.hasMeta space = false := by
    simp only [List.forall_mem_cons]
    exact ⟨Layout.hasMeta_space hplain hname .key, Layout.hasMeta_space hplain hname .policy,
      Layout.hasMeta_space hplain hname .assignment, List.forall_mem_nil _⟩
  refine Routine.Keeps.bind (quiet_purgeSpaces hspaces nofun) fun failure hfailure => ?_
  cases failure with
  | some e => exact .throw (hfailure e rfl)
  | none => exact .pure trivial

theorem quiet_create (creator : Identity) : (l.catalog.create name creator).Quiet := by
  unfold create
  refine Routine.Keeps.check quiet_checkEnclaveName fun _ hchecked => ?_
  have hname := (checkEnclaveName_eq_ok_iff.1 hchecked).toValidName
  refine (l.catalog.cabinet.quiet_find? name).bind fun found => ?_
  split
  · exact .throw rfl
  · refine (quiet_purge hplain hname).bind fun _ => Quiet.time.bind fun _ =>
      Quiet.bind ?_ fun _ => .pure _
    refine (l.catalog.cabinet.quiet_create _ _).mapError fun e he => ?_
    cases e <;> first | rfl | exact he

omit hplain in
/-- Only a valid name is described. -/
theorem quiet_describe (r : Registry) (name : String) :
    (r.describe name).Keeps .quiet (fun _ => ValidName name)
      fun e => e.blamesNamespace = false := by
  refine Routine.Keeps.check quiet_checkEnclaveName fun _ hchecked => ?_
  have hname := (checkEnclaveName_eq_ok_iff.1 hchecked).toValidName
  refine Routine.Keeps.bind (r.cabinet.quiet_find? name) fun found _ => ?_
  cases found with
  | some _ => exact .pure hname
  | none => exact .throw rfl

theorem quiet_ensure (creator : Identity) : (l.catalog.ensure name creator).Quiet := by
  refine (quiet_create hplain creator).handle (fun _ => .pure _) fun e he => ?_
  cases e <;> first | exact .of_keeps (quiet_describe _ _) | exact .throw he

theorem quiet_delete : (l.catalog.delete name).Quiet :=
  Routine.Keeps.bind (quiet_describe _ _) fun _ hname =>
    (quiet_purge hplain hname).bind fun _ => l.catalog.cabinet.quiet_delete _

end Registry

/-! ### The service -/

theorem Authorizer.quiet_decide (a : Authorizer) (h : Enclave) (i : Identity) (path : String) :
    (a.decide h i path).Quiet := by
  unfold decide
  split
  · exact .pure _
  split
  · exact .pure _
  refine (h.quiet_resolvePolicy i).handle (fun _ => .pure _) fun e he => ?_
  cases e <;> first | exact .pure _ | exact .throw he

namespace Service

theorem quiet_assignOne (s : Service) (h : Enclave) (caller : Identity) (policy : String)
    (i : Identity) : (s.assignOne h caller policy i).Quiet := by
  unfold assignOne
  by_cases hadmin : s.authorizer.isAdmin i = true
  · rw [if_pos hadmin]
    exact .throw rfl
  rw [if_neg hadmin]
  by_cases hself : i = caller
  · rw [if_pos hself]
    exact .throw rfl
  rw [if_neg hself]
  exact (h.quiet_assignPolicy _ _ _).bind fun _ => .pure _

/-- No item of a list blames a namespace. -/
def QuietOutcomes (outcomes : List Outcome) : Prop :=
  ∀ o ∈ outcomes, ∀ e, o.result = .error e → e.blamesNamespace = false

/-- No item of the reply blames a namespace. -/
def QuietReply : Reply → Prop
  | .outcomes outcomes => QuietOutcomes outcomes
  | _ => True

theorem quiet_assignEach (s : Service) (h : Enclave) (caller : Identity) (policy : String)
    (identities : List Identity) :
    (s.assignEach h caller policy identities).Keeps .quiet QuietOutcomes := by
  induction identities with
  | nil => exact List.forall_mem_nil _
  | cons i identities ih =>
      refine Program.Keeps.bind (s.quiet_assignOne h caller policy i) fun r hr =>
        Program.Keeps.bind ih fun more hmore => ?_
      refine List.forall_mem_cons.2 ⟨fun e he => ?_, hmore⟩
      cases r with
      | ok _ => cases he
      | error e' => exact Except.error.inj he ▸ hr

/-- A value that is told as a reply without items. -/
theorem quiet_told {α : Type} {a : Routine α} {f : α → Reply} (ha : a.Quiet)
    (hf : ∀ x, QuietReply (f x)) :
    (a >>= fun x => pure (f x)).Keeps .quiet QuietReply fun e => e.blamesNamespace = false :=
  Routine.Keeps.bind ha fun x _ => hf x

variable {s : Service} {l : Layout} (hover : s.Over l)

include hover

/-- A handle is refused for its name only. -/
theorem Over.handle_eq_error_iff {name : String} {e : Error} :
    s.registry.handle name = .error e ↔ checkEnclaveName name = .error e := by
  cases hchecked : checkEnclaveName name with
  | ok _ =>
      have hvalid := checkEnclaveName_eq_ok_iff.1 hchecked
      rw [hover.handle_eq_ok_iff.2 ⟨hvalid, rfl⟩]
      exact iff_of_false nofun nofun
  | error e' =>
      have hhandle : s.registry.handle name = .error e' := by
        unfold Registry.handle
        rw [hchecked]
        rfl
      rw [hhandle, Except.error.injEq, Except.error.injEq]

theorem quiet_gate (caller : Identity) (enclave : String) (op : Operation) :
    (s.gate caller enclave op).Quiet := by
  unfold gate
  refine Routine.Keeps.check (fun e he => quiet_checkEnclaveName e (hover.handle_eq_error_iff.1 he))
    fun h _ => ?_
  refine Quiet.bind ?_ fun _ => h.quiet_ensureRegistered.bind fun _ => .pure _
  refine (s.authorizer.quiet_decide h caller op.path).bind fun decision => ?_
  cases decision with
  | allow => exact .pure _
  | deny => exact .throw rfl

theorem quiet_body (caller : Identity) (h : Enclave) (command : Command) :
    (s.body caller h command).Keeps .quiet QuietReply fun e => e.blamesNamespace = false := by
  cases command with
  | createKey name value => exact quiet_told (h.quiet_createKey name value caller) fun _ => trivial
  | getKey name => exact quiet_told (h.quiet_getKey name) fun _ => trivial
  | describeKey name =>
      exact quiet_told ((h.quiet_getKey name).bind fun _ => .pure _) fun _ => trivial
  | deleteKey name => exact quiet_told (h.quiet_deleteKey name) fun _ => trivial
  | listKeys pattern => exact quiet_told (h.keys.quiet_list pattern) fun _ => trivial
  | createPolicy name policy =>
      exact quiet_told (h.quiet_setPolicy name policy caller) fun _ => trivial
  | getPolicy name => exact quiet_told (h.quiet_getPolicy name) fun _ => trivial
  | describePolicy name =>
      exact quiet_told ((h.quiet_getPolicy name).bind fun _ => .pure _) fun _ => trivial
  | deletePolicy name => exact quiet_told (h.quiet_deletePolicy name) fun _ => trivial
  | listPolicies pattern => exact quiet_told (h.policies.quiet_list pattern) fun _ => trivial
  | assignPolicy policy identities =>
      have heach := s.quiet_assignEach h caller policy identities
      exact Routine.Keeps.bind (Routine.Keeps.lift heach) fun _ houtcomes => houtcomes
  | describeIdentity i => exact quiet_told (h.quiet_describeIdentity i) fun _ => trivial
  | deleteIdentity i => exact quiet_told (h.quiet_unassign i) fun _ => trivial
  | listIdentities pattern => exact quiet_told (h.assignments.quiet_list pattern) fun _ => trivial
  | createEnclave name =>
      dsimp only [body]
      rw [hover.registry_eq]
      exact quiet_told (Registry.quiet_create hover.plain caller) fun _ => trivial
  | describeEnclave name =>
      exact quiet_told (.of_keeps (s.registry.quiet_describe name)) fun _ => trivial
  | deleteEnclave name =>
      dsimp only [body]
      rw [hover.registry_eq]
      split
      · exact Routine.Keeps.throw rfl
      · exact quiet_told (Registry.quiet_delete hover.plain) fun _ => trivial
  | listEnclaves pattern =>
      exact quiet_told (s.registry.cabinet.quiet_list pattern) fun _ => trivial
  | status => exact quiet_told Routine.quiet_status fun _ => trivial

theorem quiet_perform (caller : Identity) (enclave : String) (command : Command) :
    (s.perform caller enclave command).Keeps .quiet QuietReply
      fun e => e.blamesNamespace = false := by
  have hbehind := Routine.Keeps.bind
    (quiet_gate hover caller (target command enclave) command.operation)
    fun h _ => quiet_body hover caller h command
  -- the event is put on the trail without the store
  exact Program.Keeps.bind hbehind fun outcome houtcome =>
    ⟨trivial, fun _ _ => ⟨trivial, fun _ _ => ⟨trivial, fun _ _ => houtcome⟩⟩⟩

theorem quiet_describeSelf (caller : Identity) (enclave : String) :
    (s.describeSelf caller enclave).Quiet := by
  unfold describeSelf
  split
  · exact .throw rfl
  have hregistered : (s.registry.registered (s.enclaveName enclave)).Quiet :=
    Routine.Keeps.check (fun e he => quiet_checkEnclaveName e (hover.handle_eq_error_iff.1 he))
      fun h _ => h.quiet_ensureRegistered.bind fun _ => .pure _
  refine hregistered.handle (fun h => ?_) fun e he => ?_
  · dsimp only
    split
    · exact .pure _
    refine (h.quiet_describeIdentity caller).handle (fun _ => ?_) fun e he => ?_
    · exact (h.quiet_getPolicy _).bind fun _ => .pure _
    · cases e <;> first | exact .throw rfl | exact .throw he
  · cases e with
    | notFound what =>
        dsimp only
        split
        · exact .throw rfl
        · exact .throw rfl
    | _ => exact .throw he

theorem quiet_init : s.init.Quiet := by
  unfold init
  rw [hover.registry_eq]
  exact (Registry.quiet_ensure hover.plain _).bind fun _ => .pure _

end Service

end KeyCustody
