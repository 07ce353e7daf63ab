import KeyCustody.Proofs.Authorization
import KeyCustody.Proofs.Purging

/-!
# Overwriting a record

A record is overwritten by removing it and creating it anew, and nothing promises that the
second step succeeds once the first one did.  So what a failed overwrite leaves behind
depends on how far it came.  The *trace* of a run tells: it lists the requests of the run,
each with the answer that it got.

`LeavesOld` says what a run may do to the record under a name.  As long as no removal of
the name succeeded, the record stays as it was; once one did, the creation that followed
failed and nothing is stored.  There is no third outcome: no failed run leaves another
record.  The relation composes along a run (`LeavesOld.trans`), requests for other
names keep it (`Program.Keeps.leavesOld`), and so does an overwrite that fails
(`Cabinet.leavesOld_replaceValue`).  Main statements:

* `Service.failed_overwrite`: this is what failed overwrites of policies and assignments do,
  under all mishaps;
* `Service.overwrite_loses_old`: a failed overwrite may lose the record.
-/

namespace KeyCustody

/-! ### Traces -/

/-- A request and the answer that it got. -/
abbrev Exchange : Type := (r : Request) × r.Answer

namespace Program

variable {α β σ : Type} [Mishaps σ]

/-- The requests of a run, each with its answer. -/
def trace (c : Context) : Program α → World σ → List Exchange
  | .done _, _ => []
  | .ask r next, w =>
    ⟨r, (w.answer c r).1⟩ :: (next (w.answer c r).1).trace c (w.answer c r).2

/-- The trace of one program after the other. -/
theorem trace_bind (c : Context) (p : Program α) (f : α → Program β) (w : World σ) :
    (p >>= f).trace c w = p.trace c w ++ (f (p.run c w).1).trace c (p.run c w).2 := by
  induction p generalizing w with
  | done a => rfl
  | ask r next ih => exact congrArg (_ :: ·) (ih _ _)

end Program

/-! ### What a run may do to a record -/

/-- The exchanges leave the record under a name as it was, or they removed it and the
creation that followed failed. -/
structure LeavesOld (full : String) (exchanges : List Exchange) (before after : Backend) :
    Prop where
  kept : ⟨.delete full, .ok ()⟩ ∉ exchanges → after.stored? full = before.stored? full
  lost : ⟨.delete full, .ok ()⟩ ∈ exchanges → after.stored? full = none ∧
    ∃ value e, [⟨.delete full, .ok ()⟩, ⟨.create full value, .error e⟩] <:+: exchanges

namespace LeavesOld

variable {full : String} {t t' : List Exchange} {a b b' : Backend}

theorem refl (full : String) (b : Backend) : LeavesOld full [] b b :=
  ⟨fun _ => rfl, fun h => by cases h⟩

/-- Exchanges in which nothing was removed. -/
theorem of_kept (hkept : ⟨.delete full, .ok ()⟩ ∉ t)
    (hsame : b.stored? full = a.stored? full) : LeavesOld full t a b :=
  ⟨fun _ => hsame, fun h => absurd h hkept⟩

/-- Exchanges after exchanges.  What was lost is not found again, and may be lost again. -/
theorem trans (h : LeavesOld full t a b) (h' : LeavesOld full t' b b') :
    LeavesOld full (t ++ t') a b' := by
  constructor
  · intro hkept
    rw [List.mem_append, not_or] at hkept
    rw [h'.kept hkept.2, h.kept hkept.1]
  · intro hremoved
    by_cases hlater : ⟨.delete full, .ok ()⟩ ∈ t'
    · obtain ⟨hnone, value, e, hfailed⟩ := h'.lost hlater
      exact ⟨hnone, value, e, hfailed.trans (List.suffix_append t t').isInfix⟩
    · have hearlier := (List.mem_append.1 hremoved).resolve_right hlater
      obtain ⟨hnone, value, e, hfailed⟩ := h.lost hearlier
      exact ⟨(h'.kept hlater).trans hnone, value, e,
        hfailed.trans (List.prefix_append t t').isInfix⟩

end LeavesOld

/-- The request neither removes nor creates the name. -/
def Request.Avoids (full : String) (r : Request) : Prop :=
  ¬ r.Removes full ∧ ¬ r.Creates full

namespace World

variable {σ : Type} [Mishaps σ] {full : String} {r : Request}

/-- What a request avoids stays as it is. -/
theorem stored?_answer_of_avoids (hr : r.Avoids full) (c : Context) (w : World σ) :
    (w.answer c r).2.backend.stored? full = w.backend.stored? full := by
  cases hheld : w.backend.stored? full with
  | some value => exact stored?_answer_of_not_removes hr.1 c hheld
  | none =>
      rcases stored?_answer_of_not_creates hr.2 c w with hsame | hlost
      · rw [hsame, hheld]
      · exact hlost

/-- One request that avoids the name. -/
theorem leavesOld_answer (hr : r.Avoids full) (c : Context) (w : World σ) :
    LeavesOld full [⟨r, (w.answer c r).1⟩] w.backend (w.answer c r).2.backend := by
  refine .of_kept ?_ (stored?_answer_of_avoids hr c w)
  intro hmem
  obtain ⟨rfl, -⟩ := Sigma.mk.inj (List.mem_singleton.1 hmem)
  exact hr.1 rfl

end World

namespace Program

variable {α β : Type} {full : String}

/-- Whenever a run of the program ends as given, it leaves the record or loses it. -/
def LeavesOld (σ : Type) [Mishaps σ] (full : String) (ended : α → Prop) (p : Program α) : Prop :=
  ∀ (c : Context) (w : World σ), ended (p.run c w).1 →
    KeyCustody.LeavesOld full (p.trace c w) w.backend (p.run c w).2.backend

variable {σ : Type} [Mishaps σ]

/-- **Programs that avoid a name** leave the record under it. -/
theorem Keeps.leavesOld {fits : α → Prop} {p : Program α}
    (h : p.Keeps (.asking (Request.Avoids full)) fits) (ended : α → Prop) :
    p.LeavesOld σ full ended := by
  rintro c w -
  suffices hrun : ∀ w : World σ,
      KeyCustody.LeavesOld full (p.trace c w) w.backend (p.run c w).2.backend from hrun w
  induction p with
  | done a => exact fun w => .refl full w.backend
  | ask r next ih =>
      intro w
      have hfirst := w.leavesOld_answer h.1 c
      have hrest := ih _ (h.2 (w.answer c r).1 trivial) (w.answer c r).2
      exact hfirst.trans hrest

/-- One program after the other.  What the second one ends with tells that the first one
ended as given. -/
theorem LeavesOld.bind {ended : α → Prop} {ended' : β → Prop} {p : Program α}
    {f : α → Program β} (hp : p.LeavesOld σ full ended)
    (hf : ∀ a, (f a).LeavesOld σ full ended')
    (hback : ∀ a (c : Context) (w : World σ), ended' ((f a).run c w).1 → ended a) :
    (p >>= f).LeavesOld σ full ended' := by
  intro c w hend
  rw [run_bind] at hend
  rw [trace_bind, run_bind]
  have hfirst := hback _ _ _ hend
  exact (hp c w hfirst).trans (hf _ c _ hend)

/-- A program that avoids the name, and then another. -/
theorem Keeps.leavesOld_bind {fits : α → Prop} {ended : β → Prop} {p : Program α}
    {f : α → Program β} (hp : p.Keeps (.asking (Request.Avoids full)) fits)
    (hf : ∀ a, fits a → (f a).LeavesOld σ full ended) : (p >>= f).LeavesOld σ full ended := by
  intro c w hend
  have hfits := (hp.run c (fun _ => True) (fun _ _ _ _ => ⟨trivial, trivial⟩) (w := w) trivial).1
  rw [run_bind] at hend
  rw [trace_bind, run_bind]
  have hfirst := hp.leavesOld (fun _ => True) c w trivial
  exact hfirst.trans (hf _ hfits c _ hend)

end Program

namespace Routine

variable {α β σ : Type} [Mishaps σ] {full : String}

/-- Whenever a run of the routine ends with an error, it leaves the record or loses it. -/
def FailsSafely (σ : Type) [Mishaps σ] (full : String) (a : Routine α) : Prop :=
  a.attempt.LeavesOld σ full fun r => ∃ e, r = .error e

theorem FailsSafely.throw {e : Error} :
    (MonadExcept.throw e : Routine α).FailsSafely σ full :=
  fun _ w _ => .refl full w.backend

/-- A routine that avoids the name, and then one that fails safely. -/
theorem FailsSafely.after {good : α → Prop} {a : Routine α} {f : α → Routine β}
    (ha : a.Keeps (.asking (Request.Avoids full)) good fun _ => True)
    (hf : ∀ x, good x → (f x).FailsSafely σ full) : (a >>= f).FailsSafely σ full := by
  unfold FailsSafely
  rw [attempt_bind]
  refine Program.Keeps.leavesOld_bind ha fun r hr => ?_
  cases r with
  | ok x => exact hf x hr
  | error e => exact fun _ w _ => .refl full w.backend

/-- A check in front of a routine that fails safely. -/
theorem FailsSafely.check {r : Except Error α} {f : α → Routine β}
    (hf : ∀ x, r = .ok x → (f x).FailsSafely σ full) :
    (Routine.ofExcept r >>= f).FailsSafely σ full := by
  cases r with
  | ok x => exact hf x rfl
  | error e => exact .throw

/-- A routine that fails safely, and then a value. -/
theorem FailsSafely.map {a : Routine α} (ha : a.FailsSafely σ full) (f : α → β) :
    (a >>= fun x => pure (f x) : Routine β).FailsSafely σ full := by
  unfold FailsSafely
  rw [attempt_bind]
  refine Program.LeavesOld.bind ha (fun r => ?_) fun r c w hend => ?_
  · cases r <;> exact fun _ w _ => .refl full w.backend
  · cases r with
    | ok x =>
        obtain ⟨e, he⟩ := hend
        cases he
    | error e => exact ⟨e, rfl⟩

end Routine

/-! ### Failed replacements -/

section Replacement

variable {σ : Type} [Mishaps σ]

/-- A removal that succeeded and a creation that failed. -/
theorem World.leavesOld_remove_create (w : World σ) (c : Context) {full : String}
    {value : Bytes} {e : Error}
    (hremoved : (w.answer c (.delete full)).1 = .ok ())
    (hfailed : ((w.answer c (.delete full)).2.answer c (.create full value)).1 = .error e) :
    LeavesOld full [⟨.delete full, .ok ()⟩, ⟨.create full value, .error e⟩] w.backend
      ((w.answer c (.delete full)).2.answer c (.create full value)).2.backend := by
  have hnone : (w.answer c (.delete full)).2.backend.stored? full = none := by
    rcases w.answer_delete_cases c full with ⟨e', hrefused, -⟩ | ⟨-, hheld⟩
    · rw [hremoved] at hrefused
      cases hrefused
    · rw [hheld, if_pos rfl]
  have hsame : ((w.answer c (.delete full)).2.answer c (.create full value)).2.backend =
      (w.answer c (.delete full)).2.backend := by
    rcases (w.answer c (.delete full)).2.answer_create_cases c full value with
      ⟨e', -, hsame⟩ | ⟨hstored, -⟩
    · exact hsame
    · rw [hfailed] at hstored
      cases hstored
  refine ⟨fun hkept => ?_, fun _ => ⟨by rw [hsame, hnone], value, e, List.infix_rfl⟩⟩
  exact absurd List.mem_cons_self hkept

namespace View

theorem fullName_ne (v : View) {name : String} (hname : name ≠ "") : v.fullName name ≠ "" := by
  induction v generalizing name with
  | whole => exact hname
  | under space inner ih => exact ih (extend_ne hname)

/-- An error of a creation as the view tells it to whoever named the name. -/
def tell : View → String → Error → Error
  | .whole, _ => id
  | .under _ _, name => renameTaken name

/-- Told once more, an error is told by the outermost view. -/
theorem renameTaken_tell (v : View) (name inside : String) (e : Error) :
    renameTaken name (v.tell inside e) = renameTaken name e := by
  cases v with
  | whole => rfl
  | under => cases e <;> rfl

/-- A removal through any view is one request for the full name. -/
theorem delete_eq_ask (v : View) {name : String} (hname : name ≠ "") :
    (v.delete name).attempt = .ask (.delete (v.fullName name)) .done := by
  induction v generalizing name with
  | whole => rfl
  | under space inner ih =>
      rw [View.delete, requireKey_of_ne hname]
      exact ih (extend_ne hname)

/-- A creation through any view is one request for the full name. -/
theorem create_eq_ask (v : View) {name : String} (hname : name ≠ "") (value : Bytes) :
    (v.create name value).attempt = .ask (.create (v.fullName name) value) fun x =>
      .done (x.mapError (v.tell name)) := by
  induction v generalizing name with
  | whole =>
      refine congrArg (Program.ask _) (funext fun x => ?_)
      cases x <;> rfl
  | under space inner ih =>
      rw [View.create, requireKey_of_ne hname]
      change (inner.create (space ++ name) value).attempt >>= _ = _
      rw [ih (extend_ne hname)]
      refine congrArg (Program.ask _) (funext fun x => ?_)
      cases x with
      | ok _ => rfl
      | error e => exact congrArg (fun e => Program.done (Except.error e)) (renameTaken_tell inner name _ e)

end View

namespace Cabinet

variable {space name : String} {value : Bytes}

/-- One attempt at a replacement: a removal, a creation if that succeeded, and a further
attempt if the name was taken. -/
theorem replaceValue_attempt (v : View) (hname : name ≠ "") (n : Nat) :
    (replaceValue v name value (n + 1)).attempt =
      .ask (.delete (v.fullName name)) fun
        | .error e => .done (.error e)
        | .ok () => .ask (.create (v.fullName name) value) fun
          | .ok () => .done (.ok ())
          | .error (.alreadyExists _) => (replaceValue v name value n).attempt
          | .error e => .done (.error e) := by
  rw [replaceValue, Routine.attempt_bind, v.delete_eq_ask hname]
  refine congrArg (Program.ask _) (funext fun removed => ?_)
  cases removed with
  | error e => rfl
  | ok _ =>
      change (v.create name value).attempt >>= _ = _
      rw [v.create_eq_ask hname]
      refine congrArg (Program.ask _) (funext fun created => ?_)
      cases created with
      | ok _ => rfl
      | error e => cases v <;> cases e <;> rfl

/-- **A replacement fails safely**, however often it is tried. -/
theorem failsSafely_replaceValue (hname : name ≠ "") (n : Nat) :
    (replaceValue (.under space .whole) name value n).FailsSafely σ (space ++ name) := by
  induction n with
  | zero => exact .throw
  | succ n ih =>
      unfold Routine.FailsSafely
      rw [replaceValue_attempt _ hname]
      intro c w hend
      simp only [View.fullName, Program.run, Program.trace] at hend ⊢
      cases hremoved : (w.answer c (.delete (space ++ name))).1 with
      | error e =>
          -- nothing was removed
          rcases w.answer_delete_cases c (space ++ name) with ⟨e', -, hsame⟩ | ⟨hok, -⟩
          · refine .of_kept ?_ (congrArg (Backend.stored? · _) hsame)
            intro hmem
            cases (Sigma.mk.inj (List.mem_singleton.1 hmem)).2
          · rw [hremoved] at hok
            cases hok
      | ok _ =>
          rw [hremoved] at hend
          simp only [Program.run, Program.trace] at hend ⊢
          cases hcreated : ((w.answer c (.delete (space ++ name))).2.answer c
              (.create (space ++ name) value)).1 with
          | ok _ =>
              rw [hcreated] at hend
              obtain ⟨e, he⟩ := hend
              cases he
          | error e =>
              rw [hcreated] at hend
              have hattempt := w.leavesOld_remove_create c hremoved hcreated
              cases e with
              | alreadyExists taken => exact hattempt.trans (ih c _ hend)
              | _ => exact hattempt.trans (.refl _ _)

end Cabinet

end Replacement

/-! ### Failed calls -/

/-- Whatever is no write avoids every name. -/
theorem Request.avoids_of_read {r : Request} (hread : r.isWrite = false) (full : String) :
    r.Avoids full := by
  cases r <;> first
    | exact ⟨id, id⟩
    | cases hread

variable {σ : Type} [Mishaps σ] {l : Layout} {e : String}

/-- Setting a policy fails safely. -/
theorem Enclave.failsSafely_setPolicy {name : String} {policy : Policy} {creator : Identity} :
    ((l.handle e).setPolicy name policy creator).FailsSafely σ (l.space .policy e ++ name) := by
  have hread (r : Request) (h : r.isWrite = false) := Request.avoids_of_read h
    (l.space .policy e ++ name)
  unfold setPolicy
  refine .after (keeps_ensureRegistered (hread _ rfl)) fun _ _ => ?_
  refine .check fun _ hpassed => ?_
  have hname := (checkName_eq_ok_iff.1 hpassed).nonempty
  refine .check fun _ _ => ?_
  refine .after (Routine.Keeps.time (hread _ rfl)) fun time _ => ?_
  exact .map (Cabinet.failsSafely_replaceValue hname _) _

/-- Assigning a policy fails safely. -/
theorem Enclave.failsSafely_assignPolicy {policy : String} {i creator : Identity} :
    ((l.handle e).assignPolicy policy i creator).FailsSafely σ
      (l.space .assignment e ++ i.text) := by
  have hread (r : Request) (h : r.isWrite = false) := Request.avoids_of_read h
    (l.space .assignment e ++ i.text)
  unfold assignPolicy
  split
  · exact .throw
  · refine .check fun _ hpassed => ?_
    have hname := (Identity.check_eq_ok_iff.1 hpassed).known
    refine .after (keeps_ensureRegistered (hread _ rfl)) fun _ _ => ?_
    refine .after (keeps_getPolicy (hread _ rfl)) fun _ _ => ?_
    refine .after (Routine.Keeps.time (hread _ rfl)) fun time _ => ?_
    exact .map (Cabinet.failsSafely_replaceValue hname _) _

namespace Service

variable {s : Service} {caller : Identity}

/-- One item of an assignment.  It avoids the records of all identities but its own. -/
theorem leavesOld_assignOne {policy : String} (i j : Identity) :
    (s.assignOne (l.handle e) caller policy j).attempt.LeavesOld σ
      (l.space .assignment e ++ i.text) fun r => j = i → ∃ err, r = .error err := by
  by_cases hij : j = i
  · subst hij
    have hsafe : (s.assignOne (l.handle e) caller policy j).FailsSafely σ
        (l.space .assignment e ++ j.text) := by
      unfold assignOne
      by_cases hadmin : s.authorizer.isAdmin j = true
      · rw [if_pos hadmin]
        exact fun _ w _ => .refl _ w.backend
      rw [if_neg hadmin]
      by_cases hself : j = caller
      · rw [if_pos hself]
        exact fun _ w _ => .refl _ w.backend
      rw [if_neg hself]
      exact .map Enclave.failsSafely_assignPolicy _
    exact fun c w hend => hsafe c w (hend rfl)
  · have hother : l.space .assignment e ++ j.text ≠ l.space .assignment e ++ i.text := by
      intro hsame
      exact hij (Identity.text_inj.1 ((String.append_right_inj _).1 hsame))
    have havoids : (s.assignOne (l.handle e) caller policy j).Keeps
        (.asking (Request.Avoids (l.space .assignment e ++ i.text))) (fun _ => True)
        fun _ => True := by
      refine keeps_assignOne ⟨id, id⟩ ⟨id, id⟩ ⟨id, id⟩ ?_ ?_
      · exact fun _ _ _ => ⟨hother, id⟩
      · exact fun _ _ _ _ _ _ _ _ => ⟨id, hother⟩
    exact Program.Keeps.leavesOld havoids _

/-- The items of an assignment, if all that name the identity fail. -/
theorem leavesOld_assignEach {policy : String} (i : Identity) (identities : List Identity) :
    (s.assignEach (l.handle e) caller policy identities).LeavesOld σ
      (l.space .assignment e ++ i.text) fun outcomes =>
        ∀ x ∈ identities.zip outcomes, x.1 = i → ∃ err, x.2.result = .error err := by
  induction identities with
  | nil => exact fun _ w _ => .refl _ w.backend
  | cons j identities ih =>
      unfold assignEach
      refine Program.LeavesOld.bind (leavesOld_assignOne i j) (fun r => ?_) ?_
      · refine Program.LeavesOld.bind ih (fun more => ?_) ?_
        · exact fun _ w _ => .refl _ w.backend
        · intro more c w hend x hx
          exact hend x (List.mem_cons_of_mem _ hx)
      · intro r c w hend
        rw [Program.run_bind] at hend
        exact hend (j, ⟨j.display, r⟩) List.mem_cons_self

/-- What a gated call does to a record, its body does. -/
theorem leavesOld_gated {α : Type} {enclave : String} {op : Operation}
    {body : Enclave → Routine α} {full : String} {ended : Except Error α → Prop}
    (hover : s.Over l)
    (hbody : (body (l.handle (s.scope enclave op))).attempt.LeavesOld σ full ended) :
    (s.gated caller enclave op body).attempt.LeavesOld σ full ended := by
  have hread (r : Request) (h : r.isWrite = false) := Request.avoids_of_read h full
  have hgate : (s.gate caller enclave op).Keeps (.asking (Request.Avoids full))
      (fun h => h = l.handle (s.scope enclave op)) fun _ => True :=
    Routine.Keeps.weaken (keeps_gate hover fun _ _ _ => hread _ rfl) (fun _ h => h.1)
      fun _ => id
  have hrest : (s.gate caller enclave op >>= body).attempt.LeavesOld σ full ended := by
    rw [Routine.attempt_bind]
    refine Program.Keeps.leavesOld_bind hgate fun r hr => ?_
    cases r with
    | ok h =>
        obtain rfl : h = _ := hr
        exact hbody
    | error err => exact fun _ w _ => .refl full w.backend
  refine Program.LeavesOld.bind hrest (fun outcome => ?_) fun outcome c w hend => hend
  have hreport : (s.report caller enclave op outcome).Keeps (.asking (Request.Avoids full))
      fun _ => True := keeps_report (hread _ rfl) (hread _ rfl) (fun _ => hread _ rfl) outcome
  exact Program.Keeps.leavesOld hreport _

/-- **Failed overwrites.**  Under all mishaps, a call that sets a policy and ends with an
error, and one that assigns a policy and fails for every item that names the identity, leave
the record as it was, or they removed it and failed to create it anew.  Then nothing is
stored under its name. -/
theorem failed_overwrite {settings : Settings} (hmade : ofSettings settings = .ok s)
    (c : Context) (w : World σ) (enclave : String) :
    let l : Layout := ⟨settings.keyPrefix⟩
    let e := s.enclaveName enclave
    (∀ (name : String) (policy : Policy) (err : Error),
      let call := (s.perform caller enclave (.createPolicy name policy)).attempt
      (call.run c w).1 = .error err →
        LeavesOld (l.policies e ++ name) (call.trace c w) w.backend (call.run c w).2.backend) ∧
    ∀ (policy : String) (identities : List Identity) (i : Identity),
      let call := (s.perform caller enclave (.assignPolicy policy identities)).attempt
      (∀ outcomes, (call.run c w).1 = .ok (.outcomes outcomes) →
        ∀ x ∈ identities.zip outcomes, x.1 = i → ∃ err, x.2.result = .error err) →
      LeavesOld (l.identities e ++ i.text) (call.trace c w) w.backend
        (call.run c w).2.backend := by
  intro l e
  have hover := over_of_ofSettings hmade
  constructor
  · intro name policy err call herr
    have hbody : (s.body caller (l.handle e) (.createPolicy name policy)).FailsSafely σ
        (l.space .policy e ++ name) := .map Enclave.failsSafely_setPolicy _
    have hcall : call.LeavesOld σ (l.space .policy e ++ name) fun r => ∃ err, r = .error err :=
      leavesOld_gated hover hbody
    exact hcall c w ⟨err, herr⟩
  · intro policy identities i call hfailed
    have hbody : (s.body caller (l.handle e) (.assignPolicy policy identities)).attempt.LeavesOld
        σ (l.space .assignment e ++ i.text) fun r => ∀ outcomes, r = .ok (.outcomes outcomes) →
          ∀ x ∈ identities.zip outcomes, x.1 = i → ∃ err, x.2.result = .error err := by
      change Program.LeavesOld σ _ _ (Routine.attempt (ExceptT.lift _ >>= fun outcomes =>
        pure (Reply.outcomes outcomes)))
      rw [Routine.lift_bind]
      refine Program.LeavesOld.bind (leavesOld_assignEach i identities) (fun outcomes => ?_) ?_
      · exact fun _ w _ => .refl _ w.backend
      · exact fun outcomes c w hend => hend outcomes rfl
    have hcall : call.LeavesOld σ (l.space .assignment e ++ i.text) _ :=
      leavesOld_gated hover hbody
    exact hcall c w hfailed

/-- A policy is set over another one, and the store fails when the old one is removed. -/
theorem failed_overwrite_at_removal :
    let s : Service := ⟨Layout.catalog ⟨""⟩, .ofAdmin (some ⟨"root"⟩), "default", 30⟩
    let time := (World.calm (.memory .empty)).clock 0
    let old := Record.encode (Policy.ofRules ["/v1/key/get/*"] [])
    let b : Backend := .memory ((Table.empty.insert "sys/enclaves/default"
      (Record.encode (⟨time, ⟨"root"⟩⟩ : Registration))).insert "enclaves/default/policies/p" old)
    let down : Mishap := ⟨none, none, some (.unreachable "down")⟩
    let w := World.stormy b fun n => if n = 2 then down else .nothing
    let call := (s.perform ⟨"root"⟩ "" (.createPolicy "p" (.ofRules ["*"] []))).attempt
    ofSettings { Settings.default with admin := some ⟨"root"⟩ } = .ok s ∧
      (call.run (.ofToken []) w).1 = .error (.unreachable "down") ∧
      LeavesOld "enclaves/default/policies/p" (call.trace (.ofToken []) w) b
        (call.run (.ofToken []) w).2.backend := by
  intro s time old b down w call
  have hmade : ofSettings { Settings.default with admin := some ⟨"root"⟩ } = .ok s := rfl
  have hfails : (call.run (.ofToken []) w).1 = .error (.unreachable "down") := by
    decide +kernel
  refine ⟨hmade, hfails, ?_⟩
  exact (failed_overwrite hmade (.ofToken []) w "").1 "p" (.ofRules ["*"] []) _ hfails

/-- A policy is set over another one.  The old one is removed, and then the store fails: the
call ends with an error, and neither policy is stored. -/
theorem overwrite_loses_old :
    let s : Service := ⟨Layout.catalog ⟨""⟩, .ofAdmin (some ⟨"root"⟩), "default", 30⟩
    let time := (World.calm (.memory .empty)).clock 0
    let old := Record.encode (Policy.ofRules ["/v1/key/get/*"] [])
    let b : Backend := .memory ((Table.empty.insert "sys/enclaves/default"
      (Record.encode (⟨time, ⟨"root"⟩⟩ : Registration))).insert "enclaves/default/policies/p" old)
    let down : Mishap := ⟨none, none, some (.unreachable "down")⟩
    let w := World.stormy b fun n => if n = 3 then down else .nothing
    let call := (s.perform ⟨"root"⟩ "" (.createPolicy "p" (.ofRules ["*"] []))).attempt
    ofSettings { Settings.default with admin := some ⟨"root"⟩ } = .ok s ∧
      b.stored? "enclaves/default/policies/p" = some old ∧
      (call.run (.ofToken []) w).1 = .error (.unreachable "down") ∧
      (call.run (.ofToken []) w).2.backend.stored? "enclaves/default/policies/p" = none := by
  intro s time old b down w call
  refine ⟨rfl, ?_, ?_, ?_⟩
  · decide +kernel
  · decide +kernel
  · decide +kernel

end Service

end KeyCustody
