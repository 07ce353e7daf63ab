import KeyCustody.Proofs.Overwriting
import KeyCustody.Proofs.PolicyUse

/-!
# Assignments name policies

If nothing fails, every call keeps a store coherent, so assignments never name policies that are
not there.  Most requests cannot break this (`Request.Harmless`).  Four kinds of programs have
a reason of their own:

* a policy that is overwritten is removed, but then there is place for the new one;
* an assignment is created after its policy was found, and nothing is removed in between but an
  earlier assignment;
* a policy is removed if nobody was found who has it;
* a purge removes the assignments of an enclave together with its policies.

Each of them is a fact on runs under a context that lives (`Program.Takes`); under one that
has ended no call changes anything.  Main statements:

* `Service.keepsCoherent_programs`: what calls keep;
* `Service.Course.coherent`: what sequences of calls keep;
* `Service.policies_in_use`: assignments name policies, and what removals of policies do.
-/

namespace KeyCustody

variable {l : Layout} {e name : String}

/-! ### Coherent stores -/

namespace Backend.Coherent

variable {b b' : Backend}

theorem of_empty (htidy : b.Tidy) (hempty : ∀ name, b.stored? name = none) : b.Coherent l where
  tidy := htidy
  named := fun e n value _ h => by rw [hempty] at h; cases h
  assigned := fun e n value _ h => by rw [hempty] at h; cases h

/-- A store that holds no new assignment, and still every policy that one of those it holds
names. -/
theorem of_remains (hb : b.Coherent l) (htidy : b'.Tidy)
    (hnamed : ∀ e n value, ValidEnclaveName e →
      b'.stored? (l.space .policy e ++ n) = some value → ValidName n)
    (hassigned : ∀ e n value, ValidEnclaveName e →
      b'.stored? (l.space .assignment e ++ n) = some value →
        b.stored? (l.space .assignment e ++ n) = some value ∧
          ∀ (a : Assignment) (p : Policy), Record.decode? value = some a →
            b.record? (l.space .policy e ++ a.policy) = some p →
              ∃ p' : Policy, b'.record? (l.space .policy e ++ a.policy) = some p') :
    b'.Coherent l where
  tidy := htidy
  named := hnamed
  assigned := by
    intro e n value he hvalue
    obtain ⟨hheld, hremains⟩ := hassigned e n value he hvalue
    obtain ⟨hvalid, htrimmed, a, ha, p, hp⟩ := hb.assigned e n value he hheld
    exact ⟨hvalid, htrimmed, a, ha, hremains a p ha hp⟩

/-- A store in which a policy was overwritten. -/
theorem of_policy (hb : b.Coherent l) (htidy : b'.Tidy) (he : ValidEnclaveName e)
    (hname : ValidName name) (policy : Policy)
    (hheld : ∀ other, b'.stored? other =
      if other = l.space .policy e ++ name then some (Record.encode policy)
      else b.stored? other) : b'.Coherent l := by
  refine hb.of_remains htidy ?_ ?_
  · intro e' n value he' hvalue
    rw [hheld] at hvalue
    split at hvalue
    · rename_i hsame
      obtain ⟨-, -, rfl⟩ := Layout.space_append_inj he'.toValidName he.toValidName hsame
      exact hname
    · exact hb.named e' n value he' hvalue
  · intro e' n value he' hvalue
    rw [hheld, if_neg (Layout.space_append_ne he'.toValidName he.toValidName (by decide))]
      at hvalue
    refine ⟨hvalue, fun a p _ hp => ?_⟩
    by_cases hnamed : l.space .policy e' ++ a.policy = l.space .policy e ++ name
    · refine ⟨policy, Backend.record?_eq_some_iff.2 ⟨_, ?_, Record.decode?_encode policy⟩⟩
      rw [hheld, if_pos hnamed]
    · exact ⟨p, (Backend.record?_congr ((hheld _).trans (if_neg hnamed))).trans hp⟩

/-- A store in which an assignment of a policy that is there was overwritten. -/
theorem of_assignment (hb : b.Coherent l) (htidy : b'.Tidy) (he : ValidEnclaveName e)
    {i : Identity} (hvalid : i.Valid) (htrimmed : i.Trimmed) (a : Assignment) {p : Policy}
    (hp : b.record? (l.space .policy e ++ a.policy) = some p)
    (hheld : ∀ other, b'.stored? other =
      if other = l.space .assignment e ++ i.text then some (Record.encode a)
      else b.stored? other) : b'.Coherent l := by
  have hpolicy {e' : String} (he' : ValidEnclaveName e') (n : String) :
      b'.stored? (l.space .policy e' ++ n) = b.stored? (l.space .policy e' ++ n) :=
    (hheld _).trans (if_neg (Layout.space_append_ne he'.toValidName he.toValidName (by decide)))
  refine ⟨htidy, fun e' n value he' hvalue => ?_, fun e' n value he' hvalue => ?_⟩
  · rw [hpolicy he'] at hvalue
    exact hb.named e' n value he' hvalue
  · rw [hheld] at hvalue
    split at hvalue
    · rename_i hsame
      obtain ⟨-, rfl, rfl⟩ := Layout.space_append_inj he'.toValidName he.toValidName hsame
      rw [← Option.some.inj hvalue]
      exact ⟨hvalid, htrimmed, a, Record.decode?_encode a, p,
        (Backend.record?_congr (hpolicy he' _)).trans hp⟩
    · obtain ⟨hvalid', htrimmed', a', ha', p', hp'⟩ := hb.assigned e' n value he' hvalue
      exact ⟨hvalid', htrimmed', a', ha', p',
        (Backend.record?_congr (hpolicy he' _)).trans hp'⟩

/-- A store after a removal of a policy. -/
theorem of_deletesPolicy (hb : b.Coherent l) (htidy : b'.Tidy) (he : ValidEnclaveName e)
    {outcome : Except Error Unit} (h : b.DeletesPolicy l e name outcome b') :
    b'.Coherent l := by
  cases hrecord : (b.record? (l.space .policy e ++ name) : Option Policy) with
  | none =>
      rw [h.missing hrecord]
      exact hb
  | some p =>
      obtain ⟨users, -, husers, hunused, hused⟩ := h.existing p hrecord
      by_cases hnone : users = []
      · obtain ⟨-, hheld⟩ := hunused hnone
        refine hb.of_remains htidy ?_ ?_
        · intro e' n value he' hvalue
          rw [hheld] at hvalue
          split at hvalue
          · cases hvalue
          · exact hb.named e' n value he' hvalue
        · intro e' n value he' hvalue
          rw [hheld, if_neg (Layout.space_append_ne he'.toValidName he.toValidName (by decide))]
            at hvalue
          refine ⟨hvalue, fun a p' ha hp' => ?_⟩
          have hkept : l.space .policy e' ++ a.policy ≠ l.space .policy e ++ name := by
            -- else the identity would be one of the users
            intro hsame
            obtain ⟨-, rfl, rfl⟩ :=
              Layout.space_append_inj he'.toValidName he.toValidName hsame
            have huser : ⟨n⟩ ∈ users :=
              (husers _).2 ⟨a, Backend.record?_eq_some_iff.2 ⟨value, hvalue, ha⟩, rfl⟩
            rw [hnone] at huser
            cases huser
          exact ⟨p', (Backend.record?_congr ((hheld _).trans (if_neg hkept))).trans hp'⟩
      · rw [(hused hnone).2]
        exact hb

end Backend.Coherent

/-! ### Harmless requests -/

/-- The request creates neither a policy nor an assignment and removes no policy. -/
def Request.Harmless (l : Layout) : Request → Prop
  | .create full _ => ∀ kind e n, ValidEnclaveName e → full = l.space kind e ++ n → kind = .key
  | .delete full => ∀ e n, ValidEnclaveName e → full ≠ l.space .policy e ++ n
  | _ => True

namespace Request.Harmless

theorem create_key (he : ValidEnclaveName e) {n : String} {value : Bytes} :
    (Request.create (l.space .key e ++ n) value).Harmless l :=
  fun _ _ _ he' hsame =>
    (Layout.space_append_inj he.toValidName he'.toValidName hsame).1.symm

theorem create_record {value : Bytes} : (Request.create (l.record e) value).Harmless l :=
  fun _ _ _ _ hsame => absurd hsame (Layout.record_ne_space_append _ _ _ _ _)

theorem delete_space {kind : RecordKind} (he : ValidEnclaveName e) (hkind : kind ≠ .policy)
    {n : String} : (Request.delete (l.space kind e ++ n)).Harmless l :=
  fun _ _ he' => Layout.space_append_ne he.toValidName he'.toValidName hkind

theorem delete_record : (Request.delete (l.record e)).Harmless l :=
  fun _ _ _ => Layout.record_ne_space_append _ _ _ _ _

end Request.Harmless

/-- Harmless requests keep a store coherent. -/
theorem World.coherent_answer {σ : Type} [Mishaps σ] {r : Request} (hr : r.Harmless l)
    (c : Context) {w : World σ} (hw : w.backend.Coherent l) :
    (w.answer c r).2.backend.Coherent l := by
  have hold {kind : RecordKind} {e n : String} {value : Bytes} (hkind : kind ≠ .key)
      (he : ValidEnclaveName e)
      (hvalue : (w.answer c r).2.backend.stored? (l.space kind e ++ n) = some value) :
      w.backend.stored? (l.space kind e ++ n) = some value := by
    have hnew : ¬ r.Creates (l.space kind e ++ n) := by
      intro hcreates
      cases r with
      | create full v => exact hkind (hr kind e n he hcreates)
      | _ => exact hcreates
    rcases w.stored?_answer_of_not_creates hnew c with hsame | hlost
    · rw [← hsame, hvalue]
    · rw [hlost] at hvalue
      cases hvalue
  refine hw.of_remains (w.tidy_answer c r hw.tidy) ?_ ?_
  · exact fun e n value he hvalue => hw.named e n value he (hold (by decide) he hvalue)
  · intro e n value he hvalue
    refine ⟨hold (by decide) he hvalue, fun a p _ hp => ?_⟩
    have hkept : ¬ r.Removes (l.space .policy e ++ a.policy) := by
      intro hremoves
      cases r with
      | delete full => exact hr e a.policy he hremoves
      | _ => exact hremoves
    obtain ⟨v, hv, hdecodes⟩ := Backend.record?_eq_some_iff.1 hp
    exact ⟨p, Backend.record?_eq_some_iff.2
      ⟨v, World.stored?_answer_of_not_removes hkept c hv, hdecodes⟩⟩

/-! ### Runs in which nothing fails -/

section Runs

variable {α β : Type} {before middle after : Backend → Prop}

/-- Run to its end in a calm world under a context that lives, the program takes stores of one
kind to stores of another kind. -/
def Program.Takes (before after : Backend → Prop) (p : Program α) : Prop :=
  ∀ (c : Context) (w : World Unit), w.ended c = false → before w.backend →
    after (p.run c w).2.backend

/-- Run to its end under a context that lives, the program keeps stores coherent. -/
def Program.KeepsCoherent (l : Layout) (p : Program α) : Prop :=
  p.Takes (fun b => b.Coherent l) fun b => b.Coherent l

/-- All programs keep stores tidy. -/
theorem Program.tidy_run {σ : Type} [Mishaps σ] (p : Program α) (c : Context) {w : World σ}
    (hw : w.backend.Tidy) : (p.run c w).2.backend.Tidy :=
  (p.keeps_anything.run c (fun w => w.backend.Tidy)
    (fun r w _ hw => ⟨trivial, w.tidy_answer c r hw⟩) hw).2

/-- Under a context that has ended no program changes the store. -/
theorem Program.backend_run_of_ended (p : Program α) {c : Context} {w : World Unit}
    (hended : w.ended c = true) : (p.run c w).2.backend = w.backend := by
  induction p generalizing w with
  | done a => rfl
  | ask r next ih =>
      have hstill : (w.answer c r).2.ended c = true := (w.ended_answer c c r).trans hended
      exact (ih _ hstill).trans (World.backend_answer_of_ended hended r)

namespace Program

theorem takes_done {a : α} (h : ∀ b, before b → after b) : (done a).Takes before after :=
  fun _ w _ hw => h w.backend hw

/-- One program after the other. -/
theorem Takes.bind {p : Program α} {f : α → Program β} (hp : p.Takes before middle)
    (hf : ∀ a, (f a).Takes middle after) : (p >>= f).Takes before after := by
  intro c w hlive hw
  rw [run_bind]
  exact hf _ c _ ((p.ended_run w c c).trans hlive) (hp c w hlive hw)

/-- A program can be looked at for each store alone. -/
theorem Takes.of_each {p : Program α} (h : ∀ b, before b → p.Takes (· = b) after) :
    p.Takes before after :=
  fun c w hlive hw => h w.backend hw c w hlive rfl

/-- Programs that only make harmless requests keep stores coherent. -/
theorem Keeps.keepsCoherent {fits : α → Prop} {p : Program α}
    (h : p.Keeps (.asking (Request.Harmless l)) fits) :
    p.KeepsCoherent l :=
  fun c _ _ hw => (h.run c (fun w => w.backend.Coherent l)
    (fun _ _ hr hw => ⟨trivial, World.coherent_answer hr c hw⟩) hw).2

end Program

namespace Routine

/-- One routine after the other; an error skips the second. -/
theorem takes_bind {a : Routine α} {f : α → Routine β} (ha : a.attempt.Takes before middle)
    (hends : ∀ b, middle b → after b) (hf : ∀ x, (f x).attempt.Takes middle after) :
    (a >>= f).attempt.Takes before after := by
  rw [attempt_bind]
  refine ha.bind ?_
  intro r
  cases r with
  | ok x => exact hf x
  | error err => exact Program.takes_done hends

/-- A routine and what is told of its value. -/
theorem takes_map {a : Routine α} (ha : a.attempt.Takes before after) (f : α → β) :
    (a >>= fun x => pure (f x) : Routine β).attempt.Takes before after :=
  takes_bind ha (fun _ h => h) fun _ => Program.takes_done fun _ h => h

/-- A routine that keeps a contract, and what follows its value. -/
theorem takes_after_keeps {k : Contract} {good : α → Prop} {a : Routine α} {f : α → Routine β}
    (ha : a.Keeps k good fun _ => True)
    (hstep : ∀ (c : Context) r (w : World Unit), k.allows r → before w.backend →
      k.assumes r (w.answer c r).1 ∧ before (w.answer c r).2.backend)
    (hends : ∀ b, before b → after b)
    (hf : ∀ x, good x → (f x).attempt.Takes before after) :
    (a >>= f).attempt.Takes before after := by
  intro c w hlive hw
  obtain ⟨hfits, hkept⟩ :=
    Program.Keeps.run ha c (fun w => before w.backend) (hstep c) (w := w) hw
  have hstill : (a.attempt.run c w).2.ended c = false :=
    (a.attempt.ended_run w c c).trans hlive
  rw [run_bind]
  cases hrun : (a.attempt.run c w).1 with
  | error err => exact hends _ hkept
  | ok x =>
      rw [hrun] at hfits
      exact hf x hfits c _ hstill hkept

/-- A routine that only looks at the store, and what follows its value. -/
theorem takes_after_looking {b : Backend} {good : α → Prop} {a : Routine α}
    {f : α → Routine β} (ha : a.Keeps (.looking b) good fun _ => True) (hends : after b)
    (hf : ∀ x, good x → (f x).attempt.Takes (· = b) after) :
    (a >>= f).attempt.Takes (· = b) after :=
  takes_after_keeps ha (fun c r w => World.looking_step c r w) (fun _ h => h ▸ hends) hf

/-- A routine that only makes harmless requests, and what follows its value. -/
theorem keepsCoherent_after_harmless {good : α → Prop} {a : Routine α} {f : α → Routine β}
    (ha : a.Keeps (.asking (Request.Harmless l)) good fun _ => True)
    (hf : ∀ x, good x → (f x).attempt.KeepsCoherent l) :
    (a >>= f).attempt.KeepsCoherent l :=
  takes_after_keeps ha (fun c _ _ hr hw => ⟨trivial, World.coherent_answer hr c hw⟩)
    (fun _ h => h) hf

/-- What is computed without asking. -/
theorem keeps_ofExcept {k : Contract} (r : Except Error α) :
    (ofExcept r).Keeps k (fun x => r = .ok x) fun _ => True := by
  cases r with
  | ok x => exact Keeps.ofExcept rfl
  | error err => exact Keeps.ofExcept trivial

end Routine

end Runs

/-! ### Overwriting -/

/-- In a calm world around a tidy store a removal makes place for a creation. -/
theorem World.answer_create_after_delete {w : World Unit} {c : Context} {full : String}
    (hlive : w.ended c = false) (htidy : w.backend.Tidy) (hfull : full ≠ "")
    (hremoved : (w.answer c (.delete full)).1 = .ok ()) (value : Bytes) :
    ((w.answer c (.delete full)).2.answer c (.create full value)).1 = .ok () := by
  change (w.backend.delete (.steady (w.ended c)) full).1 = .ok () at hremoved
  change ((w.backend.delete (.steady (w.ended c)) full).2.create (.steady (w.ended c)) full
    value).1 = .ok ()
  rw [hlive] at hremoved ⊢
  exact Backend.create_after_delete htidy hfull hremoved value

/-- **An overwrite in a tidy store** changes nothing, or it stores the new value. -/
theorem Cabinet.takes_replaceValue {space : String} {value : Bytes} (hname : name ≠ "") (n : Nat)
    {b : Backend} (hb : b.Tidy) :
    (replaceValue (.under space .whole) name value (n + 1)).attempt.Takes (· = b) fun b' =>
      b' = b ∨ (b'.Tidy ∧ ∀ other, b'.stored? other =
        if other = space ++ name then some value else b.stored? other) := by
  rintro c w hlive rfl
  have htidy := (replaceValue (.under space .whole) name value (n + 1)).attempt.tidy_run c hb
  have hfull : space ++ name ≠ "" := extend_ne hname
  rw [replaceValue_attempt _ hname] at htidy ⊢
  simp only [View.fullName, Program.run] at htidy ⊢
  rcases w.answer_delete_cases c (space ++ name) with ⟨err, hfailed, hsame⟩ | ⟨hok, hremoved⟩
  · rw [hfailed]
    exact .inl hsame
  · have hcreated := World.answer_create_after_delete hlive hb hfull hok value
    rw [hok] at htidy ⊢
    simp only [Program.run] at htidy ⊢
    rw [hcreated] at htidy ⊢
    refine .inr ⟨htidy, fun other => ?_⟩
    rcases (w.answer c (.delete (space ++ name))).2.answer_create_cases c (space ++ name) value
      with ⟨err, hfailed, -⟩ | ⟨-, -, hheld⟩
    · rw [hcreated] at hfailed
      cases hfailed
    · refine (hheld other).trans ?_
      by_cases hother : other = space ++ name
      · rw [if_pos hother, if_pos hother]
      · rw [if_neg hother, if_neg hother, hremoved, if_neg hother]

namespace Enclave

/-- Setting a policy keeps a store coherent. -/
theorem keepsCoherent_setPolicy (he : ValidEnclaveName e) (policy : Policy) (creator : Identity) :
    ((l.handle e).setPolicy name policy creator).attempt.KeepsCoherent l := by
  refine Program.Takes.of_each ?_
  intro b hb
  unfold setPolicy
  refine Routine.takes_after_looking (keeps_ensureRegistered rfl) hb ?_
  intro _ _
  refine Routine.takes_after_looking (Routine.keeps_ofExcept _) hb ?_
  intro _ hpassed
  have hname := checkName_eq_ok_iff.1 hpassed
  refine Routine.takes_after_looking (Routine.keeps_ofExcept _) hb ?_
  intro _ _
  refine Routine.takes_after_looking (Routine.Keeps.time rfl) hb ?_
  intro time _
  refine Routine.takes_map (fun c w hlive hw => ?_) _
  rcases Cabinet.takes_replaceValue hname.nonempty 2 hb.tidy c w hlive hw with
    hsame | ⟨htidy, hheld⟩
  · exact hsame ▸ hb
  · exact hb.of_policy htidy he hname _ hheld

/-- Assigning a policy keeps a store coherent: the policy was found. -/
theorem keepsCoherent_assignPolicy (he : ValidEnclaveName e) (policy : String) {i : Identity}
    (hi : i.Valid → i.Trimmed) (creator : Identity) :
    ((l.handle e).assignPolicy policy i creator).attempt.KeepsCoherent l := by
  refine Program.Takes.of_each ?_
  intro b hb
  unfold assignPolicy
  split
  · exact Program.takes_done fun _ hsame => hsame ▸ hb
  · refine Routine.takes_after_looking (Routine.keeps_ofExcept _) hb ?_
    intro _ hpassed
    have hvalid := Identity.check_eq_ok_iff.1 hpassed
    refine Routine.takes_after_looking (keeps_ensureRegistered rfl) hb ?_
    intro _ _
    refine Routine.takes_after_looking (keeps_getPolicy rfl) hb ?_
    rintro p ⟨_, hfound⟩
    refine Routine.takes_after_looking (Routine.Keeps.time rfl) hb ?_
    intro time _
    refine Routine.takes_map (fun c w hlive hw => ?_) _
    rcases Cabinet.takes_replaceValue hvalid.known 2 hb.tidy c w hlive hw with
      hsame | ⟨htidy, hheld⟩
    · exact hsame ▸ hb
    · exact hb.of_assignment htidy he hvalid (hi hvalid) ⟨policy, time, creator⟩
        (Contract.mayHold_looking.1 hfound) hheld

/-- Removing a policy keeps a store coherent. -/
theorem keepsCoherent_deletePolicy (hplain : Glob.hasMeta l.root = false) (he : ValidEnclaveName e)
    (name : String) :
    ((l.handle e).deletePolicy name).attempt.KeepsCoherent l :=
  fun c _ hlive hw => hw.of_deletesPolicy
    (((l.handle e).deletePolicy name).attempt.tidy_run c hw.tidy) he
    (deletesPolicy_run hplain hlive hw he name)

end Enclave

/-! ### Purging -/

namespace Registry

/-- **A purge keeps a store coherent**: it removes the assignments of the enclave together with
its policies. -/
theorem keepsCoherent_purge (hplain : Glob.hasMeta l.root = false) (he : ValidEnclaveName e) :
    (l.catalog.purge e).attempt.KeepsCoherent l := by
  intro c w hlive hw
  have hremoves (allowed : Request → Prop) (hlists : ∀ pattern, allowed (.list pattern))
      (hdeletes : ∀ kind n, allowed (.delete (l.space kind e ++ n))) :
      (l.catalog.purge e).attempt.Keeps (.asking allowed) fun _ => True :=
    (keeps_purge (fun _ => hlists _) hdeletes).attempt
  have hmissing {full : String} (hfull : w.backend.stored? full = none) :
      ((l.catalog.purge e).attempt.run c w).2.backend.stored? full = none :=
    (hremoves _ (fun _ => id) fun _ _ => id).run_of_missing c hfull
  have hsame {kind : RecordKind} {e' n : String} (he' : ValidEnclaveName e') (hother : e' ≠ e) :
      ((l.catalog.purge e).attempt.run c w).2.backend.stored? (l.space kind e' ++ n) =
        w.backend.stored? (l.space kind e' ++ n) := by
    have havoids : (l.catalog.purge e).attempt.Keeps
        (.asking (Request.Avoids (l.space kind e' ++ n))) fun _ => True :=
      hremoves _ (fun _ => ⟨id, id⟩) fun _ _ => ⟨fun hdeleted => hother
        (Layout.space_append_inj he.toValidName he'.toValidName hdeleted).2.1.symm, id⟩
    refine (havoids.run c (fun v => v.backend.stored? (l.space kind e' ++ n) =
      w.backend.stored? (l.space kind e' ++ n)) (fun r v hr hv => ⟨trivial, ?_⟩) rfl).2
    exact (v.stored?_answer_of_avoids hr c).trans hv
  have hcleared (kind : RecordKind) {n : String} (hn : n ≠ "") :=
    clears_purge hplain he.toValidName kind hn c w hlive
  refine hw.of_remains ((l.catalog.purge e).attempt.tidy_run c hw.tidy) ?_ ?_
  · intro e' n value he' hvalue
    cases hheld : w.backend.stored? (l.space .policy e' ++ n) with
    | none =>
        rw [hmissing hheld] at hvalue
        cases hvalue
    | some v => exact hw.named e' n v he' hheld
  · intro e' n value he' hvalue
    by_cases hother : e' = e
    · -- nothing is left of an assignment of this enclave
      subst hother
      cases hheld : w.backend.stored? (l.space .assignment e' ++ n) with
      | none =>
          rw [hmissing hheld] at hvalue
          cases hvalue
      | some v =>
          obtain ⟨hvalid, -⟩ := hw.assigned e' n v he' hheld
          rw [hcleared .assignment hvalid.known] at hvalue
          cases hvalue
    · rw [hsame he' hother] at hvalue
      exact ⟨hvalue, fun a p _ hp => ⟨p, (Backend.record?_congr (hsame he' hother)).trans hp⟩⟩

/-- Registering an enclave keeps a store coherent. -/
theorem keepsCoherent_create (hplain : Glob.hasMeta l.root = false) (creator : Identity) :
    (l.catalog.create e creator).attempt.KeepsCoherent l := by
  unfold create
  refine Routine.keepsCoherent_after_harmless (Routine.keeps_ofExcept _) ?_
  intro _ hpassed
  have he := checkEnclaveName_eq_ok_iff.1 hpassed
  refine Routine.keepsCoherent_after_harmless (Cabinet.keeps_find? trivial) ?_
  intro found _
  cases found with
  | some registration => exact Program.takes_done fun _ h => h
  | none =>
      refine Routine.takes_bind (keepsCoherent_purge hplain he) (fun _ h => h) ?_
      intro _
      refine Routine.keepsCoherent_after_harmless (Routine.Keeps.time trivial) ?_
      intro time _
      have hcreates : (Request.create (l.record e)
          (Record.encode (⟨time, creator⟩ : Registration))).Harmless l := .create_record
      refine Routine.takes_map (Program.Keeps.keepsCoherent (Routine.Keeps.attempt ?_)) _
      exact Routine.Keeps.mapError (Routine.Keeps.weaken
        (Cabinet.keeps_create hcreates) (fun _ _ => trivial) fun _ _ => trivial)

/-- Making sure of an enclave keeps a store coherent. -/
theorem keepsCoherent_ensure (hplain : Glob.hasMeta l.root = false) (creator : Identity) :
    (l.catalog.ensure e creator).attempt.KeepsCoherent l := by
  have hdescribes : (l.catalog.describe e).attempt.KeepsCoherent l :=
    Program.Keeps.keepsCoherent (keeps_describe fun _ => trivial)
  refine (keepsCoherent_create hplain creator).bind ?_
  intro r
  cases r with
  | ok info => exact Program.takes_done fun _ h => h
  | error err =>
      cases err with
      | alreadyExists what => exact hdescribes
      | _ => exact Program.takes_done fun _ h => h

/-- Removing an enclave keeps a store coherent. -/
theorem keepsCoherent_delete (hplain : Glob.hasMeta l.root = false) :
    (l.catalog.delete e).attempt.KeepsCoherent l := by
  unfold delete
  refine Routine.keepsCoherent_after_harmless (keeps_describe fun _ => trivial) ?_
  rintro _ ⟨he, _⟩
  refine Routine.takes_bind (keepsCoherent_purge hplain he) (fun _ h => h) ?_
  intro _
  exact Program.Keeps.keepsCoherent (Cabinet.keeps_delete .delete_record)

end Registry

/-! ### Calls -/

namespace Service

variable {s : Service} {caller : Identity} {call : Call}

/-- Assigning a policy to several identities keeps a store coherent. -/
theorem keepsCoherent_assignEach (he : ValidEnclaveName e) (policy : String)
    {identities : List Identity}
    (hok : ∀ i ∈ identities, i.Valid → s.authorizer.isAdmin i = false → i.Trimmed) :
    (s.assignEach (l.handle e) caller policy identities).KeepsCoherent l := by
  induction identities with
  | nil => exact Program.takes_done fun _ h => h
  | cons i identities ih =>
      have hone : (s.assignOne (l.handle e) caller policy i).attempt.KeepsCoherent l := by
        unfold assignOne
        by_cases hadmin : s.authorizer.isAdmin i = true
        · rw [if_pos hadmin]
          exact Program.takes_done fun _ h => h
        rw [if_neg hadmin]
        by_cases hself : i = caller
        · rw [if_pos hself]
          exact Program.takes_done fun _ h => h
        rw [if_neg hself]
        have htrimmed (hvalid : i.Valid) : i.Trimmed :=
          hok i List.mem_cons_self hvalid (Bool.eq_false_iff.2 hadmin)
        exact Routine.takes_map (Enclave.keepsCoherent_assignPolicy he policy htrimmed caller) _
      unfold assignEach
      refine hone.bind ?_
      intro r
      refine (ih fun j hj => hok j (List.mem_cons_of_mem _ hj)).bind ?_
      intro more
      exact Program.takes_done fun _ h => h

/-- **Every command keeps a store coherent.** -/
theorem keepsCoherent_body (hover : s.Over l) (he : ValidEnclaveName e) {command : Command}
    (hok : ∀ policy identities, command = .assignPolicy policy identities →
      ∀ i ∈ identities, i.Valid → s.authorizer.isAdmin i = false → i.Trimmed) :
    (s.body caller (l.handle e) command).attempt.KeepsCoherent l := by
  have hharmless (hasks : ∀ r, Asks (.asking (Request.Harmless l)) s l caller e command r →
      r.Harmless l) : (s.body caller (l.handle e) command).attempt.KeepsCoherent l :=
    Program.Keeps.keepsCoherent (keeps_body hover hasks)
  cases command with
  | createPolicy name policy =>
      exact Routine.takes_map (Enclave.keepsCoherent_setPolicy he policy caller) _
  | deletePolicy name =>
      exact Routine.takes_map (Enclave.keepsCoherent_deletePolicy hover.plain he name) _
  | assignPolicy policy identities =>
      change (Routine.attempt (ExceptT.lift _ >>= _)).Takes _ _
      rw [Routine.lift_bind]
      refine (keepsCoherent_assignEach he policy (hok policy identities rfl)).bind ?_
      intro outcomes
      exact Program.takes_done fun _ h => h
  | createEnclave m =>
      unfold body
      rw [hover.registry_eq]
      exact Routine.takes_map (Registry.keepsCoherent_create hover.plain caller) _
  | deleteEnclave m =>
      dsimp only [body]
      by_cases hspared : m = s.defaultEnclave
      · rw [if_pos hspared]
        exact Program.takes_done fun _ h => h
      · rw [if_neg hspared, hover.registry_eq]
        exact Routine.takes_map (Registry.keepsCoherent_delete hover.plain) _
  | createKey key value =>
      apply hharmless
      intro r hasks
      cases hasks with
      | createKey_create => exact .create_key he
      | _ => trivial
  | deleteKey key =>
      apply hharmless
      intro r hasks
      cases hasks with
      | deleteKey => exact .delete_space he (by decide)
      | _ => trivial
  | deleteIdentity i =>
      apply hharmless
      intro r hasks
      cases hasks with
      | deleteIdentity => exact .delete_space he (by decide)
      | _ => trivial
  | _ =>
      apply hharmless
      intro r hasks
      cases hasks <;> trivial

/-- **Calls keep stores coherent** in runs in which nothing fails. -/
theorem keepsCoherent_programs (hover : s.Over l) (hok : s.AssignsOnly Identity.Trimmed call)
    {p : Program (Except Error Reply)} (hp : p ∈ s.programs caller call) :
    p.KeepsCoherent l := by
  have hcommand (enclave : String) (command : Command)
      (hok : s.AssignsOnly Identity.Trimmed (.command enclave command)) :
      (s.perform caller enclave command).attempt.KeepsCoherent l := by
    have hbody : (s.gate caller (target command enclave) command.operation >>= fun h =>
        s.body caller h command).attempt.KeepsCoherent l := by
      refine Routine.keepsCoherent_after_harmless (keeps_gate hover fun _ _ _ => trivial) ?_
      rintro h ⟨rfl, hpassed⟩
      apply keepsCoherent_body hover hpassed.valid
      intro policy identities hcommand
      exact hok enclave policy identities (congrArg (Call.command enclave) hcommand)
    refine hbody.bind ?_
    intro outcome
    exact (keeps_report trivial trivial (fun _ => trivial) outcome).keepsCoherent
  have hreads (hasks : ∀ r, CallAsks (.asking (Request.Harmless l)) s l caller call r →
      r.Harmless l) : p.KeepsCoherent l :=
    (keeps_programs hover hasks hp).keepsCoherent
  cases call with
  | command enclave command =>
      obtain rfl := List.mem_singleton.1 hp
      exact hcommand enclave command hok
  | deletePolicies enclave names =>
      obtain ⟨name, -, rfl⟩ := List.mem_map.1 hp
      exact hcommand enclave _ fun _ _ _ hcall => nomatch hcall
  | describeSelf enclave =>
      apply hreads
      intro r hasks
      cases hasks
      trivial
  | init =>
      obtain rfl := List.mem_singleton.1 hp
      refine Routine.takes_map (Routine.takes_map ?_ _) _
      rw [hover.registry_eq]
      exact Registry.keepsCoherent_ensure hover.plain _
  | health =>
      apply hreads
      intro r hasks
      cases hasks
      trivial

/-! ### Sequences of calls -/

/-- Calls in a calm world, one after the other and each to its end, in which policies are given
only to identities of a given kind.  Callers and contexts are any.  Between calls the world
may change as long as the store stays the same. -/
inductive Course (s : Service) (ok : Identity → Prop) : World Unit → World Unit → Prop
  | start (w : World Unit) : Course s ok w w
  | served {w w₁ w₂ : World Unit} {c : Context} {caller : Identity} {call : Call}
      {r : Except Error Reply} (earlier : Course s ok w w₁) (admits : s.AssignsOnly ok call)
      (serves : s.serve? c caller call w₁ = some (r, w₂)) : Course s ok w w₂
  | pause {w w₁ w₂ : World Unit} (earlier : Course s ok w w₁)
      (same : w₂.backend = w₁.backend) : Course s ok w w₂

/-- **Sequences of calls keep stores coherent.** -/
theorem Course.coherent (hover : s.Over l) {w w' : World Unit}
    (hcourse : s.Course Identity.Trimmed w w') (hw : w.backend.Coherent l) :
    w'.backend.Coherent l := by
  induction hcourse with
  | start => exact hw
  | served _ hadmits hserves ih =>
      refine serve?_preserves (fun w => w.backend.Coherent l) (fun _ _ h => h) ?_ ih hserves
      intro p hp c w hw
      cases hended : w.ended c with
      | true =>
          rw [p.backend_run_of_ended hended]
          exact hw
      | false => exact keepsCoherent_programs hover hadmits hp c w hended hw
  | pause _ hsame ih => exact hsame ▸ ih

/-- A permitted operation passes the gate. -/
theorem run_gate_of_permits {settings : Settings} (hmade : ofSettings settings = .ok s)
    {w : World Unit} {c : Context} {enclave : String} {op : Operation}
    (hlive : w.ended c = false) (hscope : ValidEnclaveName (s.scope enclave op))
    (hpermits : Permits settings w.backend caller (s.scope enclave op) op) :
    (s.gate caller enclave op).attempt.run c w =
      (.ok (Layout.handle ⟨settings.keyPrefix⟩ (s.scope enclave op)), w) := by
  have hover := over_of_ofSettings hmade
  generalize hh : Layout.handle ⟨settings.keyPrefix⟩ (s.scope enclave op) = h
  have hhandle : s.registry.handle (s.scope enclave op) = .ok h :=
    hover.handle_eq_ok_iff.2 ⟨hscope, hh.symm⟩
  have hallow : (s.authorizer.decide h caller op.path).attempt.run c w = (.ok .allow, w) := by
    subst hh
    rcases hpermits.entitled with hadmin | hgrants
    · have hknown : caller.isUnknown = false :=
        Bool.eq_false_iff.2 fun hunknown => hadmin.2 (Identity.isUnknown_iff.1 hunknown)
      unfold Authorizer.decide
      rw [hknown, (isAdmin_iff_of_ofSettings hmade).2 hadmin]
      rfl
    · exact s.authorizer.run_decide_of_grants hlive hgrants
  have hauthorize : (s.authorizer.authorize h caller op).attempt.run c w = (.ok (), w) := by
    unfold Authorizer.authorize
    rw [Routine.run_bind, hallow]
    rfl
  have hregistered : h.ensureRegistered.attempt.run c w = (.ok (), w) := by
    subst hh
    obtain ⟨g, hg⟩ := hpermits.registered
    exact Enclave.run_ensureRegistered_of_record hlive hscope.nonempty hg
  unfold gate
  rw [hhandle]
  change (s.authorizer.authorize h caller op >>= fun _ =>
    h.ensureRegistered >>= fun _ => pure h).attempt.run c w = _
  rw [Routine.run_bind, hauthorize]
  simp only
  rw [Routine.run_bind, hregistered]
  rfl

/-- **Policies in use.**  Calls are made one after the other on a store that was empty when the
service came to it, nothing fails and no call is given up.  Then every assignment of an
enclave names a policy of the enclave, and a removal of a policy keeps it that way: it removes a
policy exactly if no identity has it.  Callers who are permitted to remove the policy are told
what became of it. -/
theorem policies_in_use {settings : Settings} (hmade : ofSettings settings = .ok s)
    {w w' : World Unit} (hempty : ∀ name, w.backend.stored? name = none)
    (htidy : w.backend.Tidy) (hcourse : s.Course Identity.Trimmed w w') :
    let l : Layout := ⟨settings.keyPrefix⟩
    (∀ e n value, ValidEnclaveName e →
      w'.backend.stored? (l.identities e ++ n) = some value →
        ∃ (a : Assignment) (p : Policy), w'.backend.record? (l.identities e ++ n) = some a ∧
          w'.backend.record? (l.policies e ++ a.policy) = some p) ∧
    ∀ (c : Context) (e name : String) (handle : Enclave), w'.ended c = false →
      s.registry.handle e = .ok handle →
        w'.backend.DeletesPolicy l e name
          ((handle.deletePolicy name).attempt.run c w').1
          ((handle.deletePolicy name).attempt.run c w').2.backend ∧
        ∀ caller enclave, s.enclaveName enclave = e →
          Permits settings w'.backend caller e (.deletePolicy name) →
            w'.backend.DeletesPolicy l e name
              (((s.perform caller enclave (.deletePolicy name)).attempt.run c w').1.map
                fun _ => ())
              ((s.perform caller enclave (.deletePolicy name)).attempt.run c w').2.backend := by
  intro l
  have hover := over_of_ofSettings hmade
  have hcoherent : w'.backend.Coherent l := hcourse.coherent hover (.of_empty htidy hempty)
  refine ⟨fun e n value he hvalue => ?_, fun c e name handle hlive hhandle => ?_⟩
  · obtain ⟨-, -, a, ha, p, hp⟩ := hcoherent.assigned e n value he hvalue
    exact ⟨a, p, Backend.record?_eq_some_iff.2 ⟨value, hvalue, ha⟩, hp⟩
  · obtain ⟨he, rfl⟩ := hover.handle_eq_ok_iff.1 hhandle
    have hdeletes := Enclave.deletesPolicy_run hover.plain hlive hcoherent he name
    refine ⟨hdeletes, ?_⟩
    rintro caller enclave rfl hpermits
    have hgate : (s.gate caller enclave (.deletePolicy name)).attempt.run c w' =
        (.ok (l.handle (s.enclaveName enclave)), w') :=
      run_gate_of_permits hmade hlive he hpermits
    have hrun : (s.perform caller enclave (.deletePolicy name)).attempt.run c w' =
        (((l.handle (s.enclaveName enclave)).deletePolicy name >>= fun _ =>
          pure Reply.done).attempt >>= s.report caller enclave (.deletePolicy name)).run c w' :=
      run_gated_of_ok hgate _
    rw [hrun, Program.run_bind, run_report, Routine.run_bind]
    generalize ((l.handle (s.enclaveName enclave)).deletePolicy name).attempt.run c w' = ended
      at hdeletes
    obtain ⟨outcome, w''⟩ := ended
    cases outcome with
    | ok _ => exact hdeletes
    | error err => exact hdeletes

/-- An admin makes a policy and gives it to somebody, so it cannot be removed. -/
theorem policies_in_use_assigned :
    let s : Service := ⟨Layout.catalog ⟨""⟩, .ofAdmin (some ⟨"root"⟩), "default", 30⟩
    let w := World.calm (.memory .empty)
    let c := Context.ofToken []
    ofSettings { Settings.default with admin := some ⟨"root"⟩ } = .ok s ∧
      (∀ name, w.backend.stored? name = none) ∧ w.backend.Tidy ∧
      ∃ w' handle, s.Course Identity.Trimmed w w' ∧ w'.ended c = false ∧
        s.registry.handle "default" = .ok handle ∧
        ((handle.deletePolicy "p").attempt.run c w').1 = .error (.policyInUse "p" 1) ∧
        w'.backend.DeletesPolicy ⟨""⟩ "default" "p"
          ((handle.deletePolicy "p").attempt.run c w').1
          ((handle.deletePolicy "p").attempt.run c w').2.backend := by
  intro s w c
  let p : Policy := ⟨["/v1/key/*"], [], none, .unknown⟩
  have hmade : ofSettings { Settings.default with admin := some ⟨"root"⟩ } = .ok s := rfl
  have hempty (name : String) : w.backend.stored? name = none := rfl
  let serve (call : Call) (w : World Unit) := s.serve? c ⟨"root"⟩ call w
  let after (call : Call) (w : World Unit) := ((serve call w).map Prod.snd).getD w
  have hserved {call : Call} {w₁ : World Unit} (hcourse : s.Course Identity.Trimmed w w₁)
      (hadmits : s.AssignsOnly Identity.Trimmed call) (hsome : (serve call w₁).isSome = true) :
      s.Course Identity.Trimmed w (after call w₁) := by
    obtain ⟨⟨r, w₂⟩, hserves⟩ := Option.isSome_iff_exists.1 hsome
    have hafter : after call w₁ = w₂ := by
      simp only [after, hserves, Option.map_some, Option.getD_some]
    exact hafter ▸ .served hcourse hadmits hserves
  let w₁ := after .init w
  let w₂ := after (.command "" (.createPolicy "p" p)) w₁
  let w₃ := after (.command "" (.assignPolicy "p" [⟨"ann"⟩])) w₂
  have hinit : s.Course Identity.Trimmed w w₁ :=
    hserved (.start w) (fun _ _ _ hcall => nomatch hcall) (by decide +kernel)
  have hcreated : s.Course Identity.Trimmed w w₂ :=
    hserved hinit (fun _ _ _ hcall => nomatch hcall) (by decide +kernel)
  have hassigned : s.Course Identity.Trimmed w w₃ := by
    refine hserved hcreated ?_ (by decide +kernel)
    rintro _ _ _ ⟨⟩ i hi - -
    obtain rfl := List.mem_singleton.1 hi
    exact ⟨"ann", by decide⟩
  have hlive : w₃.ended c = false := by decide +kernel
  have hhandle : s.registry.handle "default" = .ok (Layout.handle ⟨""⟩ "default") :=
    (over_of_ofSettings hmade).handle_eq_ok_iff.2
      ⟨(over_of_ofSettings hmade).validDefault, rfl⟩
  refine ⟨hmade, hempty, trivial, w₃, _, hassigned, hlive, hhandle, by decide +kernel, ?_⟩
  exact ((policies_in_use hmade hempty trivial hassigned).2 c "default" "p" _ hlive hhandle).1

end Service

end KeyCustody
