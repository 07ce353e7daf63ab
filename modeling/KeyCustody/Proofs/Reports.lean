import KeyCustody.Proofs.Overwriting
import KeyCustody.Proofs.WellFormed

/-!
# What reports tell

A call that reports success has stored what it was asked to store, whatever mishaps there
were, and a call whose gate fails has not touched the store.  So what a call did can be told
from what it reports.  Main statements:

* `Service.perform_passed`: a call fails in its gate, or it ends as its body does;
* `Cabinet.stored_of_replaceValue`: an overwrite that succeeds stores the new value;
* `Service.assigned_of_assignEach`: items that are reported as done are done.
-/

namespace KeyCustody

variable {σ : Type} [Mishaps σ] {c : Context} {w : World σ} {l : Layout} {e name : String}

/-- A program that avoids a name leaves what is held under it as it was. -/
theorem Program.Keeps.stored?_run_of_avoids {α : Type} {p : Program α} {full : String}
    (h : p.Keeps (.asking (Request.Avoids full)) fun _ => True) (c : Context) (w : World σ) :
    (p.run c w).2.backend.stored? full = w.backend.stored? full :=
  (h.run c (fun v => v.backend.stored? full = w.backend.stored? full)
    (fun _ v hr hv => ⟨trivial, (v.stored?_answer_of_avoids hr c).trans hv⟩) rfl).2

/-! ### Behind the gate -/

namespace Service

variable {s : Service} {caller : Identity} {enclave : String} {command : Command}

/-- **Calls behind the gate.**  A call fails in its gate and leaves the store alone, or it passes
the gate and ends as its body does. -/
theorem perform_passed (hover : s.Over l) (c : Context) (w : World σ) (caller : Identity)
    (hscope : s.scopeOf enclave command = e) :
    (∃ err, ((s.perform caller enclave command).attempt.run c w).1 = .error err ∧
        ((s.perform caller enclave command).attempt.run c w).2.backend = w.backend) ∨
      ∃ w₁ : World σ, w₁.backend = w.backend ∧
        Passed (.looking w.backend) s l caller e command.operation.path ∧
        ((s.perform caller enclave command).attempt.run c w).1 =
          ((s.body caller (l.handle e) command).attempt.run c w₁).1 ∧
        ((s.perform caller enclave command).attempt.run c w).2.backend =
          ((s.body caller (l.handle e) command).attempt.run c w₁).2.backend := by
  subst hscope
  have hlooks : (s.gate caller (target command enclave) command.operation).Keeps
      (.looking w.backend) _ _ := keeps_gate hover fun _ _ _ => rfl
  obtain ⟨hpromise, hsame⟩ := Program.Keeps.run hlooks c (fun v => v.backend = w.backend)
    (fun r v => World.looking_step c r v) (w := w) rfl
  unfold perform
  rcases hgate : (s.gate caller (target command enclave) command.operation).attempt.run c w with
    ⟨err | h, w₁⟩
  · rw [hgate] at hsame
    rw [run_gated_of_error hgate]
    exact .inl ⟨err, rfl, hsame⟩
  · rw [hgate] at hpromise hsame
    obtain ⟨rfl, hpassed⟩ := hpromise
    rw [run_gated_of_ok hgate, Program.run_bind, run_report]
    exact .inr ⟨w₁, hsame, hpassed, rfl, rfl⟩

/-- A call that does not fail in its gate has a registered scope. -/
theorem perform_cases (hover : s.Over l) (c : Context) (w : World σ) (caller : Identity)
    (hscope : s.scopeOf enclave command = e) :
    (∃ err, ((s.perform caller enclave command).attempt.run c w).1 = .error err ∧
        ((s.perform caller enclave command).attempt.run c w).2.backend = w.backend) ∨
      ∃ w₁ : World σ, w₁.backend = w.backend ∧ ValidEnclaveName e ∧
        (∃ g : Registration, w.backend.record? (l.record e) = some g) ∧
        ((s.perform caller enclave command).attempt.run c w).1 =
          ((s.body caller (l.handle e) command).attempt.run c w₁).1 ∧
        ((s.perform caller enclave command).attempt.run c w).2.backend =
          ((s.body caller (l.handle e) command).attempt.run c w₁).2.backend := by
  refine (perform_passed hover c w caller hscope).imp_right ?_
  rintro ⟨w₁, hsame, hpassed, hends⟩
  obtain ⟨g, hregistered⟩ := hpassed.registered
  exact ⟨w₁, hsame, hpassed.valid, ⟨g, Contract.mayHold_looking.1 hregistered⟩, hends⟩

/-- A call that succeeds ends as its body does. -/
theorem of_perform_ok {reply : Reply} (hover : s.Over l)
    (hscope : s.scopeOf enclave command = e) (holds : Backend → Prop)
    (hok : ((s.perform caller enclave command).attempt.run c w).1 = .ok reply)
    (h : ∀ w₁ : World σ, w₁.backend = w.backend → ValidEnclaveName e →
      (∃ g : Registration, w.backend.record? (l.record e) = some g) →
      ((s.body caller (l.handle e) command).attempt.run c w₁).1 = .ok reply →
        holds ((s.body caller (l.handle e) command).attempt.run c w₁).2.backend) :
    holds ((s.perform caller enclave command).attempt.run c w).2.backend := by
  rcases perform_cases hover c w caller hscope with
    ⟨err, herror, -⟩ | ⟨w₁, hsame, hvalid, hregistered, hends, hstore⟩
  · rw [herror] at hok
    cases hok
  · rw [hends] at hok
    rw [hstore]
    exact h w₁ hsame hvalid hregistered hok

end Service

/-! ### Overwrites that succeed -/

/-- An overwrite that succeeds stores the new value. -/
theorem Cabinet.stored_of_replaceValue {space : String} {value : Bytes} (n : Nat)
    (hok : ((replaceValue (.under space .whole) name value n).attempt.run c w).1 = .ok ()) :
    ((replaceValue (.under space .whole) name value n).attempt.run c w).2.backend.stored?
      (space ++ name) = some value := by
  induction n generalizing w with
  | zero => cases hok
  | succ n ih =>
      refine Routine.of_bind_ok (fun v => v.backend.stored? (space ++ name) = some value) hok
        fun _ _ hok => ?_
      generalize (((View.under space .whole).delete name).attempt.run c w).2 = w₁ at hok ⊢
      rw [Routine.run_handle] at hok ⊢
      rcases hcreated : ((View.under space .whole).create name value).attempt.run c w₁ with
        ⟨err | _, w₂⟩
      · rw [hcreated] at hok
        cases err with
        | alreadyExists what => exact ih hok
        | _ => cases hok
      · have hstored := View.stored_of_create (congrArg Prod.fst hcreated)
        rw [hcreated] at hstored
        exact hstored

namespace Enclave

/-- A policy that was set without an error is stored without its repetitions. -/
theorem stored_of_setPolicy {policy : Policy} {creator : Identity} {info : PolicyInfo}
    (hok : (((l.handle e).setPolicy name policy creator).attempt.run c w).1 = .ok info) :
    ValidName name ∧ ∃ time,
      (((l.handle e).setPolicy name policy creator).attempt.run c w).2.backend.stored?
        (l.space .policy e ++ name) =
          some (Record.encode (storedPolicy policy time creator)) := by
  have hpeel {α β : Type} {a : Routine α} {f : α → Routine β} {y : β} {w : World σ} :=
    Routine.of_bind_ok (c := c) (w := w) (a := a) (f := f) (y := y) fun v =>
      ValidName name ∧ ∃ time, v.backend.stored? (l.space .policy e ++ name) =
        some (Record.encode (storedPolicy policy time creator))
  unfold setPolicy at hok ⊢
  -- the look at the registration, the checks and the clock come before the overwrite
  apply hpeel hok
  intro _ _ hok
  apply hpeel hok
  intro _ hnamed hok
  apply hpeel hok
  intro _ _ hok
  apply hpeel hok
  intro time _ hok
  apply hpeel hok
  intro _ hreplaced _
  exact ⟨checkName_eq_ok_iff.1 hnamed, time, Cabinet.stored_of_replaceValue _ hreplaced⟩

/-- A policy that was given without an error is assigned. -/
theorem stored_of_assignPolicy {policy : String} {i creator : Identity} {info : AssignmentInfo}
    (hok : (((l.handle e).assignPolicy policy i creator).attempt.run c w).1 = .ok info) :
    i.Valid ∧ ∃ time,
      (((l.handle e).assignPolicy policy i creator).attempt.run c w).2.backend.stored?
        (l.space .assignment e ++ i.text) =
          some (Record.encode (⟨policy, time, creator⟩ : Assignment)) := by
  have hpeel {α β : Type} {a : Routine α} {f : α → Routine β} {y : β} {w : World σ} :=
    Routine.of_bind_ok (c := c) (w := w) (a := a) (f := f) (y := y) fun v =>
      i.Valid ∧ ∃ time, v.backend.stored? (l.space .assignment e ++ i.text) =
        some (Record.encode (⟨policy, time, creator⟩ : Assignment))
  unfold assignPolicy at hok ⊢
  by_cases hunknown : i.isUnknown = true
  · rw [if_pos hunknown] at hok
    cases hok
  rw [if_neg hunknown] at hok ⊢
  apply hpeel hok
  intro _ hknown hok
  apply hpeel hok
  intro _ _ hok
  apply hpeel hok
  intro _ _ hok
  apply hpeel hok
  intro time _ hok
  apply hpeel hok
  intro _ hreplaced _
  exact ⟨Identity.check_eq_ok_iff.1 hknown, time, Cabinet.stored_of_replaceValue _ hreplaced⟩

end Enclave

/-! ### Assignments that succeed -/

namespace Service

variable {s : Service} {caller : Identity} {policy : String}

/-- Items for other identities leave an assignment as it was. -/
theorem stored?_assignEach_of_not_mem {i : Identity} {identities : List Identity}
    (hi : i ∉ identities) :
    ((s.assignEach (l.handle e) caller policy identities).run c w).2.backend.stored?
      (l.space .assignment e ++ i.text) =
        w.backend.stored? (l.space .assignment e ++ i.text) := by
  refine Program.Keeps.stored?_run_of_avoids
    (keeps_assignEach identities identities (fun _ => id) fun r hasks => ?_) c w
  have hother {j : Identity} (hj : j ∈ identities) :
      l.space .assignment e ++ j.text ≠ l.space .assignment e ++ i.text := by
    intro hsame
    exact hi (Identity.text_inj.1 ((String.append_right_inj _).1 hsame) ▸ hj)
  cases hasks with
  | assignPolicy_remove hj => exact ⟨hother hj, id⟩
  | assignPolicy_create _ _ hj => exact ⟨id, hother hj⟩
  | _ => exact ⟨id, id⟩

/-- An assignment to one identity that was made without an error is stored. -/
theorem assigned_of_assignOne {i : Identity}
    (hok : ((s.assignOne (l.handle e) caller policy i).attempt.run c w).1 = .ok ()) :
    s.authorizer.isAdmin i = false ∧ i.Valid ∧ ∃ time,
      ((s.assignOne (l.handle e) caller policy i).attempt.run c w).2.backend.stored?
        (l.space .assignment e ++ i.text) =
          some (Record.encode (⟨policy, time, caller⟩ : Assignment)) := by
  unfold assignOne at hok ⊢
  by_cases hadmin : s.authorizer.isAdmin i = true
  · rw [if_pos hadmin] at hok
    cases hok
  rw [if_neg hadmin] at hok ⊢
  by_cases hself : i = caller
  · rw [if_pos hself] at hok
    cases hok
  rw [if_neg hself] at hok ⊢
  refine ⟨Bool.eq_false_iff.2 hadmin, ?_⟩
  refine Routine.of_bind_ok (fun v => i.Valid ∧ ∃ time, v.backend.stored?
    (l.space .assignment e ++ i.text) =
      some (Record.encode (⟨policy, time, caller⟩ : Assignment))) hok fun info hdone _ => ?_
  exact Enclave.stored_of_assignPolicy hdone

/-- **Items that are reported as done are done**: if all items for an identity succeed, it has
the policy afterwards. -/
theorem assigned_of_assignEach {i : Identity} {identities : List Identity} (hi : i ∈ identities)
    (hok : ∀ x ∈ identities.zip
      ((s.assignEach (l.handle e) caller policy identities).run c w).1,
        x.1 = i → x.2.result = .ok ()) :
    s.authorizer.isAdmin i = false ∧ i.Valid ∧ ∃ time,
      ((s.assignEach (l.handle e) caller policy identities).run c w).2.backend.stored?
        (l.space .assignment e ++ i.text) =
          some (Record.encode (⟨policy, time, caller⟩ : Assignment)) := by
  induction identities generalizing w with
  | nil => cases hi
  | cons j identities ih =>
      unfold assignEach at hok ⊢
      rw [Program.run_bind, Program.run_bind] at hok ⊢
      generalize hone : (s.assignOne (l.handle e) caller policy j).attempt.run c w = one
        at hok ⊢
      by_cases hlater : i ∈ identities
      · exact ih hlater fun x hx => hok x (List.mem_cons_of_mem _ hx)
      · -- the item at hand is the last one for the identity
        obtain rfl : i = j := (List.mem_cons.1 hi).resolve_right hlater
        have hdone := hok (i, _) List.mem_cons_self rfl
        subst hone
        obtain ⟨hadmin, hvalid, time, hstored⟩ := assigned_of_assignOne hdone
        exact ⟨hadmin, hvalid, time, (stored?_assignEach_of_not_mem hlater).trans hstored⟩

end Service

end KeyCustody
