import KeyCustody.World

/-!
# Contracts of programs

A program is a tree of requests, and its surroundings choose the branch that it takes.
A *contract* says what the program may ask and what it may rely on in the answers.  A
program keeps a contract if, on every branch whose answers are as assumed, it asks only
what is allowed and ends with a value that fits.

Contracts are shown along the text of a program (`Routine.Keeps.bind` and its neighbours)
and used along its runs:

* `Program.Keeps.run`: what the answers of a world preserve, a whole run preserves, and
  the run ends with a value that fits;
* `Program.Keeps.run_simulates`: two worlds that answer all allowed requests alike
  bring the program to the same value.
-/

namespace KeyCustody

/-- What a program may ask, and what it may rely on in the answers. -/
structure Contract where
  allows : Request → Prop
  assumes : (r : Request) → r.Answer → Prop

/-- The contract of making requests of one kind only. -/
def Contract.asking (allowed : Request → Prop) : Contract :=
  ⟨allowed, fun _ _ => True⟩

namespace Program

variable {α β : Type} {k : Contract}

/-- On every branch whose answers are as assumed, the program asks only what the contract
allows and ends with a value that fits. -/
def Keeps (k : Contract) (fits : α → Prop) : Program α → Prop
  | .done a => fits a
  | .ask r next => k.allows r ∧ ∀ x, k.assumes r x → (next x).Keeps k fits

/-- A program that may do more and promises less. -/
theorem Keeps.mono {k' : Contract} {fits fits' : α → Prop} {p : Program α}
    (h : p.Keeps k fits) (allows : ∀ r, k.allows r → k'.allows r)
    (assumes : ∀ r x, k.allows r → k'.assumes r x → k.assumes r x)
    (weaker : ∀ a, fits a → fits' a) : p.Keeps k' fits' := by
  induction p with
  | done a => exact weaker a h
  | ask r next ih =>
      obtain ⟨allowed, rest⟩ := h
      exact ⟨allows r allowed, fun x hx => ih x (rest x (assumes r x allowed hx))⟩

/-- A program with a weaker promise. -/
theorem Keeps.weaken {fits fits' : α → Prop} {p : Program α} (h : p.Keeps k fits)
    (weaker : ∀ a, fits a → fits' a) : p.Keeps k fits' :=
  h.mono (fun _ => id) (fun _ _ _ => id) weaker

/-- Every program keeps the contract of asking anything. -/
theorem keeps_anything (p : Program α) : p.Keeps (.asking fun _ => True) fun _ => True := by
  induction p with
  | done a => trivial
  | ask r next ih => exact ⟨trivial, fun x _ => ih x⟩

/-- One program after the other. -/
theorem Keeps.bind {fits : α → Prop} {fits' : β → Prop} {p : Program α}
    {f : α → Program β} (h : p.Keeps k fits) (rest : ∀ a, fits a → (f a).Keeps k fits') :
    (p >>= f).Keeps k fits' := by
  induction p with
  | done a => exact rest a h
  | ask r next ih => exact ⟨h.1, fun x hx => ih x (h.2 x hx)⟩

/-- A program at its end asks for nothing. -/
theorem Keeps.pure {fits : α → Prop} {a : α} (h : fits a) :
    (Pure.pure a : Program α).Keeps k fits := h

/-- One request, and what is assumed of its answer. -/
theorem Keeps.request {r : Request} (allowed : k.allows r) :
    (Program.request r).Keeps k (k.assumes r) :=
  ⟨allowed, fun _ hx => hx⟩

end Program

/-! ### Routines -/

namespace Routine

variable {α β : Type} {k : Contract}

/-- The promise of a routine: one for its value and one for its error. -/
def ends (good : α → Prop) (bad : Error → Prop) : Except Error α → Prop
  | .ok a => good a
  | .error e => bad e

/-- The routine keeps the contract and ends with a good value or a bad error. -/
def Keeps (k : Contract) (good : α → Prop) (bad : Error → Prop) (a : Routine α) : Prop :=
  a.attempt.Keeps k (ends good bad)

variable {good : α → Prop} {bad : Error → Prop}

theorem Keeps.weaken {good' : α → Prop} {bad' : Error → Prop} {a : Routine α}
    (h : a.Keeps k good bad) (hgood : ∀ x, good x → good' x) (hbad : ∀ e, bad e → bad' e) :
    a.Keeps k good' bad' := by
  refine Program.Keeps.weaken h fun r hr => ?_
  cases r with
  | ok x => exact hgood x hr
  | error e => exact hbad e hr

/-- A routine as a program, without its promise. -/
theorem Keeps.attempt {a : Routine α} (h : a.Keeps k (fun _ => True) fun _ => True) :
    a.attempt.Keeps k (fun _ => True) :=
  Program.Keeps.weaken h fun _ _ => trivial

theorem Keeps.pure {a : α} (h : good a) : (Pure.pure a : Routine α).Keeps k good bad := h

theorem Keeps.throw {e : Error} (h : bad e) :
    (MonadExcept.throw e : Routine α).Keeps k good bad := h

/-- One routine after the other; an error skips the second. -/
theorem Keeps.bind {good' : β → Prop} {a : Routine α} {f : α → Routine β}
    (h : a.Keeps k good bad) (rest : ∀ x, good x → (f x).Keeps k good' bad) :
    (a >>= f).Keeps k good' bad := by
  refine Program.Keeps.bind h fun r hr => ?_
  cases r with
  | ok x => exact rest x hr
  | error e => exact hr

/-- A routine whose value or error is looked at. -/
theorem Keeps.handle {good' : β → Prop} {bad' : Error → Prop} {a : Routine α}
    {f : Except Error α → Routine β} (h : a.Keeps k good bad)
    (onValue : ∀ x, good x → (f (.ok x)).Keeps k good' bad')
    (onError : ∀ e, bad e → (f (.error e)).Keeps k good' bad') :
    (a.handle f).Keeps k good' bad' := by
  refine Program.Keeps.bind h fun r hr => ?_
  cases r with
  | ok x => exact onValue x hr
  | error e => exact onError e hr

/-- Errors told differently. -/
theorem Keeps.mapError {f : Error → Error} {a : Routine α}
    (h : a.Keeps k good fun e => bad (f e)) : (a.mapError f).Keeps k good bad :=
  h.handle (fun _ hx => hx) (fun _ he => he)

/-- What is computed without asking. -/
theorem Keeps.ofExcept {r : Except Error α} (h : ends good bad r) :
    (Routine.ofExcept r).Keeps k good bad := h

/-- A check in front of a routine. -/
theorem Keeps.check {good' : β → Prop} {r : Except Error α} {f : α → Routine β}
    (fails : ∀ e, r = .error e → bad e)
    (rest : ∀ x, r = .ok x → (f x).Keeps k good' bad) :
    (Routine.ofExcept r >>= f).Keeps k good' bad := by
  cases r with
  | ok x => exact rest x rfl
  | error e => exact fails e rfl

/-- A program that cannot fail. -/
theorem Keeps.lift {p : Program α} (h : p.Keeps k good) :
    Routine.Keeps k good bad (ExceptT.lift p) := by
  change Program.Keeps k (ends good bad) (p >>= fun x => Pure.pure (Except.ok x))
  exact Program.Keeps.bind h fun _ hx => hx

/-- A look at the clock. -/
theorem Keeps.time (allowed : k.allows .time) :
    Routine.time.Keeps k (k.assumes .time) bad :=
  Keeps.lift (Program.Keeps.request allowed)

/-- A routine whose value and error the rest does not look at. -/
theorem Keeps.seq {good' : β → Prop} {a : Routine α} {f : α → Routine β}
    (h : a.Keeps k (fun _ => True) fun _ => True)
    (rest : ∀ x, (f x).Keeps k good' fun _ => True) :
    (a >>= f).Keeps k good' fun _ => True :=
  h.bind fun x _ => rest x

theorem attempt_bind (a : Routine α) (f : α → Routine β) :
    (a >>= f).attempt = a.attempt >>= fun
      | .ok x => (f x).attempt
      | .error e => .done (.error e) := by
  refine congrArg (Program.bind a.attempt) (funext fun r => ?_)
  cases r with
  | ok x => rfl
  | error e => rfl

end Routine

/-! ### Runs -/

/-- **A run keeps what the answers keep.**  If every answer to an allowed request is as
assumed and preserves a property of the world, then a whole run preserves it and ends
with a value that fits. -/
theorem Program.Keeps.run {α σ : Type} [Mishaps σ] {k : Contract} {fits : α → Prop}
    {p : Program α} (h : p.Keeps k fits) (c : Context) (inv : World σ → Prop)
    (step : ∀ r w, k.allows r → inv w →
      k.assumes r (w.answer c r).1 ∧ inv (w.answer c r).2)
    {w : World σ} (hw : inv w) : fits (p.run c w).1 ∧ inv (p.run c w).2 := by
  induction p generalizing w with
  | done a => exact ⟨h, hw⟩
  | ask r next ih =>
      obtain ⟨answered, kept⟩ := step r w h.1 hw
      exact ih _ (h.2 _ answered) kept

/-- **Worlds that answer alike.**  If related worlds answer every allowed request alike,
as assumed, and stay related, then a run has the same value in both and leaves them
related. -/
theorem Program.Keeps.run_simulates {α σ τ : Type} [Mishaps σ] [Mishaps τ] {k : Contract}
    {fits : α → Prop} {p : Program α} (h : p.Keeps k fits) (c : Context)
    (related : World σ → World τ → Prop)
    (step : ∀ r w v, k.allows r → related w v →
      k.assumes r (w.answer c r).1 ∧ (v.answer c r).1 = (w.answer c r).1 ∧
        related (w.answer c r).2 (v.answer c r).2)
    {w : World σ} {v : World τ} (hwv : related w v) :
    (p.run c v).1 = (p.run c w).1 ∧ related (p.run c w).2 (p.run c v).2 := by
  induction p generalizing w v with
  | done a => exact ⟨rfl, hwv⟩
  | ask r next ih =>
      obtain ⟨answered, same, kept⟩ := step r w v h.1 hwv
      have rest := ih _ (h.2 _ answered) kept
      simp only [Program.run]
      rw [same]
      exact rest

/-- A run of two routines in a row. -/
theorem Routine.run_bind {α β σ : Type} [Mishaps σ] (c : Context) (a : Routine α)
    (f : α → Routine β) (w : World σ) :
    (a >>= f).attempt.run c w =
      match (a.attempt.run c w).1 with
      | .ok x => (f x).attempt.run c (a.attempt.run c w).2
      | .error e => (.error e, (a.attempt.run c w).2) := by
  rw [Routine.attempt_bind, Program.run_bind]
  cases (a.attempt.run c w).1 with
  | ok x => rfl
  | error e => rfl

/-- A run of a routine whose value is told differently. -/
theorem Routine.run_map {α β σ : Type} [Mishaps σ] (c : Context) (a : Routine α) (f : α → β)
    (w : World σ) :
    (a >>= fun x => pure (f x)).attempt.run c w =
      ((a.attempt.run c w).1.map f, (a.attempt.run c w).2) := by
  rw [Routine.run_bind]
  cases (a.attempt.run c w).1 with
  | ok x => rfl
  | error e => rfl

/-! ### Results that are told differently -/

section Results

variable {ε ε' α β : Type} {e : ε} {e' : ε'} {a : α}

theorem mapError_eq_ok_iff {f : ε → ε'} {r : Except ε α} :
    r.mapError f = .ok a ↔ r = .ok a := by
  cases r with
  | ok b =>
      change (Except.ok b : Except ε' α) = .ok a ↔ _
      simp
  | error e => exact iff_of_false nofun nofun

theorem mapError_eq_error_iff {f : ε → ε'} {r : Except ε α} :
    r.mapError f = .error e' ↔ ∃ e, r = .error e ∧ f e = e' := by
  cases r with
  | ok b => exact iff_of_false nofun nofun
  | error e =>
      change (Except.error (f e) : Except ε' α) = .error e' ↔ _
      simp

theorem map_eq_error_iff {f : α → β} {r : Except ε α} :
    r.map f = .error e ↔ r = .error e := by
  cases r with
  | ok a => exact iff_of_false nofun nofun
  | error e' =>
      change (Except.error e' : Except ε β) = .error e ↔ _
      simp

end Results

end KeyCustody
