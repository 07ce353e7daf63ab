import KeyCustody.Proofs.Listing

/-!
# The accesses of a run

A program makes requests, and the store answers most of them with one access each; a listing is
answered with an access that starts it and one for every name that is read.  `Program.accesses`
lists all accesses of a run with the errors that they met.  Main statements:

* `Program.mishaps_run`: every access uses up one mishap, so none is missing from the list;
* `World.failure_of_accesses`: a request whose accesses fail is answered with the first failure;
* `World.OnlyFaults.answer_of_accesses`: what such a failure is not, if only faults are injected.
-/

namespace KeyCustody

/-- An access to the store, and the error that it met if it met one. -/
structure Attempt where
  access : Access
  error : Option Error
deriving DecidableEq, Repr

namespace Attempt

/-- The error of an access that failed.  It is no failure of a look-up that the name is missing,
and none of a creation that the name is taken. -/
def failure? : Attempt → Option Error
  | ⟨.get _, some (.notFound _)⟩ => none
  | ⟨.create _, some (.alreadyExists _)⟩ => none
  | ⟨_, error⟩ => error

/-- A failure is the error of the access, and not one of those that are no failure. -/
theorem of_failure? {a : Attempt} {e : Error} (h : a.failure? = some e) :
    a.error = some e ∧ (∀ name, a.access = .get name → e.isNotFound = false) ∧
      ∀ name, a.access = .create name → e.isAlreadyExists = false := by
  obtain ⟨access, error⟩ := a
  unfold failure? at h
  split at h
  · cases h
  · cases h
  · rename_i hget hcreate heq
    cases heq
    refine ⟨h, ?_, ?_⟩
    · rintro name rfl
      cases e with
      | notFound what => exact absurd h (hget name what rfl)
      | _ => rfl
    · rintro name rfl
      cases e with
      | alreadyExists what => exact absurd h (hcreate name what rfl)
      | _ => rfl

/-- The first failure among accesses. -/
def first? (log : List Attempt) : Option Error :=
  log.findSome? failure?

theorem first?_append (log log' : List Attempt) :
    first? (log ++ log') = (first? log).or (first? log') :=
  List.findSome?_append

theorem first?_singleton (a : Attempt) : first? [a] = a.failure? := by
  cases h : a.failure? <;> simp [first?, h]

end Attempt

/-- The error in the answer to a request. -/
def Request.errorIn? : (r : Request) → r.Answer → Option Error
  | .create _ _, x | .delete _, x | .status, x => errorOf x
  | .get _, x => errorOf x
  | .list _, x => errorOf x
  | .time, _ | .eventId, _ | .emit _, _ => none

section

variable {σ : Type} [Mishaps σ]

namespace World

/-- The accesses that read at most `fuel` names from a cursor. -/
def reads (c : Context) : Nat → Cursor → World σ → List Attempt
  | 0, _, _ => []
  | fuel + 1, cursor, w =>
    if cursor.isDone then []
    else
      match w.nextName c cursor with
      | (some name, next, w) => ⟨.next (some name), next.failure⟩ :: reads c fuel next w
      | (none, next, _) => [⟨.next none, next.failure⟩]

/-- The accesses that answer a request. -/
def accesses (w : World σ) (c : Context) : Request → List Attempt
  | .create name value => [⟨.create name, errorOf (w.answer c (.create name value)).1⟩]
  | .get name => [⟨.get name, errorOf (w.answer c (.get name)).1⟩]
  | .delete name => [⟨.delete name, errorOf (w.answer c (.delete name)).1⟩]
  | .status => [⟨.status, errorOf (w.answer c .status).1⟩]
  | .list pattern =>
    match w.startListing c pattern with
    | (.error e, _) => [⟨.list pattern, some e⟩]
    | (.ok cursor, w) =>
      ⟨.list pattern, none⟩ :: reads c (cursor.bound w.backend.table + 1) cursor w
  | .time | .eventId | .emit _ => []

end World

namespace Program

variable {α β : Type}

/-- The accesses of a run, the first one first. -/
def accesses (c : Context) : Program α → World σ → List Attempt
  | .done _, _ => []
  | .ask r next, w =>
    w.accesses c r ++ (next (w.answer c r).1).accesses c (w.answer c r).2

/-- One program after the other makes the accesses of both. -/
theorem accesses_bind (c : Context) (p : Program α) (f : α → Program β) (w : World σ) :
    (p >>= f).accesses c w =
      p.accesses c w ++ (f (p.run c w).1).accesses c (p.run c w).2 := by
  induction p generalizing w with
  | done a => rfl
  | ask r next ih =>
      change w.accesses c r ++ (next (w.answer c r).1 >>= f).accesses c (w.answer c r).2 = _
      rw [ih, ← List.append_assoc]
      rfl

end Program

/-- One routine after the other makes the accesses of both, unless the first one fails. -/
theorem Routine.accesses_bind {α β : Type} (c : Context) (a : Routine α) (f : α → Routine β)
    (w : World σ) :
    (a >>= f).attempt.accesses c w =
      a.attempt.accesses c w ++
        match (a.attempt.run c w).1 with
        | .ok x => (f x).attempt.accesses c (a.attempt.run c w).2
        | .error _ => [] := by
  rw [attempt_bind, Program.accesses_bind]
  cases (a.attempt.run c w).1 with
  | ok x => rfl
  | error e => rfl

end

/-! ### Mishaps that are used up -/

section Schedules

variable {w : World (Nat → Mishap)} {c : Context}

namespace World

/-- An access uses up one mishap. -/
theorem mishaps_meet (w : World (Nat → Mishap)) (c : Context) (a : Access) :
    (w.meet c a).2.mishaps = fun n => w.mishaps (n + 1) := by
  have hcancel (v : World (Nat → Mishap)) (t : Option Token) :
      (v.cancel t).mishaps = v.mishaps := by
    cases t <;> rfl
  have hstrike : Mishaps.strike a w.mishaps = (w.mishaps 0, fun n => w.mishaps (n + 1)) := rfl
  unfold meet
  rw [hstrike]
  cases herror : (w.mishaps 0).error with
  | some e => simp only [herror, hcancel]
  | none => simp only [herror, hcancel]

/-- An access that fails met the mishap at hand. -/
theorem error_of_meet {a : Access} {e : Error} {v : World (Nat → Mishap)}
    (hmet : w.meet c a = (.error e, v)) : (w.mishaps 0).error = some e := by
  have hstrike : Mishaps.strike a w.mishaps = (w.mishaps 0, fun n => w.mishaps (n + 1)) := rfl
  unfold World.meet at hmet
  rw [hstrike] at hmet
  cases herror : (w.mishaps 0).error with
  | some e' =>
      simp only [herror, Prod.mk.injEq, Except.error.injEq] at hmet
      rw [hmet.1]
  | none => simp [herror] at hmet

theorem mishaps_nextName {cursor : Cursor} (hopen : cursor.isDone = false) :
    (w.nextName c cursor).2.2.mishaps = fun n => w.mishaps (n + 1) := by
  have hmet := w.mishaps_meet c (.next (cursor.next (.steady (w.ended c)) w.backend.table).1)
  unfold nextName
  rw [hopen, if_neg Bool.false_ne_true]
  simp only
  split
  · rename_i hv
    rw [hv] at hmet
    exact hmet
  · rename_i hv
    rw [hv] at hmet
    exact hmet

theorem mishaps_readAll (fuel : Nat) (names : List String) (cursor : Cursor) :
    (readAll c fuel names cursor w).2.mishaps =
      fun n => w.mishaps (n + (reads c fuel cursor w).length) := by
  induction fuel generalizing names cursor w with
  | zero => rfl
  | succ fuel ih =>
      unfold readAll reads
      cases hdone : cursor.isDone with
      | true =>
          have hread : w.nextName c cursor = (none, cursor, w) := by
            unfold nextName
            rw [hdone, if_pos rfl]
          rw [hread]
          rfl
      | false =>
          have hused := mishaps_nextName (w := w) (c := c) hdone
          rw [if_neg Bool.false_ne_true]
          rcases hread : w.nextName c cursor with ⟨_ | name, next, w'⟩
          · rw [hread] at hused
            exact hused
          · rw [hread] at hused
            change w'.mishaps = _ at hused
            change (readAll c fuel (name :: names) next w').2.mishaps = _
            rw [ih, hused]
            funext n
            exact congrArg w.mishaps (by simp only [List.length_cons]; omega)

/-- Every access to answer a request uses up one mishap. -/
theorem mishaps_answer (r : Request) :
    (w.answer c r).2.mishaps = fun n => w.mishaps (n + (w.accesses c r).length) := by
  have hmet {a : Access} {met : Except Error Signal} {v : World (Nat → Mishap)}
      (hm : w.meet c a = (met, v)) : v.mishaps = fun n => w.mishaps (n + 1) := by
    have hused := w.mishaps_meet c a
    rw [hm] at hused
    exact hused
  cases r with
  | time | eventId | emit => rfl
  | list pattern =>
      simp only [answer, list, accesses, startListing]
      rcases hm : w.meet c (.list pattern) with ⟨e | sig, v⟩
      · exact hmet hm
      · simp only
        cases hlisted : v.backend.list sig pattern with
        | error e => exact hmet hm
        | ok cursor =>
            simp only
            rw [mishaps_readAll, hmet hm]
            funext n
            exact congrArg w.mishaps (by simp only [List.length_cons]; omega)
  | create | get | delete | status =>
      simp only [answer]
      split
      · exact hmet ‹_›
      · rename_i hm
        have hused := hmet hm
        exact hused

end World

/-- **Every access uses up one mishap**, so a run makes no other accesses. -/
theorem Program.mishaps_run {α : Type} (p : Program α) :
    (p.run c w).2.mishaps = fun n => w.mishaps (n + (p.accesses c w).length) := by
  induction p generalizing w with
  | done a => rfl
  | ask r next ih =>
      change ((next (w.answer c r).1).run c (w.answer c r).2).2.mishaps = _
      rw [ih, World.mishaps_answer]
      funext n
      exact congrArg w.mishaps (by simp only [accesses, List.length_append]; omega)

/-! What holds of all mishaps to come goes on to hold. -/

variable (holds : Mishap → Prop) {w' : World (Nat → Mishap)}

theorem World.forall_mishaps_meet (h : ∀ n, holds (w.mishaps n)) {a : Access}
    {met : Except Error Signal} (hmet : w.meet c a = (met, w')) (n : Nat) :
    holds (w'.mishaps n) := by
  have hused := w.mishaps_meet c a
  rw [hmet] at hused
  rw [show w'.mishaps = _ from hused]
  exact h (n + 1)

theorem World.forall_mishaps_nextName (h : ∀ n, holds (w.mishaps n)) {cursor next : Cursor}
    {name : Option String} (hread : w.nextName c cursor = (name, next, w')) (n : Nat) :
    holds (w'.mishaps n) := by
  cases hdone : cursor.isDone with
  | true =>
      rw [nextName, hdone, if_pos rfl] at hread
      cases hread
      exact h n
  | false =>
      have hused := mishaps_nextName (w := w) (c := c) hdone
      rw [hread] at hused
      rw [show w'.mishaps = _ from hused]
      exact h (n + 1)

theorem World.forall_mishaps_answer (h : ∀ n, holds (w.mishaps n)) (r : Request) (n : Nat) :
    holds ((w.answer c r).2.mishaps n) := by
  rw [mishaps_answer]
  exact h _

theorem Program.forall_mishaps_run {α : Type} (h : ∀ n, holds (w.mishaps n)) (p : Program α)
    (n : Nat) : holds ((p.run c w).2.mishaps n) := by
  rw [mishaps_run]
  exact h _

end Schedules

/-! ### Listings that fail -/

namespace Cursor

variable {c c' : Cursor} {sig : Signal} {t : Table}

theorem closed_fail (c : Cursor) (e : Error) : (c.fail e).closed = c.closed := by
  unfold fail
  split <;> rfl

/-- A turn does not close a cursor. -/
theorem closed_step (c : Cursor) (sig : Signal) (t : Table) :
    (c.step sig t).2.closed = c.closed := by
  unfold step
  repeat' split
  all_goals simp only [closed_fail]

/-- A turn that yields a name does not fail. -/
theorem failure_of_step_yield {name : String} (hstep : c.step sig t = (.yield name, c')) :
    c'.failure = none := by
  have hdone : c.isDone = false := by
    cases h : c.isDone with
    | false => rfl
    | true => simp [step, h] at hstep
  have hnone : c.failure = none := by
    cases h : c.failure with
    | none => rfl
    | some e => simp [isDone, h] at hdone
  unfold step at hstep
  repeat' split at hstep
  all_goals
    try simp only [Prod.mk.injEq, reduceCtorEq, false_and] at hstep
    try exact hstep.2 ▸ hnone

/-- A turn fails only because the context has ended. -/
theorem failure_step {e : Error} (hstep : (c.step sig t).2.failure = some e) :
    c.failure = some e ∨ e = .canceled := by
  have hfail : (c.fail .canceled).failure = some e → c.failure = some e ∨ e = .canceled := by
    unfold fail
    cases h : c.failure with
    | some e' => exact fun h' => .inl (h ▸ h')
    | none => exact fun h' => .inr (Option.some.inj h').symm
  unfold step at hstep
  repeat' split at hstep
  all_goals first
    | exact .inl hstep
    | exact hfail hstep

/-- The search for a name does not close the cursor.  It fails only because the context has
ended, and not if it finds a name. -/
theorem seek_cases (sig : Signal) (t : Table) (fuel : Nat) (c : Cursor) :
    (seek sig t fuel c).2.closed = c.closed ∧
      ((seek sig t fuel c).1 ≠ none → (seek sig t fuel c).2.failure = none) ∧
      ∀ e, (seek sig t fuel c).2.failure = some e → c.failure = some e ∨ e = .canceled := by
  induction fuel generalizing c with
  | zero =>
      have hclosed := closed_step c sig t
      have hfailed := fun (e : Error) (h : (c.step sig t).2.failure = some e) => failure_step h
      unfold seek
      rcases hstep : c.step sig t with ⟨name | _ | _, c'⟩
      all_goals rw [hstep] at hclosed hfailed
      · exact ⟨hclosed, fun _ => failure_of_step_yield hstep, hfailed⟩
      · exact ⟨hclosed, fun h => absurd rfl h, hfailed⟩
      · exact ⟨hclosed, fun h => absurd rfl h, hfailed⟩
  | succ fuel ih =>
      have hclosed := closed_step c sig t
      have hfailed := fun (e : Error) (h : (c.step sig t).2.failure = some e) => failure_step h
      unfold seek
      rcases hstep : c.step sig t with ⟨name | _ | _, c'⟩
      all_goals rw [hstep] at hclosed hfailed
      · exact ⟨hclosed, fun _ => failure_of_step_yield hstep, hfailed⟩
      · obtain ⟨hclosed', hnone, hfailed'⟩ := ih c'
        refine ⟨hclosed'.trans hclosed, hnone, fun e he => ?_⟩
        rcases hfailed' e he with h | h
        · exact hfailed e h
        · exact .inr h
      · exact ⟨hclosed, fun h => absurd rfl h, hfailed⟩

end Cursor

/-- A listing starts with an open cursor. -/
theorem Backend.open_of_list {b : Backend} {sig : Signal} {pattern : String} {cursor : Cursor}
    (hlisted : b.list sig pattern = .ok cursor) : cursor.Open := by
  cases b with
  | memory t =>
      rcases sig.whole_cases with hs | hs <;> simp only [list, hs, bind, Except.bind] at hlisted <;>
        cases hlisted
      exact ⟨rfl, rfl⟩
  | database t =>
      simp only [list] at hlisted
      split at hlisted <;> cases hlisted
      exact ⟨rfl, rfl⟩
  | files d =>
      simp only [list, bind, Except.bind] at hlisted
      split at hlisted <;> cases hlisted
      exact ⟨rfl, rfl⟩

namespace World

variable {σ : Type} [Mishaps σ] {w w' : World σ} {c : Context} {cursor next : Cursor}
  {name : Option String} {e : Error}

/-- Reading a name does not close the cursor, and fails if and only if there is no name. -/
theorem open_of_nextName (hclosed : cursor.closed = false)
    (hread : w.nextName c cursor = (name, next, w')) :
    next.closed = false ∧ (name ≠ none → next.failure = none) := by
  unfold nextName at hread
  split at hread
  · cases hread
    exact ⟨hclosed, fun h => absurd rfl h⟩
  · obtain ⟨hsame, hnone, -⟩ := Cursor.seek_cases (.steady (w.ended c)) w.backend.table
      (cursor.turns w.backend.table) cursor
    simp only [Cursor.next] at hread
    split at hread
    · cases hread
      exact ⟨(Cursor.closed_fail _ _).trans (hsame.trans hclosed), fun h => absurd rfl h⟩
    · cases hread
      exact ⟨hsame.trans hclosed, hnone⟩

/-- Reading all names fails with the first failure of the reads, if there is one. -/
theorem errorOf_readAll (fuel : Nat) (names : List String) (hopen : cursor.Open) :
    errorOf (readAll c fuel names cursor w).1 = Attempt.first? (reads c fuel cursor w) := by
  have hclose {cursor : Cursor} {names : List String} (hclosed : cursor.closed = false) :
      errorOf (cursor.close.1.map fun _ => names) = cursor.failure := by
    unfold Cursor.close
    rw [hclosed, if_neg Bool.false_ne_true]
    cases cursor.failure <;> rfl
  induction fuel generalizing names cursor w with
  | zero => exact (hclose hopen.2).trans hopen.1
  | succ fuel ih =>
      have hdone : cursor.isDone = false := by simp [Cursor.isDone, hopen.1, hopen.2]
      unfold readAll reads
      rw [hdone, if_neg Bool.false_ne_true]
      rcases hread : w.nextName c cursor with ⟨_ | shown, next, w'⟩
      · obtain ⟨hclosed, -⟩ := open_of_nextName hopen.2 hread
        simp only [Attempt.first?_singleton]
        exact hclose hclosed
      · obtain ⟨hclosed, hnone⟩ := open_of_nextName hopen.2 hread
        have hfirst : (⟨.next (some shown), next.failure⟩ : Attempt).failure? = none :=
          hnone (Option.some_ne_none shown)
        simp only [Attempt.first?, List.findSome?_cons, hfirst]
        exact ih (shown :: names) ⟨hnone (Option.some_ne_none shown), hclosed⟩

/-- **Listings that fail.**  A listing fails with the first failure of its accesses, if there is
one. -/
theorem errorOf_list (w : World σ) (c : Context) (pattern : String) :
    errorOf (w.answer c (.list pattern)).1 = Attempt.first? (w.accesses c (.list pattern)) := by
  simp only [accesses, answer, list]
  rcases hstarted : w.startListing c pattern with ⟨e | cursor, v⟩
  · rfl
  · have hopen : cursor.Open := by
      unfold startListing at hstarted
      split at hstarted
      · cases hstarted
      · exact Backend.open_of_list (congrArg Prod.fst hstarted)
    exact errorOf_readAll _ [] hopen

/-- **Failures are answers.**  A request whose accesses fail is answered with the first failure. -/
theorem failure_of_accesses {r : Request} (hfailed : Attempt.first? (w.accesses c r) = some e) :
    r.errorIn? (w.answer c r).1 = some e := by
  cases r with
  | time | eventId | emit => cases hfailed
  | list pattern => exact (w.errorOf_list c pattern).trans hfailed
  | create | get | delete | status =>
      simp only [accesses, Attempt.first?_singleton] at hfailed
      exact (Attempt.of_failure? hfailed).1

end World

/-! ### What failures are not -/

namespace Error

/-- The store cannot be reached, it rejects our credentials, the context ended, or something broke
inside. -/
def isFault : Error → Bool
  | .unreachable _ | .unauthorized _ | .canceled | .internal _ => true
  | _ => false

/-- The error says neither that a name is taken nor that an identity has no policy. -/
def isPlain : Error → Bool
  | .alreadyExists _ | .unassigned _ => false
  | _ => true

/-- The error is plain and does not say that something is missing. -/
def isPlainLookup (e : Error) : Bool :=
  e.isPlain && !e.isNotFound

theorem isPlainLookup_of_isFault {e : Error} (h : e.isFault = true) : e.isPlainLookup = true := by
  cases e <;> first | rfl | cases h

theorem isPlain_of_isPlainLookup {e : Error} (h : e.isPlainLookup = true) : e.isPlain = true :=
  (Bool.and_eq_true_iff.1 h).1

end Error

theorem FileError.isPlain_toError {e : FileError} (h : e ≠ .exists) (name : String) :
    (e.toError name).isPlain = true := by
  cases e <;> first | rfl | exact absurd rfl h

/-- Looking for a file does not fail because there is one. -/
theorem DataDir.find_ne_exists (d : DataDir) (file : Bytes) : d.find file ≠ .error .exists := by
  unfold find entries
  cases d.isLongPath file with
  | true => simp [bind, Except.bind]
  | false =>
      cases d.root with
      | missing => simp [bind, Except.bind]
      | file => simp [bind, Except.bind]
      | folder es =>
          by_cases hlong : file.length > maxFileName <;> simp [bind, Except.bind, hlong]

theorem requireKey_isPlain {name : String} {e : Error} (h : requireKey name = .error e) :
    e.isPlain = true := by
  rcases requireKey_cases name with hkey | hkey <;> rw [hkey] at h <;> cases h
  rfl

theorem Signal.whole_isPlain {sig : Signal} {e : Error} (h : sig.whole = .error e) :
    e.isPlain = true := by
  rcases sig.whole_cases with hs | hs <;> rw [hs] at h <;> cases h
  rfl

/-- Two checks in a row fail plainly if both do. -/
theorem isPlain_of_bind {α β : Type} {a : Except Error α} {f : α → Except Error β} {e : Error}
    (hfailed : (a >>= f) = .error e) (hfirst : ∀ e, a = .error e → e.isPlain = true)
    (hrest : ∀ x, a = .ok x → ∀ e, f x = .error e → e.isPlain = true) : e.isPlain = true := by
  cases ha : a with
  | error e' =>
      rw [ha] at hfailed
      cases hfailed
      exact hfirst _ ha
  | ok x =>
      rw [ha] at hfailed
      exact hrest x ha e hfailed

namespace Backend

variable {b : Backend} {sig : Signal} {name : String} {e : Error}

/-- Looking at a file for a call fails plainly. -/
theorem isPlain_of_read {d : DataDir} {file : Bytes}
    (hfailed : (d.read file).mapError (·.toError name) = .error e) : e.isPlain = true := by
  obtain ⟨e', hread, rfl⟩ := mapError_eq_error_iff.1 hfailed
  refine FileError.isPlain_toError ?_ name
  rintro rfl
  unfold DataDir.read at hread
  rcases hfind : d.find file with e' | _ | _ | _
  all_goals simp only [hfind, bind, Except.bind, Except.error.injEq, reduceCtorEq] at hread
  exact d.find_ne_exists file (hfind.trans (congrArg _ hread))

theorem isPlain_of_get (hfailed : b.get sig name = .error e) : e.isPlain = true := by
  have helim {found : Option Bytes} {e : Error}
      (h : found.elim (.error (Error.notFound name)) Except.ok = .error e) : e.isPlain = true := by
    cases found <;> cases h
    rfl
  cases b with
  | memory t =>
      exact isPlain_of_bind hfailed (fun _ => Signal.whole_isPlain) fun _ _ _ => helim
  | database t =>
      refine isPlain_of_bind hfailed (fun _ => requireKey_isPlain) fun _ _ _ h => ?_
      exact isPlain_of_bind h (fun _ => Signal.whole_isPlain) fun _ _ _ => helim
  | files d =>
      refine isPlain_of_bind hfailed (fun _ => requireKey_isPlain) fun _ _ _ h => ?_
      exact isPlain_of_bind h (fun _ => Signal.whole_isPlain) fun _ _ _ => isPlain_of_read

/-- A creation fails plainly, or because the name is taken. -/
theorem isPlain_of_create {value : Bytes} (hfailed : (b.create sig name value).1 = .error e) :
    e.isPlain = true ∨ e.isAlreadyExists = true := by
  have hfile (e : FileError) :
      (e.toError name).isPlain = true ∨ (e.toError name).isAlreadyExists = true := by
    cases e <;> simp [FileError.toError, Error.isPlain, Error.isAlreadyExists]
  have hwhole := sig.whole_cases
  have hkey := requireKey_cases name
  cases b with
  | memory t =>
      rcases hkey with hk | hk <;> rcases hwhole with hs | hs <;>
        simp only [create, hk, hs] at hfailed
      · split at hfailed <;> cases hfailed
        exact .inr rfl
      all_goals
        cases hfailed
        exact .inl rfl
  | database t =>
      rcases hkey with hk | hk <;> simp only [create, hk] at hfailed
      · repeat' split at hfailed
        all_goals cases hfailed
        · exact .inl rfl
        · exact .inr rfl
        · exact .inl rfl
      · cases hfailed
        exact .inl rfl
  | files d =>
      simp only [create, DataDir.create_eq] at hfailed
      rcases hkey with hk | hk <;> simp only [hk] at hfailed
      · repeat' split at hfailed
        all_goals cases hfailed
        · exact .inl rfl
        · exact hfile _
        · exact .inl rfl
        · exact hfile _
        · exact .inr rfl
      · cases hfailed
        exact .inl rfl

theorem isPlain_of_delete (hfailed : (b.delete sig name).1 = .error e) : e.isPlain = true := by
  have hwhole := sig.whole_cases
  have hkey := requireKey_cases name
  cases b with
  | memory t =>
      rcases hwhole with hs | hs <;> simp only [delete, hs] at hfailed <;> cases hfailed
      rfl
  | database t =>
      rcases hkey with hk | hk <;> rcases hwhole with hs | hs <;>
        simp only [delete, hk, hs] at hfailed <;> cases hfailed <;> rfl
  | files d =>
      simp only [delete, DataDir.delete_eq] at hfailed
      rcases hkey with hk | hk <;> simp only [hk] at hfailed
      · repeat' split at hfailed
        all_goals cases hfailed
        · rfl
        · refine FileError.isPlain_toError ?_ name
          rintro rfl
          exact d.find_ne_exists _ ‹_›
        · rfl
      · cases hfailed
        rfl

theorem isPlain_of_list {pattern : String} (hfailed : b.list sig pattern = .error e) :
    e.isPlain = true := by
  cases b with
  | memory t =>
      refine isPlain_of_bind hfailed (fun _ => Signal.whole_isPlain) fun _ _ _ hpure => ?_
      cases hpure
  | database t =>
      simp only [list] at hfailed
      split at hfailed <;> cases hfailed
      rfl
  | files d =>
      refine isPlain_of_bind hfailed (fun e hscan => ?_) fun _ _ _ hpure => by cases hpure
      refine isPlain_of_bind hscan (fun _ => Signal.whole_isPlain) fun _ _ e hnames => ?_
      obtain ⟨e', hentries, rfl⟩ := mapError_eq_error_iff.1 hnames
      refine FileError.isPlain_toError ?_ d.path
      rintro rfl
      unfold DataDir.fileNames DataDir.entries at hentries
      cases hroot : d.root <;> rw [hroot] at hentries <;> cases hentries

theorem isPlain_of_status (hfailed : b.status sig = .error e) : e.isPlain = true := by
  cases b with
  | memory t =>
      simp only [status] at hfailed
      split at hfailed <;> cases hfailed
      rfl
  | database t => exact Signal.whole_isPlain hfailed
  | files d =>
      refine isPlain_of_bind hfailed (fun _ => Signal.whole_isPlain) fun _ _ e hroot => ?_
      split at hroot <;> cases hroot <;> rfl

end Backend

/-- All failures that are to come are faults. -/
def World.OnlyFaults (w : World (Nat → Mishap)) : Prop :=
  ∀ n e, (w.mishaps n).error = some e → e.isFault = true

section Schedules

variable {w w' : World (Nat → Mishap)} {c : Context} {cursor next : Cursor} {e : Error}

namespace World

theorem OnlyFaults.answer (h : w.OnlyFaults) (c : Context) (r : Request) :
    (w.answer c r).2.OnlyFaults :=
  forall_mishaps_answer (fun m => ∀ e, m.error = some e → e.isFault = true) h r

theorem OnlyFaults.run {α : Type} (h : w.OnlyFaults) (c : Context) (p : Program α) :
    (p.run c w).2.OnlyFaults :=
  Program.forall_mishaps_run (fun m => ∀ e, m.error = some e → e.isFault = true) h p

/-- What an access meets at once is a fault. -/
theorem OnlyFaults.isPlain_of_meet (h : w.OnlyFaults) {a : Access}
    (hmet : w.meet c a = (.error e, w')) : e.isPlain = true :=
  Error.isPlain_of_isPlainLookup (Error.isPlainLookup_of_isFault (h 0 e (error_of_meet hmet)))

/-- What fails while a name is read fails plainly. -/
theorem OnlyFaults.isPlain_of_nextName (h : w.OnlyFaults) {name : Option String}
    (hplain : ∀ e, cursor.failure = some e → e.isPlain = true)
    (hread : w.nextName c cursor = (name, next, w')) (hfailed : next.failure = some e) :
    e.isPlain = true := by
  unfold nextName at hread
  split at hread
  · cases hread
    exact hplain e hfailed
  · obtain ⟨-, -, hcases⟩ := Cursor.seek_cases (.steady (w.ended c)) w.backend.table
      (cursor.turns w.backend.table) cursor
    have hsought {e : Error} (he : (cursor.next (.steady (w.ended c)) w.backend.table).2.failure =
        some e) : e.isPlain = true := by
      rcases hcases e he with hold | rfl
      · exact hplain e hold
      · rfl
    simp only at hread
    split at hread
    · rename_i e' v hmet
      cases hread
      unfold Cursor.fail at hfailed
      split at hfailed
      · exact hsought hfailed
      · cases hfailed
        exact h.isPlain_of_meet hmet
    · cases hread
      exact hsought hfailed

theorem OnlyFaults.isPlain_of_readAll (h : w.OnlyFaults) (fuel : Nat) (names : List String)
    (hplain : ∀ e, cursor.failure = some e → e.isPlain = true)
    (hfailed : (readAll c fuel names cursor w).1 = .error e) : e.isPlain = true := by
  have hclose {cursor : Cursor} {names : List String}
      (hplain : ∀ e, cursor.failure = some e → e.isPlain = true)
      (hclosed : (cursor.close.1.map fun _ => names) = .error e) : e.isPlain = true := by
    have hclosed := map_eq_error_iff.1 hclosed
    unfold Cursor.close at hclosed
    split at hclosed
    · cases hclosed
    · simp only at hclosed
      split at hclosed <;> cases hclosed
      exact hplain _ ‹_›
  induction fuel generalizing names cursor w with
  | zero => exact hclose hplain hfailed
  | succ fuel ih =>
      unfold readAll at hfailed
      rcases hread : w.nextName c cursor with ⟨_ | name, next, w'⟩
      · rw [hread] at hfailed
        exact hclose (fun e he => h.isPlain_of_nextName hplain hread he) hfailed
      · rw [hread] at hfailed
        have hrest : w'.OnlyFaults := forall_mishaps_nextName
          (fun m => ∀ e, m.error = some e → e.isFault = true) h hread
        exact ih hrest (name :: names) (fun e he => h.isPlain_of_nextName hplain hread he) hfailed

/-- An access fails plainly at once, or it meets a signal. -/
theorem OnlyFaults.meet_cases (h : w.OnlyFaults) (c : Context) (a : Access) :
    (∃ e v, w.meet c a = (.error e, v) ∧ e.isPlain = true) ∨
      ∃ sig v, w.meet c a = (.ok sig, v) := by
  rcases hm : w.meet c a with ⟨e | sig, v⟩
  · exact .inl ⟨e, v, rfl, h.isPlain_of_meet hm⟩
  · exact .inr ⟨sig, v, rfl⟩

/-- Answers fail plainly, but a creation may find its name taken. -/
theorem OnlyFaults.isPlain_of_answer (h : w.OnlyFaults) {r : Request}
    (hfailed : r.errorIn? (w.answer c r).1 = some e) :
    e.isPlain = true ∨ e.isAlreadyExists = true ∧ ∃ name value, r = .create name value := by
  have herrorOf {α : Type} {x : Except Error α} (hx : errorOf x = some e) : x = .error e := by
    cases x <;> cases hx
    rfl
  cases r with
  | time | eventId | emit => cases hfailed
  | list pattern =>
      have hfailed := herrorOf hfailed
      simp only [World.answer, list, startListing] at hfailed
      rcases hm : w.meet c (.list pattern) with ⟨e' | sig, v⟩
      · rw [hm] at hfailed
        cases hfailed
        exact .inl (h.isPlain_of_meet hm)
      · rw [hm] at hfailed
        simp only at hfailed
        cases hlisted : v.backend.list sig pattern with
        | error e' =>
            rw [hlisted] at hfailed
            cases hfailed
            exact .inl (Backend.isPlain_of_list hlisted)
        | ok cursor =>
            rw [hlisted] at hfailed
            have hrest : v.OnlyFaults := forall_mishaps_meet
              (fun m => ∀ e, m.error = some e → e.isFault = true) h hm
            refine .inl (hrest.isPlain_of_readAll _ [] (fun e he => ?_) hfailed)
            rw [(Backend.open_of_list hlisted).1] at he
            cases he
  | create name value =>
      simp only [World.answer, Request.errorIn?] at hfailed
      rcases h.meet_cases c (.create name) with ⟨_, v, hm, hplain⟩ | ⟨sig, v, hm⟩
      · rw [hm] at hfailed
        cases hfailed
        exact .inl hplain
      · rw [hm] at hfailed
        exact (Backend.isPlain_of_create (herrorOf hfailed)).imp_right fun h => ⟨h, name, value, rfl⟩
  | get name =>
      simp only [World.answer, Request.errorIn?] at hfailed
      rcases h.meet_cases c (.get name) with ⟨_, v, hm, hplain⟩ | ⟨sig, v, hm⟩
      · rw [hm] at hfailed
        cases hfailed
        exact .inl hplain
      · rw [hm] at hfailed
        exact .inl (Backend.isPlain_of_get (herrorOf hfailed))
  | delete name =>
      simp only [World.answer, Request.errorIn?] at hfailed
      rcases h.meet_cases c (.delete name) with ⟨_, v, hm, hplain⟩ | ⟨sig, v, hm⟩
      · rw [hm] at hfailed
        cases hfailed
        exact .inl hplain
      · rw [hm] at hfailed
        exact .inl (Backend.isPlain_of_delete (herrorOf hfailed))
  | status =>
      simp only [World.answer, Request.errorIn?] at hfailed
      rcases h.meet_cases c .status with ⟨_, v, hm, hplain⟩ | ⟨sig, v, hm⟩
      · rw [hm] at hfailed
        cases hfailed
        exact .inl hplain
      · rw [hm] at hfailed
        exact .inl (Backend.isPlain_of_status (herrorOf hfailed))

/-- **Failures are plain answers.**  A request whose accesses fail is answered with the first
failure, which is plain, and a look-up with one that does not say that something is missing. -/
theorem OnlyFaults.answer_of_accesses (h : w.OnlyFaults) {r : Request}
    (hfailed : Attempt.first? (w.accesses c r) = some e) :
    r.errorIn? (w.answer c r).1 = some e ∧ e.isPlain = true ∧
      ∀ name, r = .get name → e.isPlainLookup = true := by
  have hanswer := failure_of_accesses hfailed
  have hplain : e.isPlain = true := by
    rcases h.isPlain_of_answer hanswer with hplain | ⟨htaken, name, value, rfl⟩
    · exact hplain
    · have hnot := (Attempt.of_failure? ((Attempt.first?_singleton _).symm.trans hfailed)).2.2
        name rfl
      rw [hnot] at htaken
      cases htaken
  refine ⟨hanswer, hplain, ?_⟩
  rintro name rfl
  have hnot := (Attempt.of_failure? ((Attempt.first?_singleton _).symm.trans hfailed)).2.1
    name rfl
  simp [Error.isPlainLookup, hplain, hnot]

end World

end Schedules

end KeyCustody
