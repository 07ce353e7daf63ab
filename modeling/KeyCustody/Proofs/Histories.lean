import KeyCustody.Proofs.Converging

/-!
# Histories

The log of an interleaving tells all that happened: what each strand was told on its way, and
who put the value where it is now.  A strand's own part of the log brings its program from the
start to where it stands (`Program.Told`, `Logged.told`).  And what the store holds can be read
off the log: a value is there because it was stored and nobody removed it since (`Kept`), or
because it was there at the start and nobody ever removed it (`AccountsFor`).  Main statements:

* `Program.Keeps.of_told`: what is left of a program after answers that its contract assumes;
* `Logged.told`: the log of a strand brings its program to where it stands;
* `Logged.stored?_iff`: what the store holds is what the log accounts for;
* `Logged.kept_unique`: at most one entry of the log put a value where it is.
-/

namespace KeyCustody

/-! ### Programs and what they were told -/

namespace Program

variable {α β : Type} {k : Contract} {p q : Program α} {told : List Exchange}

/-- The exchanges, one after the other, bring the first program to the second. -/
inductive Told : Program α → List Exchange → Program α → Prop
  | refl (p : Program α) : Told p [] p
  | answer {r : Request} {next : r.Answer → Program α} {told : List Exchange} {q : Program α}
      (x : r.Answer) (rest : Told (next x) told q) : Told (.ask r next) (⟨r, x⟩ :: told) q

/-- One answer more. -/
theorem Told.snoc {r : Request} {next : r.Answer → Program α}
    (h : p.Told told (.ask r next)) (x : r.Answer) : p.Told (told ++ [⟨r, x⟩]) (next x) := by
  generalize hq : Program.ask r next = q at h
  induction h with
  | refl => exact hq ▸ .answer x (.refl _)
  | answer y _ ih => exact .answer y (ih hq)

/-- **What is left of a program** keeps its contract, if all answers were as assumed. -/
theorem Keeps.of_told {fits : α → Prop} (h : p.Keeps k fits) (htold : p.Told told q)
    (hassumed : ∀ x ∈ told, k.assumes x.1 x.2) : q.Keeps k fits := by
  induction htold with
  | refl => exact h
  | answer x _ ih =>
      obtain ⟨hx, hrest⟩ := List.forall_mem_cons.1 hassumed
      exact ih (h.2 x hx) hrest

/-- One program after the other: the first part was told to the first program, and what is
left to the second. -/
theorem Told.bind_done {f : α → Program β} {b : β} (h : (p >>= f).Told told (.done b)) :
    ∃ first second a, told = first ++ second ∧ p.Told first (.done a) ∧
      (f a).Told second (.done b) := by
  induction p generalizing told with
  | done a => exact ⟨[], told, a, rfl, .refl _, h⟩
  | ask r next ih =>
      cases h with
      | answer x hrest =>
          obtain ⟨first, second, a, rfl, hfirst, hsecond⟩ := ih x hrest
          exact ⟨_, second, a, rfl, .answer x hfirst, hsecond⟩

end Program

namespace Routine

variable {α β : Type} {told : List Exchange}

/-- One routine after the other, if they end with a value. -/
theorem told_bind_ok {a : Routine α} {f : α → Routine β} {y : β}
    (h : (a >>= f).attempt.Told told (.done (.ok y))) :
    ∃ first second x, told = first ++ second ∧ a.attempt.Told first (.done (.ok x)) ∧
      (f x).attempt.Told second (.done (.ok y)) := by
  rw [attempt_bind] at h
  obtain ⟨first, second, r, rfl, hfirst, hsecond⟩ := h.bind_done
  cases r with
  | ok x => exact ⟨first, second, x, rfl, hfirst, hsecond⟩
  | error e => cases hsecond

/-- What is computed without asking needs no answers. -/
theorem told_ofExcept {r : Except Error α} {y : α}
    (h : (ofExcept r).attempt.Told told (.done (.ok y))) : told = [] ∧ r = .ok y := by
  cases h
  exact ⟨rfl, rfl⟩

/-- Errors told differently are no values. -/
theorem told_mapError {f : Error → Error} {a : Routine α} {y : α}
    (h : (a.mapError f).attempt.Told told (.done (.ok y))) :
    a.attempt.Told told (.done (.ok y)) := by
  obtain ⟨first, second, r, rfl, hfirst, hsecond⟩ := h.bind_done
  obtain ⟨rfl, hr⟩ := told_ofExcept hsecond
  obtain rfl := mapError_eq_ok_iff.1 hr
  rwa [List.append_nil]

end Routine

/-! ### The part of one strand -/

/-- What the log tells of one strand. -/
def own (i : Nat) : List Entry → List Exchange :=
  List.filterMap fun entry => if entry.1 = i then some entry.2 else none

section Own

variable {i : Nat} {log : List Entry} {x : Exchange}

theorem own_append (i : Nat) (log log' : List Entry) :
    own i (log ++ log') = own i log ++ own i log' :=
  List.filterMap_append

theorem own_singleton (i j : Nat) (x : Exchange) :
    own i [(j, x)] = if j = i then [x] else [] := by
  by_cases hij : j = i <;> simp [own, hij]

theorem mem_own : x ∈ own i log ↔ (i, x) ∈ log := by
  simp [own]

/-- What is told of one strand stands somewhere in the log. -/
theorem exists_split_of_own {earlier later : List Exchange}
    (h : own i log = earlier ++ x :: later) :
    ∃ before after, log = before ++ (i, x) :: after ∧ own i before = earlier ∧
      own i after = later := by
  obtain ⟨front, rest, rfl, hfront, hrest⟩ := List.filterMap_eq_append_iff.1 h
  obtain ⟨between, entry, after, rfl, hbetween, hentry, hafter⟩ :=
    List.filterMap_eq_cons_iff.1 hrest
  obtain ⟨rfl, rfl⟩ : entry.1 = i ∧ entry.2 = x := by
    split at hentry
    · exact ⟨‹_›, Option.some.inj hentry⟩
    · cases hentry
  have hnone : own entry.1 between = [] := List.filterMap_eq_nil_iff.2 hbetween
  refine ⟨front ++ between, after, by simp, ?_, hafter⟩
  rw [own_append, hnone, List.append_nil]
  exact hfront

/-- The same, with the moment at which it stands there. -/
theorem exists_getElem?_of_own {earlier later : List Exchange}
    (h : own i log = earlier ++ x :: later) :
    ∃ q, log[q]? = some (i, x) ∧ own i (log.take q) = earlier ∧
      own i (log.drop (q + 1)) = later := by
  obtain ⟨before, after, rfl, hbefore, hafter⟩ := exists_split_of_own h
  refine ⟨before.length, by simp, by rwa [List.take_left], ?_⟩
  rwa [List.drop_length_add_append, List.drop_succ_cons, List.drop_zero]

end Own

section Moments

variable {log : List Entry} {entry : Entry} {q : Nat}

/-- What stands in the first part of a log stands in the log. -/
theorem getElem?_of_take {p : Nat} (h : (log.take p)[q]? = some entry) :
    q < p ∧ log[q]? = some entry := by
  rw [List.getElem?_take] at h
  split at h
  · exact ⟨‹_›, h⟩
  · cases h

/-- An entry of a log that has grown by one is an old entry or the new one. -/
theorem getElem?_snoc_cases {added : Entry} (h : (log ++ [added])[q]? = some entry) :
    log[q]? = some entry ∨ q = log.length ∧ entry = added := by
  rcases Nat.lt_or_ge q log.length with hlt | hge
  · rw [List.getElem?_append_left hlt] at h
    exact .inl h
  · have hlength := (List.getElem?_eq_some_iff.1 h).1
    rw [List.length_append, List.length_singleton] at hlength
    obtain rfl : q = log.length := by omega
    rw [List.getElem?_concat_length] at h
    exact .inr ⟨rfl, (Option.some.inj h).symm⟩

end Moments

section Logs

variable {α σ : Type} [Mishaps σ] {ss₀ ss : List (Strand α)} {w₀ w : World σ}
  {log : List Entry}

/-- **A strand and its log.**  What the log tells of a strand brings its program from the start
to where it stands. -/
theorem Logged.told (h : Logged ss₀ w₀ log ss w) {i : Nat} {t : Strand α}
    (hi : ss[i]? = some t) :
    ∃ p, ss₀[i]? = some ⟨t.context, p⟩ ∧ p.Told (own i log) t.program := by
  induction h generalizing t with
  | start => exact ⟨t.program, hi, .refl _⟩
  | @turn log ss w j c r next _ hj ih =>
      rw [own_append, own_singleton]
      by_cases hij : j = i
      · subst hij
        rw [List.getElem?_set_self (List.getElem?_eq_some_iff.1 hj).1] at hi
        obtain rfl := Option.some.inj hi
        obtain ⟨p, hp, htold⟩ := ih hj
        rw [if_pos rfl]
        exact ⟨p, hp, htold.snoc _⟩
      · rw [if_neg hij, List.append_nil]
        exact ih ((List.getElem?_set_ne hij).symm.trans hi)

/-- **A moment of the log**: what was asked there was asked by a strand of the state that the
log before it leads to, and answered by the world of that state. -/
theorem Logged.moment (h : Logged ss₀ w₀ log ss w) {q j : Nat} {x : Exchange}
    (hq : log[q]? = some (j, x)) :
    ∃ ss₁ w₁ c next, Logged ss₀ w₀ (log.take q) ss₁ w₁ ∧ ss₁[j]? = some ⟨c, .ask x.1 next⟩ ∧
      (w₁.answer c x.1).1 = x.2 := by
  induction h with
  | start => cases hq
  | @turn log ss w i c r next before hi ih =>
      rcases getElem?_snoc_cases hq with hold | ⟨rfl, hnew⟩
      · have hlt := (List.getElem?_eq_some_iff.1 hold).1
        rw [List.take_append_of_le_length (Nat.le_of_lt hlt)]
        exact ih hold
      · cases hnew
        exact ⟨ss, w, c, next, by rwa [List.take_left], hi, rfl⟩

end Logs

/-! ### What the store holds -/

/-- **What one request does to a name**: it stores a value under it, or removes it, or leaves it
as it is. -/
theorem World.exchange_cases {σ : Type} [Mishaps σ] (w : World σ) (c : Context) (r : Request)
    (full : String) :
    (∃ value, (⟨r, (w.answer c r).1⟩ : Exchange) = ⟨.create full value, .ok ()⟩ ∧
        w.backend.stored? full = none ∧
        (w.answer c r).2.backend.stored? full = some value) ∨
      ((⟨r, (w.answer c r).1⟩ : Exchange) = ⟨.delete full, .ok ()⟩ ∧
        (w.answer c r).2.backend.stored? full = none) ∨
      ((∀ value, (⟨r, (w.answer c r).1⟩ : Exchange) ≠ ⟨.create full value, .ok ()⟩) ∧
        (⟨r, (w.answer c r).1⟩ : Exchange) ≠ ⟨.delete full, .ok ()⟩ ∧
        (w.answer c r).2.backend.stored? full = w.backend.stored? full) := by
  by_cases havoids : r.Avoids full
  · refine .inr (.inr ⟨fun value hx => ?_, fun hx => ?_, stored?_answer_of_avoids havoids c w⟩)
    · obtain ⟨rfl, -⟩ := Sigma.mk.inj hx
      exact havoids.2 rfl
    · obtain ⟨rfl, -⟩ := Sigma.mk.inj hx
      exact havoids.1 rfl
  cases r with
  | create name value =>
      obtain rfl : name = full := by
        by_contra hother
        exact havoids ⟨id, hother⟩
      rcases w.answer_create_cases c name value with ⟨e, hfailed, hsame⟩ | ⟨hok, hfree, hheld⟩
      · refine .inr (.inr ⟨fun _ hx => ?_, fun hx => ?_, congrArg (Backend.stored? · name) hsame⟩)
        · rw [hfailed] at hx
          cases hx
        · cases hx
      · exact .inl ⟨value, by rw [hok], hfree, by rw [hheld, if_pos rfl]⟩
  | delete name =>
      obtain rfl : name = full := by
        by_contra hother
        exact havoids ⟨hother, id⟩
      rcases w.answer_delete_cases c name with ⟨e, hfailed, hsame⟩ | ⟨hok, hheld⟩
      · refine .inr (.inr ⟨fun _ hx => ?_, fun hx => ?_, congrArg (Backend.stored? · name) hsame⟩)
        · cases hx
        · rw [hfailed] at hx
          cases hx
      · exact .inr (.inl ⟨by rw [hok], by rw [hheld, if_pos rfl]⟩)
  | _ => exact absurd ⟨id, id⟩ havoids

/-- At a moment of the log the strand stored the value under the name, and nobody has removed it
since. -/
structure Kept (log : List Entry) (full : String) (value : Bytes) (j q : Nat) : Prop where
  stored : log[q]? = some (j, ⟨.create full value, .ok ()⟩)
  left : ∀ i q', q < q' → log[q']? ≠ some (i, ⟨.delete full, .ok ()⟩)

section Kept

variable {log : List Entry} {full : String} {value : Bytes} {i j q : Nat} {entry : Entry}

theorem Kept.lt_length (h : Kept log full value j q) : q < log.length :=
  (List.getElem?_eq_some_iff.1 h.stored).1

/-- What was kept is kept by whatever does not remove it. -/
theorem Kept.snoc (h : Kept log full value j q) (hleft : entry.2 ≠ ⟨.delete full, .ok ()⟩) :
    Kept (log ++ [entry]) full value j q := by
  refine ⟨by rw [List.getElem?_append_left h.lt_length, h.stored], fun i q' hq' hremoved => ?_⟩
  rcases getElem?_snoc_cases hremoved with hearlier | ⟨-, rfl⟩
  · exact h.left i q' hq' hearlier
  · exact hleft rfl

/-- What was just stored is kept. -/
theorem Kept.new (log : List Entry) (full : String) (value : Bytes) (j : Nat) :
    Kept (log ++ [(j, ⟨.create full value, .ok ()⟩)]) full value j log.length := by
  refine ⟨List.getElem?_concat_length, fun i q' hq' hremoved => ?_⟩
  have hlength := (List.getElem?_eq_some_iff.1 hremoved).1
  rw [List.length_append, List.length_singleton] at hlength
  omega

/-- What is kept was kept ever since it was stored. -/
theorem Kept.take (h : Kept log full value j q) {q' : Nat} (hlt : q < q') :
    Kept (log.take q') full value j q := by
  refine ⟨by rw [List.getElem?_take_of_lt hlt, h.stored], fun i q'' hq'' hremoved => ?_⟩
  exact h.left i q'' hq'' (getElem?_of_take hremoved).2

/-- What is kept in a log that has grown by one was kept before or was just stored, and it was
not just removed. -/
theorem Kept.of_snoc (h : Kept (log ++ [entry]) full value j q) :
    Kept log full value j q ∧ entry.2 ≠ ⟨.delete full, .ok ()⟩ ∨
      q = log.length ∧ entry = (j, ⟨.create full value, .ok ()⟩) := by
  rcases getElem?_snoc_cases h.stored with hstored | ⟨rfl, rfl⟩
  · have hlt := (List.getElem?_eq_some_iff.1 hstored).1
    refine .inl ⟨⟨hstored, fun i q' hq' hremoved => ?_⟩, fun hremoved => ?_⟩
    · have hlt' := (List.getElem?_eq_some_iff.1 hremoved).1
      exact h.left i q' hq' (by rw [List.getElem?_append_left hlt', hremoved])
    · refine h.left entry.1 log.length hlt ?_
      rw [List.getElem?_concat_length, ← hremoved]
  · exact .inr ⟨rfl, rfl⟩

/-- A log accounts for a value, given what was held at its start: the value was stored and nobody
has removed it since, or it was there at the start and nobody ever removed it. -/
def AccountsFor (start : Backend) (log : List Entry) (full : String) (value : Bytes) : Prop :=
  (∃ j q, Kept log full value j q) ∨
    start.stored? full = some value ∧ ∀ i, (i, ⟨.delete full, .ok ()⟩) ∉ log

/-- One entry more accounts for what it stored, and for all that it did not remove. -/
theorem accountsFor_snoc_iff {start : Backend} :
    AccountsFor start (log ++ [entry]) full value ↔
      AccountsFor start log full value ∧ entry.2 ≠ ⟨.delete full, .ok ()⟩ ∨
        ∃ j, entry = (j, ⟨.create full value, .ok ()⟩) := by
  constructor
  · rintro (⟨j, q, hkept⟩ | ⟨hstart, hleft⟩)
    · rcases hkept.of_snoc with ⟨hold, hremoves⟩ | ⟨-, hnew⟩
      · exact .inl ⟨.inl ⟨j, q, hold⟩, hremoves⟩
      · exact .inr ⟨j, hnew⟩
    · refine .inl ⟨.inr ⟨hstart, fun i hi => hleft i (List.mem_append_left _ hi)⟩, ?_⟩
      intro hremoved
      refine hleft entry.1 (List.mem_append_right _ ?_)
      rw [← hremoved]
      exact List.mem_singleton_self _
  · rintro (⟨⟨j, q, hkept⟩ | ⟨hstart, hleft⟩, hremoves⟩ | ⟨j, rfl⟩)
    · exact .inl ⟨j, q, hkept.snoc hremoves⟩
    · refine .inr ⟨hstart, fun i hi => ?_⟩
      rcases List.mem_append.1 hi with hold | hnew
      · exact hleft i hold
      · exact hremoves (congrArg Prod.snd (List.mem_singleton.1 hnew)).symm
    · exact .inl ⟨j, log.length, .new log full value j⟩

variable {α σ : Type} [Mishaps σ] {ss₀ ss : List (Strand α)} {w₀ w : World σ}

/-- **What the store holds** is what the log accounts for. -/
theorem Logged.stored?_iff (h : Logged ss₀ w₀ log ss w) :
    w.backend.stored? full = some value ↔ AccountsFor w₀.backend log full value := by
  induction h with
  | start =>
      have hnone (j q : Nat) : ¬ Kept [] full value j q := fun hkept => by cases hkept.stored
      simp [AccountsFor, hnone]
  | @turn log ss w i c r next _ _ ih =>
      rw [accountsFor_snoc_iff, ← ih]
      rcases w.exchange_cases c r full with ⟨created, hx, hfree, hheld⟩ | ⟨hx, hgone⟩ |
        ⟨hcreates, hremoves, hsame⟩
      · simp [hx, hfree, hheld, eq_comm]
      · simp [hx, hgone]
      · simp [hcreates, hremoves, hsame]

/-- What is kept is held. -/
theorem Logged.stored?_of_kept (h : Logged ss₀ w₀ log ss w) (hkept : Kept log full value j q) :
    w.backend.stored? full = some value :=
  h.stored?_iff.2 (.inl ⟨j, q, hkept⟩)

/-- **At most one entry** of the log put a value where it is: to store another one, the first
would have had to be removed. -/
theorem Logged.kept_unique (h : Logged ss₀ w₀ log ss w) {value' : Bytes} {j' q' : Nat}
    (hkept : Kept log full value j q) (hkept' : Kept log full value' j' q') :
    j = j' ∧ q = q' := by
  induction h with
  | start => cases hkept.stored
  | @turn log ss w i c r next before _ ih =>
      have hchange := w.exchange_cases c r full
      generalize (⟨r, (w.answer c r).1⟩ : Exchange) = x at hchange hkept hkept'
      have hfresh {value value' : Bytes} {j j' q : Nat} (hold : Kept log full value j q)
          (hnew : (i, x) = (j', (⟨.create full value', .ok ()⟩ : Exchange))) : False := by
        have hheld := before.stored?_of_kept hold
        rcases hchange with ⟨_, -, hfree, -⟩ | ⟨rfl, -⟩ | ⟨hcreates, -⟩
        · rw [hfree] at hheld
          cases hheld
        · cases hnew
        · exact hcreates value' (congrArg Prod.snd hnew)
      rcases hkept.of_snoc with ⟨hold, -⟩ | ⟨rfl, hnew⟩ <;>
        rcases hkept'.of_snoc with ⟨hold', -⟩ | ⟨rfl, hnew'⟩
      · exact ih hold hold'
      · exact (hfresh hold hnew').elim
      · exact (hfresh hold' hnew).elim
      · exact ⟨congrArg Prod.fst (hnew.symm.trans hnew'), rfl⟩

end Kept

/-! ### Logs of given turns -/

deriving instance DecidableEq for Request

instance : (r : Request) → DecidableEq r.Answer
  | .create _ _ | .delete _ | .status => inferInstanceAs (DecidableEq (Except Error Unit))
  | .get _ => inferInstanceAs (DecidableEq (Except Error Bytes))
  | .list _ => inferInstanceAs (DecidableEq (Except Error (List String)))
  | .time => inferInstanceAs (DecidableEq Timestamp)
  | .eventId => inferInstanceAs (DecidableEq String)
  | .emit _ => inferInstanceAs (DecidableEq Unit)

section Turns

variable {α σ : Type} [Mishaps σ] {ss₀ ss : List (Strand α)} {w₀ w : World σ}
  {log : List Entry}

/-- What a strand asks at its next turn, and the answer. -/
def Strand.exchanges (s : Strand α) (w : World σ) : List Exchange :=
  match s.program with
  | .done _ => []
  | .ask r _ => [⟨r, (w.answer s.context r).1⟩]

/-- The log of turns in a given order. -/
def logTurns : List Nat → List (Strand α) → World σ → List Entry
  | [], _, _ => []
  | i :: is, ss, w =>
    match ss[i]? with
    | some s => (s.exchanges w).map (i, ·) ++ logTurns is (ss.set i (s.turn w).1) (s.turn w).2
    | none => logTurns is ss w

/-- The log goes on with turns in a given order. -/
theorem Logged.takeTurns (h : Logged ss₀ w₀ log ss w) (is : List Nat) :
    Logged ss₀ w₀ (log ++ logTurns is ss w) (takeTurns is ss w).1 (takeTurns is ss w).2 := by
  induction is generalizing log ss w with
  | nil => rwa [logTurns, List.append_nil]
  | cons i is ih =>
      unfold logTurns KeyCustody.takeTurns
      cases hi : ss[i]? with
      | none => exact ih h
      | some s =>
          obtain ⟨c, p⟩ := s
          cases p with
          | ask r next =>
              have hrest := ih (h.turn hi)
              rwa [List.append_assoc] at hrest
          | done a =>
              refine ih ?_
              rwa [Strand.turn, set_of_getElem? hi]

end Turns

end KeyCustody
