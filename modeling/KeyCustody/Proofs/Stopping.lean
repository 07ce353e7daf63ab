import KeyCustody.Proofs.Accesses
import KeyCustody.Proofs.Purging

/-!
# Programs that stop

A call may be given up after any of its requests.  `Program.runFor` is the world after at most
so many requests were answered, and what holds after every number of them holds
*throughout* the program (`Program.Throughout`), at its end too.  A store that fails may still
be *honest*: it reports no name missing that is there.  What a program relies on is often just
that, of the answers that it comes to.

A purge that fails halfway leaves some records, and so does one that is given up.  But if it
reports no failure, then nothing is left, whatever mishaps there were: a listing under
mishaps fails or is complete, and a removal fails or removes.  Main statements:

* `Program.Keeps.throughout`: what answers keep, a program keeps throughout;
* `Program.Keeps.runFor_of_honest`: what answers keep that report no name missing that is there;
* `Program.honestFor_of_neverMissing`: schedules of failures that are answered honestly;
* `World.list_cases`: listings under mishaps;
* `Registry.purge_cleared`: purges under mishaps.
-/

namespace KeyCustody

variable {σ : Type} [Mishaps σ] {c : Context} {w : World σ}

namespace Program

variable {α β : Type}

/-- The world after at most `n` requests of a program were answered. -/
def runFor (c : Context) : Nat → Program α → World σ → World σ
  | 0, _, w => w
  | _ + 1, .done _, w => w
  | n + 1, .ask r next, w => (next (w.answer c r).1).runFor c n (w.answer c r).2

/-- The property holds after any number of answers. -/
def Throughout (c : Context) (inv : World σ → Prop) (p : Program α) (w : World σ) : Prop :=
  ∀ n, inv (p.runFor c n w)

variable {inv : World σ → Prop}

theorem throughout_done {a : α} (hw : inv w) : (Program.done a).Throughout c inv w
  | 0 => hw
  | _ + 1 => hw

theorem throughout_ask {r : Request} {next : r.Answer → Program α} (hw : inv w)
    (hnext : (next (w.answer c r).1).Throughout c inv (w.answer c r).2) :
    (Program.ask r next).Throughout c inv w
  | 0 => hw
  | n + 1 => hnext n

/-- What holds throughout holds at the end. -/
theorem Throughout.run {p : Program α} (h : p.Throughout c inv w) : inv (p.run c w).2 := by
  induction p generalizing w with
  | done a => exact h 0
  | ask r next ih => exact ih _ fun n => h (n + 1)

/-- One program after the other. -/
theorem Throughout.bind {p : Program α} {f : α → Program β} (h : p.Throughout c inv w)
    (hrest : (f (p.run c w).1).Throughout c inv (p.run c w).2) :
    (p >>= f).Throughout c inv w := by
  induction p generalizing w with
  | done a => exact hrest
  | ask r next ih => exact throughout_ask (h 0) (ih _ (fun n => h (n + 1)) hrest)

/-- **What answers keep, a program keeps throughout**, if every answer to an allowed request is
as assumed. -/
theorem Keeps.throughout {k : Contract} {fits : α → Prop} {p : Program α} (h : p.Keeps k fits)
    (hstep : ∀ r w, k.allows r → inv w →
      k.assumes r (w.answer c r).1 ∧ inv (w.answer c r).2)
    (hw : inv w) : p.Throughout c inv w := by
  induction p generalizing w with
  | done a => exact throughout_done hw
  | ask r next ih =>
      obtain ⟨hassumed, hkept⟩ := hstep r w h.1 hw
      exact throughout_ask hw (ih _ (h.2 _ hassumed) hkept)

end Program

/-- One routine after the other; an error skips the second. -/
theorem Routine.throughout_bind {α β : Type} {inv : World σ → Prop} {a : Routine α}
    {f : α → Routine β} (ha : a.attempt.Throughout c inv w)
    (hf : ∀ x, (a.attempt.run c w).1 = .ok x →
      (f x).attempt.Throughout c inv (a.attempt.run c w).2) :
    (a >>= f).attempt.Throughout c inv w := by
  rw [attempt_bind]
  refine ha.bind ?_
  cases hrun : (a.attempt.run c w).1 with
  | ok x => exact hf x hrun
  | error e => exact Program.throughout_done ha.run

/-! ### Honest answers -/

/-- The answer reports no name missing that the store holds. -/
def World.Honest (w : World σ) (c : Context) : Request → Prop
  | .get name =>
    ∀ what, (w.answer c (.get name)).1 = .error (.notFound what) → w.backend.stored? name = none
  | _ => True

/-- An honest look-up does not report a name missing that is held. -/
theorem World.Honest.ne_notFound {name : String} {value : Bytes} (h : w.Honest c (.get name))
    (hheld : w.backend.stored? name = some value) (what : String) :
    (w.answer c (.get name)).1 ≠ .error (.notFound what) := by
  intro hmissing
  rw [h what hmissing] at hheld
  cases hheld

namespace Program

variable {α : Type}

/-- None of the first `n` answers reports a name missing that the store holds. -/
def HonestFor (c : Context) : Nat → Program α → World σ → Prop
  | 0, _, _ => True
  | _ + 1, .done _, _ => True
  | n + 1, .ask r next, w =>
    w.Honest c r ∧ (next (w.answer c r).1).HonestFor c n (w.answer c r).2

/-- What honest answers keep, a program keeps up to any of its requests. -/
theorem Keeps.runFor_of_honest {k : Contract} {fits : α → Prop} {inv : World σ → Prop}
    {p : Program α} (h : p.Keeps k fits)
    (hstep : ∀ r w, k.allows r → w.Honest c r → inv w →
      k.assumes r (w.answer c r).1 ∧ inv (w.answer c r).2)
    {n : Nat} (hhonest : p.HonestFor c n w) (hw : inv w) : inv (p.runFor c n w) := by
  induction n generalizing p w with
  | zero => exact hw
  | succ n ih =>
      cases p with
      | done a => exact hw
      | ask r next =>
          obtain ⟨hassumed, hkept⟩ := hstep r w h.1 hhonest.1 hw
          exact ih (h.2 _ hassumed) hhonest.2 hkept

end Program

/-! ### Schedules of failures -/

section Schedules

variable {w : World (Nat → Mishap)} {c : Context}

/-- No failure that is to come reports a name missing. -/
def World.NeverMissing (w : World (Nat → Mishap)) : Prop :=
  ∀ n what, (w.mishaps n).error ≠ some (.notFound what)

namespace World

theorem NeverMissing.answer (h : w.NeverMissing) (c : Context) (r : Request) :
    (w.answer c r).2.NeverMissing :=
  forall_mishaps_answer (fun m => ∀ what, m.error ≠ some (.notFound what)) h r

/-- An answer is honest if its failure does not report the name missing. -/
theorem NeverMissing.honest (h : w.NeverMissing) (c : Context) (r : Request) :
    w.Honest c r := by
  cases r with
  | get name =>
      intro what hmissing
      have hkept := w.backend_meet c (.get name)
      simp only [World.answer] at hmissing
      rcases hm : w.meet c (.get name) with ⟨e | sig, v⟩
      · rw [hm] at hmissing
        obtain rfl : e = .notFound what := Except.error.inj hmissing
        exact absurd (error_of_meet hm) (h 0 what)
      · rw [hm] at hmissing hkept
        simp only at hmissing hkept
        rw [hkept] at hmissing
        cases hheld : w.backend.stored? name with
        | none => rfl
        | some value => exact absurd hmissing (Backend.get_ne_notFound hheld sig what)
  | _ => trivial
end World

/-- **Schedules of failures.**  If no failure that is to come reports a name missing, then all
answers to a program are honest. -/
theorem Program.honestFor_of_neverMissing {α : Type} (p : Program α) (h : w.NeverMissing)
    (m : Nat) : p.HonestFor c m w := by
  induction m generalizing p w with
  | zero => trivial
  | succ m ih =>
      cases p with
      | done a => trivial
      | ask r next => exact ⟨h.honest c r, ih _ (h.answer c r)⟩

end Schedules

/-! ### Listings under mishaps -/

/-- A cursor that failed reports a failure when it is closed. -/
theorem Cursor.close_fail {cursor : Cursor} (hclosed : cursor.closed = false) (e : Error) :
    ∃ e', (cursor.fail e).close.1 = .error e' := by
  unfold fail
  cases hfailure : cursor.failure with
  | none => exact ⟨e, by simp [close, hclosed]⟩
  | some e' => exact ⟨e', by simp [close, hclosed, hfailure]⟩

/-- A cursor under a context that has ended fails. -/
theorem Cursor.next_ended {cursor : Cursor} (hopen : cursor.Open) (t : Table) :
    cursor.next (.steady true) t = (none, cursor.fail .canceled) := by
  have hstep : cursor.step (.steady true) t = (.stop, cursor.fail .canceled) := by
    simp [step, isDone, hopen.1, hopen.2, Signal.steady]
  unfold next
  rw [seek.eq_def]
  simp only [hstep]

namespace World

/-- A turn of a listing fails, or it gives what the cursor yields. -/
theorem nextName_cases {cursor next : Cursor} {name : Option String} (hopen : cursor.Open)
    (hnext : cursor.next Cursor.live w.backend.table = (name, next))
    (hclosed : next.closed = false) :
    (∃ failed w' e, w.nextName c cursor = (none, failed, w') ∧ failed.close.1 = .error e) ∨
      ∃ w', w'.backend = w.backend ∧ w.nextName c cursor = (name, next, w') := by
  have hdone : cursor.isDone = false := by simp [Cursor.isDone, hopen.1, hopen.2]
  have hkept := w.backend_meet c
  unfold nextName
  rw [hdone, if_neg Bool.false_ne_true]
  cases hended : w.ended c with
  | true =>
      simp only [Cursor.next_ended hopen]
      rcases hm : w.meet c (.next none) with ⟨e | sig, w'⟩
      · have hfailed : (cursor.fail .canceled).closed = false := by
          simp [Cursor.fail, hopen.1, hopen.2]
        obtain ⟨e', hclose⟩ := Cursor.close_fail hfailed e
        exact .inl ⟨_, w', e', rfl, hclose⟩
      · obtain ⟨e', hclose⟩ := Cursor.close_fail hopen.2 .canceled
        exact .inl ⟨_, w', e', rfl, hclose⟩
  | false =>
      have hsteady : Signal.steady false = Cursor.live := rfl
      simp only [hsteady, hnext]
      rcases hm : w.meet c (.next name) with ⟨e | sig, w'⟩
      · obtain ⟨e', hclose⟩ := Cursor.close_fail hclosed e
        exact .inl ⟨_, w', e', rfl, hclose⟩
      · have hsame := hkept (.next name)
        rw [hm] at hsame
        exact .inr ⟨w', hsame, rfl⟩

/-- Reading all names from a cursor fails, or it gives the names that the cursor yields. -/
theorem readAll_cases {t : Table} {cursor : Cursor} {rest : List String}
    (hyields : Cursor.Yields t cursor rest) (htable : w.backend.table = t) {fuel : Nat}
    (hfuel : rest.length ≤ fuel) (names : List String) :
    (∃ e, (readAll c fuel names cursor w).1 = .error e) ∨
      (readAll c fuel names cursor w).1 = .ok (names.reverse ++ rest) := by
  induction hyields generalizing fuel names w with
  | stop hopen hstop hstill =>
      cases fuel with
      | zero =>
          refine .inr ?_
          rw [readAll, Cursor.close_of_open hopen, List.append_nil]
          rfl
      | succ fuel =>
          subst htable
          rcases nextName_cases (c := c) hopen hstop hstill.2 with
            ⟨failed, w', e, hread, hclose⟩ | ⟨w', -, hread⟩
          · refine .inl ⟨e, ?_⟩
            rw [readAll, hread]
            simp only [hclose, Except.map]
          · refine .inr ?_
            rw [readAll, hread]
            simp only [Cursor.close_of_open hstill, Except.map, List.append_nil]
  | @yield cursor next name rest hopen hyield hrest ih =>
      obtain ⟨fuel, rfl⟩ : ∃ n, fuel = n + 1 :=
        ⟨fuel - 1, by rw [List.length_cons] at hfuel; omega⟩
      subst htable
      rcases nextName_cases (c := c) hopen hyield hrest.opened.2 with
        ⟨failed, w', e, hread, hclose⟩ | ⟨w', hsame, hread⟩
      · refine .inl ⟨e, ?_⟩
        rw [readAll, hread]
        simp only [hclose, Except.map]
      · rw [readAll, hread]
        simp only
        rw [List.length_cons] at hfuel
        have hmore := ih (w := w') (by rw [hsame]) (Nat.le_of_succ_le_succ hfuel) (name :: names)
        simpa using hmore

/-- **Listings under mishaps.**  A listing fails, or it gives the names that the pattern
matches. -/
theorem list_cases (w : World σ) (c : Context) (pattern : String) :
    (∃ e, (w.list c pattern).1 = .error e) ∨
      (w.list c pattern).1 = w.backend.listed pattern := by
  have hkept := w.backend_meet c (.list pattern)
  unfold list startListing
  rcases hm : w.meet c (.list pattern) with ⟨e | sig, w'⟩
  · exact .inl ⟨e, rfl⟩
  · rw [hm] at hkept
    change w'.backend = w.backend at hkept
    simp only [hkept]
    rcases w.backend.list_cases sig pattern with hcanceled | hlive
    · exact .inl ⟨_, by rw [hcanceled]⟩
    · rcases w.backend.list_live pattern with ⟨e, hfails, -⟩ |
        ⟨cursor, names, hcursor, hlisted, hyields, hbound⟩
      · exact .inl ⟨e, by rw [hlive, hfails]⟩
      · rw [hlive, hcursor, hlisted]
        rw [← hkept] at hyields hbound
        exact readAll_cases hyields rfl (Nat.le_succ_of_le hbound) []

end World

/-! ### Purges under mishaps -/

theorem firstError_eq_none {a b : Option Error} : firstError a b = none ↔ a = none ∧ b = none := by
  cases a <;> simp [firstError]

namespace View

variable {space name : String}

/-- Removals without a failure remove all names of the list. -/
theorem deleteAll_cleared {names : List String} (hmem : name ∈ names)
    (hnone : (((View.under space .whole).deleteAll names).run c w).1 = none) :
    (((View.under space .whole).deleteAll names).run c w).2.backend.stored? (space ++ name) =
      none := by
  have hremoves (names : List String) : ((View.under space .whole).deleteAll names).Keeps
      (.asking fun r => ¬ r.Creates (space ++ name)) (fun _ => True) :=
    keeps_deleteAll names fun _ _ => id
  induction names generalizing w with
  | nil => cases hmem
  | cons other names ih =>
      unfold deleteAll at hnone ⊢
      rw [Program.run_bind, Program.run_bind] at hnone ⊢
      obtain ⟨hfirst, hrest⟩ := firstError_eq_none.1 hnone
      by_cases hlater : name ∈ names
      · exact ih hlater hrest
      · obtain rfl : name = other := (List.mem_cons.1 hmem).resolve_right hlater
        refine (hremoves names).run_of_missing c ?_
        rcases run_delete_cases c w space name with ⟨e, hfailed, -⟩ | ⟨-, hheld⟩
        · rw [hfailed] at hfirst
          cases hfirst
        · rw [hheld, if_pos rfl]

/-- A purge without a failure leaves nothing in its namespace. -/
theorem purge_cleared (hspace : Glob.hasMeta space = false) (hname : name ≠ "")
    (hnone : ((View.under space .whole).purge.run c w).1 = none) :
    ((View.under space .whole).purge.run c w).2.backend.stored? (space ++ name) = none := by
  have hlisting := w.list_cases c (space ++ "*")
  have hsame := w.backend_list c (space ++ "*")
  rw [purge_eq, Program.run] at hnone ⊢
  simp only [World.answer] at hnone ⊢
  rcases hlisted : w.list c (space ++ "*") with ⟨e | names, w'⟩
  · rw [hlisted] at hnone
    cases hnone
  · rw [hlisted] at hnone hsame hlisting
    simp only at hnone hsame hlisting ⊢
    have hnames : .ok names = w.backend.listed (space ++ "*") := by
      refine hlisting.resolve_left ?_
      rintro ⟨e, herror⟩
      cases herror
    cases hheld : w.backend.stored? (space ++ name) with
    | none => exact (keeps_deleteAll _ fun _ _ => id).run_of_missing c (hsame ▸ hheld)
    | some value =>
        obtain ⟨all, hall, hmem⟩ :=
          Backend.exists_listed (Glob.accepts_all hspace name) hheld
        obtain rfl : names = all := Except.ok.inj (hnames.trans hall)
        refine deleteAll_cleared (List.mem_filterMap.2 ⟨_, hmem, ?_⟩) hnone
        exact strip_eq_some_iff.2 ⟨rfl, hname⟩

end View

namespace Registry

/-- Purges without a failure leave nothing in any of the namespaces. -/
theorem purgeSpaces_cleared {spaces : List String} {earlier : Option Error}
    (hspaces : ∀ space ∈ spaces, Glob.hasMeta space = false)
    (hnone : ((purgeSpaces earlier spaces).attempt.run c w).1 = .ok none) :
    earlier = none ∧ ∀ space ∈ spaces, ∀ name, name ≠ "" →
      ((purgeSpaces earlier spaces).attempt.run c w).2.backend.stored? (space ++ name) =
        none := by
  induction spaces generalizing earlier w with
  | nil => exact ⟨Except.ok.inj hnone, fun _ h => nomatch h⟩
  | cons space spaces ih =>
      rw [purgeSpaces_cons (hspaces space List.mem_cons_self), Program.run_bind] at hnone ⊢
      obtain ⟨hfirst, hrest⟩ :=
        ih (fun s hs => hspaces s (List.mem_cons_of_mem _ hs)) hnone
      obtain ⟨hearlier, hfailure⟩ := firstError_eq_none.1 hfirst
      refine ⟨hearlier, fun s hs name hname => ?_⟩
      rcases List.mem_cons.1 hs with rfl | hlater
      · have hcleared := View.purge_cleared (hspaces s List.mem_cons_self) hname hfailure
        refine Program.Keeps.run_of_missing (Program.Keeps.weaken (keeps_purgeSpaces spaces _
          (fun _ _ => id) fun _ _ _ => id) fun _ _ => trivial) c hcleared
      · exact hrest s hlater name hname

/-- **Purges under mishaps.**  A purge that does not fail leaves nothing that the enclave
owns. -/
theorem purge_cleared {l : Layout} {e : String} (hplain : Glob.hasMeta l.root = false)
    (he : ValidName e) (hok : ((l.catalog.purge e).attempt.run c w).1 = .ok ())
    (kind : RecordKind) {name : String} (hname : name ≠ "") :
    ((l.catalog.purge e).attempt.run c w).2.backend.stored? (l.space kind e ++ name) =
      none := by
  have hspaces := hasMeta_of_mem_spaces hplain he
  have hspace := mem_spaces l kind e
  unfold purge at hok ⊢
  rw [Routine.run_bind] at hok ⊢
  rcases hpurged : ((purgeSpaces none [l.catalog.layout.keys e, l.catalog.layout.policies e,
    l.catalog.layout.identities e]).attempt.run c w).1 with err | failure
  · rw [hpurged] at hok
    cases hok
  · rw [hpurged] at hok
    cases failure with
    | some err => cases hok
    | none =>
        have hcleared := (purgeSpaces_cleared hspaces hpurged).2 _ hspace name hname
        exact hcleared

end Registry

end KeyCustody
