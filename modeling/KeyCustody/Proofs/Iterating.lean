import KeyCustody.Iterator
import KeyCustody.Proofs.Moments

/-!
# Failures of iterators

A cursor keeps its first failure until it is closed, and yields nothing meanwhile.  A view has
no state of its own, so the same holds of an iterator behind views.  Main statements:

* `Cursor.attempt_open` and `View.Next.leaves`: turns and calls leave a cursor open, or it keeps
  their failure;
* `View.Run.silent`: nothing comes behind a failure or a closing;
* `View.Run.closings`: what closings report;
* `View.Drains.eq`: what draining gives.
-/

namespace KeyCustody

/-! ### Failures -/

namespace Cursor

variable {c c' : Cursor} {m : Moment}

theorem isDone_eq_false_iff : c.isDone = false ↔ c.Open := by
  unfold isDone Open
  cases c.failure <;> cases c.closed <;> simp

theorem trouble?_of_done (hdone : c.isDone = true) (m : Moment) : c.trouble? m = none := by
  simp [trouble?, hdone]

/-- A turn of an open cursor keeps it open, or it keeps the failure of the turn. -/
theorem attempt_open (hopen : c.Open) (m : Moment) :
    (c.trouble? m = none ∧ m.signal.atStart = false ∧ (c.attempt m).2.Open) ∨
      ∃ e, c.trouble? m = some e ∧ (m.signal.atStart = true → e = .canceled) ∧
        (c.attempt m).1 = .stop ∧ (c.attempt m).2.failure = some e ∧
          (c.attempt m).2.closed = false := by
  have hgoes := c.goes m
  generalize c.attempt m = attempted at hgoes ⊢
  obtain ⟨turn, c'⟩ := attempted
  cases hgoes with
  | done hdone =>
      rw [isDone_eq_false_iff.2 hopen] at hdone
      cases hdone
  | ended hended =>
      exact .inr ⟨.canceled, by simp [trouble?, isDone, hended], fun _ => rfl, rfl, rfl, rfl⟩
  | noPage hlive hfailed | noFile hlive hfailed =>
      refine .inr ⟨_, ?_, fun hended => ?_, rfl, rfl, rfl⟩
      · simp [trouble?, isDone, reads, hlive, hfailed]
      · rw [hlive] at hended
        cases hended
  | page hlive hread _ | lastFile hlive hread | shown hlive hread _ _ | hidden hlive hread _ =>
      exact .inl ⟨by simp [trouble?, isDone, reads, hlive, hread], hlive, rfl, rfl⟩
  | name hlive | noName hlive | ofPage hlive | lastPage hlive | noFiles hlive =>
      exact .inl ⟨by simp [trouble?, isDone, reads, hlive], hlive, rfl, rfl⟩

/-- A turn that does not stop keeps an open cursor open. -/
theorem open_of_goesOn {turn : Turn} (hopen : c.Open) (hturn : c.attempt m = (turn, c'))
    (hgoesOn : turn ≠ .stop) :
    c.trouble? m = none ∧ m.signal.atStart = false ∧ c'.Open := by
  have hcases := attempt_open hopen m
  rw [hturn] at hcases
  rcases hcases with hgood | ⟨e, -, -, hstop, -⟩
  · exact hgood
  · exact absurd hstop hgoesOn

end Cursor

namespace View

variable {v : View} {c c' : Cursor} {ms : List Moment} {e : Ending}

/-- A cursor that failed or was closed gives nothing more. -/
theorem Next.of_done (h : v.Next c ms e c') (hdone : c.isDone = true) : e = .nothing ∧ c' = c := by
  induction h with
  | stop hturn =>
      rw [Cursor.attempt_of_done hdone] at hturn
      rw [Cursor.trouble?_of_done hdone]
      exact ⟨rfl, (Prod.mk.inj hturn).2.symm⟩
  | yield hturn | again hturn _ _ =>
      rw [Cursor.attempt_of_done hdone] at hturn
      cases (Prod.mk.inj hturn).1
  | passOn _ _ ih => exact ih hdone
  | shown _ _ ih | hidden _ _ _ ih _ => cases (ih hdone).1

/-- How a call leaves a cursor that was open. -/
structure Leaves (ms : List Moment) (e : Ending) (c' : Cursor) : Prop where
  opened : e.failure? = none → c'.Open
  failed : ∀ err, e.failure? = some err → c'.failure = some err ∧ c'.closed = false
  /-- The call looks at its context before every turn. -/
  ended : ∀ m ∈ ms, m.signal.atStart = true → e = .failed .canceled

/-- **A call on an open cursor** leaves it open, or it keeps the failure of the call. -/
theorem Next.leaves (h : v.Next c ms e c') (hopen : c.Open) : Leaves ms e c' := by
  induction h with
  | @stop c c' m hturn =>
      rcases Cursor.attempt_open hopen m with ⟨hnone, hlive, hopen'⟩ |
        ⟨err, hsome, hcanceled, -, hfailure, hclosed⟩
      · rw [hturn] at hopen'
        rw [hnone]
        refine ⟨fun _ => hopen', nofun, fun m' hm hended => ?_⟩
        rw [List.mem_singleton.1 hm, hlive] at hended
        cases hended
      · rw [hturn] at hfailure hclosed
        rw [hsome]
        refine ⟨nofun, fun err' herr => ?_, fun m' hm hended => ?_⟩
        · obtain rfl : err = err' := Option.some.inj herr
          exact ⟨hfailure, hclosed⟩
        · rw [List.mem_singleton.1 hm] at hended
          rw [hcanceled hended]
          rfl
  | @yield c c' m n hturn =>
      obtain ⟨-, hlive, hopen'⟩ := Cursor.open_of_goesOn hopen hturn (by simp)
      refine ⟨fun _ => hopen', nofun, fun m' hm hended => ?_⟩
      rw [List.mem_singleton.1 hm, hlive] at hended
      cases hended
  | @again c c' c'' m ms e hturn _ ih =>
      obtain ⟨-, hlive, hopen'⟩ := Cursor.open_of_goesOn hopen hturn (by simp)
      have hrest := ih hopen'
      refine ⟨hrest.opened, hrest.failed, fun m' hm hended => ?_⟩
      rcases List.mem_cons.1 hm with rfl | hm
      · rw [hlive] at hended
        cases hended
      · exact hrest.ended m' hm hended
  | passOn _ _ ih => exact ih hopen
  | shown _ _ ih =>
      have hinside := ih hopen
      exact ⟨fun _ => hinside.opened rfl, nofun, fun m hm hended => by
        cases hinside.ended m hm hended⟩
  | hidden _ _ _ ih ihrest =>
      have hinside := ih hopen
      have hrest := ihrest (hinside.opened rfl)
      refine ⟨hrest.opened, hrest.failed, fun m hm hended => ?_⟩
      rcases List.mem_append.1 hm with hm | hm
      · cases hinside.ended m hm hended
      · exact hrest.ended m hm hended

end View

/-! ### Calls one after the other -/

namespace IteratorCall

/-- The failure that the call kept. -/
def failure? : IteratorCall → Option Error
  | .next _ e => e.failure?
  | .close _ => none

/-- The call failed, saw that its context had ended, or closed the iterator. -/
def Stops : IteratorCall → Prop
  | .next ms e => (∃ err, e = .failed err) ∨ ∃ m ∈ ms, m.signal.atStart = true
  | .close _ => True

end IteratorCall

namespace View

variable {v : View} {c c' : Cursor} {calls before after : List IteratorCall}

/-- Calls behind calls. -/
theorem Run.split (h : v.Run c (before ++ after) c') :
    ∃ c₁, v.Run c before c₁ ∧ v.Run c₁ after c' := by
  induction before generalizing c with
  | nil => exact ⟨c, .nil, h⟩
  | cons call before ih =>
      cases h with
      | next hnext hrest =>
          obtain ⟨c₁, hbefore, hafter⟩ := ih hrest
          exact ⟨c₁, .next hnext hbefore, hafter⟩
      | close hrest =>
          obtain ⟨c₁, hbefore, hafter⟩ := ih hrest
          exact ⟨c₁, .close hbefore, hafter⟩

theorem closed_close (c : Cursor) : c.close.2.closed = true := by
  unfold Cursor.close
  split
  · assumption
  · rfl

theorem isDone_close (c : Cursor) : c.close.2.isDone = true := by
  simp [Cursor.isDone, closed_close]

/-- Behind a failure or a closing nothing more comes. -/
theorem Run.silent (h : v.Run c calls c') (hdone : c.isDone = true) :
    ∀ ms e, .next ms e ∈ calls → e = .nothing := by
  induction h with
  | nil => exact nofun
  | next hnext _ ih =>
      obtain ⟨rfl, rfl⟩ := hnext.of_done hdone
      intro ms e hmem
      rcases List.mem_cons.1 hmem with hcall | hmem
      · exact (IteratorCall.next.inj hcall).2
      · exact ih hdone ms e hmem
  | close _ ih =>
      intro ms e hmem
      rcases List.mem_cons.1 hmem with hcall | hmem
      · cases hcall
      · exact ih (isDone_close _) ms e hmem

/-- A call that stops the iterator. -/
theorem Run.isDone_of_stops {call : IteratorCall} (h : v.Run c [call] c') (hstops : call.Stops) :
    c'.isDone = true := by
  cases h with
  | next hnext hrest =>
      cases hrest
      by_cases hdone : c.isDone = true
      · rw [(hnext.of_done hdone).2]
        exact hdone
      · have hleaves := hnext.leaves (Cursor.isDone_eq_false_iff.1 (Bool.eq_false_iff.2 hdone))
        obtain ⟨err, rfl⟩ : ∃ err, _ = Ending.failed err := by
          rcases hstops with hfailed | ⟨m, hm, hended⟩
          · exact hfailed
          · exact ⟨_, hleaves.ended m hm hended⟩
        simp [Cursor.isDone, (hleaves.failed err rfl).1]
  | close hrest =>
      cases hrest
      exact isDone_close c

/-- Of an iterator that was not closed, the cursor keeps the first failure. -/
theorem Run.failure_eq (h : v.Run c calls c') (hclosed : c.closed = false)
    (hcalls : ∀ r, .close r ∉ calls) :
    c'.closed = false ∧ c'.failure = c.failure.or (calls.findSome? IteratorCall.failure?) := by
  induction h with
  | nil => exact ⟨hclosed, by simp⟩
  | @next c c₁ c' ms e calls hnext _ ih =>
      have hrest : ∀ r, .close r ∉ calls := fun r hr => hcalls r (List.mem_cons_of_mem _ hr)
      rw [List.findSome?_cons]
      cases hfailure : c.failure with
      | some err =>
          have hdone : c.isDone = true := by simp [Cursor.isDone, hfailure]
          obtain ⟨rfl, rfl⟩ := hnext.of_done hdone
          obtain ⟨hclosed', hsame⟩ := ih hclosed hrest
          rw [hfailure] at hsame
          exact ⟨hclosed', hsame⟩
      | none =>
          have hleaves := hnext.leaves ⟨hfailure, hclosed⟩
          rw [Option.none_or]
          cases hended : e.failure? with
          | none =>
              obtain ⟨hnone, hclosed₁⟩ := hleaves.opened hended
              obtain ⟨hclosed', hsame⟩ := ih hclosed₁ hrest
              rw [hnone, Option.none_or] at hsame
              simp only [IteratorCall.failure?, hended]
              exact ⟨hclosed', hsame⟩
          | some err =>
              obtain ⟨hsome, hclosed₁⟩ := hleaves.failed err hended
              obtain ⟨hclosed', hsame⟩ := ih hclosed₁ hrest
              rw [hsome, Option.some_or] at hsame
              simp only [IteratorCall.failure?, hended]
              exact ⟨hclosed', hsame⟩
  | close _ _ => exact absurd List.mem_cons_self (hcalls _)

/-- Behind a closing every closing succeeds. -/
theorem Run.close_eq_ok (h : v.Run c calls c') (hclosed : c.closed = true) :
    ∀ r, .close r ∈ calls → r = .ok () := by
  induction h with
  | nil => exact nofun
  | @next c c₁ c' ms e calls hnext _ ih =>
      have hdone : c.isDone = true := by simp [Cursor.isDone, hclosed]
      obtain ⟨rfl, rfl⟩ := hnext.of_done hdone
      intro r hmem
      rcases List.mem_cons.1 hmem with hcall | hmem
      · cases hcall
      · exact ih hclosed r hmem
  | @close c c' calls _ ih =>
      have hclose : c.close.1 = .ok () := by simp [Cursor.close, hclosed]
      intro r hmem
      rcases List.mem_cons.1 hmem with hcall | hmem
      · exact (IteratorCall.close.inj hcall).trans hclose
      · exact ih (closed_close c) r hmem

/-- **The first closing** reports the first failure, and those behind it report nothing. -/
theorem Run.closings {r : Except Error Unit} {s : Source}
    (h : v.Run (.ofSource s) (before ++ .close r :: after) c')
    (hbefore : ∀ r', .close r' ∉ before) :
    (r = match before.findSome? IteratorCall.failure? with
      | some e => .error e
      | none => .ok ()) ∧ ∀ r', .close r' ∈ after → r' = .ok () := by
  obtain ⟨c₁, hrun, hbehind⟩ := h.split
  obtain ⟨hclosed, hfailure⟩ := hrun.failure_eq rfl hbefore
  have hfailure : c₁.failure = before.findSome? IteratorCall.failure? := hfailure
  cases hbehind with
  | close hrest =>
      refine ⟨?_, hrest.close_eq_ok (closed_close c₁)⟩
      rw [← hfailure]
      unfold Cursor.close
      rw [hclosed]
      cases c₁.failure <;> rfl

/-- **Draining** ends with the failure of one of its calls, or with the names of all of them. -/
theorem Drains.eq {ms : List Moment} {es : List Ending} {r : Except Error (List String)}
    (h : v.Drains c ms es r) (hopen : c.Open) :
    r = match es.findSome? Ending.failure? with
      | some err => .error err
      | none => .ok (es.filterMap Ending.name?) := by
  induction h with
  | @last c c' ms e hnext hnone =>
      have hleaves := hnext.leaves hopen
      cases e with
      | name n => cases hnone
      | nothing =>
          rw [Cursor.close_of_open (hleaves.opened rfl)]
          rfl
      | failed err =>
          obtain ⟨hfailure, hclosed⟩ := hleaves.failed err rfl
          simp [Cursor.close, hfailure, hclosed, Except.map, Ending.failure?]
  | @more c c' ms ms' n es r hnext _ ih =>
      rw [ih ((hnext.leaves hopen).opened rfl)]
      simp only [List.findSome?_cons, Ending.failure?, List.filterMap_cons, Ending.name?]
      cases es.findSome? Ending.failure? <;> rfl

end View

end KeyCustody
