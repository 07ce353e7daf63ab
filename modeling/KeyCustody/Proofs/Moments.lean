import KeyCustody.Proofs.Listing
import KeyCustody.Store.Moments

/-!
# What turns do

`Cursor.Goes` says all that one turn of a cursor can do, with one rule for each kind of turn
(`Cursor.goes`).  A turn that reads a page of a database takes the front of the names to come,
and the next page goes on behind it (`Table.goesOn`).
-/

namespace KeyCustody

/-! ### Pages -/

namespace Table

/-- **A page** is the front of the names to come.  It is the last one only if nothing is left
behind it. -/
theorem exists_page {start : String} {after : Option String} (hreached : Reached start after)
    (t : Table) :
    ∃ front rest exhausted, t.page start after = (front, exhausted) ∧
      t.starting start after = front ++ rest ∧ (exhausted = true → rest = []) ∧
      (exhausted = false → front ≠ []) := by
  have hsplit := (List.take_append_drop pageSize (t.starting start after)).symm
  refine ⟨_, _, _, page_eq hreached, hsplit, fun hlast => ?_, fun hfull hnone => ?_⟩
  · exact List.drop_eq_nil_of_le (Nat.le_of_lt (of_decide_eq_true hlast))
  · have hlength := of_decide_eq_false hfull
    rcases List.take_eq_nil_iff.1 hnone with hzero | hnil
    · cases hzero
    · rw [hnil] at hlength
      exact hlength (by decide)

/-- The next page goes on behind the last name of the page, if it has one. -/
structure GoesOn (start : String) (after : Option String) (front rest : List String)
    (last : Option String) : Prop where
  reached : Reached start last
  front_le : ∀ n ∈ front, ∃ l, last = some l ∧ n ≤ l
  after_le : ∀ l, after = some l → ∃ l', last = some l' ∧ l ≤ l'
  behind : front ≠ [] → ∀ n ∈ rest, isBehind start last n = true

theorem goesOn {t : Table} {start : String} {after : Option String} {front rest : List String}
    (hreached : Reached start after) (hsplit : t.starting start after = front ++ rest) :
    GoesOn start after front rest (front.getLast?.or after) := by
  cases hlast : front.getLast? with
  | none =>
      obtain rfl := List.getLast?_eq_none_iff.1 hlast
      exact ⟨hreached, nofun, fun l hl => ⟨l, hl, String.le_refl l⟩, fun hne => absurd rfl hne⟩
  | some y =>
      obtain ⟨hrest, hstart⟩ := starting_behind hreached hsplit hlast
      have hmem : y ∈ t.starting start after :=
        hsplit ▸ List.mem_append_left rest (List.mem_of_getLast? hlast)
      have hsorted : (front ++ rest).Pairwise (· < ·) := hsplit ▸ t.sorted_names.filter _
      refine ⟨fun l hl => ?_, fun n hn => ⟨y, rfl, ?_⟩, fun l hl => ⟨y, rfl, ?_⟩, fun _ n hn => ?_⟩
      · exact Option.some.inj hl ▸ hstart
      · obtain ⟨init, rfl⟩ := List.getLast?_eq_some_iff.1 hlast
        rcases List.mem_append.1 hn with hn | hn
        · have hfront := (List.pairwise_append.1 hsorted).1
          exact Std.le_of_lt ((List.pairwise_append.1 hfront).2.2 n hn y List.mem_cons_self)
        · obtain rfl := List.mem_singleton.1 hn
          exact String.le_refl n
      · have hbehind := (Bool.and_eq_true_iff.1 (List.mem_filter.1 hmem).2).1
        rw [hl] at hbehind
        exact Std.le_of_lt (of_decide_eq_true hbehind)
      · rw [← hrest] at hn
        exact (Bool.and_eq_true_iff.1 (List.mem_filter.1 hn).2).1

end Table

/-! ### Turns -/

namespace Cursor

/-- What one turn does at a moment. -/
inductive Goes (m : Moment) : Cursor → Turn → Cursor → Prop
  /-- The cursor failed before or was closed. -/
  | done {c : Cursor} (hdone : c.isDone = true) : Goes m c .stop c
  /-- The context has ended. -/
  | ended {s : Source} (hended : m.signal.atStart = true) :
      Goes m ⟨s, none, false⟩ .stop ⟨s, some .canceled, false⟩
  | name {n : String} {ns : List String} (hlive : m.signal.atStart = false) :
      Goes m ⟨.names (n :: ns), none, false⟩ (.yield n) ⟨.names ns, none, false⟩
  | noName (hlive : m.signal.atStart = false) :
      Goes m ⟨.names [], none, false⟩ .stop ⟨.names [], none, false⟩
  | ofPage {pattern n : String} {page : List String} {last : Option String} {exhausted : Bool}
      (hlive : m.signal.atStart = false) :
      Goes m ⟨.pages pattern (n :: page) last exhausted, none, false⟩ (.yield n)
        ⟨.pages pattern page last exhausted, none, false⟩
  | lastPage {pattern : String} {last : Option String} (hlive : m.signal.atStart = false) :
      Goes m ⟨.pages pattern [] last true, none, false⟩ .stop
        ⟨.pages pattern [] last true, none, false⟩
  | page {pattern : String} {last : Option String} {found : List String} {exhausted : Bool}
      (hlive : m.signal.atStart = false) (hread : m.trouble? = none)
      (hpage : m.table.page (Glob.literalStart pattern) last = (found, exhausted)) :
      Goes m ⟨.pages pattern [] last false, none, false⟩ .again
        ⟨.pages pattern (found.filter (Glob.accepts pattern)) (found.getLast?.or last) exhausted,
          none, false⟩
  | noPage {pattern : String} {last : Option String} {e : Error}
      (hlive : m.signal.atStart = false) (hfailed : m.trouble? = some e) :
      Goes m ⟨.pages pattern [] last false, none, false⟩ .stop
        ⟨.pages pattern [] last false, some e, false⟩
  | noFiles {pattern : String} (hlive : m.signal.atStart = false) :
      Goes m ⟨.files pattern none, none, false⟩ .stop ⟨.files pattern none, none, false⟩
  | lastFile {pattern : String} (hlive : m.signal.atStart = false) (hread : m.trouble? = none) :
      Goes m ⟨.files pattern (some []), none, false⟩ .stop ⟨.files pattern none, none, false⟩
  | shown {pattern n : String} {f : Bytes} {fs : List Bytes} (hlive : m.signal.atStart = false)
      (hread : m.trouble? = none) (hname : FileName.decode? f = some n)
      (hmatched : Glob.accepts pattern n = true) :
      Goes m ⟨.files pattern (some (f :: fs)), none, false⟩ (.yield n)
        ⟨.files pattern (some fs), none, false⟩
  | hidden {pattern : String} {f : Bytes} {fs : List Bytes} (hlive : m.signal.atStart = false)
      (hread : m.trouble? = none)
      (hhidden : ∀ n, FileName.decode? f = some n → Glob.accepts pattern n = false) :
      Goes m ⟨.files pattern (some (f :: fs)), none, false⟩ .again
        ⟨.files pattern (some fs), none, false⟩
  | noFile {pattern : String} {fs : List Bytes} {e : Error} (hlive : m.signal.atStart = false)
      (hfailed : m.trouble? = some e) :
      Goes m ⟨.files pattern (some fs), none, false⟩ .stop ⟨.files pattern none, some e, false⟩

theorem attempt_of_done {c : Cursor} (hdone : c.isDone = true) (m : Moment) :
    c.attempt m = (.stop, c) := by
  have hstep : c.step m.signal m.table = (.stop, c) := by simp only [step, hdone, if_true]
  have hreads : c.reads m.signal = false := by simp [reads, hdone]
  unfold attempt
  rw [hreads]
  cases m.fault <;> exact hstep

theorem attempt_of_ended {s : Source} {m : Moment} (hended : m.signal.atStart = true) :
    (⟨s, none, false⟩ : Cursor).attempt m = (.stop, ⟨s, some .canceled, false⟩) := by
  have hstep : (⟨s, none, false⟩ : Cursor).step m.signal m.table =
      (.stop, ⟨s, some .canceled, false⟩) := by simp [step, isDone, fail, hended]
  have hreads : (⟨s, none, false⟩ : Cursor).reads m.signal = false := by simp [reads, hended]
  unfold attempt
  rw [hreads]
  cases m.fault <;> exact hstep

/-- A turn that reads a directory. -/
theorem goes_files {pattern : String} {fs : List Bytes} {t : Table} :
    Goes ⟨⟨false, false⟩, none, t⟩ ⟨.files pattern (some fs), none, false⟩
      ((⟨.files pattern (some fs), none, false⟩ : Cursor).step ⟨false, false⟩ t).1
      ((⟨.files pattern (some fs), none, false⟩ : Cursor).step ⟨false, false⟩ t).2 := by
  cases fs with
  | nil => exact .lastFile rfl rfl
  | cons f fs =>
      cases hname : FileName.decode? f with
      | none =>
          simp only [step, isDone, hname]
          exact .hidden rfl rfl fun n hn => by rw [hname] at hn; cases hn
      | some n =>
          by_cases hmatched : Glob.accepts pattern n = true
          · simp only [step, isDone, hname, hmatched]
            exact .shown rfl rfl hname hmatched
          · simp only [step, isDone, hname, hmatched]
            exact .hidden rfl rfl fun n' hn => by
              rw [hname] at hn
              exact Option.some.inj hn ▸ Bool.eq_false_iff.2 hmatched

/-- **What a turn can do.** -/
theorem goes (c : Cursor) (m : Moment) : Goes m c (c.attempt m).1 (c.attempt m).2 := by
  by_cases hdone : c.isDone = true
  · rw [attempt_of_done hdone]
    exact .done hdone
  by_cases hended : m.signal.atStart = true
  · obtain ⟨source, failure, closed⟩ := c
    obtain ⟨rfl, rfl⟩ : closed = false ∧ failure = none := by simpa [isDone] using hdone
    rw [attempt_of_ended hended]
    exact .ended hended
  · obtain ⟨source, failure, closed⟩ := c
    obtain ⟨rfl, rfl⟩ : closed = false ∧ failure = none := by simpa [isDone] using hdone
    obtain ⟨⟨atStart, atCommit⟩, fault, t⟩ := m
    obtain rfl : atStart = false := Bool.eq_false_iff.2 hended
    cases source with
    | names rest =>
        cases rest <;> cases fault
        · exact .noName rfl
        · exact .noName rfl
        · exact .name rfl
        · exact .name rfl
    | pages pattern page last exhausted =>
        rcases page with _ | ⟨n, page⟩
        · cases exhausted with
          | true => cases fault <;> exact .lastPage rfl
          | false =>
              cases atCommit with
              | true => cases fault <;> exact .noPage rfl rfl
              | false =>
                  cases fault with
                  | some e => exact .noPage rfl rfl
                  | none => exact .page rfl rfl rfl
        · cases fault <;> exact .ofPage rfl
    | files pattern rest =>
        cases rest with
        | none => cases fault <;> exact .noFiles rfl
        | some fs =>
            cases atCommit with
            | true => cases fault <;> exact .noFile rfl rfl
            | false =>
                cases fault with
                | some e => exact .noFile rfl rfl
                | none => exact goes_files

end Cursor

end KeyCustody
