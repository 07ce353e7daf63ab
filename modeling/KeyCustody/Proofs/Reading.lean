import KeyCustody.Proofs.Stored
import KeyCustody.Store.Cursor

/-!
# What cursors may yield

A cursor is read while the store changes, while contexts end and while the store fails, and
still it yields only names of the kind that it was opened for.  `Cursor.Within` says that all
names to come are good, whatever good means: the names that were found already are good, a
database is asked for good names only, and the file names still to be looked at stand for
good names.  Main statements:

* `Cursor.Within.of_mayYield`: a cursor of which this holds yields good names only, however it
  is read;
* `World.accepts_of_mem_list`: a listing gives only names that its pattern matches.
-/

namespace KeyCustody

/-- A name that the turn yields is good. -/
def Turn.Within (good : String → Prop) : Turn → Prop
  | .yield name => good name
  | .again | .stop => True

namespace Cursor

variable {good : String → Prop} {c : Cursor}

/-- All names that the cursor may still yield are good. -/
def Within (good : String → Prop) (c : Cursor) : Prop :=
  match c.source with
  | .names rest => ∀ n ∈ rest, good n
  | .pages pattern page _ _ =>
    (∀ n ∈ page, good n) ∧ ∀ n, Glob.accepts pattern n = true → good n
  | .files pattern rest =>
    ∀ f ∈ rest.getD [], ∀ n, FileName.decode? f = some n → Glob.accepts pattern n = true → good n

theorem Within.fail (h : c.Within good) (e : Error) : (c.fail e).Within good := by
  unfold Cursor.fail
  split <;> exact h

/-- One turn of the reading loop yields only good names. -/
theorem Within.step (h : c.Within good) (sig : Signal) (t : Table) :
    (c.step sig t).2.Within good ∧ (c.step sig t).1.Within good := by
  obtain ⟨source, failure, closed⟩ := c
  unfold Cursor.step
  split
  · exact ⟨h, trivial⟩
  split
  · exact ⟨h.fail _, trivial⟩
  cases source with
  | names rest =>
      cases rest with
      | nil => exact ⟨h, trivial⟩
      | cons n rest =>
          obtain ⟨hn, hrest⟩ := List.forall_mem_cons.1 h
          exact ⟨hrest, hn⟩
  | pages pattern page last exhausted =>
      obtain ⟨hpage, hpattern⟩ := h
      cases page with
      | cons n page =>
          obtain ⟨hn, hrest⟩ := List.forall_mem_cons.1 hpage
          exact ⟨⟨hrest, hpattern⟩, hn⟩
      | nil =>
          cases exhausted with
          | true => exact ⟨⟨hpage, hpattern⟩, trivial⟩
          | false =>
              dsimp only
              split
              · have hunread : Within good ⟨.pages pattern [] last false, failure, closed⟩ :=
                  ⟨hpage, hpattern⟩
                exact ⟨hunread.fail _, trivial⟩
              · -- a new page is filtered before it is read
                exact ⟨⟨fun n hn => hpattern n (List.mem_filter.1 hn).2, hpattern⟩, trivial⟩
  | files pattern rest =>
      have hnone : Within good ⟨.files pattern none, failure, closed⟩ :=
        fun _ hf => (List.not_mem_nil hf).elim
      cases rest with
      | none => exact ⟨hnone, trivial⟩
      | some files =>
          dsimp only
          split
          · exact ⟨fun _ hf => (List.not_mem_nil hf).elim, trivial⟩
          cases files with
          | nil => exact ⟨hnone, trivial⟩
          | cons file files =>
              obtain ⟨hfile, hfiles⟩ := List.forall_mem_cons.1 h
              have hrest : Within good ⟨.files pattern (some files), failure, closed⟩ := hfiles
              dsimp only
              split
              · rename_i name hdecoded
                split
                · rename_i haccepts
                  exact ⟨hrest, hfile name hdecoded haccepts⟩
                · exact ⟨hrest, trivial⟩
              · exact ⟨hrest, trivial⟩

theorem Within.seek (h : c.Within good) (sig : Signal) (t : Table) (fuel : Nat) :
    (Cursor.seek sig t fuel c).2.Within good ∧
      ∀ name, (Cursor.seek sig t fuel c).1 = some name → good name := by
  induction fuel generalizing c with
  | zero =>
      obtain ⟨hwithin, hyields⟩ := h.step sig t
      unfold Cursor.seek
      rcases hstep : c.step sig t with ⟨name | _ | _, c'⟩
      all_goals rw [hstep] at hwithin hyields
      · exact ⟨hwithin, fun _ hname => Option.some.inj hname ▸ hyields⟩
      · exact ⟨hwithin, nofun⟩
      · exact ⟨hwithin, nofun⟩
  | succ fuel ih =>
      obtain ⟨hwithin, hyields⟩ := h.step sig t
      unfold Cursor.seek
      rcases hstep : c.step sig t with ⟨name | _ | _, c'⟩
      all_goals rw [hstep] at hwithin hyields
      · exact ⟨hwithin, fun _ hname => Option.some.inj hname ▸ hyields⟩
      · exact ih hwithin
      · exact ⟨hwithin, nofun⟩

/-- Read on, at whatever moments and under whatever signals, the cursor may yield the name. -/
inductive MayYield : Cursor → String → Prop
  | now {c : Cursor} {name : String} (sig : Signal) (t : Table)
      (yields : (c.next sig t).1 = some name) : MayYield c name
  | later {c : Cursor} {name : String} (sig : Signal) (t : Table)
      (rest : MayYield (c.next sig t).2 name) : MayYield c name

/-- **Cursors yield good names only**, however they are read. -/
theorem Within.of_mayYield {name : String} (h : c.Within good) (hyields : c.MayYield name) :
    good name := by
  induction hyields with
  | now sig t yields => exact (h.seek sig t _).2 _ yields
  | later sig t _ ih => exact ih (h.seek sig t _).1

end Cursor

/-- Every listing starts within its pattern. -/
theorem Backend.within_of_list {b : Backend} {sig : Signal} {pattern : String} {cursor : Cursor}
    (hlisted : b.list sig pattern = .ok cursor) :
    cursor.Within (Glob.accepts pattern · = true) := by
  cases b with
  | memory t =>
      rcases sig.whole_cases with hs | hs <;> simp only [list, hs, bind, Except.bind] at hlisted <;>
        cases hlisted
      exact fun n hn => (List.mem_filter.1 hn).2
  | database t =>
      simp only [list] at hlisted
      split at hlisted <;> cases hlisted
      exact ⟨nofun, fun _ => id⟩
  | files d =>
      simp only [list, bind, Except.bind] at hlisted
      split at hlisted <;> cases hlisted
      exact fun _ _ _ _ => id

namespace World

variable {σ : Type} [Mishaps σ] {good : String → Prop}

theorem within_nextName (w : World σ) (c : Context) {cursor : Cursor} (h : cursor.Within good) :
    (w.nextName c cursor).2.1.Within good ∧
      ∀ name, (w.nextName c cursor).1 = some name → good name := by
  unfold nextName
  split
  · exact ⟨h, nofun⟩
  · obtain ⟨hwithin, hfound⟩ := h.seek (.steady (w.ended c)) w.backend.table
      (cursor.turns w.backend.table)
    dsimp only [Cursor.next]
    split
    · exact ⟨hwithin.fail _, nofun⟩
    · exact ⟨hwithin, hfound⟩

/-- Reading on finds only good names. -/
theorem forall_mem_readAll (c : Context) (fuel : Nat) {earlier names : List String}
    {cursor : Cursor} {w : World σ} (h : cursor.Within good)
    (hearlier : ∀ n ∈ earlier, good n)
    (hread : (readAll c fuel earlier cursor w).1 = .ok names) : ∀ n ∈ names, good n := by
  have hclosed {cursor : Cursor} {read : List String} (hgood : ∀ n ∈ read, good n)
      (hok : (cursor.close.1.map fun _ => read.reverse) = .ok names) : ∀ n ∈ names, good n := by
    cases hclose : cursor.close.1 with
    | error e =>
        rw [hclose] at hok
        cases hok
    | ok _ =>
        rw [hclose] at hok
        cases hok
        exact fun n hn => hgood n (List.mem_reverse.1 hn)
  induction fuel generalizing earlier cursor w with
  | zero => exact hclosed hearlier hread
  | succ fuel ih =>
      obtain ⟨hwithin, hfound⟩ := w.within_nextName c h
      unfold readAll at hread
      rcases hnext : w.nextName c cursor with ⟨_ | name, next, w'⟩
      all_goals rw [hnext] at hwithin hfound hread
      · exact hclosed hearlier hread
      · exact ih hwithin (List.forall_mem_cons.2 ⟨hfound name rfl, hearlier⟩) hread

/-- **Listings keep to their pattern**, whatever mishaps there are. -/
theorem accepts_of_mem_list {w : World σ} {c : Context} {pattern : String} {names : List String}
    (hlisted : (w.list c pattern).1 = .ok names) :
    ∀ n ∈ names, Glob.accepts pattern n = true := by
  unfold list at hlisted
  rcases hstarted : w.startListing c pattern with ⟨e | cursor, v⟩
  all_goals rw [hstarted] at hlisted
  · cases hlisted
  · have hwithin : cursor.Within (Glob.accepts pattern · = true) := by
      unfold startListing at hstarted
      split at hstarted
      · cases hstarted
      · exact Backend.within_of_list (congrArg Prod.fst hstarted)
    exact forall_mem_readAll c _ hwithin (List.forall_mem_nil _) hlisted

end World

end KeyCustody
