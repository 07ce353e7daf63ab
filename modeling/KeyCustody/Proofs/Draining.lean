import KeyCustody.Calls
import KeyCustody.Proofs.Iterating
import KeyCustody.Proofs.Tidy
import KeyCustody.Proofs.Views

/-!
# Draining

Who drains an iterator relies on it that a short listing never passes for a complete one.  What
carries the proof are the names to come (`Cursor.ahead`).  A turn takes one of them or passes
over none, unless it fails, and then the failure is kept.  Views only pick names, so the names
that a view shows of those to come are what its iterator still gives.  Main statements:

* `Cursor.accounts` and `View.Next.passes`: what turns and calls do to the names to come;
* `View.exists_drains`: draining comes to an end over a table that does not change;
* `View.Opened.shows_listed`: what views show of a listing, by the namespaces in front;
* `World.nextOf_next`: iterators of a calm world find the next name as a call for it does;
* `View.iterating`: the protocol of iterators.
-/

namespace KeyCustody

/-! ### Quiet moments -/

namespace Moment

/-- Nothing goes wrong: the context lives, and the store can be read. -/
structure Quiet (m : Moment) : Prop where
  live : m.signal = Cursor.live
  readable : m.fault = none

theorem Quiet.trouble?_eq_none {m : Moment} (h : m.Quiet) (c : Cursor) : c.trouble? m = none := by
  simp [Cursor.trouble?, Moment.trouble?, h.live, h.readable]

end Moment

/-! ### Names to come -/

namespace Cursor

variable {c c' : Cursor} {m : Moment} {t : Table} {turn : Turn}

/-- The names that a cursor has still to yield over the table. -/
def ahead (t : Table) (c : Cursor) : List String :=
  match c.source with
  | .names rest => rest
  | .pages pattern page last exhausted => toCome t pattern page last exhausted
  | .files pattern rest => shown pattern (rest.getD [])

/-- A bound on the turns that may come before one that yields. -/
def waiting (t : Table) (c : Cursor) : Nat :=
  match c.source with
  | .names _ => 0
  | .pages pattern _ last exhausted =>
    if exhausted then 0 else (t.starting (Glob.literalStart pattern) last).length + 1
  | .files _ rest => (rest.getD []).length

/-- The last name read of a database does not come before the range that is read. -/
def InRange (c : Cursor) : Prop :=
  match c.source with
  | .pages pattern _ last _ => Table.Reached (Glob.literalStart pattern) last
  | _ => True

/-- What a turn does to the names to come. -/
def Accounts (t : Table) (c : Cursor) : Turn → Cursor → Prop
  | .yield n, c' => c.ahead t = n :: c'.ahead t
  | .again, c' => c'.ahead t = c.ahead t ∧ c'.waiting t < c.waiting t
  | .stop, _ => c.ahead t = []

/-- Every turn keeps the range. -/
theorem inRange_attempt (hrange : c.InRange) (m : Moment) : (c.attempt m).2.InRange := by
  have hgoes := c.goes m
  generalize c.attempt m = attempted at hgoes ⊢
  obtain ⟨turn, c'⟩ := attempted
  cases hgoes with
  | done | ended | ofPage | lastPage | noPage => exact hrange
  | @page pattern last found exhausted _ _ hpage =>
      obtain ⟨front, rest, exhausted', hfront, hsplit, -⟩ := Table.exists_page hrange m.table
      obtain ⟨rfl, -⟩ := Prod.mk.inj (hpage.symm.trans hfront)
      exact (Table.goesOn hrange hsplit).reached
  | name | noName | noFiles | lastFile | shown | hidden | noFile => trivial

/-- **A turn loses none of the names to come**, unless it fails. -/
theorem accounts (hopen : c.Open) (hrange : c.InRange) (hgood : c.trouble? m = none) :
    c.Accounts m.table (c.attempt m).1 (c.attempt m).2 := by
  have hgoes := c.goes m
  generalize c.attempt m = attempted at hgoes ⊢
  obtain ⟨turn, c'⟩ := attempted
  cases hgoes with
  | done hdone =>
      rw [isDone_eq_false_iff.2 hopen] at hdone
      cases hdone
  | ended hended => simp [trouble?, isDone, hended] at hgood
  | noPage hlive hfailed | noFile hlive hfailed =>
      simp [trouble?, isDone, reads, hlive, hfailed] at hgood
  | name | noName | noFiles | ofPage | lastPage | lastFile => rfl
  | @page pattern last found exhausted hlive hread hpage =>
      obtain ⟨page', last', exhausted', hstep, -, hsame, hfewer⟩ :=
        step_page hrange (t := m.table)
      have hread : (paged pattern [] last false).step live m.table = (.again,
          paged pattern (found.filter (Glob.accepts pattern)) (found.getLast?.or last)
            exhausted) := by
        simp [paged, step, isDone, hpage]
      obtain ⟨rfl, rfl, rfl⟩ : found.filter (Glob.accepts pattern) = page' ∧
          found.getLast?.or last = last' ∧ exhausted = exhausted' := by
        simpa [paged] using hread.symm.trans hstep
      refine ⟨hsame, ?_⟩
      cases exhausted with
      | true => exact Nat.succ_pos _
      | false => exact Nat.succ_lt_succ (hfewer rfl)
  | @shown pattern n f fs hlive hread hname hmatched =>
      simp [Accounts, ahead, Cursor.shown, hname, hmatched]
  | @hidden pattern f fs hlive hread hhidden =>
      refine ⟨?_, by simp [waiting]⟩
      cases hname : FileName.decode? f with
      | none => simp [ahead, Cursor.shown, hname]
      | some n => simp [ahead, Cursor.shown, hname, hhidden n hname]

/-- How a turn that does not stop leaves a cursor. -/
theorem accounts_of_goesOn (hopen : c.Open) (hrange : c.InRange)
    (hturn : c.attempt m = (turn, c')) (hgoesOn : turn ≠ .stop) :
    c'.Open ∧ c'.InRange ∧ c.Accounts m.table turn c' := by
  obtain ⟨hgood, -, hopen'⟩ := open_of_goesOn hopen hturn hgoesOn
  have hrange' := inRange_attempt hrange m
  have haccounts := accounts hopen hrange hgood
  rw [hturn] at hrange' haccounts
  exact ⟨hopen', hrange', haccounts⟩

theorem inRange_close (hrange : c.InRange) : c.close.2.InRange := by
  obtain ⟨source, failure, closed⟩ := c
  cases closed <;> cases source <;> exact hrange

end Cursor

namespace View

variable {v : View} {c c' : Cursor} {ms : List Moment} {e : Ending} {t : Table}

/-- The names that the view shows of names of the store. -/
def shows (v : View) (names : List String) : List String :=
  names.filterMap v.show?

theorem shows_whole (names : List String) : View.whole.shows names = names :=
  List.filterMap_some

theorem shows_under (space : String) (v : View) (names : List String) :
    (View.under space v).shows names = (v.shows names).filterMap (strip space) := by
  unfold shows
  rw [List.filterMap_filterMap]
  rfl

/-- Every call keeps the range. -/
theorem Next.inRange (h : v.Next c ms e c') (hrange : c.InRange) : c'.InRange := by
  induction h with
  | @stop _ _ m hturn | @yield _ _ m _ hturn =>
      have hrange' := Cursor.inRange_attempt hrange m
      rwa [hturn] at hrange'
  | @again _ _ _ m _ _ hturn _ ih =>
      have hrange' := Cursor.inRange_attempt hrange m
      rw [hturn] at hrange'
      exact ih hrange'
  | passOn _ _ ih | shown _ _ ih => exact ih hrange
  | hidden _ _ _ ih ihrest => exact ihrest (ih hrange)

theorem Run.inRange {calls : List IteratorCall} (h : v.Run c calls c') (hrange : c.InRange) :
    c'.InRange := by
  induction h with
  | nil => exact hrange
  | next hnext _ ih => exact ih (hnext.inRange hrange)
  | close _ ih => exact ih (Cursor.inRange_close hrange)

/-- How a call that does not fail leaves the names to come. -/
structure Passes (v : View) (t : Table) (c : Cursor) (e : Ending) (c' : Cursor) : Prop where
  opened : c'.Open
  ahead : v.shows (c.ahead t) = match e.name? with
    | some n => n :: v.shows (c'.ahead t)
    | none => []
  shorter : e.name?.isSome → (c'.ahead t).length < (c.ahead t).length

/-- **A call passes over no name** that the view shows, unless it fails. -/
theorem Next.passes (h : v.Next c ms e c') (htable : ∀ m ∈ ms, m.table = t) (hopen : c.Open)
    (hrange : c.InRange) (hgood : e.failure? = none) : Passes v t c e c' := by
  induction h with
  | @stop c c' m hturn =>
      obtain rfl := htable m List.mem_cons_self
      cases htrouble : c.trouble? m with
      | some err =>
          rw [htrouble] at hgood
          cases hgood
      | none =>
          have haccounts := Cursor.accounts hopen hrange htrouble
          have hleaves := (Next.stop hturn).leaves hopen
          rw [htrouble] at hleaves
          rw [hturn] at haccounts
          refine ⟨hleaves.opened rfl, ?_, nofun⟩
          rw [shows_whole]
          exact haccounts
  | @yield c c' m n hturn =>
      obtain rfl := htable m List.mem_cons_self
      obtain ⟨hopen', -, haccounts⟩ := Cursor.accounts_of_goesOn hopen hrange hturn (by simp)
      have hahead : c.ahead m.table = n :: c'.ahead m.table := haccounts
      refine ⟨hopen', ?_, fun _ => ?_⟩
      · rw [shows_whole, shows_whole]
        exact hahead
      · rw [hahead]
        exact Nat.lt_succ_self _
  | @again c c' c'' m ms e hturn hrest ih =>
      obtain ⟨hm, hms⟩ := List.forall_mem_cons.1 htable
      obtain ⟨hopen', hrange', haccounts⟩ :=
        Cursor.accounts_of_goesOn hopen hrange hturn (by simp)
      obtain rfl := hm
      have hpasses := ih hms hopen' hrange' hgood
      have hsame : c'.ahead m.table = c.ahead m.table := haccounts.1
      exact ⟨hpasses.opened, hsame ▸ hpasses.ahead, hsame ▸ hpasses.shorter⟩
  | @passOn space v c c' ms e _ hnone ih =>
      have hinside := ih htable hopen hrange hgood
      refine ⟨hinside.opened, ?_, hinside.shorter⟩
      rw [shows_under, hinside.ahead, hnone]
      rfl
  | @shown space v c c' ms full n _ hshown ih =>
      have hinside := ih htable hopen hrange rfl
      refine ⟨hinside.opened, ?_, hinside.shorter⟩
      rw [shows_under, shows_under, hinside.ahead]
      exact List.filterMap_cons_some hshown
  | @hidden space v c c' c'' ms ms' e full hnext hhidden _ ih ihrest =>
      have hinside := ih (fun m hm => htable m (List.mem_append_left _ hm)) hopen hrange rfl
      have hrest := ihrest (fun m hm => htable m (List.mem_append_right _ hm)) hinside.opened
        (hnext.inRange hrange) hgood
      refine ⟨hrest.opened, ?_, fun hname => ?_⟩
      · rw [← hrest.ahead, shows_under, shows_under, hinside.ahead]
        exact List.filterMap_cons_none hhidden
      · exact Nat.lt_trans (hrest.shorter hname) (hinside.shorter rfl)

/-- **Draining** that does not fail gives the names to come that the view shows. -/
theorem Drains.names_eq {es : List Ending} {names : List String}
    {r : Except Error (List String)} (h : v.Drains c ms es r) (hr : r = .ok names)
    (htable : ∀ m ∈ ms, m.table = t) (hopen : c.Open) (hrange : c.InRange) :
    names = v.shows (c.ahead t) := by
  induction h generalizing names with
  | @last c c' ms e hnext hnone =>
      have hgood : e.failure? = none := by
        cases e with
        | failed err =>
            obtain ⟨hfailure, hclosed⟩ := (hnext.leaves hopen).failed err rfl
            simp [Cursor.close, hfailure, hclosed, Except.map] at hr
        | name n | nothing => rfl
      have hpasses := hnext.passes htable hopen hrange hgood
      rw [hpasses.ahead, hnone]
      rw [Cursor.close_of_open hpasses.opened] at hr
      exact (Except.ok.inj hr).symm
  | @more c c' ms ms' n es r hnext _ ih =>
      have hpasses := hnext.passes (fun m hm => htable m (List.mem_append_left _ hm)) hopen hrange
        rfl
      cases r with
      | error err => cases hr
      | ok rest =>
          have hrest := ih rfl (fun m hm => htable m (List.mem_append_right _ hm)) hpasses.opened
            (hnext.inRange hrange)
          rw [hpasses.ahead, ← hrest]
          exact (Except.ok.inj hr).symm

/-! ### Calls come to an end -/

variable {stream : Nat → Moment}

theorem map_range_add (k l : Nat) (stream : Nat → Moment) :
    (List.range (k + l)).map stream =
      (List.range k).map stream ++ (List.range l).map fun i => stream (k + i) := by
  rw [List.range_add, List.map_append, List.map_map]
  rfl

/-- **A call comes to an end** over a table that does not change, whatever else happens. -/
theorem exists_next (v : View) (htable : ∀ i, (stream i).table = t) (hopen : c.Open)
    (hrange : c.InRange) :
    ∃ k e c', v.Next c ((List.range k).map stream) e c' := by
  induction v generalizing c stream with
  | whole =>
      -- every turn that finds nothing yet leaves fewer turns to wait for
      generalize hwaiting : c.waiting t = n
      induction n using Nat.strong_induction_on generalizing c stream with
      | _ n ih =>
          cases hturn : c.attempt (stream 0) with
          | mk turn c' =>
              cases turn with
              | stop => exact ⟨1, _, c', .stop hturn⟩
              | yield name => exact ⟨1, _, c', .yield hturn⟩
              | again =>
                  obtain ⟨hopen', hrange', haccounts⟩ :=
                    Cursor.accounts_of_goesOn hopen hrange hturn (by simp)
                  rw [htable 0] at haccounts
                  obtain ⟨k, e, c'', hnext⟩ := ih (c'.waiting t) (hwaiting ▸ haccounts.2)
                    (fun i => htable (1 + i)) hopen' hrange' rfl
                  refine ⟨1 + k, e, c'', ?_⟩
                  rw [map_range_add]
                  exact .again hturn hnext
  | under space v ih =>
      -- every name that is hidden leaves fewer names to come
      generalize hlength : (c.ahead t).length = n
      induction n using Nat.strong_induction_on generalizing c stream with
      | _ n ihn =>
          obtain ⟨k, e, c', hnext⟩ := ih htable hopen hrange
          cases hname : e.name? with
          | none => exact ⟨k, e, c', .passOn hnext hname⟩
          | some full =>
              obtain rfl : e = .name full := by
                cases e with
                | name n => exact congrArg _ (Option.some.inj hname)
                | nothing | failed => cases hname
              cases hstrip : strip space full with
              | some n => exact ⟨k, _, c', .shown hnext hstrip⟩
              | none =>
                  have hpasses := hnext.passes (fun m hm => by
                    obtain ⟨i, -, rfl⟩ := List.mem_map.1 hm
                    exact htable i) hopen hrange rfl
                  obtain ⟨l, e, c'', hrest⟩ := ihn _ (hlength ▸ hpasses.shorter rfl)
                    (fun i => htable (k + i)) hpasses.opened (hnext.inRange hrange) rfl
                  refine ⟨k + l, e, c'', ?_⟩
                  rw [map_range_add]
                  exact .hidden hnext hstrip hrest

/-- **Draining comes to an end** too. -/
theorem exists_drains (v : View) (htable : ∀ i, (stream i).table = t) (hopen : c.Open)
    (hrange : c.InRange) :
    ∃ k es r, v.Drains c ((List.range k).map stream) es r := by
  generalize hlength : (c.ahead t).length = n
  induction n using Nat.strong_induction_on generalizing c stream with
  | _ n ih =>
      obtain ⟨k, e, c', hnext⟩ := exists_next v htable hopen hrange
      cases e with
      | nothing | failed err => exact ⟨k, _, _, .last hnext rfl⟩
      | name n =>
          have hpasses := hnext.passes (fun m hm => by
            obtain ⟨i, -, rfl⟩ := List.mem_map.1 hm
            exact htable i) hopen hrange rfl
          obtain ⟨l, es, r, hrest⟩ := ih _ (hlength ▸ hpasses.shorter rfl)
            (fun i => htable (k + i)) hpasses.opened (hnext.inRange hrange) rfl
          refine ⟨k + l, .name n :: es, r.map (n :: ·), ?_⟩
          rw [map_range_add]
          exact .more hnext hrest

/-- A call at whose turns nothing goes wrong does not fail. -/
theorem Next.failure?_of_quiet (h : v.Next c ms e c') (hquiet : ∀ m ∈ ms, m.Quiet) :
    e.failure? = none := by
  induction h with
  | @stop c c' m _ =>
      rw [(hquiet m List.mem_cons_self).trouble?_eq_none]
      rfl
  | yield _ | shown _ _ _ => rfl
  | again _ _ ih => exact ih (List.forall_mem_cons.1 hquiet).2
  | passOn _ _ ih => exact ih hquiet
  | hidden _ _ _ _ ih => exact ih (List.forall_mem_append.1 hquiet).2

/-- **Draining succeeds** if nothing goes wrong. -/
theorem Drains.eq_ok_of_quiet {es : List Ending} {r : Except Error (List String)}
    (h : v.Drains c ms es r) (hopen : c.Open) (hquiet : ∀ m ∈ ms, m.Quiet) :
    ∃ names, r = .ok names := by
  induction h with
  | last hnext _ =>
      have hleft := (hnext.leaves hopen).opened (hnext.failure?_of_quiet hquiet)
      exact ⟨[], by rw [Cursor.close_of_open hleft]; rfl⟩
  | more hnext _ ih =>
      obtain ⟨names, rfl⟩ := ih ((hnext.leaves hopen).opened rfl)
        (List.forall_mem_append.1 hquiet).2
      exact ⟨_, rfl⟩

end View

/-! ### Stores behind views -/

namespace Backend

variable {b : Backend}

/-- What creations and deletions make of an empty store. -/
inductive Written : Backend → Prop
  | memory : Written (.memory .empty)
  | database : Written (.database .empty)
  | files (path : String) : Written (.files ⟨path, .folder []⟩)
  | create {b : Backend} (hb : Written b) (sig : Signal) (name : String) (value : Bytes) :
      Written (b.create sig name value).2
  | delete {b : Backend} (hb : Written b) (sig : Signal) (name : String) :
      Written (b.delete sig name).2

theorem Written.tidy (hb : b.Written) : b.Tidy := by
  induction hb with
  | memory | database => trivial
  | files path => exact ⟨[], rfl, .nil, nofun⟩
  | create _ sig name value ih => exact ih.create sig name value
  | delete _ sig name ih => exact ih.delete sig name

/-- No store takes the empty name. -/
theorem create_empty (b : Backend) (sig : Signal) (value : Bytes) :
    b.create sig "" value = (.error (.invalid .emptyKey), b) := by
  cases b <;> rfl

/-- Nothing is stored under the empty name. -/
theorem Written.stored?_empty (hb : b.Written) : b.stored? "" = none := by
  induction hb with
  | memory | database | files => rfl
  | @create b _ sig name value ih =>
      by_cases hname : name = ""
      · rwa [hname, create_empty]
      · rcases b.create_cases sig name value with ⟨e, hfailed⟩ | ⟨-, -, hheld⟩
        · rwa [hfailed]
        · rwa [hheld, if_neg (Ne.symm hname)]
  | @delete b _ sig name ih =>
      rcases b.delete_cases sig name with ⟨e, hfailed⟩ | ⟨-, hheld⟩
      · rwa [hfailed]
      · rw [hheld, ih, ite_self]

/-- **A listing that starts** has all names to come that the pattern matches. -/
theorem list_ahead {sig : Signal} {pattern : String} {c : Cursor}
    (h : b.list sig pattern = .ok c) :
    c.Open ∧ c.InRange ∧ b.listed pattern = .ok (c.ahead b.table) := by
  rcases b.list_cases sig pattern with hcanceled | hlive
  · rw [hcanceled] at h
    cases h
  rw [hlive] at h
  cases b with
  | memory t =>
      obtain rfl := Except.ok.inj h
      exact ⟨⟨rfl, rfl⟩, trivial, rfl⟩
  | database t =>
      obtain rfl := Except.ok.inj h
      exact ⟨⟨rfl, rfl⟩, nofun, congrArg _ (Cursor.toCome_start t pattern).symm⟩
  | files d =>
      cases hfiles : d.fileNames with
      | error e =>
          simp [Backend.list, DataDir.scan, Signal.whole, Signal.steady, hfiles, bind,
            Except.bind, Except.mapError] at h
      | ok fs =>
          obtain rfl : Cursor.ofSource (.files pattern (some fs)) = c := by
            simpa [Backend.list, DataDir.scan, Signal.whole, Signal.steady, hfiles, bind,
              Except.bind, Except.mapError, pure, Except.pure] using h
          refine ⟨⟨rfl, rfl⟩, trivial, ?_⟩
          simp [Backend.listed, hfiles, Except.mapError, Except.map, Cursor.ahead,
            Cursor.ofSource]

end Backend

namespace View

variable {v : View} {pattern full n : String}

/-- Views that can be opened, one inside the other. -/
inductive Opened : View → Prop
  | whole : Opened .whole
  | enter {inner v : View} {space : String} (hinner : Opened inner)
      (hopened : inner.enter space = .ok v) : Opened v

/-- The pattern over the whole store matches behind the namespaces what the pattern matches. -/
theorem Opened.accepts_fullPattern_iff (hv : v.Opened) (pattern n : String) :
    Glob.accepts (v.fullPattern pattern) (v.fullName n) = true ↔
      Glob.accepts pattern n = true := by
  induction hv generalizing pattern n with
  | whole => exact Iff.rfl
  | enter _ hopened ih =>
      obtain ⟨hspace, rfl⟩ := enter_eq_ok_iff.1 hopened
      exact (ih _ _).trans (Glob.accepts_behind_iff hspace pattern n)

/-- **What a view shows of a listing** of a tidy store that holds nothing under the empty name:
the names that the pattern matches and that are held behind the namespaces, each of them once. -/
theorem Opened.shows_listed (hv : v.Opened) {b : Backend} (hb : b.Tidy)
    (hempty : b.stored? "" = none) {fulls : List String}
    (hlisted : b.listed (v.fullPattern pattern) = .ok fulls) :
    (v.shows fulls).Nodup ∧ ∀ n, n ∈ v.shows fulls ↔
      n ≠ "" ∧ Glob.accepts pattern n = true ∧ (b.stored? (v.fullName n)).isSome := by
  obtain ⟨names, hnames, hnodup, hmem⟩ := Backend.exists_listed_tidy hb (v.fullPattern pattern)
  obtain rfl : names = fulls := Except.ok.inj (hnames.symm.trans hlisted)
  have hshown {full n : String} (hfull : full ∈ names) :
      v.show? full = some n ↔ full = v.fullName n ∧ n ≠ "" := by
    refine show?_eq_some_iff.trans (and_congr_right ?_)
    rintro rfl
    refine or_iff_right_of_imp ?_
    rintro rfl rfl
    have hheld := ((hmem "").1 hfull).2
    rw [hempty] at hheld
    cases hheld
  refine ⟨hnodup.filterMap fun full full' n h h' => ?_, fun n => ?_⟩
  · exact (show?_eq_some_iff.1 h).1.trans (show?_eq_some_iff.1 h').1.symm
  · constructor
    · intro hn
      obtain ⟨full, hfull, hshows⟩ := List.mem_filterMap.1 hn
      obtain ⟨rfl, hname⟩ := (hshown hfull).1 hshows
      obtain ⟨hmatched, hheld⟩ := (hmem _).1 hfull
      exact ⟨hname, (hv.accepts_fullPattern_iff pattern n).1 hmatched, hheld⟩
    · rintro ⟨hname, hmatched, hheld⟩
      have hfull := (hmem _).2 ⟨(hv.accepts_fullPattern_iff pattern n).2 hmatched, hheld⟩
      exact List.mem_filterMap.2 ⟨_, hfull, (hshown hfull).2 ⟨rfl, hname⟩⟩

/-! ### Iterators of calm worlds -/

variable {c c' c'' : Cursor} {ms ms' : List Moment} {e : Ending}

/-- What ends a listing ends it for every view. -/
theorem Next.passAll (h : View.whole.Next c ms e c') (hnone : e.name? = none) (v : View) :
    v.Next c ms e c' := by
  induction v with
  | whole => exact h
  | under space v ih => exact .passOn ih hnone

/-- A name that a view shows is what its iterator gives. -/
theorem Next.show (h : View.whole.Next c ms (.name full) c') (hshown : v.show? full = some n) :
    v.Next c ms (.name n) c' := by
  induction v generalizing n with
  | whole => exact Option.some.inj hshown ▸ h
  | under space v ih =>
      obtain ⟨m, hm, hstrip⟩ := Option.bind_eq_some_iff.1 hshown
      exact .shown (ih hm) hstrip

/-- A name that a view does not show is passed over. -/
theorem Next.hide (h : View.whole.Next c ms (.name full) c') (hhidden : v.show? full = none)
    (hrest : v.Next c' ms' e c'') : v.Next c (ms ++ ms') e c'' := by
  induction v generalizing ms' e c'' with
  | whole => cases hhidden
  | under space v ih =>
      cases hinside : v.show? full with
      | some m =>
          have hstrip : strip space m = none := by
            rw [show?, hinside] at hhidden
            exact hhidden
          exact .hidden (h.show hinside) hstrip hrest
      | none =>
          cases hrest with
          | passOn hnext hnone => exact .passOn (ih hinside hnext) hnone
          | shown hnext hshown => exact .shown (ih hinside hnext) hshown
          | hidden hnext hstrip hrest =>
              rw [← List.append_assoc]
              exact .hidden (ih hinside hnext) hstrip hrest

end View

namespace Cursor

variable {c : Cursor} {t : Table}

theorem waiting_le_turns (c : Cursor) (t : Table) : c.waiting t ≤ c.turns t := by
  obtain ⟨source, failure, closed⟩ := c
  cases source with
  | names | files => exact Nat.le_refl _
  | pages pattern page last exhausted =>
      have hlt := length_starting_lt_turns t pattern (Glob.literalStart pattern) page last last
        exhausted
      cases exhausted with
      | true => exact Nat.zero_le _
      | false => exact hlt

theorem length_ahead_le_bound (c : Cursor) (t : Table) : (c.ahead t).length ≤ c.bound t := by
  obtain ⟨source, failure, closed⟩ := c
  cases source with
  | names => exact Nat.le_refl _
  | pages pattern page last exhausted =>
      have hlt := length_starting_lt_turns t pattern (Glob.literalStart pattern) page last last
        exhausted
      have hle := List.length_filter_le (Glob.accepts pattern)
        (t.starting (Glob.literalStart pattern) last)
      simp only [paged, turns] at hlt
      simp only [ahead, toCome, bound, List.length_append]
      cases exhausted with
      | true => exact Nat.add_le_add_left (Nat.zero_le _) _
      | false => exact Nat.add_le_add_left (hle.trans (Nat.le_of_lt_succ hlt)) _
  | files pattern rest =>
      exact (List.length_filter_le _ _).trans (List.length_filterMap_le _ _)

/-- A search with enough fuel is a call for the next name. -/
theorem seek_next (sig : Signal) (hopen : c.Open) (hrange : c.InRange) {fuel : Nat}
    (hfuel : c.waiting t ≤ fuel) :
    ∃ ms e c', View.whole.Next c ms e c' ∧ seek sig t fuel c = (e.name?, c') ∧
      ∀ m ∈ ms, m = ⟨sig, none, t⟩ := by
  induction fuel using Nat.strong_induction_on generalizing c with
  | _ fuel ih =>
      rcases hturn : c.attempt ⟨sig, none, t⟩ with ⟨turn, c'⟩
      have hstep : c.step sig t = (turn, c') := hturn
      rw [seek.eq_def]
      cases turn with
      | yield n =>
          refine ⟨_, _, c', .yield hturn, ?_, fun m hm => List.mem_singleton.1 hm⟩
          simp [hstep, Ending.name?]
      | stop =>
          refine ⟨_, _, c', .stop hturn, ?_, fun m hm => List.mem_singleton.1 hm⟩
          cases c.trouble? ⟨sig, none, t⟩ <;> simp [hstep, Ending.ofTrouble?, Ending.name?]
      | again =>
          obtain ⟨hopen', hrange', haccounts⟩ := accounts_of_goesOn hopen hrange hturn (by simp)
          have hfewer : c'.waiting t < c.waiting t := haccounts.2
          cases fuel with
          | zero => omega
          | succ fuel =>
              obtain ⟨ms, e, c'', hnext, hseek, hms⟩ := ih fuel (Nat.lt_succ_self _) hopen' hrange'
                (Nat.le_of_lt_succ (Nat.lt_of_lt_of_le hfewer hfuel))
              refine ⟨_, e, c'', .again hturn hnext, ?_, List.forall_mem_cons.2 ⟨rfl, hms⟩⟩
              simp [hstep, hseek]

end Cursor

namespace World

variable {w : World Unit} {c : Context} {v : View} {cursor : Cursor}

/-- A call of the store's iterator in a calm world. -/
theorem nextName_next (hopen : cursor.Open) (hrange : cursor.InRange) :
    ∃ ms e cursor', View.whole.Next cursor ms e cursor' ∧
      w.nextName c cursor = (e.name?, cursor', w) ∧
        ∀ m ∈ ms, m = ⟨.steady (w.ended c), none, w.backend.table⟩ := by
  obtain ⟨ms, e, cursor', hnext, hseek, hms⟩ := Cursor.seek_next (.steady (w.ended c))
    hopen hrange (cursor.waiting_le_turns w.backend.table)
  refine ⟨ms, e, cursor', hnext, ?_, hms⟩
  have hdone : cursor.isDone = false := Cursor.isDone_eq_false_iff.2 hopen
  simp [nextName, hdone, meet_calm, Cursor.next, hseek]

/-- The same for the iterator of a view, if it may read all the names to come. -/
theorem nextShown_next (hopen : cursor.Open) (hrange : cursor.InRange) {fuel : Nat}
    (hfuel : (cursor.ahead w.backend.table).length < fuel) :
    ∃ ms e cursor', v.Next cursor ms e cursor' ∧
      nextShown c v fuel cursor w = (e.name?, cursor', w) ∧
        ∀ m ∈ ms, m = ⟨.steady (w.ended c), none, w.backend.table⟩ := by
  induction fuel generalizing cursor with
  | zero => exact absurd hfuel (Nat.not_lt_zero _)
  | succ fuel ih =>
      obtain ⟨ms, e, next, hnext, hread, hms⟩ := nextName_next (c := c) hopen hrange
      cases e with
      | nothing | failed =>
          exact ⟨ms, _, next, hnext.passAll rfl v, by simp [nextShown, hread, Ending.name?], hms⟩
      | name full =>
          cases hshown : v.show? full with
          | some n =>
              refine ⟨ms, _, next, hnext.show hshown, ?_, hms⟩
              simp [nextShown, hread, Ending.name?, hshown]
          | none =>
              have htable : ∀ m ∈ ms, m.table = w.backend.table := fun m hm => by rw [hms m hm]
              have hpasses := hnext.passes htable hopen hrange rfl
              obtain ⟨ms', e, last, hrest, hread', hms'⟩ := ih hpasses.opened (hnext.inRange hrange)
                (Nat.lt_of_lt_of_le (hpasses.shorter rfl) (Nat.le_of_lt_succ hfuel))
              refine ⟨ms ++ ms', e, last, hnext.hide hshown hrest, ?_,
                List.forall_mem_append.2 ⟨hms, hms'⟩⟩
              simp [nextShown, hread, Ending.name?, hshown, hread']

/-- **Iterators of calm worlds** find the next name as a call for it does. -/
theorem nextOf_next (hrange : cursor.InRange) :
    ∃ ms e cursor', v.Next cursor ms e cursor' ∧
      w.nextOf c v cursor = (e.name?, cursor', w) ∧
        ∀ m ∈ ms, m = ⟨.steady (w.ended c), none, w.backend.table⟩ := by
  cases hdone : cursor.isDone with
  | false =>
      exact nextShown_next (Cursor.isDone_eq_false_iff.1 hdone) hrange
        (Nat.lt_succ_of_le (cursor.length_ahead_le_bound w.backend.table))
  | true =>
      have hread : w.nextOf c v cursor = (none, cursor, w) := by
        simp [nextOf, nextShown, nextName, hdone]
      have hnext := View.Next.stop
        (Cursor.attempt_of_done hdone ⟨.steady (w.ended c), none, w.backend.table⟩)
      rw [Cursor.trouble?_of_done hdone] at hnext
      exact ⟨_, _, cursor, hnext.passAll rfl v, hread, fun m hm => List.mem_singleton.1 hm⟩

end World

namespace View

/-- Programs that list a view list the store and keep what the view shows. -/
theorem run_list_eq {σ : Type} [Mishaps σ] (v : View) (pattern : String) (c : Context)
    (w : World σ) :
    (v.list pattern).attempt.run c w =
      ((w.list c (v.fullPattern pattern)).1.map v.shows, (w.list c (v.fullPattern pattern)).2) := by
  induction v generalizing pattern with
  | whole =>
      change w.list c pattern = _
      have hall : View.whole.shows = id := funext shows_whole
      rw [hall, fullPattern]
      rcases w.list c pattern with ⟨_ | _, _⟩ <;> rfl
  | under space v ih =>
      change (v.list (space ++ Glob.orAll pattern) >>= fun names =>
        pure (names.filterMap (strip space))).attempt.run c w = _
      rw [Routine.run_bind, ih]
      simp only [fullPattern]
      rcases w.list c (v.fullPattern (space ++ Glob.orAll pattern)) with ⟨_ | names, _⟩
      · rfl
      · simp only [Except.map, shows_under]
        rfl

/-- **Draining a written store** gives the names that the pattern matches and that are held behind
the namespaces, each of them once. -/
theorem Drains.names_written {v : View} {b : Backend} {pattern : String} {sig : Signal}
    {c : Cursor} {ms : List Moment} {es : List Ending} {names : List String}
    (h : v.Drains c ms es (.ok names)) (hv : v.Opened) (hb : b.Written)
    (htable : ∀ m ∈ ms, m.table = b.table)
    (hlist : b.list sig (v.fullPattern pattern) = .ok c) :
    names.Nodup ∧ ∀ n, n ∈ names ↔
      n ≠ "" ∧ Glob.accepts pattern n = true ∧ (b.stored? (v.fullName n)).isSome := by
  obtain ⟨hopen, hrange, hlisted⟩ := Backend.list_ahead hlist
  rw [h.names_eq rfl htable hopen hrange]
  exact hv.shows_listed hb.tidy hb.stored?_empty hlisted

/-- **A listing that programs make** in a calm world gives what draining gives. -/
theorem Drains.run_list {v : View} {pattern : String} {sig : Signal} {c : Cursor} {ms : List Moment}
    {es : List Ending} {names : List String} {w : World Unit} {ctx : Context}
    (h : v.Drains c ms es (.ok names)) (htable : ∀ m ∈ ms, m.table = w.backend.table)
    (hlist : w.backend.list sig (v.fullPattern pattern) = .ok c) (hlive : w.ended ctx = false) :
    (v.list pattern).attempt.run ctx w = (.ok names, w) := by
  obtain ⟨hopen, hrange, hlisted⟩ := Backend.list_ahead hlist
  rw [run_list_eq, World.list_calm, hlive, if_neg Bool.false_ne_true, hlisted,
    h.names_eq rfl htable hopen hrange]
  rfl

/-- **A look-up that programs make** in a calm world finds what is held behind the namespaces. -/
theorem run_get_eq_ok_iff (v : View) {w : World Unit} {ctx : Context} (hlive : w.ended ctx = false)
    (hempty : w.backend.stored? "" = none) {n : String} {value : Bytes} :
    (v.get n).attempt.run ctx w = (.ok value, w) ↔
      n ≠ "" ∧ w.backend.stored? (v.fullName n) = some value := by
  induction v generalizing n with
  | whole =>
      change w.answer ctx (.get n) = (.ok value, w) ↔ n ≠ "" ∧ w.backend.stored? n = some value
      rw [World.answer_get_calm hlive, Prod.mk.injEq, and_iff_left rfl]
      constructor
      · intro hfound
        have hheld := Backend.stored?_of_get hfound
        refine ⟨?_, hheld⟩
        rintro rfl
        rw [hempty] at hheld
        cases hheld
      · rintro ⟨hname, hheld⟩
        exact Backend.get_of_stored? hname hheld
  | under space v ih =>
      by_cases hname : n = ""
      · subst hname
        refine iff_of_false ?_ fun h => h.1 rfl
        intro hfound
        cases congrArg Prod.fst hfound
      · have hinside : space ++ n ≠ "" := extend_ne hname
        rw [get_under hname, Routine.run_mapError, Prod.mk.injEq, mapError_eq_ok_iff,
          ← Prod.mk.injEq, Prod.mk.eta, ih, fullName]
        exact and_congr_left fun _ => iff_of_true hinside hname

/-! ### The protocol -/

/-- What every iterator does that reads the source through the view. -/
structure Iterating (v : View) (s : Source) : Prop where
  /-- Behind a call that failed or saw that its context had ended, and behind a closing, all
  calls give nothing. -/
  silent : ∀ {before after : List IteratorCall} {call : IteratorCall} {c' : Cursor},
    v.Run (.ofSource s) (before ++ call :: after) c' → call.Stops →
      ∀ ms e, .next ms e ∈ after → e = .nothing
  /-- The first closing reports the first failure, and the closings behind it succeed. -/
  closings : ∀ {before after : List IteratorCall} {r : Except Error Unit} {c' : Cursor},
    v.Run (.ofSource s) (before ++ .close r :: after) c' → (∀ r', .close r' ∉ before) →
      (r = match before.findSome? IteratorCall.failure? with
        | some e => .error e
        | none => .ok ()) ∧ ∀ r', .close r' ∈ after → r' = .ok ()
  /-- Draining gives the names of all its calls if none of them failed, and else the failure. -/
  drained : ∀ {ms : List Moment} {es : List Ending} {r : Except Error (List String)},
    v.Drains (.ofSource s) ms es r → r = match es.findSome? Ending.failure? with
      | some e => .error e
      | none => .ok (es.filterMap Ending.name?)
  /-- If the listing is one of a store that was written by creations and deletions only, and that
  does not change meanwhile, then draining that succeeds gives each name that the pattern matches
  and that is held behind the namespaces of the view, and no name twice. -/
  complete : ∀ {b : Backend} {sig : Signal} {pattern : String} {ms : List Moment}
    {es : List Ending} {names : List String}, v.Opened → b.Written →
      b.list sig (v.fullPattern pattern) = .ok (.ofSource s) → (∀ m ∈ ms, m.table = b.table) →
        v.Drains (.ofSource s) ms es (.ok names) →
          names.Nodup ∧ ∀ n, n ∈ names ↔
            n ≠ "" ∧ Glob.accepts pattern n = true ∧ (b.stored? (v.fullName n)).isSome
  /-- Over a store that does not change draining comes to an end, whatever goes wrong, and it
  succeeds if nothing does. -/
  ends : ∀ {b : Backend} {sig : Signal} {pattern : String} {stream : Nat → Moment},
    b.list sig pattern = .ok (.ofSource s) → (∀ i, (stream i).table = b.table) →
      ∃ k es r, v.Drains (.ofSource s) ((List.range k).map stream) es r ∧
        ((∀ i, (stream i).Quiet) → ∃ names, r = .ok names)
  /-- The iterators of a calm world find the next name as such a call does, after any calls. -/
  runs : ∀ {b : Backend} {sig : Signal} {pattern : String} {calls : List IteratorCall}
    {c : Cursor}, b.list sig pattern = .ok (.ofSource s) → v.Run (.ofSource s) calls c →
      ∀ (w : World Unit) (ctx : Context), ∃ ms e c', v.Next c ms e c' ∧
        w.nextOf ctx v c = (e.name?, c', w) ∧
          ∀ m ∈ ms, m = ⟨.steady (w.ended ctx), none, w.backend.table⟩
  /-- A program that lists the view in a calm world gets the names that draining gives.  In a
  store that was so written these are the names that the pattern matches and under which the
  program can read something through the view. -/
  lists : ∀ {w : World Unit} {ctx : Context} {sig : Signal} {pattern : String}
    {ms : List Moment} {es : List Ending} {names : List String}, w.ended ctx = false →
      w.backend.list sig (v.fullPattern pattern) = .ok (.ofSource s) →
        (∀ m ∈ ms, m.table = w.backend.table) → v.Drains (.ofSource s) ms es (.ok names) →
          (v.list pattern).attempt.run ctx w = (.ok names, w) ∧
            (v.Opened → w.backend.Written → names.Nodup ∧ ∀ n, n ∈ names ↔
              Glob.accepts pattern n = true ∧
                ∃ value, (v.get n).attempt.run ctx w = (.ok value, w))

/-- **Iterators keep their protocol**, whatever they read, behind any views, and whatever goes
wrong. -/
theorem iterating (v : View) (s : Source) : v.Iterating s where
  silent hrun hstops := by
    rw [List.append_cons] at hrun
    obtain ⟨c, hstopped, hafter⟩ := hrun.split
    obtain ⟨c₁, -, hcall⟩ := hstopped.split
    exact hafter.silent (hcall.isDone_of_stops hstops)
  closings hrun hbefore := hrun.closings hbefore
  drained hdrains := hdrains.eq ⟨rfl, rfl⟩
  complete hv hb hlist htable hdrains := hdrains.names_written hv hb htable hlist
  ends {_ _ _ stream} hlist htable := by
    obtain ⟨hopen, hrange, -⟩ := Backend.list_ahead hlist
    obtain ⟨k, es, r, hdrains⟩ := exists_drains v htable hopen hrange
    refine ⟨k, es, r, hdrains, fun hquiet => hdrains.eq_ok_of_quiet hopen fun m hm => ?_⟩
    obtain ⟨i, -, rfl⟩ := List.mem_map.1 hm
    exact hquiet i
  runs hlist hrun w ctx := by
    obtain ⟨-, hrange, -⟩ := Backend.list_ahead hlist
    exact World.nextOf_next (hrun.inRange hrange)
  lists {w _ _ _ _ _ names} hlive hlist htable hdrains := by
    refine ⟨hdrains.run_list htable hlist hlive, fun hv hb => ?_⟩
    obtain ⟨hnodup, hmem⟩ := hdrains.names_written hv hb htable hlist
    refine ⟨hnodup, fun n => (hmem n).trans ?_⟩
    rw [Option.isSome_iff_exists]
    constructor
    · rintro ⟨hname, hmatched, value, hheld⟩
      exact ⟨hmatched, value, (v.run_get_eq_ok_iff hlive hb.stored?_empty).2 ⟨hname, hheld⟩⟩
    · rintro ⟨hmatched, value, hfound⟩
      obtain ⟨hname, hheld⟩ := (v.run_get_eq_ok_iff hlive hb.stored?_empty).1 hfound
      exact ⟨hname, hmatched, value, hheld⟩

end View

end KeyCustody
