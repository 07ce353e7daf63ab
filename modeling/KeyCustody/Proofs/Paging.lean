import KeyCustody.Proofs.Moments
import KeyCustody.Proofs.OctetOrder

/-!
# Listings under writes

A listing of a database reads page after page, and between any two turns others may create and
remove names.  What was read stays behind the last name read, what is still to come stands in
front of it, and a name that is always there is never passed over (`Survey.Sound`).  Each kind
of turn keeps this, and so do the writes of others, whatever they change.  Main statement:

* `Survey.faithful`: what a listing gives while others write.
-/

namespace KeyCustody

namespace Survey

/-- What is known of a listing that met the tables.  The names at hand are those yielded and
those of the page. -/
structure Sound (pattern : String) (met : List Table) (page : List String)
    (last : Option String) (exhausted : Bool) (s : Survey) : Prop where
  source : s.cursor.source = .pages pattern page last exhausted
  unclosed : s.cursor.closed = false
  reached : Table.Reached (Glob.literalStart pattern) last
  current : s.table ∈ met
  increasing : (s.yielded ++ page).Pairwise (· < ·)
  behind : ∀ n ∈ s.yielded ++ page, ∃ l, last = some l ∧ n ≤ l
  matched : ∀ n ∈ s.yielded ++ page, Glob.accepts pattern n = true
  stored : ∀ n ∈ s.yielded ++ page, ∃ t ∈ met, n ∈ t.names
  /-- A name that was always there is at hand or still to be read. -/
  complete : ∀ n, Glob.accepts pattern n = true → (∀ t ∈ met, n ∈ t.names) →
    n ∈ s.yielded ++ page ∨
      exhausted = false ∧ Table.isBehind (Glob.literalStart pattern) last n = true
  ended : s.finished = true → s.cursor.failure = none → page = [] ∧ exhausted = true

variable {pattern : String} {met : List Table} {page : List String} {last : Option String}
  {exhausted : Bool} {s : Survey}

/-- A listing that starts. -/
theorem sound_start (pattern : String) (t : Table) :
    Sound pattern [t] [] none false (start pattern t) where
  source := rfl
  unclosed := rfl
  reached := nofun
  current := List.mem_singleton_self t
  increasing := .nil
  behind := nofun
  matched := nofun
  stored := nofun
  complete _ hmatched _ := .inr ⟨rfl, decide_eq_true
    (le_of_start (Glob.literalStart_prefix hmatched))⟩
  ended := nofun

/-- Others write, and more tables are met. -/
theorem Sound.meet (h : Sound pattern met page last exhausted s) {met' : List Table}
    (hmet : met ⊆ met') {t : Table} (ht : t ∈ met') :
    Sound pattern met' page last exhausted { s with table := t } where
  source := h.source
  unclosed := h.unclosed
  reached := h.reached
  current := ht
  increasing := h.increasing
  behind := h.behind
  matched := h.matched
  stored n hn := by
    obtain ⟨t, ht, hmem⟩ := h.stored n hn
    exact ⟨t, hmet ht, hmem⟩
  complete n hmatched hkept := h.complete n hmatched fun t ht => hkept t (hmet ht)
  ended := h.ended

/-- A turn that fails. -/
theorem Sound.fail (h : Sound pattern met page last exhausted s) {c : Cursor} {e : Error}
    (hsource : c.source = s.cursor.source) (hclosed : c.closed = false)
    (hfailure : c.failure = some e) (finished : Bool) :
    Sound pattern met page last exhausted { s with cursor := c, finished := finished } where
  source := hsource.trans h.source
  unclosed := hclosed
  reached := h.reached
  current := h.current
  increasing := h.increasing
  behind := h.behind
  matched := h.matched
  stored := h.stored
  complete := h.complete
  ended _ hnone := by
    rw [hfailure] at hnone
    cases hnone

/-- A turn that yields. -/
theorem Sound.yield {n : String} (h : Sound pattern met (n :: page) last exhausted s) :
    Sound pattern met page last exhausted
      { s with cursor := { s.cursor with source := .pages pattern page last exhausted },
               yielded := s.yielded ++ [n] } := by
  have hsame : (s.yielded ++ [n]) ++ page = s.yielded ++ n :: page := by simp
  exact {
    source := rfl
    unclosed := h.unclosed
    reached := h.reached
    current := h.current
    increasing := hsame ▸ h.increasing
    behind := hsame ▸ h.behind
    matched := hsame ▸ h.matched
    stored := hsame ▸ h.stored
    complete := hsame ▸ h.complete
    ended := fun hfinished hnone => by cases (h.ended hfinished hnone).1 }

/-- **A turn that reads a page.**  The page stands behind all that was read, and what it leaves
out stands behind it. -/
theorem Sound.read (h : Sound pattern met [] last false s) {found : List String}
    (hpage : s.table.page (Glob.literalStart pattern) last = (found, exhausted)) :
    Sound pattern met (found.filter (Glob.accepts pattern)) (found.getLast?.or last) exhausted
      { s with cursor := { s.cursor with
          source := .pages pattern (found.filter (Glob.accepts pattern)) (found.getLast?.or last)
            exhausted } } := by
  obtain ⟨front, rest, exhausted', hpage', hsplit, hlast, hfull⟩ :=
    Table.exists_page h.reached s.table
  obtain ⟨rfl, rfl⟩ := Prod.mk.inj (hpage.symm.trans hpage')
  have hon := Table.goesOn h.reached hsplit
  have hfound : ∀ n ∈ found, n ∈ s.table.names ∧
      Table.isBehind (Glob.literalStart pattern) last n = true := fun n hn => by
    have hmem : n ∈ s.table.starting (Glob.literalStart pattern) last :=
      hsplit ▸ List.mem_append_left rest hn
    exact ⟨(List.mem_filter.1 hmem).1, (Bool.and_eq_true_iff.1 (List.mem_filter.1 hmem).2).1⟩
  have hyielded : ∀ n ∈ s.yielded, ∃ l, last = some l ∧ n ≤ l := fun n hn =>
    h.behind n (List.mem_append_left [] hn)
  have hold := h.increasing
  rw [List.append_nil] at hold
  refine ⟨rfl, h.unclosed, hon.reached, h.current, List.pairwise_append.2 ⟨hold, ?_, ?_⟩,
    fun n hn => ?_, fun n hn => ?_, fun n hn => ?_, fun n hmatched hkept => ?_,
    fun hfinished hnone => ?_⟩
  · have hsorted : (found ++ rest).Pairwise (· < ·) := hsplit ▸ s.table.sorted_names.filter _
    exact (List.pairwise_append.1 hsorted).1.filter _
  · intro m hm n hn
    obtain ⟨l, hl, hle⟩ := hyielded m hm
    have hbehind := (hfound n (List.mem_filter.1 hn).1).2
    rw [hl] at hbehind
    exact Std.lt_of_le_of_lt hle (of_decide_eq_true hbehind)
  · rcases List.mem_append.1 hn with hn | hn
    · obtain ⟨l, hl, hle⟩ := hyielded n hn
      obtain ⟨l', hl', hle'⟩ := hon.after_le l hl
      exact ⟨l', hl', String.le_trans hle hle'⟩
    · exact hon.front_le n (List.mem_filter.1 hn).1
  · rcases List.mem_append.1 hn with hn | hn
    · exact h.matched n (List.mem_append_left [] hn)
    · exact (List.mem_filter.1 hn).2
  · rcases List.mem_append.1 hn with hn | hn
    · exact h.stored n (List.mem_append_left [] hn)
    · exact ⟨s.table, h.current, (hfound n (List.mem_filter.1 hn).1).1⟩
  · rcases h.complete n hmatched hkept with hn | ⟨-, hbehind⟩
    · rw [List.append_nil] at hn
      exact .inl (List.mem_append_left _ hn)
    · have hmem : n ∈ found ++ rest := hsplit ▸ List.mem_filter.2 ⟨hkept _ h.current,
        Bool.and_eq_true_iff.2 ⟨hbehind, List.isPrefixOf_iff_prefix.2
          (Glob.literalStart_prefix hmatched)⟩⟩
      rcases List.mem_append.1 hmem with hfront | hrest
      · exact .inl (List.mem_append_right _ (List.mem_filter.2 ⟨hfront, hmatched⟩))
      · cases exhausted with
        | true =>
            rw [hlast rfl] at hrest
            cases hrest
        | false => exact .inr ⟨rfl, hon.behind (hfull rfl) n hrest⟩
  · cases (h.ended hfinished hnone).2

/-- A turn keeps what is known. -/
theorem Sound.turn (h : Sound pattern met page last exhausted s) (sig : Signal)
    (fault : Option Error) :
    ∃ page' last' exhausted',
      Sound pattern met page' last' exhausted' (s.step (.turn sig fault)) := by
  obtain ⟨t, ⟨source, failure, closed⟩, yielded, finished⟩ := s
  obtain rfl : source = .pages pattern page last exhausted := h.source
  obtain rfl : closed = false := h.unclosed
  have hgoes := (⟨.pages pattern page last exhausted, failure, false⟩ : Cursor).goes ⟨sig, fault, t⟩
  simp only [Survey.step]
  generalize (⟨.pages pattern page last exhausted, failure, false⟩ : Cursor).attempt
    ⟨sig, fault, t⟩ = attempted at hgoes ⊢
  obtain ⟨turn, c⟩ := attempted
  cases hgoes with
  | done hdone =>
      cases failure with
      | none => cases hdone
      | some e =>
          exact ⟨_, _, _, h.fail (c := ⟨_, some e, false⟩) rfl rfl rfl true⟩
  | ended hended => exact ⟨_, _, _, h.fail (c := ⟨_, some .canceled, false⟩) rfl rfl rfl true⟩
  | ofPage hlive => exact ⟨_, _, _, h.yield⟩
  | lastPage hlive => exact ⟨_, _, _, { h with ended := fun _ _ => ⟨rfl, rfl⟩ }⟩
  | page hlive hread hpage => exact ⟨_, _, _, h.read hpage⟩
  | noPage hlive hfailed => exact ⟨_, _, _, h.fail (c := ⟨_, some _, false⟩) rfl rfl rfl true⟩

/-- What happens in one step keeps what is known. -/
theorem Sound.step (h : Sound pattern met page last exhausted s) (e : Event) :
    ∃ page' last' exhausted',
      Sound pattern (met ++ [(s.step e).table]) page' last' exhausted' (s.step e) := by
  have hmet : met ⊆ met ++ [(s.step e).table] := List.subset_append_left met _
  have hnow : (s.step e).table ∈ met ++ [(s.step e).table] := by simp
  cases e with
  | turn sig fault =>
      obtain ⟨page', last', exhausted', h'⟩ := h.turn sig fault
      exact ⟨_, _, _, h'.meet hmet hnow⟩
  | create sig name value => exact ⟨_, _, _, h.meet hmet hnow⟩
  | delete sig name => exact ⟨_, _, _, h.meet hmet hnow⟩

theorem head_mem_tables (s : Survey) (events : List Event) : s.table ∈ s.tables events := by
  cases events <;> exact List.mem_cons_self

/-- Whatever happens keeps what is known. -/
theorem Sound.after (h : Sound pattern met page last exhausted s) (events : List Event) :
    ∃ page' last' exhausted',
      Sound pattern (met ++ s.tables events) page' last' exhausted' (s.after events) := by
  induction events generalizing s met page last exhausted with
  | nil =>
      exact ⟨_, _, _, h.meet (List.subset_append_left met _) (List.mem_append_left _ h.current)⟩
  | cons e events ih =>
      obtain ⟨_, _, _, hstep⟩ := h.step e
      obtain ⟨_, _, _, hafter⟩ := ih hstep
      have hmet : met ++ [(s.step e).table] ++ (s.step e).tables events ⊆
          met ++ s.tables (e :: events) := by
        have hlater : (s.step e).tables events ⊆ s.tables (e :: events) := List.subset_cons_self _ _
        refine List.append_subset.2 ⟨List.append_subset.2 ⟨List.subset_append_left _ _, ?_⟩, ?_⟩
        · refine List.cons_subset.2 ⟨List.mem_append_right _ ?_, List.nil_subset _⟩
          exact hlater ((s.step e).head_mem_tables events)
        · exact List.subset_append_of_subset_right _ hlater
      exact ⟨_, _, _, hafter.meet hmet (hmet hafter.current)⟩

/-- **What is known of every listing.** -/
theorem exists_sound (pattern : String) (t : Table) (events : List Event) :
    ∃ page last exhausted, Sound pattern ((start pattern t).tables events) page last exhausted
      ((start pattern t).after events) := by
  obtain ⟨page, last, exhausted, h⟩ := (sound_start pattern t).after events
  have hmet : [t] ++ (start pattern t).tables events ⊆ (start pattern t).tables events :=
    List.cons_subset.2 ⟨(start pattern t).head_mem_tables events, List.Subset.refl _⟩
  exact ⟨page, last, exhausted, h.meet hmet (hmet h.current)⟩

end Survey

/-! ### What is read -/

namespace Table

/-- The tables hold the same names that start with `start`. -/
def AlikeFrom (start : String) (t t' : Table) : Prop :=
  ∀ n : String, start.toList <+: n.toList → (t'.get? n).isSome = (t.get? n).isSome

variable {start : String} {t t' : Table}

/-- Names in order are told by their members. -/
theorem eq_of_sorted {ns ns' : List String} (hns : ns.Pairwise (· < ·))
    (hns' : ns'.Pairwise (· < ·)) (hmem : ∀ n, n ∈ ns ↔ n ∈ ns') : ns = ns' := by
  have hperm : ns.Perm ns' := (List.perm_ext_iff_of_nodup
    (hns.imp fun hlt => String.ne_of_lt hlt) (hns'.imp fun hlt => String.ne_of_lt hlt)).2 hmem
  exact hperm.eq_of_pairwise (fun _ _ _ _ hlt hgt =>
    absurd (String.lt_trans hlt hgt) (String.lt_irrefl _)) hns hns'

/-- A page is read from the names that start with `start`, and from no others. -/
theorem AlikeFrom.page (h : AlikeFrom start t t') {after : Option String}
    (hreached : Reached start after) : t'.page start after = t.page start after := by
  have hsame : t'.starting start after = t.starting start after := by
    refine eq_of_sorted (t'.sorted_names.filter _) (t.sorted_names.filter _) fun n => ?_
    rw [starting, starting, List.mem_filter, List.mem_filter, mem_names_iff, mem_names_iff]
    refine and_congr_left fun hkept => ?_
    rw [h n (List.isPrefixOf_iff_prefix.1 (Bool.and_eq_true_iff.1 hkept).2)]
  rw [page_eq hreached, page_eq hreached, hsame]

/-- A name is there after a creation if it was there or the creation was allowed. -/
theorem isSome_create (t : Table) (sig : Signal) (name : String) (value : Bytes) (n : String) :
    (((Backend.database t).create sig name value).2.table.get? n).isSome =
      ((t.get? n).isSome ||
        (decide (n = name ∧ name ≠ "") && !sig.atStart && !sig.atCommit)) := by
  obtain ⟨atStart, atCommit⟩ := sig
  by_cases hname : name = ""
  · subst hname
    simp [Backend.create, requireKey, Backend.table]
  have hkey := requireKey_of_ne hname
  cases atStart with
  | true => simp [Backend.create, hkey, Backend.table]
  | false =>
      by_cases htaken : t.contains name = true
      · simp only [Backend.create, hkey, htaken, Bool.false_eq_true, if_false, if_true,
          Backend.table]
        by_cases hn : n = name
        · subst hn
          rw [contains] at htaken
          simp [htaken]
        · simp [hn]
      · cases atCommit with
        | true => simp [Backend.create, hkey, htaken, Backend.table]
        | false =>
            simp only [Backend.create, hkey, htaken, Bool.false_eq_true, if_false, Backend.table,
              get?_insert]
            by_cases hn : n = name <;> simp [hn, hname]

/-- A name is there after a removal if it was there and the removal was not allowed. -/
theorem isSome_delete (t : Table) (sig : Signal) (name n : String) :
    (((Backend.database t).delete sig name).2.table.get? n).isSome =
      ((t.get? n).isSome &&
        !(decide (n = name ∧ name ≠ "") && !sig.atStart && !sig.atCommit)) := by
  obtain ⟨atStart, atCommit⟩ := sig
  by_cases hname : name = ""
  · subst hname
    simp [Backend.delete, requireKey, Backend.table]
  have hkey := requireKey_of_ne hname
  cases atStart <;> cases atCommit <;>
    simp only [Backend.delete, hkey, Signal.whole, Bool.or_true, Bool.or_false,
      Bool.false_eq_true, if_true, if_false, Backend.table, get?_erase] <;>
    by_cases hn : n = name <;> simp [hn, hname]

end Table

/-- A turn over a database sees nothing of it but the page that it reads. -/
theorem Cursor.attempt_congr {c : Cursor} {pattern : String} {page : List String}
    {last : Option String} {exhausted : Bool}
    (hsource : c.source = .pages pattern page last exhausted)
    {t t' : Table} (hpage : t'.page (Glob.literalStart pattern) last =
      t.page (Glob.literalStart pattern) last) (sig : Signal) (fault : Option Error) :
    c.attempt ⟨sig, fault, t'⟩ = c.attempt ⟨sig, fault, t⟩ := by
  obtain ⟨source, failure, closed⟩ := c
  obtain rfl : source = .pages pattern page last exhausted := hsource
  cases page <;> cases exhausted <;> simp only [attempt, step, hpage]

namespace Survey

/-- A listing of a table that holds the same names in the range that is read takes the same
step. -/
theorem Sound.step_alike (h : Sound pattern met page last exhausted s) {t : Table}
    (ht : s.table.AlikeFrom (Glob.literalStart pattern) t) (e : Event) :
    ∃ t', ({ s with table := t } : Survey).step e = { s.step e with table := t' } ∧
      (s.step e).table.AlikeFrom (Glob.literalStart pattern) t' := by
  cases e with
  | turn sig fault =>
      have hattempt := Cursor.attempt_congr h.source (ht.page h.reached) sig fault
      simp only [Survey.step, hattempt]
      split <;> exact ⟨t, rfl, ht⟩
  | create sig name value =>
      refine ⟨_, rfl, fun n hn => ?_⟩
      simp only [Survey.step, Table.isSome_create, ht n hn]
  | delete sig name =>
      refine ⟨_, rfl, fun n hn => ?_⟩
      simp only [Survey.step, Table.isSome_delete, ht n hn]

/-- The same for all steps. -/
theorem Sound.after_alike (h : Sound pattern met page last exhausted s) {t : Table}
    (ht : s.table.AlikeFrom (Glob.literalStart pattern) t) (events : List Event) :
    ∃ t', ({ s with table := t } : Survey).after events = { s.after events with table := t' } := by
  induction events generalizing s t met page last exhausted with
  | nil => exact ⟨t, rfl⟩
  | cons e events ih =>
      obtain ⟨t₁, hstep, ht₁⟩ := h.step_alike ht e
      obtain ⟨_, _, _, h₁⟩ := h.step e
      obtain ⟨t₂, hafter⟩ := ih h₁ ht₁
      refine ⟨t₂, ?_⟩
      rw [Survey.after, List.foldl_cons, hstep]
      exact hafter

/-- Without writes the table stays as it is. -/
theorem tables_of_quiet {events : List Event} (hquiet : ∀ e ∈ events, e.writes = false)
    (s : Survey) : ∀ t ∈ s.tables events, t = s.table := by
  induction events generalizing s with
  | nil => simp [tables]
  | cons e events ih =>
      obtain ⟨he, hquiet⟩ := List.forall_mem_cons.1 hquiet
      have hsame : (s.step e).table = s.table := by
        cases e with
        | turn sig fault =>
            simp only [step]
            split <;> rfl
        | create | delete => cases he
      intro t ht
      rcases List.mem_cons.1 ht with rfl | ht
      · rfl
      · exact (ih hquiet (s.step e) t ht).trans hsame

/-- What a listing of a database gives while others write, page by page. -/
structure Faithful (pattern : String) (t : Table) (events : List Event) : Prop where
  /-- A listing starts as the store starts it. -/
  started : ∀ sig, (Backend.database t).list sig pattern =
    if sig.atStart then .error .canceled else .ok (start pattern t).cursor
  /-- The names come in the order of their octets, each once. -/
  increasing : ((start pattern t).after events).yielded.Pairwise
    fun m n => Bytes.ofText m < Bytes.ofText n
  matched : ∀ n ∈ ((start pattern t).after events).yielded, Glob.accepts pattern n = true
  /-- Every name was there at some time. -/
  stored : ∀ n ∈ ((start pattern t).after events).yielded,
    ∃ t' ∈ (start pattern t).tables events, n ∈ t'.names
  /-- Behind the end of a listing that did not fail, no name is missing that was always there. -/
  complete : ((start pattern t).after events).finished = true →
    ((start pattern t).after events).cursor.failure = none →
    ∀ n, Glob.accepts pattern n = true →
      (∀ t' ∈ (start pattern t).tables events, n ∈ t'.names) →
      n ∈ ((start pattern t).after events).yielded
  /-- While nobody writes, the names are those that match, in order. -/
  exact : (∀ e ∈ events, e.writes = false) → ((start pattern t).after events).finished = true →
    ((start pattern t).after events).cursor.failure = none →
    ((start pattern t).after events).yielded = t.names.filter (Glob.accepts pattern)
  /-- A listing that is read to its end comes to its end. -/
  drained : ∀ (w : World Unit) c, w.backend = .database t → w.ended c = false →
    w.list c pattern = (.ok (t.names.filter (Glob.accepts pattern)), w)
  /-- Only names that start with the literal start of the pattern are looked at. -/
  range : ∀ t', t.AlikeFrom (Glob.literalStart pattern) t' →
    ((start pattern t').after events).yielded = ((start pattern t).after events).yielded ∧
      ((start pattern t').after events).finished = ((start pattern t).after events).finished

/-- **Listings of a database are faithful**, whatever is written meanwhile. -/
theorem faithful (pattern : String) (t : Table) (events : List Event) :
    Faithful pattern t events := by
  obtain ⟨page, last, exhausted, h⟩ := exists_sound pattern t events
  have hincreasing := (List.pairwise_append.1 h.increasing).1
  have hcomplete (hfinished : ((start pattern t).after events).finished = true)
      (hgood : ((start pattern t).after events).cursor.failure = none) (n : String)
      (hmatched : Glob.accepts pattern n = true)
      (hkept : ∀ t' ∈ (start pattern t).tables events, n ∈ t'.names) :
      n ∈ ((start pattern t).after events).yielded := by
    obtain ⟨rfl, rfl⟩ := h.ended hfinished hgood
    rcases h.complete n hmatched hkept with hn | ⟨hmore, -⟩
    · rwa [List.append_nil] at hn
    · cases hmore
  exact {
    started := fun sig => by
      obtain ⟨atStart, atCommit⟩ := sig
      cases atStart <;> rfl
    increasing := hincreasing.imp fun hlt => Bytes.ofText_lt_iff.2 hlt
    matched := fun n hn => h.matched n (List.mem_append_left _ hn)
    stored := fun n hn => h.stored n (List.mem_append_left _ hn)
    complete := hcomplete
    exact := fun hquiet hfinished hgood => by
      have hsame := tables_of_quiet hquiet (start pattern t)
      refine Table.eq_of_sorted hincreasing (t.sorted_names.filter _) fun n => ?_
      rw [List.mem_filter]
      constructor
      · intro hn
        obtain ⟨t', ht', hmem⟩ := h.stored n (List.mem_append_left _ hn)
        obtain rfl : t' = t := hsame t' ht'
        exact ⟨hmem, h.matched n (List.mem_append_left _ hn)⟩
      · rintro ⟨hn, hmatched⟩
        exact hcomplete hfinished hgood n hmatched fun t' ht' => (hsame t' ht').symm ▸ hn
    drained := fun w c hstore hlive => by
      rw [World.list_calm, hlive, hstore]
      rfl
    range := fun t' ht' => by
      obtain ⟨t₁, hafter⟩ := (sound_start pattern t).after_alike ht' events
      have hstart : ({ start pattern t with table := t' } : Survey) = start pattern t' := rfl
      rw [← hstart, hafter]
      exact ⟨rfl, rfl⟩ }

end Survey

end KeyCustody
