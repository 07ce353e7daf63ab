import KeyCustody.Proofs.Calm
import Mathlib.Data.List.TakeWhile

/-!
# Listings

A listing is read name by name through a cursor, and the store may need several turns for a
name: it reads a page, or passes over a file.  `Cursor.Yields` says which names a cursor
yields over a table that does not change.  If nothing goes wrong, a listing that is read to
its end gives exactly the names that the pattern matches.

The database is the store that takes an argument.  It reads only names that start with the
literal start of the pattern, page by page.  As its names are in order, those names stand in
a row (`prefix_of_between`), so a page is the front of what is left of them, and the next
page goes on behind it (`Table.starting_behind`).  Main statements:

* `Glob.prefix_of_accepts`: what a pattern in a namespace matches lies in the namespace;
* `Cursor.yields_pages` and `Cursor.yields_files`: what cursors yield;
* `Backend.list_live`: what a listing starts with;
* `World.list_calm`: a listing in a calm world.
-/

namespace KeyCustody

/-! ### Literal starts -/

namespace Glob

/-- Plain characters in front of a pattern are elements of it. -/
theorem collapse_map_plain {plain : List Char} (hplain : ∀ c ∈ plain, c ≠ '*' ∧ c ≠ '?')
    (rest : List Char) :
    collapse ((plain ++ rest).map Token.ofChar) =
      plain.map Token.char ++ collapse (rest.map Token.ofChar) := by
  induction plain with
  | nil => rfl
  | cons c plain ih =>
      obtain ⟨hstar, hone⟩ := hplain c List.mem_cons_self
      have htoken : Token.ofChar c = .char c := by simp [Token.ofChar, hstar, hone]
      have hrest := ih fun d hd => hplain d (List.mem_cons_of_mem _ hd)
      rw [List.cons_append, List.map_cons, htoken, List.map_cons, List.cons_append, ← hrest]
      simp [collapse]

/-- Plain elements match only themselves. -/
theorem prefix_of_accepts_plain {plain cs : List Char} {ts : List Token}
    (h : Accepts (plain.map Token.char ++ ts) cs) : plain <+: cs := by
  induction plain generalizing cs with
  | nil => exact List.nil_prefix
  | cons c plain ih =>
      rw [List.map_cons, List.cons_append] at h
      cases h with
      | char h => exact List.cons_prefix_cons.2 ⟨rfl, ih h⟩

/-- Every name that a pattern matches starts with the plain characters in front of it. -/
theorem prefix_of_plain {pattern name : String} {plain rest : List Char}
    (hpattern : (orAll pattern).toList = plain ++ rest)
    (hplain : ∀ c ∈ plain, c ≠ '*' ∧ c ≠ '?') (h : accepts pattern name = true) :
    plain <+: name.toList := by
  have haccepts := accepts_iff.1 h
  rw [tokens, hpattern, collapse_map_plain hplain] at haccepts
  exact prefix_of_accepts_plain haccepts

/-- Every name that a pattern matches starts with its literal start. -/
theorem literalStart_prefix {pattern name : String} (h : accepts pattern name = true) :
    (literalStart pattern).toList <+: name.toList := by
  have hsplit := List.takeWhile_append_dropWhile
    (p := fun c => c != '*' && c != '?') (l := (orAll pattern).toList)
  rw [literalStart, String.toList_ofList]
  refine prefix_of_plain hsplit.symm (fun c hc => ?_) h
  have := List.mem_takeWhile_imp hc
  simpa using this

/-- A namespace holds plain characters only. -/
theorem plain_of_hasMeta {space : String} (hspace : hasMeta space = false) {c : Char}
    (hc : c ∈ space.toList) : c ≠ '*' ∧ c ≠ '?' := by
  have hplain : isMeta c = false := by
    simp only [hasMeta, List.any_eq_false] at hspace
    simpa using hspace c hc
  constructor <;> rintro rfl <;> simp [isMeta] at hplain

/-- **Patterns stay in their namespace.**  What a pattern behind a namespace matches starts
with the namespace. -/
theorem prefix_of_accepts {space pattern name : String} (hspace : hasMeta space = false)
    (h : accepts (space ++ pattern) name = true) : space.toList <+: name.toList := by
  by_cases hempty : (space ++ pattern).isEmpty = true
  · have hnil : space = "" := (String.append_eq_empty_iff.1 (by simpa using hempty)).1
    rw [hnil]
    exact List.nil_prefix
  · have hsplit : (orAll (space ++ pattern)).toList = space.toList ++ pattern.toList := by
      rw [orAll, if_neg hempty, String.toList_append]
    exact prefix_of_plain hsplit (fun c hc => plain_of_hasMeta hspace hc) h

/-- **A star behind a namespace** matches everything in the namespace. -/
theorem accepts_all {space : String} (hspace : hasMeta space = false) (name : String) :
    accepts (space ++ "*") (space ++ name) = true := by
  have hstar (cs : List Char) : Accepts [Token.star] cs := by
    induction cs with
    | nil => exact .star_skip .nil
    | cons c cs ih => exact .star_take ih
  have hplain (plain cs : List Char) :
      Accepts (plain.map Token.char ++ [Token.star]) (plain ++ cs) := by
    induction plain with
    | nil => exact hstar cs
    | cons c plain ih => exact .char ih
  have hsplit : (orAll (space ++ "*")).toList = space.toList ++ ['*'] := by
    have hnonempty : ¬ (space ++ "*").isEmpty = true := by simp
    rw [orAll, if_neg hnonempty, String.toList_append]
    rfl
  have htokens : tokens (space ++ "*") = space.toList.map Token.char ++ [Token.star] := by
    rw [tokens, hsplit, collapse_map_plain fun c hc => plain_of_hasMeta hspace hc]
    rfl
  rw [accepts_iff, htokens, String.toList_append]
  exact hplain _ _

end Glob

/-! ### Names in order -/

/-- A text comes before everything that it starts. -/
theorem le_of_start {s a : List Char} (h : s <+: a) : s.le a := by
  obtain ⟨t, rfl⟩ := h
  induction s with
  | nil => exact List.nil_le t
  | cons c s ih => exact List.cons_le_cons_iff.2 (.inr ⟨rfl, ih⟩)

/-- Names with a common start stand in a row. -/
theorem prefix_of_between {s a b : List Char} (hsa : s.le a) (hab : a.lt b) (hsb : s <+: b) :
    s <+: a := by
  induction s generalizing a b with
  | nil => exact List.nil_prefix
  | cons c s ih =>
      cases a with
      | nil => exact absurd (List.nil_lt_cons c s) (List.not_lt.2 hsa)
      | cons d a =>
          obtain ⟨t, rfl⟩ := hsb
          rw [List.cons_append] at hab
          rcases List.cons_lt_cons_iff.1 hab with hlt | ⟨rfl, hlt⟩
          · rcases List.cons_le_cons_iff.1 hsa with hgt | ⟨rfl, -⟩
            · exact absurd hlt (Char.lt_asymm hgt)
            · exact absurd hlt (Char.lt_irrefl _)
          · rcases List.cons_le_cons_iff.1 hsa with hgt | ⟨-, hle⟩
            · exact absurd hgt (Char.lt_irrefl _)
            · exact List.cons_prefix_cons.2 ⟨rfl, ih hle hlt ⟨t, rfl⟩⟩

namespace Table

/-- The name comes behind `after`, or from `start` on if there is none. -/
def isBehind (start : String) (after : Option String) (name : String) : Bool :=
  match after with
  | some last => decide (last < name)
  | none => decide (start ≤ name)

/-- The names behind `after` that start with `start`. -/
def starting (t : Table) (start : String) (after : Option String) : List String :=
  t.names.filter fun n => isBehind start after n && start.toList.isPrefixOf n.toList

/-- The last name read does not come before the start. -/
def Reached (start : String) (after : Option String) : Prop :=
  ∀ last, after = some last → start ≤ last

/-- In a row of names from the start on, those that start with it come first. -/
theorem takeWhile_start {start : String} {names : List String}
    (hsorted : names.Pairwise (· < ·)) (hfrom : ∀ n ∈ names, start ≤ n) :
    names.takeWhile (fun n => start.toList.isPrefixOf n.toList) =
      names.filter fun n => start.toList.isPrefixOf n.toList := by
  induction names with
  | nil => rfl
  | cons a names ih =>
      obtain ⟨hbehind, hsorted⟩ := List.pairwise_cons.1 hsorted
      rw [List.takeWhile_cons, List.filter_cons]
      by_cases ha : start.toList.isPrefixOf a.toList = true
      · rw [if_pos ha, if_pos ha, ih hsorted fun n hn => hfrom n (List.mem_cons_of_mem _ hn)]
      · rw [if_neg ha, if_neg ha, eq_comm, List.filter_eq_nil_iff]
        intro b hb hstart
        have hsa : start ≤ a := hfrom a List.mem_cons_self
        exact ha (List.isPrefixOf_iff_prefix.2
          (prefix_of_between hsa (hbehind b hb) (List.isPrefixOf_iff_prefix.1 hstart)))

/-- **A page** is the front of the names to come, and it is the last if it is not full. -/
theorem page_eq {t : Table} {start : String} {after : Option String}
    (hreached : Reached start after) :
    t.page start after =
      ((t.starting start after).take pageSize,
        decide ((t.starting start after).length < pageSize)) := by
  have hfrom : ∀ n ∈ t.names.filter (isBehind start after), start ≤ n := by
    intro n hn
    have hbehind := (List.mem_filter.1 hn).2
    cases after with
    | none => exact of_decide_eq_true hbehind
    | some last =>
        have hlast : last < n := of_decide_eq_true hbehind
        exact String.le_trans (hreached last rfl) (Std.le_of_lt hlast)
  have hfound : (t.names.filter (isBehind start after)).takeWhile
      (fun n => start.toList.isPrefixOf n.toList) = t.starting start after := by
    rw [takeWhile_start (t.sorted_names.filter _) hfrom, List.filter_filter]
    exact List.filter_congr fun n _ => Bool.and_comm _ _
  have hpage : t.page start after =
      if (t.starting start after).length < pageSize then (t.starting start after, true)
      else ((t.starting start after).take pageSize, false) := by
    rw [← hfound]
    cases after <;> rfl
  rw [hpage]
  by_cases hshort : (t.starting start after).length < pageSize
  · rw [if_pos hshort, decide_eq_true hshort, List.take_of_length_le (Nat.le_of_lt hshort)]
  · rw [if_neg hshort, decide_eq_false hshort]

/-- **Behind a page** stand the other names to come. -/
theorem starting_behind {t : Table} {start last : String} {after : Option String}
    {front rest : List String} (hreached : Reached start after)
    (hsplit : t.starting start after = front ++ rest) (hlast : front.getLast? = some last) :
    t.starting start (some last) = rest ∧ start ≤ last := by
  have hmem : last ∈ t.starting start after := by
    rw [hsplit]
    exact List.mem_append_left _ (List.mem_of_getLast? hlast)
  have hkept := (List.mem_filter.1 hmem).2
  have hstart : start ≤ last :=
    le_of_start (List.isPrefixOf_iff_prefix.1 (Bool.and_eq_true_iff.1 hkept).2)
  have hsorted : (front ++ rest).Pairwise (· < ·) := hsplit ▸ t.sorted_names.filter _
  obtain ⟨hfront, -, hacross⟩ := List.pairwise_append.1 hsorted
  have hrow : t.starting start (some last) = (front ++ rest).filter fun n => last < n := by
    rw [← hsplit, starting, starting, List.filter_filter]
    refine List.filter_congr fun n _ => ?_
    by_cases hn : last < n
    · have hbehind : isBehind start after n = true := by
        cases after with
        | none => exact decide_eq_true (String.le_trans hstart (Std.le_of_lt hn))
        | some earlier =>
            have hearlier : earlier < last :=
              of_decide_eq_true (Bool.and_eq_true_iff.1 hkept).1
            exact decide_eq_true (String.lt_trans hearlier hn)
      have hnext : isBehind start (some last) n = true := decide_eq_true hn
      simp [hnext, hbehind, hn]
    · have hnext : isBehind start (some last) n = false := decide_eq_false hn
      simp [hnext, hn]
  refine ⟨?_, hstart⟩
  have hnone : front.filter (fun n => last < n) = [] := by
    obtain ⟨init, rfl⟩ : ∃ init, front = init ++ [last] := by
      obtain ⟨init, hinit⟩ := List.getLast?_eq_some_iff.1 hlast
      exact ⟨init, hinit⟩
    rw [List.filter_eq_nil_iff]
    intro n hn hlt
    have hlt : last < n := of_decide_eq_true hlt
    rcases List.mem_append.1 hn with hn | hn
    · have := (List.pairwise_append.1 hfront).2.2 n hn last List.mem_cons_self
      exact String.lt_irrefl _ (String.lt_trans hlt this)
    · rw [List.mem_singleton.1 hn] at hlt
      exact String.lt_irrefl _ hlt
  have hall : rest.filter (fun n => last < n) = rest := by
    refine List.filter_eq_self.2 fun n hn => ?_
    exact decide_eq_true (hacross last (List.mem_of_getLast? hlast) n hn)
  rw [hrow, List.filter_append, hnone, hall, List.nil_append]

end Table

/-! ### Cursors -/

namespace Cursor

/-- A call under a context that lives. -/
abbrev live : Signal := ⟨false, false⟩

/-- The cursor did not fail and was not closed. -/
def Open (c : Cursor) : Prop :=
  c.failure = none ∧ c.closed = false

/-- A cursor that is read to its end over the table yields the names. -/
inductive Yields (t : Table) : Cursor → List String → Prop
  | stop {c c' : Cursor} (opened : c.Open) (next : c.next live t = (none, c'))
      (still : c'.Open) : Yields t c []
  | yield {c c' : Cursor} {name : String} {names : List String} (opened : c.Open)
      (next : c.next live t = (some name, c')) (rest : Yields t c' names) :
      Yields t c (name :: names)

theorem Yields.opened {t : Table} {c : Cursor} {names : List String} (h : Yields t c names) :
    c.Open := by
  cases h with
  | stop hopen => exact hopen
  | yield hopen => exact hopen

/-- A turn that yields ends the search for a name. -/
theorem seek_of_yield {c c' : Cursor} {t : Table} {name : String}
    (h : c.step live t = (.yield name, c')) (fuel : Nat) :
    seek live t fuel c = (some name, c') := by
  rw [seek.eq_def]
  simp only [h]

theorem seek_of_stop {c c' : Cursor} {t : Table} (h : c.step live t = (.stop, c'))
    (fuel : Nat) : seek live t fuel c = (none, c') := by
  rw [seek.eq_def]
  simp only [h]

theorem seek_of_again {c c' : Cursor} {t : Table} (h : c.step live t = (.again, c'))
    (fuel : Nat) : seek live t (fuel + 1) c = seek live t fuel c' := by
  rw [seek.eq_def]
  simp only [h]

/-- A cursor over names that were found before yields them. -/
theorem yields_names (t : Table) (names : List String) :
    Yields t ⟨.names names, none, false⟩ names := by
  induction names with
  | nil =>
      have hstep : (⟨.names [], none, false⟩ : Cursor).step live t =
          (.stop, ⟨.names [], none, false⟩) := rfl
      exact .stop ⟨rfl, rfl⟩ (seek_of_stop hstep _) ⟨rfl, rfl⟩
  | cons name names ih =>
      have hstep : (⟨.names (name :: names), none, false⟩ : Cursor).step live t =
          (.yield name, ⟨.names names, none, false⟩) := rfl
      exact .yield ⟨rfl, rfl⟩ (seek_of_yield hstep _) ih

/-! ### Directories -/

/-- The stored names of files that a pattern matches. -/
def shown (pattern : String) (files : List Bytes) : List String :=
  (files.filterMap FileName.decode?).filter (Glob.accepts pattern)

/-- A search goes on to the first file that is shown. -/
theorem seek_files (t : Table) (pattern : String) (files : List Bytes) {fuel : Nat}
    (hfuel : files.length ≤ fuel) :
    (shown pattern files = [] ∧ ∃ c', c'.Open ∧
        seek live t fuel ⟨.files pattern (some files), none, false⟩ = (none, c')) ∨
      ∃ name rest, shown pattern files = name :: shown pattern rest ∧
        seek live t fuel ⟨.files pattern (some files), none, false⟩ =
          (some name, ⟨.files pattern (some rest), none, false⟩) := by
  induction files generalizing fuel with
  | nil =>
      have hstep : (⟨.files pattern (some []), none, false⟩ : Cursor).step live t =
          (.stop, ⟨.files pattern none, none, false⟩) := rfl
      exact .inl ⟨rfl, _, ⟨rfl, rfl⟩, seek_of_stop hstep fuel⟩
  | cons file files ih =>
      obtain ⟨fuel, rfl⟩ : ∃ n, fuel = n + 1 :=
        ⟨fuel - 1, by rw [List.length_cons] at hfuel; omega⟩
      have hskip (hhidden : ∀ name, FileName.decode? file = some name →
          Glob.accepts pattern name = false) :
          shown pattern (file :: files) = shown pattern files ∧
            (⟨.files pattern (some (file :: files)), none, false⟩ : Cursor).step live t =
              (.again, ⟨.files pattern (some files), none, false⟩) := by
        cases hname : FileName.decode? file with
        | none => simp [shown, step, isDone, hname]
        | some name => simp [shown, step, isDone, hname, hhidden name hname]
      cases hname : FileName.decode? file with
      | none =>
          obtain ⟨hsame, hstep⟩ := hskip (by simp [hname])
          rw [hsame, seek_of_again hstep]
          exact ih (by rw [List.length_cons] at hfuel; omega)
      | some name =>
          by_cases haccepts : Glob.accepts pattern name = true
          · refine .inr ⟨name, files, by simp [shown, hname, haccepts], ?_⟩
            refine seek_of_yield ?_ _
            simp [step, isDone, hname, haccepts]
          · obtain ⟨hsame, hstep⟩ := hskip (by simp [hname, haccepts])
            rw [hsame, seek_of_again hstep]
            exact ih (by rw [List.length_cons] at hfuel; omega)

/-- **A cursor over a directory** yields the stored names that the pattern matches. -/
theorem yields_files (t : Table) (pattern : String) (files : List Bytes) :
    Yields t ⟨.files pattern (some files), none, false⟩ (shown pattern files) := by
  generalize hnames : shown pattern files = names
  induction names generalizing files with
  | nil =>
      rcases seek_files t pattern files (Nat.le_refl _) with ⟨-, c', hopen, hseek⟩ | hfound
      · exact .stop ⟨rfl, rfl⟩ hseek hopen
      · obtain ⟨name, rest, hshown, -⟩ := hfound
        rw [hnames] at hshown
        cases hshown
  | cons name names ih =>
      rcases seek_files t pattern files (Nat.le_refl _) with ⟨hnone, -⟩ | hfound
      · rw [hnames] at hnone
        cases hnone
      · obtain ⟨name', rest, hshown, hseek⟩ := hfound
        rw [hnames] at hshown
        obtain ⟨rfl, rfl⟩ := List.cons.inj hshown
        exact .yield ⟨rfl, rfl⟩ hseek (ih rest rfl)

/-! ### Databases -/

/-- A cursor over a database that did not fail. -/
def paged (pattern : String) (page : List String) (last : Option String) (exhausted : Bool) :
    Cursor :=
  ⟨.pages pattern page last exhausted, none, false⟩

/-- The names that a cursor over a database has still to yield: the page at hand, and what
the pattern matches of the names behind it. -/
def toCome (t : Table) (pattern : String) (page : List String) (last : Option String)
    (exhausted : Bool) : List String :=
  page ++ if exhausted then [] else
    (t.starting (Glob.literalStart pattern) last).filter (Glob.accepts pattern)

/-- **A turn that reads a page** loses none of the names to come.  If the page holds none of
them and is not the last, fewer names are left to read. -/
theorem step_page {t : Table} {pattern : String} {last : Option String}
    (hreached : Table.Reached (Glob.literalStart pattern) last) :
    ∃ page last' exhausted,
      (paged pattern [] last false).step live t = (.again, paged pattern page last' exhausted) ∧
      Table.Reached (Glob.literalStart pattern) last' ∧
      toCome t pattern page last' exhausted = toCome t pattern [] last false ∧
      (exhausted = false → (t.starting (Glob.literalStart pattern) last').length <
        (t.starting (Glob.literalStart pattern) last).length) := by
  have hsplit := List.take_append_drop pageSize (t.starting (Glob.literalStart pattern) last)
  have hpage := Table.page_eq hreached (t := t)
  generalize hfront : (t.starting (Glob.literalStart pattern) last).take pageSize = front
    at hsplit hpage
  generalize hrest : (t.starting (Glob.literalStart pattern) last).drop pageSize = rest
    at hsplit
  have hstep : (paged pattern [] last false).step live t =
      (.again, paged pattern (front.filter (Glob.accepts pattern)) (front.getLast?.or last)
        (decide ((t.starting (Glob.literalStart pattern) last).length < pageSize))) := by
    simp [paged, step, isDone, hpage]
  refine ⟨_, _, _, hstep, ?_⟩
  by_cases hshort : (t.starting (Glob.literalStart pattern) last).length < pageSize
  · -- the last page holds all names to come
    have hall : front = t.starting (Glob.literalStart pattern) last := by
      rw [← hfront, List.take_of_length_le (Nat.le_of_lt hshort)]
    rw [decide_eq_true hshort]
    refine ⟨?_, by simp [toCome, hall], fun h => by cases h⟩
    intro x hx
    cases hlast : front.getLast? with
    | none =>
        rw [hlast, Option.none_or] at hx
        exact hreached x hx
    | some y =>
        rw [hlast, Option.some_or] at hx
        cases hx
        exact (Table.starting_behind hreached hsplit.symm hlast).2
  · -- a full page has a last name, and the names to come go on behind it
    rw [decide_eq_false hshort]
    have hlong : front.length = pageSize := by
      rw [← hfront, List.length_take]
      omega
    obtain ⟨y, hlast⟩ : ∃ y, front.getLast? = some y := by
      cases hlast : front.getLast? with
      | some y => exact ⟨y, rfl⟩
      | none =>
          rw [List.getLast?_eq_none_iff.1 hlast] at hlong
          cases hlong
    obtain ⟨hbehind, hstart⟩ := Table.starting_behind hreached hsplit.symm hlast
    rw [hlast, Option.some_or, hbehind]
    refine ⟨?_, ?_, fun _ => ?_⟩
    · intro x hx
      cases hx
      exact hstart
    · simp only [toCome, hbehind, Bool.false_eq_true, if_false, List.nil_append]
      rw [← List.filter_append, hsplit]
    · rw [← hsplit, List.length_append, hlong]
      have : 0 < pageSize := by decide
      omega

/-- A search goes on, page by page, to the next name. -/
theorem seek_pages {t : Table} {pattern : String} (fuel : Nat) {page : List String}
    {last : Option String} {exhausted : Bool}
    (hreached : Table.Reached (Glob.literalStart pattern) last)
    (hfuel : page = [] → exhausted = false →
      (t.starting (Glob.literalStart pattern) last).length < fuel) :
    (toCome t pattern page last exhausted = [] ∧ ∃ c', c'.Open ∧
        seek live t fuel (paged pattern page last exhausted) = (none, c')) ∨
      ∃ name page' last' exhausted', Table.Reached (Glob.literalStart pattern) last' ∧
        toCome t pattern page last exhausted =
          name :: toCome t pattern page' last' exhausted' ∧
        seek live t fuel (paged pattern page last exhausted) =
          (some name, paged pattern page' last' exhausted') := by
  induction fuel using Nat.strong_induction_on generalizing page last exhausted with
  | _ fuel ih =>
      cases page with
      | cons name page =>
          have hstep : (paged pattern (name :: page) last exhausted).step live t =
              (.yield name, paged pattern page last exhausted) := rfl
          exact .inr ⟨name, page, last, exhausted, hreached, rfl, seek_of_yield hstep fuel⟩
      | nil =>
          cases exhausted with
          | true =>
              have hstep : (paged pattern [] last true).step live t =
                  (.stop, paged pattern [] last true) := rfl
              exact .inl ⟨rfl, _, ⟨rfl, rfl⟩, seek_of_stop hstep fuel⟩
          | false =>
              have hleft := hfuel rfl rfl
              obtain ⟨n, rfl⟩ : ∃ n, fuel = n + 1 := ⟨fuel - 1, by omega⟩
              obtain ⟨page, last', exhausted, hstep, hreached', hsame, hfewer⟩ :=
                step_page hreached (t := t)
              rw [← hsame, seek_of_again hstep]
              refine ih n (Nat.lt_succ_self n) hreached' fun _ hmore => ?_
              have := hfewer hmore
              omega

/-- A search may read as many pages as there can be. -/
theorem length_starting_lt_turns (t : Table) (pattern start : String) (page : List String)
    (after last : Option String) (exhausted : Bool) :
    (t.starting start after).length < (paged pattern page last exhausted).turns t := by
  have hle : (t.starting start after).length ≤ t.names.length := List.length_filter_le _ _
  rw [Table.names, List.length_map] at hle
  exact Nat.lt_succ_of_le hle

/-- **A cursor over a database** yields the names that the pattern matches, in order. -/
theorem yields_pages {t : Table} {pattern : String} (names : List String)
    {page : List String} {last : Option String} {exhausted : Bool}
    (hreached : Table.Reached (Glob.literalStart pattern) last)
    (hnames : toCome t pattern page last exhausted = names) :
    Yields t (paged pattern page last exhausted) names := by
  induction names generalizing page last exhausted with
  | nil =>
      rcases seek_pages _ hreached fun _ _ => length_starting_lt_turns t pattern _ page last last
        exhausted with ⟨-, c', hopen, hseek⟩ | hfound
      · exact .stop ⟨rfl, rfl⟩ hseek hopen
      · obtain ⟨name, page', last', exhausted', -, hcome, -⟩ := hfound
        rw [hnames] at hcome
        cases hcome
  | cons name names ih =>
      rcases seek_pages _ hreached fun _ _ => length_starting_lt_turns t pattern _ page last last
        exhausted with ⟨hnone, -⟩ | hfound
      · rw [hnames] at hnone
        cases hnone
      · obtain ⟨name', page', last', exhausted', hreached', hcome, hseek⟩ := hfound
        rw [hnames] at hcome
        obtain ⟨rfl, rfl⟩ := List.cons.inj hcome
        exact .yield ⟨rfl, rfl⟩ hseek (ih hreached' rfl)

/-- A database that is listed from its start yields all names that the pattern matches. -/
theorem toCome_start (t : Table) (pattern : String) :
    toCome t pattern [] none false = t.names.filter (Glob.accepts pattern) := by
  rw [toCome, List.nil_append, if_neg Bool.false_ne_true, Table.starting, List.filter_filter]
  refine List.filter_congr fun n _ => ?_
  by_cases haccepts : Glob.accepts pattern n = true
  · have hprefix := Glob.literalStart_prefix haccepts
    have hstart : Table.isBehind (Glob.literalStart pattern) none n = true :=
      decide_eq_true (le_of_start hprefix)
    simp [haccepts, hstart, hprefix]
  · simp [haccepts]

end Cursor

/-! ### Listings in calm worlds -/

/-- The names that a pattern matches, in the order in which the store lists them. -/
def Backend.listed (b : Backend) (pattern : String) : Except Error (List String) :=
  match b with
  | .memory t | .database t => .ok (t.names.filter (Glob.accepts pattern))
  | .files d =>
    (d.fileNames.mapError (·.toError d.path)).map fun files => Cursor.shown pattern files

/-- What is held is listed by every pattern that matches its name. -/
theorem Backend.exists_listed {b : Backend} {pattern name : String} {value : Bytes}
    (hmatch : Glob.accepts pattern name = true) (hheld : b.stored? name = some value) :
    ∃ names, b.listed pattern = .ok names ∧ name ∈ names := by
  have htable {t : Table} (ht : t.get? name = some value) :
      name ∈ t.names.filter (Glob.accepts pattern) :=
    List.mem_filter.2 ⟨Table.mem_names_iff.2 (by rw [ht]; rfl), hmatch⟩
  cases b with
  | memory t => exact ⟨_, rfl, htable hheld⟩
  | database t => exact ⟨_, rfl, htable hheld⟩
  | files d =>
      have hfind := DataDir.find_of_content? hheld
      obtain ⟨path, es, rfl⟩ := DataDir.exists_folder_of_find hfind
      rw [DataDir.find_folder] at hfind
      split at hfind
      · cases hfind
      · have hlookup : (es.lookup (FileName.encode name)).isSome = true := by
          rw [Except.ok.inj hfind]
          rfl
        obtain ⟨entry, hentry, hkey⟩ := List.lookup_isSome_iff.1 hlookup
        have hfile : FileName.encode name ∈ es.map Prod.fst :=
          List.mem_map.2 ⟨entry, hentry, (eq_of_beq hkey).symm⟩
        refine ⟨Cursor.shown pattern (es.map Prod.fst), rfl, List.mem_filter.2 ⟨?_, hmatch⟩⟩
        exact List.mem_filterMap.2 ⟨_, hfile, FileName.decode?_encode name⟩

/-- **The start of a listing** under a context that lives: it fails, or the cursor yields the
names that the pattern matches. -/
theorem Backend.list_live (b : Backend) (pattern : String) :
    (∃ e, b.list (.steady false) pattern = .error e ∧ b.listed pattern = .error e) ∨
      ∃ cursor names, b.list (.steady false) pattern = .ok cursor ∧
        b.listed pattern = .ok names ∧ Cursor.Yields b.table cursor names ∧
          names.length ≤ cursor.bound b.table := by
  cases b with
  | memory t => exact .inr ⟨_, _, rfl, rfl, Cursor.yields_names _ _, Nat.le_refl _⟩
  | database t =>
      have hyields : Cursor.Yields t (Cursor.paged pattern [] none false)
          (t.names.filter (Glob.accepts pattern)) :=
        Cursor.yields_pages _ (fun _ h => by cases h) (Cursor.toCome_start t pattern)
      refine .inr ⟨Cursor.paged pattern [] none false, _, rfl, rfl, hyields, ?_⟩
      have hle := List.length_filter_le (Glob.accepts pattern) t.names
      have hlength : t.names.length = t.entries.length := by simp [Table.names]
      simp only [Cursor.bound, Cursor.paged, List.length_nil, Backend.table]
      omega
  | files d =>
      cases hfiles : d.fileNames with
      | error e =>
          refine .inl ⟨e.toError d.path, ?_, ?_⟩
          · simp [Backend.list, DataDir.scan, Signal.whole, Signal.steady, hfiles, bind,
              Except.bind, Except.mapError]
          · simp [Backend.listed, hfiles, Except.mapError, Except.map]
      | ok files =>
          have hyields := Cursor.yields_files (Backend.files d).table pattern files
          refine .inr ⟨_, Cursor.shown pattern files, ?_, ?_, hyields, ?_⟩
          · simp [Backend.list, DataDir.scan, Signal.whole, Signal.steady, hfiles, bind,
              Except.bind, Except.mapError, Cursor.ofSource, pure, Except.pure]
          · simp [Backend.listed, hfiles, Except.mapError, Except.map]
          · exact (List.length_filter_le _ _).trans (List.length_filterMap_le _ _)

/-- A listing starts as under a context that lives, or it is canceled. -/
theorem Backend.list_cases (b : Backend) (sig : Signal) (pattern : String) :
    b.list sig pattern = .error .canceled ∨
      b.list sig pattern = b.list (.steady false) pattern := by
  cases b with
  | database t =>
      cases hstart : sig.atStart with
      | true => exact .inl (by simp [Backend.list, hstart, bind, Except.bind])
      | false => exact .inr (by simp [Backend.list, hstart, Signal.steady])
  | memory t =>
      rcases sig.whole_cases with hsig | hsig
      · exact .inr (by simp only [Backend.list, hsig]; rfl)
      · exact .inl (by simp only [Backend.list, hsig]; rfl)
  | files d =>
      rcases sig.whole_cases with hsig | hsig
      · exact .inr (by simp only [Backend.list, DataDir.scan, hsig]; rfl)
      · exact .inl (by simp only [Backend.list, DataDir.scan, hsig]; rfl)

/-- A cursor that nothing happened to is closed without an error. -/
theorem Cursor.close_of_open {cursor : Cursor} (hopen : cursor.Open) :
    cursor.close.1 = .ok () := by
  simp [close, hopen.1, hopen.2]

namespace World

variable {w : World Unit} {c : Context}

/-- Reading all names from a cursor gives the names that it yields. -/
theorem readAll_calm (hlive : w.ended c = false) {cursor : Cursor} {rest : List String}
    (hyields : Cursor.Yields w.backend.table cursor rest) {fuel : Nat}
    (hfuel : rest.length ≤ fuel) (names : List String) :
    readAll c fuel names cursor w = (.ok (names.reverse ++ rest), w) := by
  have hnext {cursor : Cursor} (hopen : cursor.Open) :
      w.nextName c cursor =
        ((cursor.next Cursor.live w.backend.table).1,
          (cursor.next Cursor.live w.backend.table).2, w) := by
    have hdone : cursor.isDone = false := by simp [Cursor.isDone, hopen.1, hopen.2]
    simp [nextName, hdone, hlive, meet_calm, Signal.steady]
  induction hyields generalizing fuel names with
  | stop hopen hstop hstill =>
      cases fuel with
      | zero => rw [readAll, Cursor.close_of_open hopen, List.append_nil]; rfl
      | succ fuel =>
          rw [readAll, hnext hopen, hstop]
          simp only
          rw [Cursor.close_of_open hstill, List.append_nil]
          rfl
  | @yield cursor c' name rest hopen hyield _ ih =>
      obtain ⟨fuel, rfl⟩ : ∃ n, fuel = n + 1 :=
        ⟨fuel - 1, by rw [List.length_cons] at hfuel; omega⟩
      rw [readAll, hnext hopen, hyield]
      simp only
      rw [ih (by rw [List.length_cons] at hfuel; omega), List.reverse_cons, List.append_assoc]
      rfl

/-- **Listings in calm worlds.**  A listing gives the names that the pattern matches, or fails
because its context has ended. -/
theorem list_calm (w : World Unit) (c : Context) (pattern : String) :
    w.list c pattern =
      (if w.ended c then .error .canceled else w.backend.listed pattern, w) := by
  have hstart : w.startListing c pattern =
      (w.backend.list (.steady (w.ended c)) pattern, w) := rfl
  cases hlive : w.ended c with
  | true =>
      have hended : w.backend.list (.steady true) pattern = .error .canceled := by
        cases w.backend <;> rfl
      rw [hlive, hended] at hstart
      rw [list, hstart]
      rfl
  | false =>
      rw [hlive] at hstart
      rw [if_neg Bool.false_ne_true]
      rcases w.backend.list_live pattern with ⟨e, hfails, hlisted⟩ |
        ⟨cursor, names, hcursor, hlisted, hyields, hbound⟩
      · rw [list, hstart, hfails, hlisted]
      · have hread := readAll_calm hlive hyields (Nat.le_succ_of_le hbound) []
        rw [list, hstart, hcursor, hlisted]
        exact hread

end World

end KeyCustody
