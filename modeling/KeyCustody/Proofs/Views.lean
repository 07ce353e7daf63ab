import KeyCustody.Proofs.Coverage
import KeyCustody.Proofs.Maps

/-!
# Views of maps

The names of a store that properly extend a namespace make up a part of it (`Table.under`).  A
view of a store that behaves as a map is in every way a plain store of that part: calls are
answered as by the part, errors name what the caller named, and nothing else changes.

Listings are the case that takes an argument.  A view asks the store inside for a pattern with
the namespace written in front.  As the namespace has no pattern characters, this matches behind
the namespace just what the pattern matches (`Glob.accepts_behind_iff`).  Main statements:

* `View.call_under`: a call on a view is a call on the store inside;
* `Table.perform_under`: a call inside is a call on the part;
* `Host.call_under_under`: a view inside a view is one view;
* `Host.exactView`: views are exact.
-/

namespace KeyCustody

/-! ### Calls through a view -/

namespace StoreCall

/-- The call that a view makes of the store inside. -/
def inside (space : String) : StoreCall → StoreCall
  | .create name value => .create (space ++ name) value
  | .get name => .get (space ++ name)
  | .delete name => .delete (space ++ name)
  | .list pattern => .list (space ++ Glob.orAll pattern)
  | .status => .status

/-- What names something names something inside. -/
theorem name?_inside_ne {k : StoreCall} (hk : k.name? ≠ some "") (space : String) :
    (k.inside space).name? ≠ some "" := by
  cases k with
  | create name _ | get name | delete name =>
      have hname : name ≠ "" := fun hempty => hk (congrArg some hempty)
      exact fun hempty => extend_ne hname (Option.some.inj hempty)
  | list _ | status => exact nofun

/-- An error of the store inside as the view tells it. -/
def tell : StoreCall → Error → Error
  | .create name _ => View.renameTaken name
  | .get name => View.renameMissing name
  | .delete _ | .list _ | .status => id

/-- The part of a reply that the view shows. -/
def shown (space : String) (k : StoreCall) (r : Except Error StoreReply) :
    Except Error StoreReply :=
  match r with
  | .error e => .error (k.tell e)
  | .ok (.names found) => .ok (.names (found.filterMap (strip space)))
  | .ok r => .ok r

end StoreCall

/-- A routine whose value is looked at without asking. -/
theorem Routine.attempt_map {α β : Type} (a : Routine α) (f : α → β) :
    (do let x ← a; pure (f x)).attempt = a.attempt >>= fun r => .done (r.map f) := by
  refine congrArg (Program.bind a.attempt) (funext fun r => ?_)
  cases r <;> rfl

/-- A routine whose errors are told differently. -/
theorem Routine.attempt_mapError {α : Type} (f : Error → Error) (a : Routine α) :
    (a.mapError f).attempt = a.attempt >>= fun r => .done (r.mapError f) := rfl

/-- **A call on a view** is a call on the store inside, unless it names nothing. -/
theorem View.call_under (space : String) (v : View) (k : StoreCall) :
    ((View.under space v).call k).attempt =
      if k.name? = some "" then .done (.error (.invalid .emptyKey))
      else (v.call (k.inside space)).attempt >>= fun r => .done (k.shown space r) := by
  cases k with
  | create name value =>
      rcases Backend.name_cases name with ⟨rfl, hkey⟩ | ⟨hname, hkey⟩
      · rfl
      have hview : (View.under space v).create name value =
          (v.create (space ++ name) value).mapError (renameTaken name) := by
        rw [View.create, hkey]
        rfl
      refine Eq.trans ?_ (if_neg fun hempty => hname (Option.some.inj hempty)).symm
      simp only [View.call, hview, StoreCall.inside, Routine.attempt_map,
        Routine.attempt_mapError, bind_assoc]
      refine congrArg (Program.bind (v.create (space ++ name) value).attempt) (funext fun r => ?_)
      cases r <;> rfl
  | get name =>
      rcases Backend.name_cases name with ⟨rfl, hkey⟩ | ⟨hname, -⟩
      · rfl
      refine Eq.trans ?_ (if_neg fun hempty => hname (Option.some.inj hempty)).symm
      simp only [View.call, View.get_under hname, StoreCall.inside, Routine.attempt_map,
        Routine.attempt_mapError, bind_assoc]
      refine congrArg (Program.bind (v.get (space ++ name)).attempt) (funext fun r => ?_)
      cases r <;> rfl
  | delete name =>
      rcases Backend.name_cases name with ⟨rfl, hkey⟩ | ⟨hname, hkey⟩
      · rfl
      have hview : (View.under space v).delete name = v.delete (space ++ name) := by
        rw [View.delete, hkey]
        rfl
      refine Eq.trans ?_ (if_neg fun hempty => hname (Option.some.inj hempty)).symm
      simp only [View.call, hview, StoreCall.inside, Routine.attempt_map, bind_assoc]
      refine congrArg (Program.bind (v.delete (space ++ name)).attempt) (funext fun r => ?_)
      cases r <;> rfl
  | list pattern =>
      rw [if_neg (by simp [StoreCall.name?])]
      simp only [View.call, View.list, StoreCall.inside, Routine.attempt_map, bind_assoc]
      refine congrArg (Program.bind (v.list (space ++ Glob.orAll pattern)).attempt)
        (funext fun r => ?_)
      cases r <;> rfl
  | status =>
      rw [if_neg (by simp [StoreCall.name?])]
      simp only [View.call, StoreCall.inside, Routine.attempt_map, bind_assoc]
      refine congrArg (Program.bind (v.status).attempt) (funext fun r => ?_)
      cases r <;> rfl

/-- Running a program and going on with its value, whatever answers. -/
theorem Program.runOn_bind {α β S : Type} (answer : (r : Request) → S → r.Answer × S)
    (p : Program α) (f : α → Program β) (s : S) :
    (p >>= f).runOn answer s =
      (f (p.runOn answer s).1).runOn answer (p.runOn answer s).2 := by
  induction p generalizing s with
  | done a => rfl
  | ask r next ih => exact ih _ _

namespace Host

variable {C S : Type}

theorem call_under (h : Host C S) (space : String) (c : C) (k : StoreCall) (s : S) :
    (h.under space).call c k s =
      if k.name? = some "" then (.error (.invalid .emptyKey), s)
      else (k.shown space (h.call c (k.inside space) s).1, (h.call c (k.inside space) s).2) := by
  unfold call under
  rw [View.call_under]
  split
  · rfl
  · rw [Program.runOn_bind]
    rfl

end Host

/-! ### Parts of a map -/

/-- Text in front of both names keeps their order. -/
theorem append_lt_append_iff {space m n : String} : space ++ m < space ++ n ↔ m < n := by
  rw [String.lt_iff, String.lt_iff, String.toList_append, String.toList_append]
  induction space.toList with
  | nil => rfl
  | cons c cs ih =>
      rw [List.cons_append, List.cons_append, List.cons_lt_cons_self]
      exact ih

namespace Table

/-- The part of a map that a view shows. -/
def under (space : String) (t : Table) : Table where
  entries := t.entries.filterMap fun e => (strip space e.1).map (·, e.2)
  sorted := by
    refine List.Pairwise.filterMap _ (fun e e' hlt x hx x' hx' => ?_) t.sorted
    obtain ⟨n, hn, rfl⟩ := Option.map_eq_some_iff.1 hx
    obtain ⟨n', hn', rfl⟩ := Option.map_eq_some_iff.1 hx'
    rw [(strip_eq_some_iff.1 hn).1, (strip_eq_some_iff.1 hn').1] at hlt
    exact append_lt_append_iff.1 hlt

theorem names_under (space : String) (t : Table) :
    (t.under space).names = t.names.filterMap (strip space) := by
  unfold names under
  rw [List.map_filterMap, List.filterMap_map]
  refine congrArg (fun f => List.filterMap f t.entries) (funext fun e => ?_)
  simp only [Option.map_map, Function.comp_def, Option.map_id']

/-- A view finds what the map holds behind the namespace. -/
theorem get?_under (space : String) (t : Table) (name : String) :
    (t.under space).get? name = if name = "" then none else t.get? (space ++ name) := by
  obtain ⟨es, hs⟩ := t
  simp only [get?, under]
  clear hs
  induction es with
  | nil => simp
  | cons e es ih =>
      rw [lookup_entry, List.filterMap_cons]
      cases hstrip : strip space e.1 with
      | none =>
          simp only [Option.map_none, ih]
          by_cases hname : name = ""
          · simp [hname]
          · have hother : space ++ name ≠ e.1 := fun hsame => by
              rw [strip_eq_some_iff.2 ⟨hsame.symm, hname⟩] at hstrip
              cases hstrip
            simp [hname, hother]
      | some n =>
          obtain ⟨hsplit, hn⟩ := strip_eq_some_iff.1 hstrip
          simp only [Option.map_some, lookup_entry, ih, hsplit]
          by_cases hname : name = ""
          · simp [hname, Ne.symm hn]
          · simp [hname]

end Table

/-- **Patterns of a view.**  A pattern with the namespace in front matches behind the namespace
exactly what the pattern matches. -/
theorem Glob.accepts_behind_iff {space : String} (hspace : hasMeta space = false)
    (pattern name : String) :
    accepts (space ++ orAll pattern) (space ++ name) = true ↔ accepts pattern name = true := by
  refine ⟨accepts_in_space hspace, fun h => ?_⟩
  have hsome : ¬ (space ++ orAll pattern).isEmpty = true := by simp [orAll_ne_empty]
  have hplain : ∀ c ∈ space.toList, Token.ofChar c = .char c := fun c hc => by
    obtain ⟨hstar, hone⟩ := plain_of_hasMeta hspace hc
    exact Token.ofChar_of_plain hstar hone
  have hwritten := accepts_iff_written.1 h
  rw [accepts_iff_written, orAll, if_neg hsome, String.toList_append, String.toList_append,
    List.map_append]
  generalize space.toList = cs at hplain
  induction cs with
  | nil => exact hwritten
  | cons c cs ih =>
      obtain ⟨hc, hcs⟩ := List.forall_mem_cons.1 hplain
      rw [List.map_cons, hc]
      exact .char (ih hcs)

namespace Table

variable {space : String}

/-- The names that a view shows of a listing. -/
theorem filterMap_strip_names (hspace : Glob.hasMeta space = false) (t : Table)
    (pattern : String) :
    (t.names.filter (Glob.accepts (space ++ Glob.orAll pattern))).filterMap (strip space) =
      (t.under space).names.filter (Glob.accepts pattern) := by
  rw [names_under, List.filterMap_filter, List.filter_filterMap]
  refine congrArg (fun f => List.filterMap f t.names) (funext fun name => ?_)
  cases hstrip : strip space name with
  | none => simp
  | some n =>
      obtain ⟨rfl, -⟩ := strip_eq_some_iff.1 hstrip
      have hsame : Glob.accepts (space ++ Glob.orAll pattern) (space ++ n) =
          Glob.accepts pattern n :=
        Bool.eq_iff_iff.2 (Glob.accepts_behind_iff hspace pattern n)
      simp only [hsame, Option.filter]

theorem under_insert {name : String} (hname : name ≠ "") (t : Table) (value : Bytes) :
    (t.insert (space ++ name) value).under space = (t.under space).insert name value := by
  refine ext fun other => ?_
  rw [get?_under, get?_insert, get?_insert, get?_under]
  by_cases hother : other = ""
  · simp [hother, Ne.symm hname]
  · simp [hother]

theorem under_erase (name : String) (t : Table) :
    (t.erase (space ++ name)).under space = (t.under space).erase name := by
  refine ext fun other => ?_
  rw [get?_under, get?_erase, get?_erase, get?_under]
  by_cases hother : other = ""
  · simp [hother]
  · simp [hother]

/-- **A call inside is a call on the part**, as far as the view shows it. -/
theorem perform_under (hspace : Glob.hasMeta space = false) {k : StoreCall}
    (hk : k.name? ≠ some "") (t : Table) :
    (t.under space).perform k =
      (k.shown space (t.perform (k.inside space)).1,
        (t.perform (k.inside space)).2.under space) := by
  cases k with
  | create name value =>
      have hname : name ≠ "" := fun hempty => hk (congrArg some hempty)
      simp only [perform, StoreCall.inside, contains, get?_under, hname, if_false]
      by_cases htaken : (t.get? (space ++ name)).isSome = true
      · simp only [htaken, if_true]
        rfl
      · simp only [htaken, Bool.false_eq_true, if_false, under_insert hname]
        rfl
  | get name =>
      have hname : name ≠ "" := fun hempty => hk (congrArg some hempty)
      simp only [perform, StoreCall.inside, get?_under, hname, if_false]
      cases t.get? (space ++ name) <;> rfl
  | delete name =>
      simp only [perform, StoreCall.inside, under_erase]
      rfl
  | list pattern =>
      simp only [perform, StoreCall.inside, StoreCall.shown, filterMap_strip_names hspace]
  | status => rfl

/-- What is not in the part stays as it is. -/
theorem get?_perform_inside {k : StoreCall} (hk : k.name? ≠ some "") {name : String}
    (hname : strip space name = none) (t : Table) :
    (t.perform (k.inside space)).2.get? name = t.get? name := by
  have hother {n : String} (hn : n ≠ "") : name ≠ space ++ n := fun hsame => by
    rw [strip_eq_some_iff.2 ⟨hsame, hn⟩] at hname
    cases hname
  cases k with
  | create n value =>
      simp only [perform, StoreCall.inside]
      split
      · rfl
      · rw [get?_insert, if_neg (hother fun hempty => hk (congrArg some hempty))]
  | delete n =>
      simp only [perform, StoreCall.inside]
      rw [get?_erase, if_neg (hother fun hempty => hk (congrArg some hempty))]
  | get n =>
      simp only [perform, StoreCall.inside]
      split <;> rfl
  | list pattern => rfl
  | status => rfl

end Table

/-! ### Views of stores that behave as maps -/

/-- A view shows replies that agree alike. -/
theorem Agrees.shown {sorted : Bool} {r r' : Except Error StoreReply} (h : Agrees sorted r r')
    (space : String) (k : StoreCall) : Agrees sorted (k.shown space r) (k.shown space r') := by
  rcases r with e | _ | _ | found <;> rcases r' with e' | _ | _ | names <;>
    first
      | exact ⟨h.1.filterMap _, fun hsorted => congrArg _ (h.2 hsorted)⟩
      | cases h
  all_goals exact .refl _ _

/-- The terms of a view: it refuses the empty name, and what the store inside refuses. -/
def Terms.under {C : Type} (space : String) (m : Terms C) : Terms C where
  refuses c k :=
    if k.name? = some "" then some (.invalid .emptyKey)
    else (m.refuses c (k.inside space)).map k.tell
  sorted := m.sorted

/-- A view of a plain store is a plain store. -/
theorem Terms.under_plain {C : Type} (space : String) (ended : C → Bool) (sorted : Bool) :
    (Terms.plain ended sorted).under space = Terms.plain ended sorted := by
  unfold Terms.under Terms.plain
  congr 1
  funext c k
  simp only [StoreCall.refusal]
  by_cases hk : k.name? = some ""
  · rw [if_pos hk, if_pos hk]
  · rw [if_neg hk, if_neg hk, if_neg (StoreCall.name?_inside_ne hk space)]
    cases ended c <;> cases k <;> rfl

namespace Host

variable {C S : Type} {h : Host C S} {m : Terms C} {s : S} {t : Table} {space : String}

/-- **A call on a view of a map** is answered as by the part that the view shows, and the store
inside stays a map. -/
theorem BehavesAs.call_under (hspace : Glob.hasMeta space = false) (hs : h.BehavesAs m s t)
    (c : C) (k : StoreCall) :
    Agrees m.sorted ((h.under space).call c k s).1
        ((t.under space).answer ((m.under space).refuses c k) k).1 ∧
      ∃ t', h.BehavesAs m ((h.under space).call c k s).2 t' ∧
        t'.under space = ((t.under space).answer ((m.under space).refuses c k) k).2 ∧
        ∀ name, strip space name = none → t'.get? name = t.get? name := by
  rw [Host.call_under]
  unfold Terms.under
  by_cases hk : k.name? = some ""
  · simp only [hk, if_true]
    exact ⟨rfl, t, hs, rfl, fun _ _ => rfl⟩
  simp only [hk, if_false]
  obtain ⟨hagrees, hs'⟩ := hs.call c (k.inside space)
  cases hrefused : m.refuses c (k.inside space) with
  | some e =>
      rw [hrefused] at hagrees hs'
      exact ⟨hagrees.shown space k, t, hs', rfl, fun _ _ => rfl⟩
  | none =>
      rw [hrefused] at hagrees hs'
      have hperform := Table.perform_under hspace hk t
      simp only [Option.map_none, Table.answer, hperform]
      exact ⟨hagrees.shown space k, _, hs', rfl,
        fun name hname => Table.get?_perform_inside hk hname t⟩

/-- Calls on a view of a map, one after the other. -/
theorem BehavesAs.serve_under (hspace : Glob.hasMeta space = false) (hs : h.BehavesAs m s t)
    (calls : List (C × StoreCall)) :
    List.Forall₂ (Agrees m.sorted) ((h.under space).serve calls s).1
        ((t.under space).serve (m.under space) calls).1 ∧
      ∃ t', h.BehavesAs m ((h.under space).serve calls s).2 t' ∧
        t'.under space = ((t.under space).serve (m.under space) calls).2 ∧
        ∀ name, strip space name = none → t'.get? name = t.get? name := by
  induction calls generalizing s t with
  | nil => exact ⟨.nil, t, hs, rfl, fun _ _ => rfl⟩
  | cons x calls ih =>
      obtain ⟨c, k⟩ := x
      obtain ⟨hagrees, t₁, hs₁, hpart₁, hkept₁⟩ := hs.call_under hspace c k
      obtain ⟨hanswers, t₂, hs₂, hpart₂, hkept₂⟩ := ih hs₁
      rw [hpart₁] at hanswers hpart₂
      refine ⟨.cons hagrees hanswers, t₂, hs₂, hpart₂, fun name hname => ?_⟩
      rw [hkept₂ name hname, hkept₁ name hname]

end Host

/-! ### Views inside views -/

/-- A namespace inside a namespace is one namespace. -/
theorem strip_append (outer inner name : String) :
    strip (outer ++ inner) name = (strip outer name).bind (strip inner) := by
  refine Option.ext fun n => ?_
  simp only [Option.bind_eq_some_iff, strip_eq_some_iff]
  constructor
  · rintro ⟨rfl, hn⟩
    exact ⟨inner ++ n, ⟨String.append_assoc, extend_ne hn⟩, rfl, hn⟩
  · rintro ⟨_, ⟨rfl, -⟩, rfl, hn⟩
    exact ⟨String.append_assoc.symm, hn⟩

namespace StoreCall

/-- A call that passes two views. -/
theorem inside_inside (outer inner : String) (k : StoreCall) :
    (k.inside inner).inside outer = k.inside (outer ++ inner) := by
  cases k with
  | list pattern =>
      have hsome : ¬ (inner ++ Glob.orAll pattern).isEmpty = true := by
        simp [Glob.orAll_ne_empty]
      simp only [inside]
      rw [Glob.orAll, if_neg hsome, String.append_assoc]
  | _ => simp only [inside, String.append_assoc]

/-- A reply that passes two views. -/
theorem shown_shown (outer inner : String) (k : StoreCall) (r : Except Error StoreReply) :
    k.shown inner ((k.inside inner).shown outer r) = k.shown (outer ++ inner) r := by
  rcases r with e | _ | _ | names
  · cases k <;> cases e <;> rfl
  · rfl
  · rfl
  · simp only [shown, List.filterMap_filterMap]
    refine congrArg (fun f => Except.ok (StoreReply.names (List.filterMap f names))) ?_
    exact funext fun name => (strip_append outer inner name).symm

end StoreCall

/-- **A view inside a view** is the view of both namespaces, one behind the other. -/
theorem Host.call_under_under {C S : Type} (h : Host C S) (outer inner : String) (c : C)
    (k : StoreCall) (s : S) :
    ((h.under outer).under inner).call c k s = (h.under (outer ++ inner)).call c k s := by
  rw [call_under, call_under h (outer ++ inner)]
  by_cases hk : k.name? = some ""
  · rw [if_pos hk, if_pos hk]
  · rw [if_neg hk, if_neg hk, call_under, if_neg (StoreCall.name?_inside_ne hk inner),
      StoreCall.inside_inside, StoreCall.shown_shown]

/-- The same for calls one after the other. -/
theorem Host.serve_under_under {C S : Type} (h : Host C S) (outer inner : String)
    (calls : List (C × StoreCall)) (s : S) :
    ((h.under outer).under inner).serve calls s = (h.under (outer ++ inner)).serve calls s := by
  induction calls generalizing s with
  | nil => rfl
  | cons x calls ih =>
      obtain ⟨c, k⟩ := x
      simp only [serve, call_under_under, ih]

namespace Host

variable {C S : Type}

/-- A view shows a part of a store that behaves as a map, and is in every way a plain store of
that part. -/
structure ExactView (h : Host C S) (space : String) (m : Terms C) (s : S) (t : Table) : Prop where
  /-- The view can be opened. -/
  opens : h.view.enter space = .ok (h.under space).view
  /-- The part is what stands under the names that properly extend the namespace. -/
  part : ∀ name, (t.under space).get? name =
    if name = "" then none else t.get? (space ++ name)
  /-- All calls are answered as by the part. -/
  answers : (h.under space).BehavesAs (m.under space) s (t.under space)
  /-- A view of a plain store refuses what a plain store refuses. -/
  plain : ∀ ended, m = .plain ended m.sorted → m.under space = .plain ended m.sorted
  /-- Behind any calls the store inside behaves as a map of which the view shows the part as the
  calls left it, and of which nothing else changed. -/
  confined : ∀ calls, ∃ t', h.BehavesAs m ((h.under space).serve calls s).2 t' ∧
    t'.under space = ((t.under space).serve (m.under space) calls).2 ∧
      ∀ name, strip space name = none → t'.get? name = t.get? name
  /-- A view inside the view is one view of both namespaces. -/
  nests : ∀ inner calls s', ((h.under space).under inner).serve calls s' =
    (h.under (space ++ inner)).serve calls s'

/-- **Views are exact.**  A view of a store that behaves as a map is a plain store of the part
that stands under the namespace. -/
theorem exactView {h : Host C S} {m : Terms C} {s : S} {t : Table} {space : String}
    (hspace : Glob.hasMeta space = false) (hs : h.BehavesAs m s t) :
    h.ExactView space m s t where
  opens := View.enter_eq_ok_iff.2 ⟨hspace, rfl⟩
  part := t.get?_under space
  answers calls := (hs.serve_under hspace calls).1
  plain ended hm := by
    rw [hm]
    exact Terms.under_plain space ended m.sorted
  confined calls := (hs.serve_under hspace calls).2
  nests := h.serve_under_under space

/-- A view of a map in memory: what stands under the bare namespace is not shown, and names are
told as the view knows them. -/
theorem exactView_memory :
    let t := ((Table.empty.insert "ns/a" [1]).insert "ns/" [2]).insert "other" [3]
    let w := World.calm (.memory t)
    let calls : List (Context × StoreCall) := [.create "b" [4], .create "b" [5], .get "other",
      .get "", .delete "a", .list "", .list "?"].map fun k => (.ofToken [], k)
    Glob.hasMeta "ns/" = false ∧ (World.host Unit).BehavesAs w.terms w t ∧
      (((World.host Unit).under "ns/").serve calls w).1 =
        [.ok .done, .error (.alreadyExists "b"), .error (.notFound "other"),
          .error (.invalid .emptyKey), .ok .done, .ok (.names ["b"]), .ok (.names ["b"])] := by
  intro t w calls
  have hmap : (World.host Unit).BehavesAs w.terms w t := World.behavesAs (Backend.holds_memory t)
  have hexact : (World.host Unit).ExactView "ns/" w.terms w t := exactView rfl hmap
  have hanswers := (hexact.answers calls).imp fun _ _ => Agrees.eq
  rw [List.forall₂_eq_eq_eq] at hanswers
  refine ⟨rfl, hmap, hanswers.trans ?_⟩
  decide +kernel

end Host

end KeyCustody
