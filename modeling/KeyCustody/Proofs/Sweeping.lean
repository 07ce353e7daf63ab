import KeyCustody.Proofs.Overwriting
import KeyCustody.Proofs.Stopping

/-!
# Sweeping a namespace

A purge lists a namespace and tries to remove every name that was listed, whatever fails.  What
it did can be told from its trace: if the listing succeeded then it gave every name, each of
them was tried, and no others were (`Swept`).  Purges of different namespaces do not come in
each other's way.  And a program that creates nothing loses exactly the names whose removal
succeeded.  Main statements:

* `Program.Keeps.stored?_of_removed`, `Program.Keeps.stored?_of_not_removed`: what is lost;
* `View.sweeps_purge`: a purge sweeps its namespace;
* `Registry.sweeps_purge`: a purge of an enclave sweeps the enclave's namespaces.
-/

namespace KeyCustody

/-! ### Removals in a trace -/

namespace Program

variable {α σ : Type} [Mishaps σ] {c : Context} {w : World σ} {p : Program α} {fits : α → Prop}
  {full : String}

/-- A run makes only requests that the program may make. -/
theorem Keeps.of_mem_trace {allowed : Request → Prop} (h : p.Keeps (.asking allowed) fits)
    {x : Exchange} (hx : x ∈ p.trace c w) : allowed x.1 := by
  induction p generalizing w with
  | done a => cases hx
  | ask r next ih =>
      rcases List.mem_cons.1 hx with rfl | hlater
      · exact h.1
      · exact ih _ (h.2 _ trivial) hlater

/-- What a removal took away is gone, if nothing creates it. -/
theorem Keeps.stored?_of_removed (h : p.Keeps (.asking fun r => ¬ r.Creates full) fits)
    (hx : ⟨.delete full, .ok ()⟩ ∈ p.trace c w) : (p.run c w).2.backend.stored? full = none := by
  induction p generalizing w with
  | done a => cases hx
  | ask r next ih =>
      have hrest := h.2 (w.answer c r).1 trivial
      rcases List.mem_cons.1 hx with hhere | hlater
      · refine Keeps.run_of_missing (hrest.weaken fun _ _ => trivial) c ?_
        obtain ⟨rfl, hanswer⟩ := Sigma.mk.inj hhere
        have hok := eq_of_heq hanswer
        rcases w.answer_delete_cases c full with ⟨err, hfailed, -⟩ | ⟨-, hheld⟩
        · rw [← hok] at hfailed
          cases hfailed
        · exact (hheld full).trans (if_pos rfl)
      · exact ih _ hrest hlater

/-- What no removal took away is as it was, if nothing creates it. -/
theorem Keeps.stored?_of_not_removed (h : p.Keeps (.asking fun r => ¬ r.Creates full) fits)
    (hx : ⟨.delete full, .ok ()⟩ ∉ p.trace c w) :
    (p.run c w).2.backend.stored? full = w.backend.stored? full := by
  induction p generalizing w with
  | done a => rfl
  | ask r next ih =>
      rw [trace, List.mem_cons, not_or] at hx
      refine (ih _ (h.2 (w.answer c r).1 trivial) hx.2).trans ?_
      by_cases hremoves : r.Removes full
      · cases r with
        | delete name =>
            obtain rfl : name = full := hremoves
            rcases w.answer_delete_cases c name with ⟨err, -, hsame⟩ | ⟨hok, -⟩
            · exact congrArg (Backend.stored? · name) hsame
            · refine absurd ?_ hx.1
              rw [hok]
        | _ => cases hremoves
      · exact w.stored?_answer_of_avoids ⟨hremoves, h.1⟩ c

end Program

/-! ### Sweeps -/

/-- The request has nothing to do with a namespace: it does not list it, and it changes no name
in it. -/
def Request.ApartFrom (space : String) (r : Request) : Prop :=
  r ≠ .list (space ++ "*") ∧ ∀ n, r.Avoids (space ++ n)

/-- What exchanges tell of a namespace, of which they started with what a store holds. -/
structure Swept (space : String) (before : Backend) (t : List Exchange) : Prop where
  /-- A listing that succeeded gave every name. -/
  complete : ∀ names, ⟨.list (space ++ "*"), .ok names⟩ ∈ t → ∀ n, n ≠ "" →
    (before.stored? (space ++ n)).isSome → space ++ n ∈ names
  /-- Every name that was given was tried. -/
  tried : ∀ names, ⟨.list (space ++ "*"), .ok names⟩ ∈ t → ∀ n, n ≠ "" →
    space ++ n ∈ names → ∃ x, ⟨.delete (space ++ n), x⟩ ∈ t
  /-- No other name was tried. -/
  listed : ∀ n x, ⟨.delete (space ++ n), x⟩ ∈ t →
    ∃ names, ⟨.list (space ++ "*"), .ok names⟩ ∈ t ∧ space ++ n ∈ names

namespace Swept

variable {space : String} {b b' : Backend} {t t' : List Exchange}

/-- Exchanges that have nothing to do with the namespace. -/
theorem of_apart (h : ∀ x ∈ t, x.1.ApartFrom space) : Swept space b t where
  complete := fun _ hlist => absurd rfl (h _ hlist).1
  tried := fun _ hlist => absurd rfl (h _ hlist).1
  listed := fun n _ htried => absurd rfl ((h _ htried).2 n).1

/-- Exchanges that have nothing to do with the namespace, after a sweep. -/
theorem append_apart (h : Swept space b t) (hapart : ∀ x ∈ t', x.1.ApartFrom space) :
    Swept space b (t ++ t') := by
  have hearlier {names : List String} (hlist : ⟨.list (space ++ "*"), .ok names⟩ ∈ t ++ t') :
      ⟨.list (space ++ "*"), .ok names⟩ ∈ t :=
    (List.mem_append.1 hlist).resolve_right fun hx => (hapart _ hx).1 rfl
  refine ⟨fun names hlist => h.complete names (hearlier hlist), ?_, ?_⟩
  · intro names hlist n hn hname
    obtain ⟨x, hx⟩ := h.tried names (hearlier hlist) n hn hname
    exact ⟨x, List.mem_append_left t' hx⟩
  · intro n x hx
    have hx' := (List.mem_append.1 hx).resolve_right fun hx => ((hapart _ hx).2 n).1 rfl
    obtain ⟨names, hlist, hname⟩ := h.listed n x hx'
    exact ⟨names, List.mem_append_left t' hlist, hname⟩

/-- Exchanges that have nothing to do with the namespace, before a sweep. -/
theorem of_append_apart (h : Swept space b' t') (hapart : ∀ x ∈ t, x.1.ApartFrom space)
    (hsame : ∀ n, b'.stored? (space ++ n) = b.stored? (space ++ n)) :
    Swept space b (t ++ t') := by
  have hlater {names : List String} (hlist : ⟨.list (space ++ "*"), .ok names⟩ ∈ t ++ t') :
      ⟨.list (space ++ "*"), .ok names⟩ ∈ t' :=
    (List.mem_append.1 hlist).resolve_left fun hx => (hapart _ hx).1 rfl
  refine ⟨?_, ?_, ?_⟩
  · intro names hlist n hn hheld
    exact h.complete names (hlater hlist) n hn (by rw [hsame]; exact hheld)
  · intro names hlist n hn hname
    obtain ⟨x, hx⟩ := h.tried names (hlater hlist) n hn hname
    exact ⟨x, List.mem_append_right t hx⟩
  · intro n x hx
    have hx' := (List.mem_append.1 hx).resolve_left fun hx => ((hapart _ hx).2 n).1 rfl
    obtain ⟨names, hlist, hname⟩ := h.listed n x hx'
    exact ⟨names, List.mem_append_right t hlist, hname⟩

end Swept

namespace Program

variable {α β : Type} {space : String}

/-- Every run of the program sweeps the namespace, or has nothing to do with it. -/
def Sweeps (σ : Type) [Mishaps σ] (space : String) (p : Program α) : Prop :=
  ∀ (c : Context) (w : World σ), Swept space w.backend (p.trace c w)

variable {σ : Type} [Mishaps σ] {fits : α → Prop} {p : Program α} {f : α → Program β}

/-- A sweep, and then a program that has nothing to do with the namespace. -/
theorem Sweeps.bind_apart (h : p.Sweeps σ space)
    (hf : ∀ a, (f a).Keeps (.asking (Request.ApartFrom space)) fun _ => True) :
    (p >>= f).Sweeps σ space := by
  intro c w
  rw [trace_bind]
  exact (h c w).append_apart fun _ hx => (hf _).of_mem_trace hx

/-- A program that has nothing to do with the namespace, and then a sweep. -/
theorem Keeps.sweeps_bind (h : p.Keeps (.asking (Request.ApartFrom space)) fits)
    (hf : ∀ a, fits a → (f a).Sweeps σ space) : (p >>= f).Sweeps σ space := by
  intro c w
  obtain ⟨hfits, hsame⟩ := h.run c
    (fun v => ∀ n, v.backend.stored? (space ++ n) = w.backend.stored? (space ++ n))
    (fun r v hr hv => ⟨trivial, fun n => (v.stored?_answer_of_avoids (hr.2 n) c).trans (hv n)⟩)
    fun _ => rfl
  rw [trace_bind]
  exact (hf _ hfits c _).of_append_apart (fun _ hx => h.of_mem_trace hx) hsame

end Program

/-! ### Purges -/

namespace View

variable {σ : Type} [Mishaps σ] {c : Context} {w : World σ} {space : String}

/-- Every name of a list is tried. -/
theorem exists_delete_of_deleteAll {names : List String} {n : String} (hn : n ≠ "")
    (hmem : n ∈ names) :
    ∃ x, ⟨.delete (space ++ n), x⟩ ∈ ((View.under space .whole).deleteAll names).trace c w := by
  induction names generalizing w with
  | nil => cases hmem
  | cons name names ih =>
      unfold deleteAll
      rw [Program.trace_bind]
      rcases List.mem_cons.1 hmem with rfl | hlater
      · rw [delete_attempt, requireKey_of_ne hn]
        exact ⟨_, List.mem_append_left _ List.mem_cons_self⟩
      · obtain ⟨x, hx⟩ := ih (w := (((View.under space .whole).delete name).attempt.run c w).2)
          hlater
        refine ⟨x, List.mem_append_right _ ?_⟩
        rw [Program.trace_bind]
        exact List.mem_append_left _ hx

/-- **A purge sweeps its namespace.** -/
theorem sweeps_purge (hspace : Glob.hasMeta space = false) :
    (View.under space .whole).purge.Sweeps σ space := by
  intro c w
  rw [purge_eq, Program.trace]
  have hanswer := w.list_cases c (space ++ "*")
  change (∃ e, (w.answer c (.list (space ++ "*"))).1 = .error e) ∨
    (w.answer c (.list (space ++ "*"))).1 = w.backend.listed (space ++ "*") at hanswer
  generalize (w.answer c (.list (space ++ "*"))).1 = answer at hanswer
  generalize (w.answer c (.list (space ++ "*"))).2 = w₁
  cases answer with
  | error err =>
      have hfailed {names : List String} (hlist : (⟨.list (space ++ "*"), .ok names⟩ : Exchange) ∈
          [⟨.list (space ++ "*"), .error err⟩]) : False := by
        cases (Sigma.mk.inj (List.mem_singleton.1 hlist)).2
      refine ⟨fun _ hlist => (hfailed hlist).elim, fun _ hlist => (hfailed hlist).elim, ?_⟩
      intro n x htried
      cases (Sigma.mk.inj (List.mem_singleton.1 htried)).1
  | ok names =>
      have hall : ∀ n, n ≠ "" → (w.backend.stored? (space ++ n)).isSome → space ++ n ∈ names := by
        intro n _ hheld
        obtain ⟨value, hvalue⟩ := Option.isSome_iff_exists.1 hheld
        obtain ⟨listed, hlisted, hmem⟩ :=
          Backend.exists_listed (Glob.accepts_all hspace n) hvalue
        rcases hanswer with ⟨err, hfailed⟩ | hgiven
        · cases hfailed
        · exact Except.ok.inj (hgiven.trans hlisted) ▸ hmem
      have hdeletes : ((View.under space .whole).deleteAll (names.filterMap (strip space))).Keeps
          (.asking fun r => ∃ m ∈ names.filterMap (strip space), r = .delete (space ++ m))
          fun _ => True := keeps_deleteAll _ fun m hm => ⟨m, hm, rfl⟩
      -- the one listing in the trace is its first exchange
      have hgiven {names' : List String} (hlist : (⟨.list (space ++ "*"), .ok names'⟩ : Exchange) ∈
          ⟨.list (space ++ "*"), .ok names⟩ ::
            ((View.under space .whole).deleteAll (names.filterMap (strip space))).trace c w₁) :
          names' = names := by
        rcases List.mem_cons.1 hlist with hhere | hlater
        · exact Except.ok.inj (eq_of_heq (Sigma.mk.inj hhere).2)
        · obtain ⟨m, -, hdelete⟩ := hdeletes.of_mem_trace hlater
          cases hdelete
      refine ⟨?_, ?_, ?_⟩
      · intro names' hlist
        obtain rfl := hgiven hlist
        exact hall
      · intro names' hlist n hn hname
        obtain rfl := hgiven hlist
        have hshown : n ∈ names'.filterMap (strip space) :=
          List.mem_filterMap.2 ⟨_, hname, strip_eq_some_iff.2 ⟨rfl, hn⟩⟩
        have hdeleted : ∃ x, ⟨.delete (space ++ n), x⟩ ∈ ((View.under space .whole).deleteAll
            (names'.filterMap (strip space))).trace c w₁ := exists_delete_of_deleteAll hn hshown
        obtain ⟨x, hx⟩ := hdeleted
        exact ⟨x, List.mem_cons_of_mem _ hx⟩
      · intro n x htried
        refine ⟨names, List.mem_cons_self, ?_⟩
        rcases List.mem_cons.1 htried with hhere | hlater
        · cases (Sigma.mk.inj hhere).1
        · obtain ⟨m, hm, hdelete⟩ := hdeletes.of_mem_trace hlater
          obtain ⟨full, hfull, hstrip⟩ := List.mem_filterMap.1 hm
          obtain ⟨rfl, -⟩ := strip_eq_some_iff.1 hstrip
          injection hdelete with hsame
          exact hsame ▸ hfull

end View

namespace Registry

variable {σ : Type} [Mishaps σ] {l : Layout} {e space : String}

/-- **Purges of different namespaces** do not come in each other's way. -/
theorem sweeps_purgeSpaces {spaces : List String}
    (hspaces : ∀ s ∈ spaces, Glob.hasMeta s = false)
    (hapart : spaces.Pairwise fun s s' => ∀ n m, s ++ n ≠ s' ++ m) (hmem : space ∈ spaces)
    (earlier : Option Error) : (purgeSpaces earlier spaces).attempt.Sweeps σ space := by
  have hlists {s s' : String} (h : ∀ n m, s ++ n ≠ s' ++ m) :
      Request.ApartFrom s' (.list (s ++ "*")) := by
    refine ⟨fun hsame => ?_, fun _ => ⟨id, id⟩⟩
    injection hsame with hsame
    exact h _ _ hsame
  have hdeletes {s s' : String} (h : ∀ n m, s ++ n ≠ s' ++ m) (name : String) :
      Request.ApartFrom s' (.delete (s ++ name)) :=
    ⟨Request.noConfusion, fun m => ⟨h name m, id⟩⟩
  induction spaces generalizing earlier with
  | nil => cases hmem
  | cons first spaces ih =>
      obtain ⟨hfirst, hrest⟩ := List.pairwise_cons.1 hapart
      have hlater (s : String) (hs : s ∈ spaces) := hspaces s (List.mem_cons_of_mem _ hs)
      rw [purgeSpaces_cons (hspaces first List.mem_cons_self)]
      rcases List.mem_cons.1 hmem with rfl | hmem
      · refine (View.sweeps_purge (hspaces space List.mem_cons_self)).bind_apart fun failure => ?_
        have hne (s : String) (hs : s ∈ spaces) (n m : String) : s ++ n ≠ space ++ m :=
          (hfirst s hs m n).symm
        exact (keeps_purgeSpaces spaces _ (fun s hs => hlists (hne s hs))
          fun s hs => hdeletes (hne s hs)).attempt
      · have hne := hfirst space hmem
        exact (View.keeps_purge (hlists hne) (hdeletes hne)).sweeps_bind
          fun _ _ => ih hlater hrest hmem _

/-- **A purge of an enclave** sweeps each of the enclave's namespaces. -/
theorem sweeps_purge (hplain : Glob.hasMeta l.root = false) (he : ValidName e)
    (kind : RecordKind) : (l.catalog.purge e).attempt.Sweeps σ (l.space kind e) := by
  have hne (k k' : RecordKind) (hkind : k ≠ k') (n m : String) :
      l.space k e ++ n ≠ l.space k' e ++ m := Layout.space_append_ne he he hkind
  have hapart : [l.keys e, l.policies e, l.identities e].Pairwise
      fun s s' => ∀ n m, s ++ n ≠ s' ++ m := by
    simp only [List.pairwise_cons, List.forall_mem_cons, List.not_mem_nil, IsEmpty.forall_iff,
      implies_true, and_true, List.Pairwise.nil]
    exact ⟨⟨hne .key .policy (by decide), hne .key .assignment (by decide)⟩,
      hne .policy .assignment (by decide)⟩
  unfold purge
  rw [Routine.attempt_bind]
  refine (sweeps_purgeSpaces (hasMeta_of_mem_spaces hplain he) hapart (mem_spaces l kind e)
    none).bind_apart fun r => ?_
  cases r with
  | error err => trivial
  | ok failure => cases failure <;> trivial

end Registry

end KeyCustody
