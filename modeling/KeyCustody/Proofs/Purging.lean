import KeyCustody.Proofs.Listing
import KeyCustody.Proofs.Serving
import KeyCustody.Proofs.Turns

/-!
# Purging

Before an enclave is registered, all records left under its name are removed.  So whoever
registers an enclave goes through three stages.  As long as the look-up of the registration
has no answer, it spares the keys of a registered enclave.  When the look-up found nothing,
it is about to remove every key.  When it has passed a key, it spares that key again.

So what is left of such a program keeps the contract of sparing the key
(`Contract.sparing`), or it leaves nothing under the key's name if it is run to its end
(`Program.Clears`).  A program of which this holds all the way is `Program.Settled`.  Main
statements:

* `Registry.settled_create`: registering an enclave is settled;
* `Service.settled_programs`: so is every call that registers it.
-/

namespace KeyCustody

/-! ### Contexts in calm worlds -/

namespace World

variable {w : World Unit} {c : Context}

/-- In a calm world no request changes which contexts have ended. -/
theorem ended_answer (w : World Unit) (c c' : Context) (r : Request) :
    (w.answer c r).2.ended c' = w.ended c' := by
  cases r with
  | list pattern => simp only [answer, list_calm]
  | _ => rfl

/-- Under a context that has ended no request changes the store. -/
theorem backend_answer_of_ended (hended : w.ended c = true) (r : Request) :
    (w.answer c r).2.backend = w.backend := by
  cases r with
  | create name value => simp only [answer, meet_calm, hended, Backend.create_ended]
  | delete name => simp only [answer, meet_calm, hended, Backend.delete_ended]
  | _ => exact backend_answer_of_read rfl w c

end World

/-- In a calm world no run changes which contexts have ended. -/
theorem Program.ended_run {α : Type} (p : Program α) (w : World Unit) (c c' : Context) :
    (p.run c w).2.ended c' = w.ended c' := by
  induction p generalizing w with
  | done a => rfl
  | ask r next ih => exact (ih _ _).trans (w.ended_answer c c' r)

/-! ### Programs that clear a name -/

namespace Program

variable {α β : Type} {full : String}

/-- Run to its end under a context that lives, the program leaves the name without a value. -/
def Clears (full : String) (p : Program α) : Prop :=
  ∀ (c : Context) (w : World Unit), w.ended c = false →
    (p.run c w).2.backend.stored? full = none

/-- What is not held is not held after a run that does not create it. -/
theorem Keeps.run_of_missing {σ : Type} [Mishaps σ] {p : Program α}
    (h : p.Keeps (.asking fun r => ¬ r.Creates full) fun _ => True) (c : Context)
    {w : World σ} (hw : w.backend.stored? full = none) :
    (p.run c w).2.backend.stored? full = none := by
  refine (h.run c (fun w => w.backend.stored? full = none) (fun r w hr hw => ?_) hw).2
  refine ⟨trivial, ?_⟩
  rcases w.stored?_answer_of_not_creates hr c with hsame | hlost
  · rw [hsame, hw]
  · exact hlost

/-- A name that was cleared stays clear if the rest does not create it. -/
theorem Clears.bind {p : Program α} {f : α → Program β} (h : p.Clears full)
    (hrest : ∀ a, (f a).Keeps (.asking fun r => ¬ r.Creates full) fun _ => True) :
    (p >>= f).Clears full := by
  intro c w hlive
  rw [run_bind]
  exact (hrest _).run_of_missing c (h c w hlive)

/-- The rest of a program may clear the name. -/
theorem Clears.after {p : Program α} {f : α → Program β} (h : ∀ a, (f a).Clears full) :
    (p >>= f).Clears full := by
  intro c w hlive
  rw [run_bind]
  exact h _ c _ ((p.ended_run w c c).trans hlive)

end Program

namespace View

variable {space name : String}

/-- A removal through a view is one request at most. -/
theorem delete_attempt :
    ((View.under space .whole).delete name).attempt =
      match requireKey name with
      | .error e => .done (.error e)
      | .ok () => .ask (.delete (space ++ name)) .done := by
  unfold View.delete
  cases requireKey name <;> rfl

/-- A creation through a view is one request at most. -/
theorem create_attempt {value : Bytes} :
    ((View.under space .whole).create name value).attempt =
      match requireKey name with
      | .error e => .done (.error e)
      | .ok () => .ask (.create (space ++ name) value) fun x =>
        .done (x.mapError (renameTaken name)) := by
  unfold View.create
  cases requireKey name <;> rfl

/-- **What a removal through a view does** under mishaps: it fails and changes nothing, or it
leaves the name without a value. -/
theorem run_delete_cases {σ : Type} [Mishaps σ] (c : Context) (w : World σ)
    (space name : String) :
    (∃ e, (((View.under space .whole).delete name).attempt.run c w).1 = .error e ∧
        (((View.under space .whole).delete name).attempt.run c w).2.backend = w.backend) ∨
      ((((View.under space .whole).delete name).attempt.run c w).1 = .ok () ∧
        ∀ other, (((View.under space .whole).delete name).attempt.run c w).2.backend.stored?
          other = if other = space ++ name then none else w.backend.stored? other) := by
  rw [delete_attempt]
  rcases requireKey_cases name with hkey | hkey
  · rw [hkey]
    exact w.answer_delete_cases c (space ++ name)
  · rw [hkey]
    exact .inl ⟨_, rfl, rfl⟩

/-- **What a creation through a view does** under mishaps: it fails and changes nothing, or it
makes a new name hold the value. -/
theorem run_create_cases {σ : Type} [Mishaps σ] (c : Context) (w : World σ)
    (space name : String) (value : Bytes) :
    (∃ e, (((View.under space .whole).create name value).attempt.run c w).1 = .error e ∧
        (((View.under space .whole).create name value).attempt.run c w).2.backend = w.backend) ∨
      ((((View.under space .whole).create name value).attempt.run c w).1 = .ok () ∧
        w.backend.stored? (space ++ name) = none ∧
        ∀ other, (((View.under space .whole).create name value).attempt.run c w).2.backend.stored?
          other = if other = space ++ name then some value else w.backend.stored? other) := by
  rw [create_attempt]
  rcases requireKey_cases name with hkey | hkey
  · rw [hkey]
    rcases w.answer_create_cases c (space ++ name) value with ⟨e, hfailed, hsame⟩ | ⟨hok, hheld⟩
    · exact .inl ⟨renameTaken name e, congrArg (Except.mapError _) hfailed, hsame⟩
    · exact .inr ⟨congrArg (Except.mapError _) hok, hheld⟩
  · rw [hkey]
    exact .inl ⟨_, rfl, rfl⟩

/-- A purge is a listing, and a deletion of each name that was listed. -/
theorem purge_eq :
    (View.under space .whole).purge = .ask (.list (space ++ "*")) fun
      | .ok names => (View.under space .whole).deleteAll (names.filterMap (strip space))
      | .error e => .done (some e) := by
  refine congrArg (Program.ask _) (funext fun x => ?_)
  cases x <;> rfl

theorem clears_delete (hname : name ≠ "") :
    ((View.under space .whole).delete name).attempt.Clears (space ++ name) := by
  intro c w hlive
  have hkey := requireKey_of_ne hname
  have hfull : space ++ name ≠ "" := extend_ne hname
  rw [delete_attempt, hkey]
  simp only [Program.run, World.answer, World.meet_calm, hlive]
  exact w.backend.stored?_delete_live hfull

/-- What is on the list is removed. -/
theorem clears_deleteAll (hname : name ≠ "") {names : List String} (hmem : name ∈ names) :
    ((View.under space .whole).deleteAll names).Clears (space ++ name) := by
  have hremoves (names : List String) : ((View.under space .whole).deleteAll names).Keeps
      (.asking fun r => ¬ r.Creates (space ++ name)) (fun _ => True) :=
    keeps_deleteAll names fun _ _ => id
  induction names with
  | nil => cases hmem
  | cons other names ih =>
      unfold deleteAll
      by_cases hlater : name ∈ names
      · exact Program.Clears.after fun r => (ih hlater).bind fun _ => trivial
      · obtain rfl : name = other := (List.mem_cons.1 hmem).resolve_right hlater
        exact (clears_delete hname).bind fun r => (hremoves names).bind fun _ _ => trivial

/-- **A purge clears** every name in its namespace. -/
theorem clears_purge (hspace : Glob.hasMeta space = false) (hname : name ≠ "") :
    (View.under space .whole).purge.Clears (space ++ name) := by
  intro c w hlive
  have hanswer : w.answer c (.list (space ++ "*")) =
      (w.backend.listed (space ++ "*"), w) := by
    simp only [World.answer, World.list_calm, hlive, Bool.false_eq_true, if_false]
  rw [purge_eq, Program.run, hanswer]
  cases hheld : w.backend.stored? (space ++ name) with
  | some value =>
      obtain ⟨names, hlisted, hmem⟩ :=
        Backend.exists_listed (Glob.accepts_all hspace name) hheld
      rw [hlisted]
      refine clears_deleteAll hname (List.mem_filterMap.2 ⟨_, hmem, ?_⟩) c w hlive
      exact strip_eq_some_iff.2 ⟨rfl, hname⟩
  | none =>
      -- nothing of the purge creates the name
      cases w.backend.listed (space ++ "*") with
      | error e => exact hheld
      | ok names => exact (keeps_deleteAll _ fun _ _ => id).run_of_missing c hheld

end View

/-! ### Settled programs -/

/-- The request removes neither the key nor the registration of its enclave. -/
def Request.Leaves (l : Layout) (e n : String) (r : Request) : Prop :=
  ¬ r.Removes (l.record e) ∧ ¬ r.Removes (l.space .key e ++ n)

/-- The request neither changes the key nor removes the registration of its enclave. -/
def Request.Skips (l : Layout) (e n : String) (r : Request) : Prop :=
  r.Leaves l e n ∧ ¬ r.Creates (l.space .key e ++ n)

/-- The contract of sparing a key as long as its enclave is registered: removing neither of
them, if the registration is never missed. -/
def Contract.sparing (l : Layout) (e n : String) : Contract where
  allows := Request.Leaves l e n
  assumes
    | .get name, .error (.notFound _) => name ≠ l.record e
    | _, _ => True

namespace Program

variable {α β : Type} {l : Layout} {e n : String}

/-- A program that never removes the key spares it. -/
theorem Keeps.sparing {p : Program α}
    (h : p.Keeps (.asking (Request.Leaves l e n)) fun _ => True) :
    p.Keeps (.sparing l e n) (fun _ => True) :=
  h.mono (fun _ => id) (fun _ _ _ _ => trivial) fun _ => id

/-- **A settled program**: whatever is left of it spares the key or clears it. -/
def Settled (l : Layout) (e n : String) (p : Program α) : Prop :=
  ∀ q, p.LeadsTo q →
    q.Keeps (.sparing l e n) (fun _ => True) ∨ q.Clears (l.space .key e ++ n)

theorem Settled.of_leaves {p : Program α}
    (h : p.Keeps (.asking (Request.Leaves l e n)) fun _ => True) : p.Settled l e n :=
  fun _ hq => .inl (h.asking_of_leadsTo hq).sparing

/-- A request, if what is left after it is settled. -/
theorem Settled.ask {r : Request} {next : r.Answer → Program α}
    (hhere : (Program.ask r next).Keeps (.sparing l e n) (fun _ => True) ∨
      (Program.ask r next).Clears (l.space .key e ++ n))
    (hnext : ∀ x, (next x).Settled l e n) : (Program.ask r next).Settled l e n := by
  intro q hq
  cases hq with
  | refl => exact hhere
  | answer x hrest => exact hnext x q hrest

/-- A settled program, and then one that passes over the key. -/
theorem Settled.bind {p : Program α} {f : α → Program β} (hp : p.Settled l e n)
    (hf : ∀ a, (f a).Keeps (.asking (Request.Skips l e n)) fun _ => True) :
    (p >>= f).Settled l e n := by
  have hleaves (a : α) : (f a).Keeps (.asking (Request.Leaves l e n)) fun _ => True :=
    (hf a).mono (fun _ hr => hr.1) (fun _ _ _ => id) fun _ => id
  intro q hq
  rcases hq.bind_cases with ⟨p', hp', rfl⟩ | ⟨a, ha⟩
  · rcases hp p' hp' with hspares | hclears
    · exact .inl (hspares.bind fun a _ => (hleaves a).sparing)
    · refine .inr (hclears.bind fun a => ?_)
      exact (hf a).mono (fun _ hr => hr.2) (fun _ _ _ => id) fun _ => id
  · exact Settled.of_leaves (hleaves a) q ha

/-- A program that never removes the key, and then a settled one that spares it as yet. -/
theorem Settled.after {p : Program α} {f : α → Program β}
    (hp : p.Keeps (.asking (Request.Leaves l e n)) fun _ => True)
    (hspares : ∀ a, (f a).Keeps (.sparing l e n) fun _ => True)
    (hf : ∀ a, (f a).Settled l e n) : (p >>= f).Settled l e n := by
  intro q hq
  rcases hq.bind_cases with ⟨p', hp', rfl⟩ | ⟨a, ha⟩
  · exact .inl ((hp.asking_of_leadsTo hp').sparing.bind fun a _ => hspares a)
  · exact hf a q ha

end Program

/-! ### Purges are settled -/

/-- A program in front of a routine. -/
theorem Routine.lift_bind {α β : Type} (p : Program α) (f : α → Routine β) :
    attempt (ExceptT.lift p >>= f) = p >>= fun a => (f a).attempt := by
  induction p with
  | done a => rfl
  | ask r next ih => exact congrArg (Program.ask r) (funext ih)

variable {l : Layout} {e n : String}

/-- A removal of another record of an enclave skips the key. -/
theorem Request.skips_delete {kind : RecordKind} {e' name : String} (he : ValidName e)
    (he' : ValidName e') (hother : ¬ (kind = .key ∧ e' = e ∧ name = n)) :
    Request.Skips l e n (.delete (l.space kind e' ++ name)) := by
  refine ⟨⟨fun hsame => ?_, fun hsame => ?_⟩, id⟩
  · exact Layout.record_ne_space_append _ _ _ _ _ hsame.symm
  · exact hother (Layout.space_append_inj he' he hsame)

namespace View

/-- Removing the names of a list is settled: the key is cleared while it is on the list. -/
theorem settled_deleteAll (he : ValidName e) (hn : n ≠ "") (names : List String) :
    ((View.under (l.space .key e) .whole).deleteAll names).Settled l e n := by
  induction names with
  | nil => exact .of_leaves trivial
  | cons name names ih =>
      by_cases hmem : n ∈ name :: names
      · have hclears : ((View.under (l.space .key e) .whole).deleteAll (name :: names)).Clears
            (l.space .key e ++ n) := clears_deleteAll hn hmem
        have hrest (r : Except Error Unit) :
            (((View.under (l.space .key e) .whole).deleteAll names) >>= fun more =>
              pure (firstError (errorOf r) more)).Settled l e n :=
          ih.bind fun _ => trivial
        unfold deleteAll at hclears ⊢
        rw [delete_attempt] at hclears ⊢
        cases hkey : requireKey name with
        | error err => exact hrest (.error err)
        | ok _ =>
            rw [hkey] at hclears
            exact .ask (.inr hclears) hrest
      · refine .of_leaves (keeps_deleteAll _ fun other hother => ?_)
        refine (Request.skips_delete he he ?_).1
        rintro ⟨-, -, rfl⟩
        exact hmem hother

/-- Purging the keys is settled. -/
theorem settled_purge (hspace : Glob.hasMeta (l.space .key e) = false) (he : ValidName e)
    (hn : n ≠ "") : (View.under (l.space .key e) .whole).purge.Settled l e n := by
  have hclears := clears_purge hspace hn
  rw [purge_eq] at hclears ⊢
  refine .ask (.inr hclears) fun x => ?_
  cases x with
  | ok names => exact settled_deleteAll he hn _
  | error err => exact .of_leaves trivial

end View

/-- A program that is done after each answer to its first request asks for nothing else. -/
theorem Program.exists_done {β : Type} {r : Request} {next : r.Answer → Program β}
    (hdone : ∀ x, ∃ y, next x = .done y) :
    ∃ found : r.Answer → β, Program.ask r next = .ask r fun x => .done (found x) := by
  obtain ⟨found, hfound⟩ := Classical.axiomOfChoice hdone
  exact ⟨found, congrArg (Program.ask r) (funext hfound)⟩

/-- A record is looked up and then decoded. -/
theorem Cabinet.get_eq {α : Type} [Record α] (c : Cabinet α) (name : String) :
    c.get name = c.view.get name >>= fun value =>
      Routine.ofExcept ((Record.decode? value).elim (.error (.corrupt name)) .ok) := by
  unfold get
  refine congrArg (c.view.get name >>= ·) (funext fun value => ?_)
  cases (Record.decode? value : Option α) <;> rfl

/-- A search in a cabinet is one look-up. -/
theorem Cabinet.find?_attempt {α : Type} [Record α] {space name : String} (hname : name ≠ "") :
    ∃ found : Except Error Bytes → Except Error (Option α),
      ((under space : Cabinet α).find? name).attempt =
        .ask (.get (space ++ name)) fun x => .done (found x) := by
  have hkey := requireKey_of_ne hname
  unfold find?
  rw [get_eq]
  unfold View.get
  rw [hkey]
  refine Program.exists_done (r := .get (space ++ name)) fun x => ?_
  cases x with
  | ok value =>
      change ∃ y, Program.bind (.done ((Record.decode? value : Option α).elim
        (Except.error (Error.corrupt name)) Except.ok)) _ = .done y
      cases (Record.decode? value : Option α) with
      | none => exact ⟨_, rfl⟩
      | some a => exact ⟨_, rfl⟩
  | error err => cases err <;> exact ⟨_, rfl⟩

namespace Registry

/-- The namespaces of an enclave hold no pattern characters. -/
theorem hasMeta_of_mem_spaces (hplain : Glob.hasMeta l.root = false) (he : ValidName e) :
    ∀ space ∈ [l.keys e, l.policies e, l.identities e], Glob.hasMeta space = false := by
  simp only [List.forall_mem_cons, List.not_mem_nil, IsEmpty.forall_iff, implies_true, and_true]
  exact ⟨Layout.hasMeta_space hplain he .key, Layout.hasMeta_space hplain he .policy,
    Layout.hasMeta_space hplain he .assignment⟩

theorem mem_spaces (l : Layout) (kind : RecordKind) (e : String) :
    l.space kind e ∈ [l.keys e, l.policies e, l.identities e] := by
  cases kind <;> simp [Layout.keys_eq_space, Layout.policies_eq_space, Layout.identities_eq_space]

/-- Namespaces are purged one after the other. -/
theorem purgeSpaces_cons {space : String} (hspace : Glob.hasMeta space = false)
    (earlier : Option Error) (spaces : List String) :
    (purgeSpaces earlier (space :: spaces)).attempt =
      (View.under space .whole).purge >>= fun failure =>
        (purgeSpaces (firstError earlier failure) spaces).attempt := by
  have henter : View.whole.enter space = .ok (.under space .whole) :=
    View.enter_eq_ok_iff.2 ⟨hspace, rfl⟩
  rw [purgeSpaces, henter]
  exact Routine.lift_bind _ _

/-- A purge of namespaces clears all of them. -/
theorem clears_purgeSpaces {spaces : List String} {space name : String} (hname : name ≠ "")
    (hspaces : ∀ space ∈ spaces, Glob.hasMeta space = false) (hmem : space ∈ spaces)
    (earlier : Option Error) :
    (purgeSpaces earlier spaces).attempt.Clears (space ++ name) := by
  induction spaces generalizing earlier with
  | nil => cases hmem
  | cons first spaces ih =>
      have hfirst := hspaces first List.mem_cons_self
      rw [purgeSpaces_cons hfirst]
      rcases List.mem_cons.1 hmem with rfl | hlater
      · refine (View.clears_purge hfirst hname).bind ?_
        intro failure
        exact (keeps_purgeSpaces spaces _ (fun _ _ => id) fun _ _ _ => id).attempt
      · refine Program.Clears.after ?_
        intro failure
        exact ih (fun s hs => hspaces s (List.mem_cons_of_mem _ hs)) hlater _

/-- A purge clears all that the enclave owns. -/
theorem clears_purge (hplain : Glob.hasMeta l.root = false) (he : ValidName e)
    (kind : RecordKind) {name : String} (hname : name ≠ "") :
    (l.catalog.purge e).attempt.Clears (l.space kind e ++ name) := by
  unfold purge
  rw [Routine.attempt_bind]
  refine (clears_purgeSpaces hname (hasMeta_of_mem_spaces hplain he) (mem_spaces l kind e)
    none).bind ?_
  intro r
  cases r with
  | error err => trivial
  | ok failure => cases failure <;> trivial

/-- **A purge of an enclave is settled.** -/
theorem settled_registryPurge (hplain : Glob.hasMeta l.root = false) (he : ValidName e)
    (hn : n ≠ "") : (l.catalog.purge e).attempt.Settled l e n := by
  have hspace := Layout.hasMeta_space hplain he .key
  have hspaces : ((purgeSpaces none [l.keys e, l.policies e, l.identities e]).attempt).Settled
      l e n := by
    rw [Layout.keys_eq_space, purgeSpaces_cons hspace]
    refine (View.settled_purge hspace he hn).bind fun failure =>
      (keeps_purgeSpaces _ _ ?_ ?_).attempt
    · exact fun _ _ => ⟨⟨id, id⟩, id⟩
    · -- policies and assignments are no keys
      intro space hmem name
      simp only [List.mem_cons, List.not_mem_nil, or_false] at hmem
      have hskips (kind : RecordKind) (hkind : kind ≠ .key) :
          Request.Skips l e n (.delete (l.space kind e ++ name)) :=
        Request.skips_delete he he fun h => hkind h.1
      rcases hmem with rfl | rfl
      · exact hskips .policy (by decide)
      · exact hskips .assignment (by decide)
  unfold purge
  rw [Routine.attempt_bind]
  refine hspaces.bind fun r => ?_
  cases r with
  | error err => trivial
  | ok failure => cases failure <;> trivial

/-- An enclave that is registered is not purged. -/
theorem spares_create (creator : Identity) :
    (l.catalog.create e creator).Keeps (.sparing l e n) (fun _ => True) fun _ => True := by
  have hmissed : ¬ (Contract.sparing l e n).MayMiss (l.record e) := by
    rintro ⟨what, hassumed⟩
    exact hassumed rfl
  refine Routine.Keeps.weaken (keeps_create (fun _ => ⟨id, id⟩) ⟨id, id⟩ ?_ ?_ ?_)
    (fun _ _ => trivial) fun _ => id
  all_goals exact fun _ hmiss => absurd hmiss hmissed

/-- **Registering an enclave is settled.**  It relies on the look-up of the registration until
that has an answer, and then it purges or does nothing. -/
theorem settled_create (hplain : Glob.hasMeta l.root = false) (he : ValidEnclaveName e)
    (hn : n ≠ "") (creator : Identity) :
    (l.catalog.create e creator).attempt.Settled l e n := by
  have hshape : ∃ next, (l.catalog.create e creator).attempt = .ask (.get (l.record e)) next ∧
      ∀ x, (next x).Settled l e n := by
    obtain ⟨found, hfound⟩ : ∃ found : Except Error Bytes → Except Error (Option Registration),
        (l.catalog.cabinet.find? e).attempt =
          .ask (.get (l.record e)) fun x => .done (found x) :=
      Cabinet.find?_attempt he.nonempty
    unfold create
    rw [checkEnclaveName_eq_ok_iff.2 he]
    change ∃ next, Routine.attempt (l.catalog.cabinet.find? e >>= _) = _ ∧ _
    rw [Routine.attempt_bind, hfound, Program.ask_bind]
    refine ⟨_, rfl, fun x => ?_⟩
    rw [Program.done_bind]
    cases found x with
    | error err => exact .of_leaves trivial
    | ok registered =>
        cases registered with
        | some _ => exact .of_leaves trivial
        | none =>
            change (Routine.attempt (l.catalog.purge e >>= fun _ => _)).Settled l e n
            rw [Routine.attempt_bind]
            refine (settled_registryPurge hplain he.toValidName hn).bind fun r => ?_
            cases r with
            | error err => trivial
            | ok _ =>
                have hcreated (time : Timestamp) : Request.Skips l e n
                    (.create (l.record e) (Record.encode (⟨time, creator⟩ : Registration))) := by
                  refine ⟨⟨id, id⟩, fun hsame => ?_⟩
                  exact Layout.record_ne_space_append _ _ _ _ _ hsame
                refine Routine.Keeps.attempt (Routine.Keeps.bind
                  (Routine.Keeps.time ⟨⟨id, id⟩, id⟩) fun time _ => ?_)
                refine Routine.Keeps.bind (Routine.Keeps.mapError (Routine.Keeps.weaken
                  (Cabinet.keeps_create (hcreated time)) (fun _ => id) fun _ _ => trivial))
                  fun _ _ => ?_
                exact Routine.Keeps.pure trivial
  obtain ⟨next, hask, hnext⟩ := hshape
  rw [hask]
  refine .ask (.inl ?_) hnext
  exact hask ▸ (spares_create creator).attempt

/-- Making sure of an enclave is settled too. -/
theorem settled_ensure (hplain : Glob.hasMeta l.root = false) (he : ValidEnclaveName e)
    (hn : n ≠ "") (creator : Identity) :
    (l.catalog.ensure e creator).attempt.Settled l e n := by
  refine (settled_create hplain he hn creator).bind fun r => ?_
  cases r with
  | ok _ => trivial
  | error err =>
      cases err with
      | alreadyExists _ =>
          refine Routine.Keeps.attempt (Routine.Keeps.weaken (keeps_describe fun _ => ?_)
            (fun _ _ => trivial) fun _ => id)
          exact ⟨⟨id, id⟩, id⟩
      | _ => trivial

end Registry

/-! ### Calls that register an enclave -/

namespace Service

/-- The call registers the enclave, unless it is registered already. -/
def Registers (s : Service) (call : Call) (e : String) : Prop :=
  (∃ enclave, call = .command enclave (.createEnclave e)) ∨
    (call = .init ∧ s.defaultEnclave = e)

/-- **Every call that registers an enclave is settled**, for all keys of the enclave. -/
theorem settled_programs {s : Service} (hover : s.Over l) (he : ValidEnclaveName e)
    (hn : n ≠ "") {caller : Identity} {call : Call} (hregisters : s.Registers call e)
    {p : Program (Except Error Reply)} (hp : p ∈ s.programs caller call) :
    p.Settled l e n := by
  have hcreate (creator : Identity) :=
    Registry.settled_create hover.plain he hn creator
  rcases hregisters with ⟨enclave, rfl⟩ | ⟨rfl, rfl⟩
  · obtain rfl := List.mem_singleton.1 hp
    have hgate : (s.gate caller "" (.createEnclave e)).Keeps
        (.asking (Request.Leaves l e n)) (fun _ => True) fun _ => True :=
      Routine.Keeps.weaken (keeps_gate hover fun _ _ _ => ⟨id, id⟩) (fun _ _ => trivial)
        fun _ => id
    have hbody (h : Enclave) : (s.body caller h (.createEnclave e)).attempt.Settled l e n := by
      unfold body
      rw [hover.registry_eq, Routine.attempt_bind]
      refine (hcreate caller).bind fun r => ?_
      cases r <;> trivial
    have hspares (h : Enclave) : (s.body caller h (.createEnclave e)).Keeps (.sparing l e n)
        (fun _ => True) fun _ => True := by
      unfold body
      rw [hover.registry_eq]
      exact keeps_reply (Registry.spares_create caller)
    have houtcome : (Routine.attempt (s.gate caller "" (.createEnclave e) >>= fun h =>
        s.body caller h (.createEnclave e))).Settled l e n := by
      rw [Routine.attempt_bind]
      refine .after hgate.attempt (fun r => ?_) fun r => ?_
      · cases r with
        | ok h => exact (hspares h).attempt
        | error err => trivial
      · cases r with
        | ok h => exact hbody h
        | error err => exact .of_leaves trivial
    refine houtcome.bind fun r => ?_
    refine Program.Keeps.bind (Program.Keeps.request ⟨⟨id, id⟩, id⟩) fun id' _ => ?_
    refine Program.Keeps.bind (Program.Keeps.request ⟨⟨id, id⟩, id⟩) fun time _ => ?_
    exact Program.Keeps.bind (Program.Keeps.request ⟨⟨id, id⟩, id⟩) fun _ _ => trivial
  · obtain rfl := List.mem_singleton.1 hp
    have hinit : s.init.attempt.Settled l s.defaultEnclave n := by
      unfold init
      rw [hover.registry_eq, Routine.attempt_bind]
      refine (Registry.settled_ensure hover.plain he hn _).bind fun r => ?_
      cases r <;> trivial
    change (Routine.attempt (s.init >>= fun _ => pure Reply.done)).Settled _ _ n
    rw [Routine.attempt_bind]
    refine hinit.bind fun r => ?_
    cases r <;> trivial

end Service

end KeyCustody
