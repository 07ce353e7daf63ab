import KeyCustody.Proofs.Assignees
import KeyCustody.Proofs.Integrity
import KeyCustody.Proofs.Maps
import KeyCustody.Proofs.Reports

/-!
# Assignments in bulk

A policy is given to several identities in one call, and the caller's permission is looked at
once, before the first of them.  So a call for a long list can be taken for several calls only if
no item takes anything away that a later one relies on.  What an item relies on is the
registration of the enclave, the policy and the names that the store takes; what it changes is
the assignment of an identity other than the caller.  Hence the verdict on an item
(`Service.verdict`) is that on the store as it was before the call, wherever the item stands in
the list.  Main statements:

* `Service.run_assignOne`: an item ends as its verdict says;
* `Service.run_assignEach`: the outcomes of a list, and what it leaves (`Backend.Gives`);
* `Service.bulk_assignment_splits`: one call for two lists is a call for each of them.
-/

namespace KeyCustody

variable {l : Layout} {e policy : String} {creator : Identity} {c : Context} {w : World Unit}

/-! ### Runs in calm worlds -/

/-- A routine goes on after the first of its parts, or ends with its error. -/
theorem Routine.run_bind_ok {α β : Type} {a : Routine α} {x : α} {w' : World Unit}
    (h : a.attempt.run c w = (.ok x, w')) (f : α → Routine β) :
    (a >>= f).attempt.run c w = (f x).attempt.run c w' := by
  rw [Routine.run_bind, h]

theorem Routine.run_bind_error {α β : Type} {a : Routine α} {err : Error} {w' : World Unit}
    (h : a.attempt.run c w = (.error err, w')) (f : α → Routine β) :
    (a >>= f).attempt.run c w = (.error err, w') := by
  rw [Routine.run_bind, h]

/-- **An overwrite in a tidy store that takes the name** succeeds. -/
theorem Cabinet.run_replaceValue {space name : String} (hname : name ≠ "") (value : Bytes)
    (n : Nat) (hlive : w.ended c = false) (htidy : w.backend.Tidy)
    (hallowed : w.backend.kind.refuses false (.delete (space ++ name)) = none) :
    ∃ w', (replaceValue (.under space .whole) name value (n + 1)).attempt.run c w =
        (.ok (), w') ∧ w'.backend.Tidy ∧ w'.backend.kind = w.backend.kind ∧
        ∀ other, w'.backend.stored? other =
          if other = space ++ name then some value else w.backend.stored? other := by
  have hfull : space ++ name ≠ "" := extend_ne hname
  have hremoved : (w.answer c (.delete (space ++ name))).1 = .ok () := by
    change (w.backend.delete (.steady (w.ended c)) (space ++ name)).1 = .ok ()
    rw [hlive]
    exact htidy.delete_of_allowed hfull hallowed
  have hcreated := World.answer_create_after_delete hlive htidy hfull hremoved value
  have hok : ((replaceValue (.under space .whole) name value (n + 1)).attempt.run c w).1 =
      .ok () := by
    rw [replaceValue_attempt _ hname]
    simp only [View.fullName, Program.run]
    rw [hremoved]
    simp only [Program.run]
    rw [hcreated]
    rfl
  refine ⟨_, Prod.ext hok rfl, Program.tidy_run _ c htidy, Program.kind_run _ c w,
    fun other => ?_⟩
  rcases takes_replaceValue hname n htidy c w hlive rfl with hsame | ⟨-, hheld⟩
  · -- the value was there already
    have hstored := stored_of_replaceValue (n + 1) hok
    by_cases hother : other = space ++ name
    · rw [if_pos hother, hother, hstored]
    · rw [if_neg hother, hsame]
  · exact hheld other

/-- An overwrite that a tidy store refuses changes nothing. -/
theorem Cabinet.run_replaceValue_of_refused {space name : String} {err : Error}
    (hname : name ≠ "") (value : Bytes) (n : Nat) (hlive : w.ended c = false)
    (htidy : w.backend.Tidy)
    (hrefused : w.backend.kind.refuses false (.delete (space ++ name)) = some err) :
    (replaceValue (.under space .whole) name value (n + 1)).attempt.run c w =
      (.error err, w) := by
  have hcall := htidy.call_refused hrefused
  have hfailed : (w.backend.delete (.steady false) (space ++ name)).1 = .error err :=
    map_eq_error_iff.1 (congrArg Prod.fst hcall)
  have hsame : (w.backend.delete (.steady false) (space ++ name)).2 = w.backend :=
    congrArg Prod.snd hcall
  have hanswer : w.answer c (.delete (space ++ name)) = (.error err, w) := by
    simp only [World.answer, World.meet_calm, hlive, hfailed, hsame]
  rw [replaceValue_attempt _ hname]
  simp only [View.fullName, Program.run]
  rw [hanswer]
  rfl

/-! ### The verdict on an item -/

namespace Backend

/-- What is told of a policy that is looked up in a store, if nothing goes wrong. -/
def policyOver (b : Backend) (l : Layout) (e policy : String) : Except Error Policy :=
  match checkName "policy" policy, b.get (.steady false) (l.space .policy e ++ policy) with
  | .error err, _ => .error err
  | .ok (), .error (.notFound _) => .error (.notFound ("policy " ++ policy))
  | .ok (), .error err => .error err
  | .ok (), .ok value => (Record.decode? value).elim (.error (.corrupt policy)) .ok

/-- What is told of a policy that is given to an identity in a store, if nothing goes wrong. -/
def assignOver (b : Backend) (l : Layout) (e policy : String) (i : Identity) :
    Except Error Unit :=
  if i.isUnknown then .error (.invalid .assignToUnknown)
  else do
    i.check
    let _ ← b.policyOver l e policy
    (b.kind.refuses false (.delete (l.space .assignment e ++ i.text))).elim (.ok ()) .error

/-- The second store holds assignments of the policy to some identities, made at any time, and
besides what the first store holds. -/
structure Gives (l : Layout) (e policy : String) (creator : Identity) (ok : Identity → Prop)
    (b b' : Backend) : Prop where
  tidy : b'.Tidy
  kind : b'.kind = b.kind
  given : ∀ i, ok i → ∃ time, b'.stored? (l.space .assignment e ++ i.text) =
    some (Record.encode (⟨policy, time, creator⟩ : Assignment))
  kept : ∀ name, (∀ i, ok i → name ≠ l.space .assignment e ++ i.text) →
    b'.stored? name = b.stored? name

namespace Gives

variable {ok ok' : Identity → Prop} {b b' b₁ b₂ : Backend}

/-- Nothing is given. -/
theorem refl (htidy : b.Tidy) (hnone : ∀ i, ¬ ok i) : b.Gives l e policy creator ok b :=
  ⟨htidy, rfl, fun i hi => absurd hi (hnone i), fun _ _ => rfl⟩

/-- First to some, then to others. -/
theorem trans (h : b.Gives l e policy creator ok b₁) (h' : b₁.Gives l e policy creator ok' b₂) :
    b.Gives l e policy creator (fun i => ok i ∨ ok' i) b₂ := by
  refine ⟨h'.tidy, h'.kind.trans h.kind, fun i hi => ?_, fun name hname => ?_⟩
  · by_cases hagain : ok' i
    · exact h'.given i hagain
    · obtain ⟨time, hgiven⟩ := h.given i (hi.resolve_right hagain)
      refine ⟨time, (h'.kept _ fun j hj hsame => ?_).trans hgiven⟩
      obtain rfl : i = j := Identity.text_inj.1 ((String.append_right_inj _).1 hsame)
      exact hagain hj
  · exact (h'.kept name fun i hi => hname i (.inr hi)).trans
      (h.kept name fun i hi => hname i (.inl hi))

theorem congr (h : b.Gives l e policy creator ok b') (hsame : ∀ i, ok i ↔ ok' i) :
    b.Gives l e policy creator ok' b' :=
  ⟨h.tidy, h.kind, fun i hi => h.given i ((hsame i).2 hi),
    fun name hname => h.kept name fun i hi => hname i ((hsame i).1 hi)⟩

/-- Policies and registrations stay. -/
theorem stored?_policy (h : b.Gives l e policy creator ok b') (he : ValidEnclaveName e)
    (n : String) : b'.stored? (l.space .policy e ++ n) = b.stored? (l.space .policy e ++ n) :=
  h.kept _ fun _ _ => Layout.space_append_ne he.toValidName he.toValidName (by decide)

theorem stored?_record (h : b.Gives l e policy creator ok b') :
    b'.stored? (l.record e) = b.stored? (l.record e) :=
  h.kept _ fun _ _ => Layout.record_ne_space_append _ _ _ _ _

/-- **What is told of a further item is the same** as before. -/
theorem assignOver_eq (h : b.Gives l e policy creator ok b') (hb : b.Tidy)
    (he : ValidEnclaveName e) (i : Identity) :
    b'.assignOver l e policy i = b.assignOver l e policy i := by
  have hpolicy : b'.policyOver l e policy = b.policyOver l e policy := by
    unfold policyOver
    cases hname : checkName "policy" policy with
    | error err => rfl
    | ok _ =>
        have hfull : l.space .policy e ++ policy ≠ "" :=
          extend_ne (checkName_eq_ok_iff.1 hname).nonempty
        rw [hb.get_congr h.tidy h.kind hfull (h.stored?_policy he policy)]
  unfold assignOver
  rw [hpolicy, h.kind]

end Gives

end Backend

namespace Enclave

/-- A look-up of a policy in a calm world. -/
theorem run_getPolicy_calm (hlive : w.ended c = false) (policy : String) :
    ((l.handle e).getPolicy policy).attempt.run c w = (w.backend.policyOver l e policy, w) := by
  unfold getPolicy Cabinet.getNamed Backend.policyOver
  cases hname : checkName "policy" policy with
  | error err => rfl
  | ok _ =>
      change (((Cabinet.under (l.space .policy e) : Cabinet Policy).get policy).mapError
        _).attempt.run c w = _
      rw [Routine.run_mapError]
      unfold Cabinet.get
      rw [Routine.run_bind, Cabinet.under,
        View.run_get_calm hlive (checkName_eq_ok_iff.1 hname).nonempty]
      cases w.backend.get (.steady false) (l.space .policy e ++ policy) with
      | error err => cases err <;> rfl
      | ok value =>
          simp only [Except.mapError]
          cases (Record.decode? value : Option Policy) <;> rfl

/-- **To a valid identity** a policy is given if it is found: the clock is read, and then the
assignment is stored. -/
theorem run_assignPolicy_of_valid (hlive : w.ended c = false) (he : ValidEnclaveName e)
    {g : Registration} (hregistered : w.backend.record? (l.record e) = some g) {i : Identity}
    (hvalid : i.Valid) :
    let assignment : Assignment := ⟨policy, w.clock w.readings, creator⟩
    let stored := (Cabinet.replaceValue (.under (l.space .assignment e) .whole) i.text
      (Record.encode assignment) Cabinet.attempts).attempt.run c
        { w with readings := w.readings + 1 }
    ((l.handle e).assignPolicy policy i creator).attempt.run c w =
      match w.backend.policyOver l e policy with
      | .error err => (.error err, w)
      | .ok _ => (stored.1.map fun _ => assignment.info i, stored.2) := by
  intro assignment stored
  have hknown : ¬ i.isUnknown = true := fun h => hvalid.known (Identity.isUnknown_iff.1 h ▸ rfl)
  have hchecked : (Routine.ofExcept i.check).attempt.run c w = (.ok (), w) := by
    rw [Identity.check_eq_ok_iff.2 hvalid]
    rfl
  have hpassed := run_ensureRegistered_of_record hlive he.nonempty hregistered
  have hread := run_getPolicy_calm (l := l) (e := e) hlive policy
  have htime : Routine.time.attempt.run c w =
      (.ok (w.clock w.readings), { w with readings := w.readings + 1 }) := rfl
  unfold assignPolicy
  rw [if_neg hknown]
  refine (Routine.run_bind_ok hchecked _).trans ((Routine.run_bind_ok hpassed _).trans ?_)
  cases hfound : w.backend.policyOver l e policy with
  | error err =>
      rw [hfound] at hread
      exact Routine.run_bind_error hread _
  | ok p =>
      rw [hfound] at hread
      exact (Routine.run_bind_ok hread _).trans ((Routine.run_bind_ok htime _).trans
        (Routine.run_map c _ _ _))

/-- **One item behind the gate** fails and leaves the store as it was, or the policy is given. -/
theorem run_assignPolicy_cases (hlive : w.ended c = false) (htidy : w.backend.Tidy)
    (he : ValidEnclaveName e) {g : Registration}
    (hregistered : w.backend.record? (l.record e) = some g) (policy : String)
    (i creator : Identity) :
    (∃ err w', ((l.handle e).assignPolicy policy i creator).attempt.run c w = (.error err, w') ∧
        w.backend.assignOver l e policy i = .error err ∧ w'.backend = w.backend) ∨
      ∃ info w', ((l.handle e).assignPolicy policy i creator).attempt.run c w = (.ok info, w') ∧
        w.backend.assignOver l e policy i = .ok () ∧
        w.backend.Gives l e policy creator (· = i) w'.backend := by
  unfold Backend.assignOver
  by_cases hunknown : i.isUnknown = true
  · unfold assignPolicy
    rw [if_pos hunknown, if_pos hunknown]
    exact .inl ⟨_, _, rfl, rfl, rfl⟩
  rw [if_neg hunknown]
  cases hcheck : i.check with
  | error err =>
      unfold assignPolicy
      rw [if_neg hunknown, hcheck]
      exact .inl ⟨_, _, rfl, rfl, rfl⟩
  | ok _ =>
      have hvalid := Identity.check_eq_ok_iff.1 hcheck
      rw [run_assignPolicy_of_valid hlive he hregistered hvalid]
      cases w.backend.policyOver l e policy with
      | error err => exact .inl ⟨_, _, rfl, rfl, rfl⟩
      | ok p =>
          let w₁ : World Unit := { w with readings := w.readings + 1 }
          let assignment : Assignment := ⟨policy, w.clock w.readings, creator⟩
          let tell (r : Except Error Unit × World Unit) :=
            (r.1.map fun _ => assignment.info i, r.2)
          cases hrefusal : w.backend.kind.refuses false
              (.delete (l.space .assignment e ++ i.text)) with
          | some err =>
              have hrun := Cabinet.run_replaceValue_of_refused (c := c) (w := w₁) hvalid.known
                (Record.encode assignment) 2 hlive htidy hrefusal
              exact .inl ⟨err, w₁, congrArg tell hrun, rfl, rfl⟩
          | none =>
              obtain ⟨w', hrun, htidy', hkind', hheld⟩ := Cabinet.run_replaceValue (c := c)
                (w := w₁) hvalid.known (Record.encode assignment) 2 hlive htidy hrefusal
              refine .inr ⟨_, w', congrArg tell hrun, rfl, htidy', hkind', ?_, fun name hname => ?_⟩
              · rintro j rfl
                exact ⟨_, (hheld _).trans (if_pos rfl)⟩
              · exact (hheld _).trans (if_neg (hname i rfl))

end Enclave

/-! ### Lists of items -/

namespace Service

variable {s : Service} {caller : Identity} {g : Registration}

/-- What is told of one item of a call that gives the policy to several identities, on the store
as it was before the call. -/
def verdict (s : Service) (l : Layout) (e : String) (caller : Identity) (policy : String)
    (b : Backend) (i : Identity) : Except Error Unit :=
  if s.authorizer.isAdmin i then .error (.invalid .assignToAdmin)
  else if i = caller then .error (.invalid .assignToSelf)
  else b.assignOver l e policy i

/-- Nobody gives a policy to itself. -/
theorem verdict_caller_ne_ok (b : Backend) : s.verdict l e caller policy b caller ≠ .ok () := by
  unfold verdict
  split
  · exact nofun
  · rw [if_pos rfl]
    exact nofun

/-- **The verdict on an item** is the same after other items. -/
theorem verdict_eq_of_gives {ok : Identity → Prop} {b b' : Backend}
    (h : b.Gives l e policy creator ok b') (hb : b.Tidy) (he : ValidEnclaveName e)
    (i : Identity) : s.verdict l e caller policy b' i = s.verdict l e caller policy b i := by
  unfold verdict
  rw [h.assignOver_eq hb he]

section Runs

variable (policy s caller) (hlive : w.ended c = false) (htidy : w.backend.Tidy)
  (he : ValidEnclaveName e) (hregistered : w.backend.record? (l.record e) = some g)

include hlive htidy he hregistered

/-- An item fails and leaves the store as it was, or the policy is given. -/
theorem run_assignOne_cases (i : Identity) :
    (∃ err w', (s.assignOne (l.handle e) caller policy i).attempt.run c w = (.error err, w') ∧
        s.verdict l e caller policy w.backend i = .error err ∧ w'.backend = w.backend) ∨
      ∃ w', (s.assignOne (l.handle e) caller policy i).attempt.run c w = (.ok (), w') ∧
        s.verdict l e caller policy w.backend i = .ok () ∧
        w.backend.Gives l e policy caller (· = i) w'.backend := by
  unfold assignOne verdict
  by_cases hadmin : s.authorizer.isAdmin i = true
  · rw [if_pos hadmin, if_pos hadmin]
    exact .inl ⟨_, w, rfl, rfl, rfl⟩
  rw [if_neg hadmin, if_neg hadmin]
  by_cases hself : i = caller
  · rw [if_pos hself, if_pos hself]
    exact .inl ⟨_, w, rfl, rfl, rfl⟩
  rw [if_neg hself, if_neg hself]
  rcases Enclave.run_assignPolicy_cases hlive htidy he hregistered policy i caller with
    ⟨err, w', hends, hfailed, hsame⟩ | ⟨info, w', hends, hdone, hgives⟩
  · exact .inl ⟨err, w', Routine.run_bind_error hends _, hfailed, hsame⟩
  · exact .inr ⟨w', Routine.run_bind_ok hends _, hdone, hgives⟩

/-- **An item ends as its verdict says.**  If it fails, it leaves the store as it was. -/
theorem run_assignOne (i : Identity) :
    ∃ w', (s.assignOne (l.handle e) caller policy i).attempt.run c w =
        (s.verdict l e caller policy w.backend i, w') ∧
      (s.verdict l e caller policy w.backend i ≠ .ok () → w'.backend = w.backend) ∧
      w.backend.Gives l e policy caller
        (fun j => j = i ∧ s.verdict l e caller policy w.backend j = .ok ()) w'.backend := by
  rcases run_assignOne_cases policy s caller hlive htidy he hregistered i with
    ⟨err, w', hends, hverdict, hsame⟩ | ⟨w', hends, hverdict, hgives⟩
  · have hrefused : s.verdict l e caller policy w.backend i ≠ .ok () := hverdict ▸ nofun
    refine ⟨w', hverdict ▸ hends, fun _ => hsame, ?_⟩
    rw [hsame]
    exact .refl htidy fun j hj => hrefused (hj.1 ▸ hj.2)
  · refine ⟨w', hverdict ▸ hends, absurd hverdict, hgives.congr fun j => ?_⟩
    exact ⟨fun hj => ⟨hj, hj ▸ hverdict⟩, fun hj => hj.1⟩

/-- **The outcomes of a list** are the verdicts on its items, each on the store as it was, and
those on whom it is favourable have the policy afterwards. -/
theorem run_assignEach (identities : List Identity) :
    ((s.assignEach (l.handle e) caller policy identities).run c w).1 =
        identities.map (fun i => ⟨i.display, s.verdict l e caller policy w.backend i⟩) ∧
      w.backend.Gives l e policy caller
        (fun i => i ∈ identities ∧ s.verdict l e caller policy w.backend i = .ok ())
        ((s.assignEach (l.handle e) caller policy identities).run c w).2.backend := by
  induction identities generalizing w with
  | nil => exact ⟨rfl, .refl htidy fun i hi => absurd hi.1 List.not_mem_nil⟩
  | cons i identities ih =>
      obtain ⟨w', hone, -, hgives⟩ := run_assignOne policy s caller hlive htidy he
        hregistered i
      have hlive' : w'.ended c = false := by
        have hended := (s.assignOne (l.handle e) caller policy i).attempt.ended_run w c c
        rw [hone] at hended
        exact hended.trans hlive
      have hregistered' : w'.backend.record? (l.record e) = some g :=
        (Backend.record?_congr hgives.stored?_record).trans hregistered
      obtain ⟨houtcomes, hrest⟩ := ih hlive' hgives.tidy hregistered'
      simp only [verdict_eq_of_gives hgives htidy he] at houtcomes hrest
      unfold assignEach
      rw [Program.run_bind, hone, Program.run_bind]
      refine ⟨?_, (hgives.trans hrest).congr fun j => ?_⟩
      · exact congrArg (Outcome.mk i.display _ :: ·) houtcomes
      · rw [List.mem_cons, or_and_right]

end Runs

/-- A list is worked through part by part. -/
theorem run_assignEach_append (h : Enclave) (xs ys : List Identity) (w : World Unit) :
    ((s.assignEach h caller policy (xs ++ ys)).run c w).2 =
      ((s.assignEach h caller policy ys).run c
        ((s.assignEach h caller policy xs).run c w).2).2 := by
  induction xs generalizing w with
  | nil => rfl
  | cons i xs ih =>
      rw [List.cons_append, assignEach, assignEach, Program.run_bind, Program.run_bind,
        Program.run_bind, Program.run_bind]
      exact ih _

/-- An item at the end that fails leaves the store as it was before the item. -/
theorem backend_run_assignEach_concat (hlive : w.ended c = false) (htidy : w.backend.Tidy)
    (he : ValidEnclaveName e) (hregistered : w.backend.record? (l.record e) = some g)
    (xs : List Identity) {i : Identity}
    (hrefused : s.verdict l e caller policy w.backend i ≠ .ok ()) :
    ((s.assignEach (l.handle e) caller policy (xs ++ [i])).run c w).2.backend =
      ((s.assignEach (l.handle e) caller policy xs).run c w).2.backend := by
  obtain ⟨-, hgives⟩ := run_assignEach policy s caller hlive htidy he hregistered xs
  have hlive' := ((s.assignEach (l.handle e) caller policy xs).ended_run w c c).trans hlive
  have hregistered' := (Backend.record?_congr hgives.stored?_record).trans hregistered
  rw [run_assignEach_append]
  rw [← verdict_eq_of_gives hgives htidy he] at hrefused
  generalize ((s.assignEach (l.handle e) caller policy xs).run c w).2 = w₁ at *
  obtain ⟨w₂, hone, hsame, -⟩ := run_assignOne policy s caller hlive' hgives.tidy he
    hregistered' i
  have hlast : ((s.assignEach (l.handle e) caller policy [i]).run c w₁).2 = w₂ := by
    rw [assignEach, Program.run_bind, hone]
    rfl
  rw [hlast, hsame hrefused]

end Service

/-! ### Stores that differ in times -/

/-- The values are the same, or assignments that were made at different times. -/
inductive SameButTime : Bytes → Bytes → Prop
  | same (value : Bytes) : SameButTime value value
  | assigned (policy : String) (creator : Identity) (time time' : Timestamp) :
      SameButTime (Record.encode (⟨policy, time, creator⟩ : Assignment))
        (Record.encode (⟨policy, time', creator⟩ : Assignment))

/-- The stores hold the same under the same names, but for the times of assignments. -/
def Backend.SameButTimes (b b' : Backend) : Prop :=
  ∀ name, Option.Rel SameButTime (b.stored? name) (b'.stored? name)

/-- Stores in which the same was given to the same identities. -/
theorem Backend.Gives.sameButTimes {ok : Identity → Prop} {b b₁ b₂ : Backend}
    (h : b.Gives l e policy creator ok b₁) (h' : b.Gives l e policy creator ok b₂) :
    b₁.SameButTimes b₂ := by
  intro name
  by_cases hgiven : ∃ i, ok i ∧ name = l.space .assignment e ++ i.text
  · obtain ⟨i, hi, rfl⟩ := hgiven
    obtain ⟨time, htime⟩ := h.given i hi
    obtain ⟨time', htime'⟩ := h'.given i hi
    rw [htime, htime']
    exact .some (.assigned policy creator time time')
  · have hother (i : Identity) (hi : ok i) : name ≠ l.space .assignment e ++ i.text :=
      fun hsame => hgiven ⟨i, hi, hsame⟩
    rw [h.kept name hother, h'.kept name hother]
    cases b.stored? name with
    | none => exact .none
    | some value => exact .some (.same value)

/-! ### Calls -/

/-- What was reached from a tidy store is tidy. -/
theorem Service.Session.tidy {σ : Type} [Mishaps σ] {s : Service} {w w' : World σ}
    (hsession : s.Session w w') (hw : w.backend.Tidy) : w'.backend.Tidy :=
  hsession.preserves Backend.Tidy (fun _ _ p c _ _ hw => p.keeps_anything.throughout
    (fun r w _ hw => ⟨trivial, w.tidy_answer c r hw⟩) hw) hw

namespace Service

variable {s : Service} {settings : Settings} {caller : Identity} {enclave : String}

/-- **Who is permitted stays permitted**, whatever is given to others. -/
theorem Permits.of_gives {ok : Identity → Prop} {b b' : Backend} {op : Operation}
    (hpermits : Permits settings b caller e op)
    (h : b.Gives ⟨settings.keyPrefix⟩ e policy creator ok b') (he : ValidEnclaveName e)
    (hcaller : ¬ ok caller) : Permits settings b' caller e op := by
  refine ⟨?_, hpermits.entitled.imp_right ?_⟩
  · obtain ⟨g, hg⟩ := hpermits.registered
    exact ⟨g, (Backend.record?_congr h.stored?_record).trans hg⟩
  · rintro ⟨hvalid, a, p, ha, hname, hp, hrules⟩
    refine ⟨hvalid, a, p, (Backend.record?_congr (h.kept _ fun i hi hsame => ?_)).trans ha,
      hname, (Backend.record?_congr (h.stored?_policy he _)).trans hp, hrules⟩
    obtain rfl : caller = i := Identity.text_inj.1 ((String.append_right_inj _).1 hsame)
    exact hcaller hi

/-- A call of a permitted caller works through its list. -/
theorem run_perform_assignPolicy (hmade : ofSettings settings = .ok s)
    (hlive : w.ended c = false) (he : ValidEnclaveName (s.enclaveName enclave))
    (hpermits : Permits settings w.backend caller (s.enclaveName enclave) (.assignPolicy policy))
    (identities : List Identity) :
    let call := (s.perform caller enclave (.assignPolicy policy identities)).attempt.run c w
    let each := (s.assignEach (Layout.handle ⟨settings.keyPrefix⟩ (s.enclaveName enclave)) caller
      policy identities).run c w
    call.1 = .ok (.outcomes each.1) ∧ call.2.backend = each.2.backend := by
  intro call each
  have hgate : (s.gate caller enclave (.assignPolicy policy)).attempt.run c w =
      (.ok (Layout.handle ⟨settings.keyPrefix⟩ (s.enclaveName enclave)), w) :=
    run_gate_of_permits hmade hlive he hpermits
  have hrun : call = ((ExceptT.lift (s.assignEach
      (Layout.handle ⟨settings.keyPrefix⟩ (s.enclaveName enclave)) caller policy identities) >>=
        fun outcomes => pure (Reply.outcomes outcomes) : Routine Reply).attempt >>=
          s.report caller enclave (.assignPolicy policy)).run c w :=
    run_gated_of_ok hgate _
  rw [hrun, Program.run_bind, run_report, Routine.lift_bind, Program.run_bind]
  exact ⟨rfl, rfl⟩

section Calls

variable {v : World Unit} (hmade : ofSettings settings = .ok s) (hlives : s.Lives c v)
  (htidy : v.backend.Tidy) (he : ValidEnclaveName (s.enclaveName enclave))
  (hpermits : Permits settings v.backend caller (s.enclaveName enclave) (.assignPolicy policy))

include hmade hlives htidy he hpermits

/-- **A call for a list** tells the verdicts on its items and gives the policy accordingly. -/
theorem exists_serve?_assignPolicy (identities : List Identity) :
    let verdict := s.verdict ⟨settings.keyPrefix⟩ (s.enclaveName enclave) caller policy v.backend
    ∃ v', s.serve? c caller (.command enclave (.assignPolicy policy identities)) v =
        some (.ok (.outcomes (identities.map fun i => ⟨i.display, verdict i⟩)), v') ∧
      v.backend.Gives ⟨settings.keyPrefix⟩ (s.enclaveName enclave) policy caller
        (fun i => i ∈ identities ∧ verdict i = .ok ()) v'.backend := by
  intro verdict
  obtain ⟨c', tokens, hcontext, hlive⟩ := hlives
  obtain ⟨g, hregistered⟩ := hpermits.registered
  obtain ⟨hreply, hstore⟩ := run_perform_assignPolicy (w := { v with tokens := tokens }) hmade
    hlive he hpermits identities
  obtain ⟨houtcomes, hgives⟩ := run_assignEach policy s caller
    (w := { v with tokens := tokens }) hlive htidy he hregistered identities
  rw [houtcomes] at hreply
  rw [← hstore] at hgives
  exact ⟨_, run?_eq_some_iff.2 ⟨c', tokens, hcontext, Prod.ext hreply rfl⟩, hgives⟩

/-- An item at the end of a list that fails makes no difference to the store. -/
theorem backend_serve?_concat {xs : List Identity} {i : Identity}
    (hrefused : s.verdict ⟨settings.keyPrefix⟩ (s.enclaveName enclave) caller policy v.backend i ≠
      .ok ()) {r₁ r₂ : Except Error Reply} {v₁ v₂ : World Unit}
    (hwithout : s.serve? c caller (.command enclave (.assignPolicy policy xs)) v = some (r₁, v₁))
    (hwith : s.serve? c caller (.command enclave (.assignPolicy policy (xs ++ [i]))) v =
      some (r₂, v₂)) : v₂.backend = v₁.backend := by
  obtain ⟨c', tokens, hcontext, hlive⟩ := hlives
  obtain ⟨g, hregistered⟩ := hpermits.registered
  have hstore {identities : List Identity} {r : Except Error Reply} {v' : World Unit}
      (hserved : s.serve? c caller (.command enclave (.assignPolicy policy identities)) v =
        some (r, v')) :
      v'.backend = ((s.assignEach
        (Layout.handle ⟨settings.keyPrefix⟩ (s.enclaveName enclave)) caller policy
          identities).run c' { v with tokens := tokens }).2.backend := by
    obtain ⟨c'', tokens', hcontext', hrun⟩ := run?_eq_some_iff.1 hserved
    obtain ⟨rfl, rfl⟩ := Prod.mk.inj (Option.some.inj (hcontext.symm.trans hcontext'))
    have hends := (run_perform_assignPolicy (w := { v with tokens := tokens }) hmade hlive he
      hpermits identities).2
    rw [hrun] at hends
    exact hends
  rw [hstore hwithout, hstore hwith]
  exact backend_run_assignEach_concat (w := { v with tokens := tokens }) hlive htidy he hregistered
    xs hrefused

end Calls

/-- **Bulk assignment splits.**  In every state that the service reaches, a permitted caller may
give a policy to the identities of two lists in one call, or in a call for each list: the
second call is permitted too, the outcomes are the same, one for each identity in order, and the
stores are the same in the end but for the times of assignments.  An item that fails leaves the
store as it was, and the other items end as they do without it. -/
theorem bulk_assignment_splits (hmade : ofSettings settings = .ok s) {σ : Type} [Mishaps σ]
    {w₀ w : World σ} (htidy : w₀.backend.Tidy) (hreached : s.Session w₀ w)
    (he : ValidEnclaveName (s.enclaveName enclave))
    (hpermits : Permits settings w.backend caller (s.enclaveName enclave) (.assignPolicy policy))
    {v : World Unit} (hsame : v.backend = w.backend) (hlives : s.Lives c v) :
    let serve (c : Context) (xs : List Identity) (v : World Unit) :=
      s.serve? c caller (.command enclave (.assignPolicy policy xs)) v
    let verdict := s.verdict ⟨settings.keyPrefix⟩ (s.enclaveName enclave) caller policy w.backend
    let outcomes (xs : List Identity) : List Outcome := xs.map fun i => ⟨i.display, verdict i⟩
    ∀ xs, ∃ v₁, serve c xs v = some (.ok (.outcomes (outcomes xs)), v₁) ∧
      Permits settings v₁.backend caller (s.enclaveName enclave) (.assignPolicy policy) ∧
      (∀ ys c' v', v'.backend = v₁.backend → s.Lives c' v' → ∃ v₂ v₃,
        serve c' ys v' = some (.ok (.outcomes (outcomes ys)), v₂) ∧
        serve c (xs ++ ys) v = some (.ok (.outcomes (outcomes xs ++ outcomes ys)), v₃) ∧
        v₃.backend.SameButTimes v₂.backend) ∧
      ∀ i, verdict i ≠ .ok () →
        (∃ v₂, serve c (xs ++ [i]) v =
            some (.ok (.outcomes (outcomes xs ++ [⟨i.display, verdict i⟩])), v₂) ∧
          v₂.backend = v₁.backend) ∧
        ∀ ys, ∃ v₂ v₃,
          serve c (xs ++ i :: ys) v =
            some (.ok (.outcomes (outcomes xs ++ ⟨i.display, verdict i⟩ :: outcomes ys)), v₂) ∧
          serve c (xs ++ ys) v = some (.ok (.outcomes (outcomes xs ++ outcomes ys)), v₃) ∧
          v₂.backend.SameButTimes v₃.backend := by
  rw [← hsame] at hpermits ⊢
  intro serve verdict outcomes xs
  have hv : v.backend.Tidy := hsame ▸ hreached.tidy htidy
  have hserved := exists_serve?_assignPolicy hmade hlives hv he hpermits
  have hmap (xs ys : List Identity) : outcomes (xs ++ ys) = outcomes xs ++ outcomes ys :=
    List.map_append
  obtain ⟨v₁, hfirst, hgives⟩ := hserved xs
  have hstill : Permits settings v₁.backend caller (s.enclaveName enclave)
      (.assignPolicy policy) :=
    hpermits.of_gives hgives he fun hcaller => verdict_caller_ne_ok _ hcaller.2
  refine ⟨v₁, hfirst, hstill, fun ys c' v' hlater hlives' => ?_,
    fun i hrefused => ⟨?_, fun ys => ?_⟩⟩
  · obtain ⟨v₃, hboth, hall⟩ := hserved (xs ++ ys)
    rw [← hlater] at hstill hgives
    obtain ⟨v₂, hsecond, hgives'⟩ :=
      exists_serve?_assignPolicy hmade hlives' hgives.tidy he hstill ys
    simp only [verdict_eq_of_gives hgives hv he] at hsecond hgives'
    refine ⟨v₂, v₃, hsecond, hmap xs ys ▸ hboth, hall.sameButTimes ?_⟩
    refine (hgives.trans hgives').congr fun j => ?_
    rw [List.mem_append, or_and_right]
  · obtain ⟨v₂, hlast, -⟩ := hserved (xs ++ [i])
    exact ⟨v₂, hmap xs [i] ▸ hlast,
      backend_serve?_concat hmade hlives hv he hpermits hrefused hfirst hlast⟩
  · obtain ⟨v₂, hwith, hgives₂⟩ := hserved (xs ++ i :: ys)
    obtain ⟨v₃, hwithout, hgives₃⟩ := hserved (xs ++ ys)
    refine ⟨v₂, v₃, hmap xs (i :: ys) ▸ hwith, hmap xs ys ▸ hwithout,
      hgives₂.sameButTimes (hgives₃.congr fun j => ?_)⟩
    -- the item itself is not among those to whom the policy is given
    refine and_congr_left fun hj => ?_
    have hother : j ≠ i := fun h => hrefused (h ▸ hj)
    rw [List.mem_append, List.mem_append, List.mem_cons, or_iff_right hother]

/-- The admin gives `ann` the policy `p`, and `ann` passes it on, with items that fail in
between. -/
theorem bulk_assignment_splits_passed_on :
    let s : Service := ⟨Layout.catalog ⟨""⟩, .ofAdmin (some ⟨"root"⟩), "default", 30⟩
    let settings : Settings := { Settings.default with admin := some ⟨"root"⟩ }
    let time := (World.calm (.memory .empty)).clock 0
    let p : Policy := ⟨["*"], [], some time, ⟨"root"⟩⟩
    let w := World.calm (.ofPolicy ⟨""⟩ "default" ⟨time, ⟨"root"⟩⟩ "p" p)
    let serve (caller : Identity) (xs : List Identity) (w : World Unit) :=
      s.serve? (.ofToken []) caller (.command "" (.assignPolicy "p" xs)) w
    let xs : List Identity := [⟨"bob"⟩, .unknown, ⟨"bob"⟩]
    let ys : List Identity := [⟨"ann"⟩, ⟨"root"⟩, ⟨"a/b"⟩, ⟨"eve"⟩]
    let first : List Outcome := [⟨"bob", .ok ()⟩,
      ⟨"<unknown>", .error (.invalid .assignToUnknown)⟩, ⟨"bob", .ok ()⟩]
    let second : List Outcome := [⟨"ann", .error (.invalid .assignToSelf)⟩,
      ⟨"root", .error (.invalid .assignToAdmin)⟩,
      ⟨"a/b", .error (.invalid (.illegalIdentity "a/b"))⟩, ⟨"eve", .ok ()⟩]
    ofSettings settings = .ok s ∧ w.backend.Tidy ∧ ∃ w₁,
      serve ⟨"root"⟩ [⟨"ann"⟩] w = some (.ok (.outcomes [⟨"ann", .ok ()⟩]), w₁) ∧
      Permits settings w₁.backend ⟨"ann"⟩ "default" (.assignPolicy "p") ∧ ∃ v₁ v₂ v₃,
        serve ⟨"ann"⟩ xs (.calm w₁.backend) = some (.ok (.outcomes first), v₁) ∧
        serve ⟨"ann"⟩ ys (.calm v₁.backend) = some (.ok (.outcomes second), v₂) ∧
        serve ⟨"ann"⟩ (xs ++ ys) (.calm w₁.backend) =
          some (.ok (.outcomes (first ++ second)), v₃) ∧
        v₃.backend.SameButTimes v₂.backend := by
  intro s settings time p w serve xs ys first second
  have hmade : ofSettings { Settings.default with admin := some ⟨"root"⟩ } = .ok s := rfl
  have he : ValidEnclaveName (s.enclaveName "") :=
    checkEnclaveName_eq_ok_iff.1 (by decide +kernel)
  have hgiven := eq_some_of_map_fst (x := serve ⟨"root"⟩ [⟨"ann"⟩] w)
    (a := .ok (.outcomes [⟨"ann", .ok ()⟩])) (by decide +kernel) w
  generalize hw₁ : ((serve ⟨"root"⟩ [⟨"ann"⟩] w).map Prod.snd).getD w = w₁ at hgiven
  have htidy : w.backend.Tidy := trivial
  have hlives (b : Backend) : s.Lives (.ofToken []) (World.calm b) :=
    ⟨⟨[0], some ⟨30, 0⟩⟩, ⟨1, []⟩, rfl, rfl⟩
  let registration : Registration := ⟨time, ⟨"root"⟩⟩
  let assignment : Assignment := ⟨"p", time, ⟨"root"⟩⟩
  let told (given : List Identity) : List Outcome := given.map fun i =>
    ⟨i.display, s.verdict ⟨""⟩ "default" ⟨"ann"⟩ "p" w₁.backend i⟩
  obtain ⟨hregistered, hassigned, hp, hann, hname, hrules, houtcomes, houtcomes'⟩ :
      w₁.backend.record? "sys/enclaves/default" = some registration ∧
        w₁.backend.record? "enclaves/default/identities/ann" = some assignment ∧
        w₁.backend.record? "enclaves/default/policies/p" = some p ∧
        Identity.check ⟨"ann"⟩ = .ok () ∧ checkName "policy" "p" = .ok () ∧
        (Policy.covers p.deny (Operation.assignPolicy "p").path = false ∧
          Policy.covers p.allow (Operation.assignPolicy "p").path = true) ∧
        told xs = first ∧ told ys = second := by
    subst hw₁
    decide +kernel
  have hpermits : Permits settings w₁.backend ⟨"ann"⟩ "default" (.assignPolicy "p") :=
    ⟨⟨_, hregistered⟩, .inr ⟨Identity.check_eq_ok_iff.1 hann, _, _, hassigned,
      checkName_eq_ok_iff.1 hname, hp, hrules⟩⟩
  obtain ⟨v₁, hfirst, -, hsplit, -⟩ := bulk_assignment_splits hmade htidy
    (.served (.start w) hgiven) he hpermits (v := .calm w₁.backend) rfl (hlives _) xs
  obtain ⟨v₂, v₃, hsecond, hboth, hsame⟩ :=
    hsplit ys (.ofToken []) (.calm v₁.backend) rfl (hlives _)
  have hreply {x : Option (Except Error Reply × World Unit)} {outcomes told : List Outcome}
      {v : World Unit} (hx : x = some (.ok (.outcomes outcomes), v)) (htold : outcomes = told) :
      x = some (.ok (.outcomes told), v) := htold ▸ hx
  exact ⟨hmade, htidy, w₁, hgiven, hpermits, v₁, v₂, v₃, hreply hfirst houtcomes,
    hreply hsecond houtcomes', hreply hboth (congrArg₂ (· ++ ·) houtcomes houtcomes'), hsame⟩

end Service

end KeyCustody
