import KeyCustody.Proofs.Calm
import KeyCustody.Proofs.Serving

/-!
# What callers learn of enclaves from their own description

A caller without an assignment asks the service about itself.  If the enclave is missing, it
is told that it has no policy.  If the enclave is registered, it is told so only if the
assignment is looked for and found missing.  An identity that cannot be stored is refused
before that look-up, and a store of files refuses names that are too long for it.  So the two
answers are the same for exactly the callers whose assignment can be looked for.  Main
statements:

* `Service.describeSelf_same_iff`: for which callers a missing enclave looks like one in
  which they have no policy;
* `Service.describeSelf_tells`: a caller that can tell the two.
-/

namespace KeyCustody

/-- An identity that cannot be stored is refused as an argument. -/
theorem Identity.refused_of_check {i : Identity} {err : Error} (h : i.check = .error err) :
    ∃ why, err = .invalid why := by
  unfold check at h
  split at h
  · exact ⟨_, (Except.error.inj h).symm⟩
  split at h
  · exact ⟨_, (Except.error.inj h).symm⟩
  split at h
  · exact ⟨_, (Except.error.inj h).symm⟩
  · cases h

/-! ### Look-ups of what is not stored -/

namespace Backend

/-- A look-up that nothing disturbs reports the name missing. -/
def Misses (b : Backend) (full : String) : Prop :=
  ∃ what, b.get (.steady false) full = .error (.notFound what)

/-- A store that is no directory misses what it does not hold. -/
theorem misses_iff_of_not_files {b : Backend} (hkind : ∀ d, b ≠ .files d) {full : String}
    (hfull : full ≠ "") : b.Misses full ↔ b.stored? full = none := by
  have hkey := requireKey_of_ne hfull
  have helim (found : Option Bytes) :
      (∃ what, found.elim (.error (Error.notFound full)) Except.ok = .error (.notFound what)) ↔
        found = none := by
    cases found <;> simp
  cases b with
  | memory t => exact helim (t.get? full)
  | database t =>
      simp only [Misses, get, hkey]
      exact helim (t.get? full)
  | files d => exact absurd rfl (hkind d)

/-- No look-up reports that an identity has no policy. -/
theorem get_ne_unassigned (b : Backend) (sig : Signal) (full who : String) :
    b.get sig full ≠ .error (.unassigned who) := by
  have hwhole := sig.whole_cases
  have hkey := requireKey_cases full
  have helim (found : Option Bytes) :
      found.elim (.error (Error.notFound full)) Except.ok ≠ .error (.unassigned who) := by
    cases found <;> simp
  have hfile (e : FileError) : e.toError full ≠ .unassigned who := by
    cases e <;> simp [FileError.toError]
  cases b with
  | memory t =>
      rcases hwhole with hs | hs <;> simp only [get, hs, bind, Except.bind]
      · exact helim _
      · simp
  | database t =>
      rcases hkey with hk | hk <;> rcases hwhole with hs | hs <;>
        simp only [get, hk, hs, bind, Except.bind]
      · exact helim _
      all_goals simp
  | files d =>
      rcases hkey with hk | hk <;> rcases hwhole with hs | hs <;>
        simp only [get, DataDir.get, hk, hs, bind, Except.bind]
      · cases d.read (FileName.encode full) with
        | ok content => simp [Except.mapError]
        | error e => simpa [Except.mapError] using hfile e
      all_goals simp

/-- A look-up of what is not stored reports it missing or fails otherwise. -/
theorem get_of_not_stored {b : Backend} {full : String} (hstored : b.stored? full = none)
    (hmisses : ¬ b.Misses full) :
    ∃ err, b.get (.steady false) full = .error err ∧ err.isNotFound = false ∧
      ∀ who, err ≠ .unassigned who := by
  cases hget : b.get (.steady false) full with
  | ok value =>
      rw [stored?_of_get hget] at hstored
      cases hstored
  | error err =>
      refine ⟨err, rfl, ?_, ?_⟩
      · cases err with
        | notFound what => exact absurd ⟨what, hget⟩ hmisses
        | _ => rfl
      · rintro who rfl
        exact b.get_ne_unassigned _ _ who hget

end Backend

section Calm

variable {w : World Unit} {c : Context} {l : Layout} {e : String} {i : Identity}

/-- A look-up that fails fails for a cabinet too. -/
theorem Cabinet.run_find?_of_error {α : Type} [Record α] {space name : String} {err : Error}
    (hlive : w.ended c = false) (hname : name ≠ "")
    (hget : w.backend.get (.steady false) (space ++ name) = .error err)
    (hfound : err.isNotFound = false) :
    ((under space : Cabinet α).find? name).attempt.run c w = (.error err, w) := by
  have hread : ((under space : Cabinet α).get name).attempt.run c w = (.error err, w) := by
    unfold get
    rw [Routine.run_bind, View.run_get_calm hlive hname, hget]
    cases err with
    | notFound what => cases hfound
    | _ => rfl
  unfold find?
  rw [Routine.run_handle, hread]
  cases err with
  | notFound what => cases hfound
  | _ => rfl

namespace Enclave

/-- An identity that cannot be stored is refused before its assignment is looked for. -/
theorem run_describeIdentity_of_refused {refusal : Error} (hknown : i ≠ .unknown)
    (hrefused : i.check = .error refusal) :
    ((l.handle e).describeIdentity i).attempt.run c w = (.error refusal, w) := by
  have hfound : ((l.handle e).findAssignment i).attempt.run c w = (.error refusal, w) := by
    unfold findAssignment
    rw [if_neg (mt Identity.isUnknown_iff.1 hknown), hrefused]
    rfl
  unfold describeIdentity
  rw [Routine.run_bind, hfound]

/-- The assignment of a valid identity is looked for. -/
theorem run_describeIdentity_of_find? {found : Except Error (Option Assignment)}
    (hvalid : i.Valid)
    (hfind : ((l.handle e).assignments.find? i.text).attempt.run c w = (found, w)) :
    ((l.handle e).describeIdentity i).attempt.run c w =
      (found.bind fun a => (a.map (·.info i)).elim
        (.error (.notFound ("identity " ++ i.display))) .ok, w) := by
  have hknown : i.isUnknown = false := by simpa [Identity.isUnknown] using hvalid.known
  have hfound : ((l.handle e).findAssignment i).attempt.run c w = (found, w) := by
    unfold findAssignment
    rw [hknown, Identity.check_eq_ok_iff.2 hvalid]
    exact hfind
  unfold describeIdentity
  rw [Routine.run_bind, hfound]
  rcases found with err | (_ | a) <;> rfl

/-- A registration that is missing is reported missing. -/
theorem run_ensureRegistered_of_misses (hlive : w.ended c = false) (he : e ≠ "")
    (hmisses : w.backend.Misses (l.record e)) :
    (l.handle e).ensureRegistered.attempt.run c w = (.error (enclaveMissing e), w) := by
  obtain ⟨what, hget⟩ := hmisses
  have hfound : ((l.handle e).registry.find? (l.handle e).name).attempt.run c w =
      (.ok none, w) := Cabinet.run_find?_of_missing hlive he hget
  unfold ensureRegistered
  rw [Routine.run_bind, hfound]
  rfl

end Enclave

namespace Service

variable {s : Service} {caller : Identity} {enclave : String}

/-- An enclave with a valid name is opened if its registration is found. -/
theorem run_registered_of_ensured (hover : s.Over l) (he : ValidEnclaveName e)
    {ensured : Except Error Unit}
    (hensured : (l.handle e).ensureRegistered.attempt.run c w = (ensured, w)) :
    (s.registry.registered e).attempt.run c w = (ensured.map fun _ => l.handle e, w) := by
  unfold Registry.registered
  rw [hover.handle_eq_ok_iff.2 ⟨he, rfl⟩]
  change ((l.handle e).ensureRegistered >>= fun _ => pure (l.handle e)).attempt.run c w = _
  rw [Routine.run_bind, hensured]
  cases ensured <;> rfl

/-- A registered enclave is opened. -/
theorem run_registered_of_record (hover : s.Over l) (he : ValidEnclaveName e)
    (hlive : w.ended c = false) {registration : Registration}
    (hregistered : w.backend.record? (l.record e) = some registration) :
    (s.registry.registered e).attempt.run c w = (.ok (l.handle e), w) :=
  run_registered_of_ensured hover he
    (Enclave.run_ensureRegistered_of_record hlive he.nonempty hregistered)

/-- A caller is told that it has no policy in an enclave that is missing. -/
theorem run_describeSelf_of_missing (hover : s.Over l)
    (hadmin : s.authorizer.isAdmin caller = false) (he : ValidEnclaveName (s.enclaveName enclave))
    (hlive : w.ended c = false) (hmissing : w.backend.Misses (l.record (s.enclaveName enclave))) :
    (s.describeSelf caller enclave).attempt.run c w =
      (.error (.unassigned caller.display), w) := by
  unfold describeSelf
  by_cases hunknown : caller.isUnknown = true
  · rw [if_pos hunknown]
    rfl
  rw [if_neg hunknown, hadmin]
  rw [Routine.run_handle, run_registered_of_ensured hover he
    (Enclave.run_ensureRegistered_of_misses hlive he.nonempty hmissing)]
  rfl

/-- In a registered enclave a caller is told what was found of its assignment. -/
theorem run_describeSelf_of_error (hover : s.Over l)
    (hadmin : s.authorizer.isAdmin caller = false) (he : ValidEnclaveName (s.enclaveName enclave))
    (hlive : w.ended c = false) {registration : Registration}
    (hregistered : w.backend.record? (l.record (s.enclaveName enclave)) = some registration)
    (hknown : caller ≠ .unknown) {err : Error}
    (hdescribed : ((l.handle (s.enclaveName enclave)).describeIdentity caller).attempt.run c w =
      (.error err, w)) :
    (s.describeSelf caller enclave).attempt.run c w =
      (.error (if err.isNotFound then .unassigned caller.display else err), w) := by
  unfold describeSelf
  rw [if_neg (mt Identity.isUnknown_iff.1 hknown), hadmin, Routine.run_handle,
    run_registered_of_record hover he hlive hregistered]
  change (((l.handle (s.enclaveName enclave)).describeIdentity caller).handle _).attempt.run
    c w = _
  rw [Routine.run_handle, hdescribed]
  cases err <;> rfl

/-- What the service answers to a caller that asks about itself. -/
def selfAnswer? (s : Service) (c : Context) (caller : Identity) (enclave : String)
    (w : World Unit) : Option (Except Error Reply) :=
  (s.serve? c caller (.describeSelf enclave) w).map Prod.fst

theorem selfAnswer?_of_run {err : Error} (hlives : s.Lives c w)
    (hrun : ∀ c' tokens, ({ w with tokens := tokens } : World Unit).ended c' = false →
      ((s.describeSelf caller enclave).attempt.run c' { w with tokens := tokens }).1 =
        .error err) :
    s.selfAnswer? c caller enclave w = some (.error err) := by
  obtain ⟨c', tokens, hcontext, hlive⟩ := hlives
  have hserved : s.run? c (s.describeSelf caller enclave).attempt w =
      some (.error err, ((s.describeSelf caller enclave).attempt.run c'
        { w with tokens := tokens }).2) :=
    run?_eq_some_iff.2 ⟨c', tokens, hcontext, Prod.ext (hrun c' tokens hlive) rfl⟩
  unfold selfAnswer?
  rw [serve?, hserved]
  rfl

/-- **Who can tell a missing enclave from one without an assignment.**  Nothing goes wrong, and
a caller other than the admin has no assignment in a registered enclave.  Where the enclave is
missing, it is told that it has no policy.  It is told the same in both cases exactly if it
is the unknown identity, or if its identity can be stored and the assignment is reported
missing; an identity that cannot be stored is refused for it where the enclave is registered. -/
theorem describeSelf_same_iff (hover : s.Over l) (hadmin : s.authorizer.isAdmin caller = false)
    (he : ValidEnclaveName (s.enclaveName enclave)) {w w' : World Unit} {c c' : Context}
    (hlives : s.Lives c w) (hlives' : s.Lives c' w') {registration : Registration}
    (hregistered : w.backend.record? (l.record (s.enclaveName enclave)) = some registration)
    (hunassigned : w.backend.stored?
      (l.identities (s.enclaveName enclave) ++ caller.text) = none)
    (hmissing : w'.backend.Misses (l.record (s.enclaveName enclave))) :
    s.selfAnswer? c' caller enclave w' = some (.error (.unassigned caller.display)) ∧
      (s.selfAnswer? c caller enclave w = s.selfAnswer? c' caller enclave w' ↔
        caller = .unknown ∨ caller.Valid ∧
          w.backend.Misses (l.identities (s.enclaveName enclave) ++ caller.text)) ∧
      ∀ refusal, caller ≠ .unknown → caller.check = .error refusal →
        s.selfAnswer? c caller enclave w = some (.error refusal) := by
  have hfound (err : Error) (hknown : caller ≠ .unknown)
      (hdescribed : ∀ w₁ : World Unit, w₁.backend = w.backend → ∀ c₁, w₁.ended c₁ = false →
        ((l.handle (s.enclaveName enclave)).describeIdentity caller).attempt.run c₁ w₁ =
          (.error err, w₁)) :
      s.selfAnswer? c caller enclave w =
        some (.error (if err.isNotFound then .unassigned caller.display else err)) :=
    selfAnswer?_of_run hlives fun c₁ tokens hlive => congrArg Prod.fst
      (run_describeSelf_of_error hover hadmin he hlive hregistered hknown
        (hdescribed { w with tokens := tokens } rfl c₁ hlive))
  have hrefused (refusal : Error) (hknown : caller ≠ .unknown)
      (hcheck : caller.check = .error refusal) :
      s.selfAnswer? c caller enclave w = some (.error refusal) := by
    obtain ⟨why, rfl⟩ := Identity.refused_of_check hcheck
    exact hfound _ hknown fun _ _ _ _ => Enclave.run_describeIdentity_of_refused hknown hcheck
  have hhidden : s.selfAnswer? c' caller enclave w' =
      some (.error (.unassigned caller.display)) :=
    selfAnswer?_of_run hlives' fun c₁ tokens hlive => congrArg Prod.fst
      (run_describeSelf_of_missing hover hadmin he hlive hmissing)
  refine ⟨hhidden, ?_, hrefused⟩
  rw [hhidden]
  by_cases hknown : caller = .unknown
  · have hunknown : s.selfAnswer? c caller enclave w =
        some (.error (.unassigned caller.display)) := by
      apply selfAnswer?_of_run hlives
      intro c₁ tokens _
      unfold describeSelf
      rw [if_pos (Identity.isUnknown_iff.2 hknown)]
      rfl
    exact ⟨fun _ => .inl hknown, fun _ => hunknown⟩
  cases hcheck : caller.check with
  | error refusal =>
      have hinvalid : ¬ caller.Valid := by
        intro hvalid
        rw [Identity.check_eq_ok_iff.2 hvalid] at hcheck
        cases hcheck
      obtain ⟨why, rfl⟩ := Identity.refused_of_check hcheck
      simp [hrefused _ hknown hcheck, hknown, hinvalid]
  | ok _ =>
      have hvalid := Identity.check_eq_ok_iff.1 hcheck
      rw [Layout.identities_eq_space] at hunassigned ⊢
      by_cases hmisses : w.backend.Misses
          (l.space .assignment (s.enclaveName enclave) ++ caller.text)
      · obtain ⟨what, hget⟩ := id hmisses
        have hdescribed := hfound _ hknown fun w₁ hsame c₁ hlive =>
          Enclave.run_describeIdentity_of_find? hvalid
            (Cabinet.run_find?_of_missing hlive hvalid.known (hsame ▸ hget))
        exact ⟨fun _ => .inr ⟨hvalid, hmisses⟩, fun _ => hdescribed⟩
      · obtain ⟨err, hget, hnotFound, hother⟩ :=
          Backend.get_of_not_stored hunassigned hmisses
        have hdescribed := hfound _ hknown fun w₁ hsame c₁ hlive =>
          Enclave.run_describeIdentity_of_find? hvalid
            (Cabinet.run_find?_of_error hlive hvalid.known (hsame ▸ hget) hnotFound)
        rw [hnotFound, if_neg Bool.false_ne_true] at hdescribed
        simp [hdescribed, hother, hknown, hmisses]

/-- To a stranger whose identity can be stored, an enclave that is missing looks like one that
is registered. -/
theorem describeSelf_same_iff_stranger :
    let s : Service := ⟨Layout.catalog ⟨""⟩, .ofAdmin (some ⟨"root"⟩), "default", 30⟩
    let registration : Registration := ⟨(World.calm (.memory .empty)).clock 0, ⟨"root"⟩⟩
    let w := World.calm (.memory (Table.empty.insert "sys/enclaves/e" (Record.encode registration)))
    let w' := World.calm (.memory .empty)
    let stranger := Identity.ofText "stranger"
    s.selfAnswer? (.ofToken []) stranger "e" w' = some (.error (.unassigned "stranger")) ∧
      s.selfAnswer? (.ofToken []) stranger "e" w =
        s.selfAnswer? (.ofToken []) stranger "e" w' := by
  intro s registration w w' stranger
  have hmade : ofSettings { Settings.default with admin := some ⟨"root"⟩ } = .ok s := rfl
  have hover := over_of_ofSettings hmade
  have he : ValidEnclaveName (s.enclaveName "e") :=
    checkEnclaveName_eq_ok_iff.1 (by decide +kernel)
  have hadmin : s.authorizer.isAdmin stranger = false := by decide
  have hlives (b : Backend) : s.Lives (.ofToken []) (World.calm b) :=
    ⟨⟨[0], some ⟨30, 0⟩⟩, ⟨1, []⟩, rfl, rfl⟩
  have hregistered : w.backend.record? "sys/enclaves/e" = some registration := by decide +kernel
  have hunassigned : w.backend.stored? "enclaves/e/identities/stranger" = none := by
    decide +kernel
  have hmisses (t : Table) {full : String} (hfull : full ≠ "") (hnone : t.get? full = none) :
      (Backend.memory t).Misses full :=
    (Backend.misses_iff_of_not_files (by simp) hfull).2 hnone
  have hmissing : w'.backend.Misses "sys/enclaves/e" := hmisses _ (by decide) rfl
  have hvalid : stranger.Valid := Identity.check_eq_ok_iff.1 (by decide +kernel)
  obtain ⟨hhidden, hsame, -⟩ :=
    describeSelf_same_iff hover hadmin he (hlives _) (hlives _) hregistered hunassigned hmissing
  exact ⟨hhidden, hsame.2 (.inr ⟨hvalid, hmisses _ (by decide) hunassigned⟩)⟩

/-- A caller whose identity cannot be stored is refused for it where the enclave is registered,
and is told that it has no policy where the enclave is missing. -/
theorem describeSelf_tells :
    let s : Service := ⟨Layout.catalog ⟨""⟩, .ofAdmin (some ⟨"root"⟩), "default", 30⟩
    let registration : Registration := ⟨(World.calm (.memory .empty)).clock 0, ⟨"root"⟩⟩
    let b : Backend := .memory (Table.empty.insert "sys/enclaves/e" (Record.encode registration))
    let caller := Identity.ofText "a/b"
    ofSettings { Settings.default with admin := some ⟨"root"⟩ } = .ok s ∧
      s.authorizer.isAdmin caller = false ∧ ValidEnclaveName "e" ∧
      b.stored? "enclaves/e/identities/a/b" = none ∧
      s.selfAnswer? (.ofToken []) caller "e" (.calm b) =
        some (.error (.invalid (.illegalIdentity "a/b"))) ∧
      s.selfAnswer? (.ofToken []) caller "e" (.calm (.memory .empty)) =
        some (.error (.unassigned "a/b")) := by
  intro s registration b caller
  refine ⟨rfl, ?_, checkEnclaveName_eq_ok_iff.1 rfl, ?_, ?_, ?_⟩
  all_goals decide +kernel

end Service

end Calm

end KeyCustody
