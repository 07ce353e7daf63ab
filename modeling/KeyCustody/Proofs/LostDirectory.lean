import KeyCustody.Proofs.Authorization
import KeyCustody.Proofs.SelfDescription

/-!
# Lost directories

The root of a data directory gets lost in two ways: it is removed, or a file is put in its place.
The file system has two errors for that.  That something on the way is no directory says that the
store is broken, and is passed on as such.  That a file is missing is what a look-up of a name
that was never stored says too; so where the root was removed, nothing but the question for its
status tells a lost store from an empty one.

Whatever is built on look-ups makes of a loss what look-ups make of it.  A store is *mute* if
every look-up fails and none for want of the name; over a mute store nothing is decided and
nothing is reported missing.  Main statements:

* `DataDir.get_of_lost`, `DataDir.create_of_lost`: what single accesses report;
* `Backend.mute_of_file`: a file in place of the root makes the store mute;
* `Service.run_gate_of_mute`: what calls report over a mute store;
* `Service.loss_surfaces_iff`: which losses surface, and what becomes of the others;
* `Service.removed_root_reads_as_absence`: a root that was removed.
-/

namespace KeyCustody

/-! ### Single accesses -/

namespace DataDir

variable {d : DataDir} {name : String} {e : FileError}

/-- The file system can be asked for the name: it is not empty and its path is not too long. -/
structure Admits (d : DataDir) (name : String) : Prop where
  named : name ≠ ""
  fits : d.isLongPath (FileName.encode name) = false

/-- A file name that a directory can hold has no path that is too long. -/
theorem isLongPath_of_short {file : Bytes} (hshort : file.length ≤ maxFileName) :
    d.isLongPath file = false := by
  simp [isLongPath, Nat.not_lt.2 hshort]

/-- Every name that a file can have can be asked for. -/
theorem Admits.of_short (hnamed : name ≠ "")
    (hshort : (FileName.encode name).length ≤ maxFileName) : d.Admits name :=
  ⟨hnamed, isLongPath_of_short hshort⟩

/-- The two ways in which a root gets lost, by the error of the file system. -/
theorem entries_eq_error_iff :
    d.entries = .error e ↔
      d.root = .missing ∧ e = .missing ∨ d.root = .file ∧ e = .notFolder := by
  unfold entries
  cases d.root <;> grind

/-- In a lost directory a file is looked for in vain. -/
theorem find_of_lost (hlost : d.entries = .error e) {file : Bytes}
    (hfits : d.isLongPath file = false) : d.find file = .error e := by
  unfold find
  rw [hfits, hlost]
  rfl

/-- A look-up in a lost directory reports the loss as the file system does. -/
theorem get_of_lost (hlost : d.entries = .error e) (hname : d.Admits name) :
    d.get (.steady false) name = .error (e.toError name) := by
  unfold get read
  rw [requireKey_of_ne hname.named, find_of_lost hlost hname.fits]
  rfl

/-- A look-up of a name whose path is too long is refused. -/
theorem get_of_long (hnamed : name ≠ "") (hlong : d.isLongPath (FileName.encode name) = true) :
    d.get (.steady false) name = .error (.invalid (.longFileName name)) := by
  unfold get read find
  rw [requireKey_of_ne hnamed, hlong]
  rfl

/-- A creation in a lost directory fails at its temporary file, whatever the name, and changes
nothing. -/
theorem create_of_lost (hlost : d.entries = .error e) (hnamed : name ≠ "") (value : Bytes) :
    d.create (.steady false) name value = (.error (e.toError name), d) := by
  have htemp : d.freshTemp = tempName 0 := by
    unfold freshTemp
    rcases entries_eq_error_iff.1 hlost with ⟨hroot, -⟩ | ⟨hroot, -⟩ <;> rw [hroot]
  have hfind : d.find d.freshTemp = .error e := by
    rw [htemp]
    exact find_of_lost hlost (isLongPath_of_short (by decide +kernel))
  rw [create_eq, requireKey_of_ne hnamed]
  simp only [Signal.steady, Bool.false_eq_true, if_false, hfind]

/-- A listing of a lost directory reports the loss of its root. -/
theorem scan_of_lost (hlost : d.entries = .error e) :
    d.scan (.steady false) = .error (e.toError d.path) := by
  unfold scan fileNames
  rw [hlost]
  rfl

/-- The status of a lost directory always tells that it cannot be reached. -/
theorem status_of_lost (hlost : d.entries = .error e) :
    ∃ why, d.status (.steady false) = .error (.unreachable why) := by
  unfold status
  rcases entries_eq_error_iff.1 hlost with ⟨hroot, -⟩ | ⟨hroot, -⟩ <;> rw [hroot] <;>
    exact ⟨_, rfl⟩

end DataDir

namespace Backend

variable {d : DataDir} {e : FileError}

/-- Every look-up fails, and none for want of the name. -/
def Mute (b : Backend) : Prop :=
  ∀ full, full ≠ "" → ∃ err, b.get (.steady false) full = .error err ∧ err.isNotFound = false ∧
    ∀ who, err ≠ .unassigned who

/-- A file in place of the root makes the store mute. -/
theorem mute_of_file (hroot : d.root = .file) : (Backend.files d).Mute := by
  have hlost : d.entries = .error .notFolder := DataDir.entries_eq_error_iff.2 (.inr ⟨hroot, rfl⟩)
  intro full hnamed
  cases hlong : d.isLongPath (FileName.encode full) with
  | true => exact ⟨_, DataDir.get_of_long hnamed hlong, rfl, nofun⟩
  | false => exact ⟨_, DataDir.get_of_lost hlost ⟨hnamed, hlong⟩, rfl, nofun⟩

/-- Where the root was removed, every name reads as one that was never stored. -/
theorem misses_of_missing (hroot : d.root = .missing) {full : String} (hfull : d.Admits full) :
    (Backend.files d).Misses full :=
  ⟨full, DataDir.get_of_lost (DataDir.entries_eq_error_iff.2 (.inl ⟨hroot, rfl⟩)) hfull⟩

/-- A listing of a lost directory does not start. -/
theorem list_of_lost (hlost : d.entries = .error e) (pattern : String) :
    (Backend.files d).list (.steady false) pattern = .error (e.toError d.path) := by
  have hscan := DataDir.scan_of_lost hlost
  simp only [list, hscan]
  rfl

end Backend

section Calm

variable {w : World Unit} {c : Context} {l : Layout} {e : String} {i : Identity} {err : Error}

/-! ### Registrations and assignments -/

namespace Enclave

/-- A registration that cannot be looked up is not reported missing. -/
theorem run_ensureRegistered_of_mute (hmute : w.backend.Mute) (hlive : w.ended c = false)
    (he : e ≠ "") :
    ∃ err, (l.handle e).ensureRegistered.attempt.run c w = (.error err, w) ∧
      err.isNotFound = false := by
  obtain ⟨err, hget, hother, -⟩ := hmute (l.record e) (extend_ne he)
  have hfound : ((l.handle e).registry.find? (l.handle e).name).attempt.run c w =
      (.error err, w) := Cabinet.run_find?_of_error hlive he hget hother
  refine ⟨err, ?_, hother⟩
  unfold ensureRegistered
  rw [Routine.run_bind, hfound]

/-- The assignment of a valid identity is looked for. -/
theorem findAssignment_of_valid (hvalid : i.Valid) (h : Enclave) :
    h.findAssignment i = h.assignments.find? i.text := by
  have hknown : i.isUnknown = false := by simpa [Identity.isUnknown] using hvalid.known
  unfold findAssignment
  rw [hknown, Identity.check_eq_ok_iff.2 hvalid]
  rfl

/-- Over a mute store no identity is found without an assignment. -/
theorem run_findAssignment_of_mute (hmute : w.backend.Mute) (hlive : w.ended c = false)
    (hknown : i ≠ .unknown) :
    ∃ err, ((l.handle e).findAssignment i).attempt.run c w = (.error err, w) ∧
      err.isNotFound = false ∧ ∀ who, err ≠ .unassigned who := by
  cases hcheck : i.check with
  | error refusal =>
      obtain ⟨why, rfl⟩ := Identity.refused_of_check hcheck
      unfold findAssignment
      rw [if_neg (mt Identity.isUnknown_iff.1 hknown), hcheck]
      exact ⟨_, rfl, rfl, nofun⟩
  | ok _ =>
      have hvalid := Identity.check_eq_ok_iff.1 hcheck
      obtain ⟨err, hget, hother, hassigned⟩ :=
        hmute (l.space .assignment e ++ i.text) (extend_ne hvalid.known)
      rw [findAssignment_of_valid hvalid]
      exact ⟨err, Cabinet.run_find?_of_error hlive hvalid.known hget hother, hother, hassigned⟩

end Enclave

/-! ### Decisions -/

namespace Authorizer

variable {a : Authorizer} {path : String}

/-- An identity that is neither unknown nor the admin is decided on by its policy. -/
theorem run_decide_of_known (hknown : i ≠ .unknown) (hadmin : a.isAdmin i = false)
    (hresolved : ((l.handle e).resolvePolicy i).attempt.run c w = (.error err, w)) :
    ((∃ who, err = .unassigned who) →
        (a.decide (l.handle e) i path).attempt.run c w = (.ok .deny, w)) ∧
      (err.isNotFound = false → (∀ who, err ≠ .unassigned who) →
        (a.decide (l.handle e) i path).attempt.run c w = (.error err, w)) := by
  unfold decide
  rw [if_neg (mt Identity.isUnknown_iff.1 hknown), hadmin]
  change (_ → (((l.handle e).resolvePolicy i).handle _).attempt.run c w = _) ∧
    (_ → _ → (((l.handle e).resolvePolicy i).handle _).attempt.run c w = _)
  rw [Routine.run_handle, hresolved]
  refine ⟨?_, fun hother hassigned => ?_⟩
  · rintro ⟨who, rfl⟩
    rfl
  · cases err with
    | notFound what => cases hother
    | unassigned who => exact absurd rfl (hassigned who)
    | _ => rfl

/-- Without an assignment the decision is to deny. -/
theorem run_decide_of_misses (hlive : w.ended c = false) (hvalid : i.Valid)
    (hadmin : a.isAdmin i = false)
    (hmisses : w.backend.Misses (l.space .assignment e ++ i.text)) :
    (a.decide (l.handle e) i path).attempt.run c w = (.ok .deny, w) := by
  obtain ⟨what, hget⟩ := hmisses
  have hknown : i ≠ .unknown := fun h => hvalid.known (congrArg Identity.text h)
  have hfound : ((l.handle e).findAssignment i).attempt.run c w = (.ok none, w) := by
    rw [Enclave.findAssignment_of_valid hvalid]
    exact Cabinet.run_find?_of_missing hlive hvalid.known hget
  have hresolved : ((l.handle e).resolvePolicy i).attempt.run c w =
      (.error (.unassigned i.display), w) := by
    unfold Enclave.resolvePolicy Enclave.resolve
    rw [Routine.run_bind, Routine.run_bind, hfound]
    rfl
  exact (run_decide_of_known hknown hadmin hresolved).1 ⟨_, rfl⟩

/-- Over a mute store nothing is decided on identities that are neither unknown nor the admin. -/
theorem run_decide_of_mute (hmute : w.backend.Mute) (hlive : w.ended c = false)
    (hknown : i ≠ .unknown) (hadmin : a.isAdmin i = false) (path : String) :
    ∃ err, (a.decide (l.handle e) i path).attempt.run c w = (.error err, w) ∧
      err.isNotFound = false := by
  obtain ⟨err, hfound, hother, hassigned⟩ :=
    Enclave.run_findAssignment_of_mute (l := l) (e := e) hmute hlive hknown
  have hresolved : ((l.handle e).resolvePolicy i).attempt.run c w = (.error err, w) := by
    unfold Enclave.resolvePolicy Enclave.resolve
    rw [Routine.run_bind, Routine.run_bind, hfound]
  exact ⟨err, (run_decide_of_known hknown hadmin hresolved).2 hother hassigned, hother⟩

/-- The admin is let through without a look at the store. -/
theorem run_decide_of_admin (hadmin : a.isAdmin i = true) (h : Enclave) :
    (a.decide h i path).attempt.run c w = (.ok .allow, w) := by
  have hknown : i ≠ .unknown := by
    rintro rfl
    rw [isAdmin_unknown] at hadmin
    cases hadmin
  unfold decide
  rw [if_neg (mt Identity.isUnknown_iff.1 hknown), hadmin]
  rfl

end Authorizer

/-! ### Calls -/

/-- A name that is no valid enclave name is refused as an argument. -/
theorem refused_of_checkEnclaveName {name : String} (h : checkEnclaveName name = .error err) :
    ∃ why, err = .invalid why := by
  unfold checkEnclaveName checkName at h
  simp only [bind, Except.bind] at h
  grind

namespace Service

variable {s : Service} {caller : Identity} {enclave : String} {op : Operation}

/-- What has no handle is refused as an argument. -/
theorem refused_of_handle (hover : s.Over l) {name : String}
    (h : s.registry.handle name = .error err) : ∃ why, err = .invalid why := by
  cases hname : checkEnclaveName name with
  | ok _ =>
      rw [hover.handle_eq_ok_iff.2 ⟨checkEnclaveName_eq_ok_iff.1 hname, rfl⟩] at h
      cases h
  | error err' =>
      rw [Registry.handle, hname] at h
      obtain rfl : err' = err := Except.error.inj h
      exact refused_of_checkEnclaveName hname

/-- The gate of a valid scope is the decision, and then the look-up of the registration. -/
theorem run_gate_of_valid (hover : s.Over l) (hscope : ValidEnclaveName (s.scope enclave op)) :
    (s.gate caller enclave op).attempt.run c w =
      (s.authorizer.authorize (l.handle (s.scope enclave op)) caller op >>= fun _ =>
        (l.handle (s.scope enclave op)).ensureRegistered >>= fun _ =>
          pure (l.handle (s.scope enclave op))).attempt.run c w := by
  unfold gate
  rw [hover.handle_eq_ok_iff.2 ⟨hscope, rfl⟩]
  rfl

/-- The gate lets the admin through if the scope is registered. -/
theorem run_gate_of_admin (hover : s.Over l) (hscope : ValidEnclaveName (s.scope enclave op))
    (hadmin : s.authorizer.isAdmin caller = true)
    (hregistered : (l.handle (s.scope enclave op)).ensureRegistered.attempt.run c w =
      (.error err, w)) :
    (s.gate caller enclave op).attempt.run c w = (.error err, w) := by
  rw [run_gate_of_valid hover hscope]
  unfold Authorizer.authorize
  rw [Routine.run_bind, Routine.run_bind, Authorizer.run_decide_of_admin hadmin]
  change ((l.handle (s.scope enclave op)).ensureRegistered >>= fun _ =>
    pure (l.handle (s.scope enclave op))).attempt.run c w = _
  rw [Routine.run_bind, hregistered]

/-- A gate over a mute store lets nothing through, and reports nothing missing. -/
theorem run_gate_of_mute (hover : s.Over l) (hmute : w.backend.Mute) (hlive : w.ended c = false) :
    ∃ err, (s.gate caller enclave op).attempt.run c w = (.error err, w) ∧
      err.isNotFound = false := by
  cases hhandle : s.registry.handle (s.scope enclave op) with
  | error err =>
      obtain ⟨why, rfl⟩ := refused_of_handle hover hhandle
      unfold gate
      rw [hhandle]
      exact ⟨_, rfl, rfl⟩
  | ok h =>
      obtain ⟨hscope, rfl⟩ := hover.handle_eq_ok_iff.1 hhandle
      by_cases hadmin : s.authorizer.isAdmin caller = true
      · obtain ⟨err, hregistered, hother⟩ :=
          Enclave.run_ensureRegistered_of_mute (l := l) hmute hlive hscope.nonempty
        exact ⟨err, run_gate_of_admin hover hscope hadmin hregistered, hother⟩
      by_cases hknown : caller = .unknown
      · subst hknown
        exact ⟨_, run_gate_of_deny hhandle rfl, rfl⟩
      obtain ⟨err, hdecided, hother⟩ := Authorizer.run_decide_of_mute (l := l)
        (e := s.scope enclave op) hmute hlive hknown (Bool.eq_false_iff.2 hadmin) op.path
      refine ⟨err, ?_, hother⟩
      rw [run_gate_of_valid hover hscope]
      unfold Authorizer.authorize
      rw [Routine.run_bind, Routine.run_bind, hdecided]

/-- Whoever asks about itself over a mute store is told of nothing that it is missing. -/
theorem run_describeSelf_of_mute (hover : s.Over l) (hmute : w.backend.Mute)
    (hlive : w.ended c = false) (caller : Identity) (enclave : String) :
    ∃ err, ((s.describeSelf caller enclave).attempt.run c w).1 = .error err ∧
      err.isNotFound = false := by
  have hopened : ∃ err, (s.registry.registered (s.enclaveName enclave)).attempt.run c w =
      (.error err, w) ∧ err.isNotFound = false := by
    cases hhandle : s.registry.handle (s.enclaveName enclave) with
    | error err =>
        obtain ⟨why, rfl⟩ := refused_of_handle hover hhandle
        unfold Registry.registered
        rw [hhandle]
        exact ⟨_, rfl, rfl⟩
    | ok h =>
        obtain ⟨hname, rfl⟩ := hover.handle_eq_ok_iff.1 hhandle
        obtain ⟨err, hensured, hother⟩ :=
          Enclave.run_ensureRegistered_of_mute (l := l) hmute hlive hname.nonempty
        exact ⟨err, run_registered_of_ensured hover hname hensured, hother⟩
  unfold describeSelf
  split
  · exact ⟨_, rfl, rfl⟩
  obtain ⟨err, hopened, hother⟩ := hopened
  rw [Routine.run_handle, hopened]
  cases err with
  | notFound what => cases hother
  | _ => exact ⟨_, rfl, rfl⟩

/-! ### Losses -/

/-- A command, or the question of a caller about itself. -/
def Call.Asked : Call → Prop
  | .command _ _ | .describeSelf _ => True
  | .deletePolicies _ _ | .init | .health => False

/-- **The law of lost directories**: a loss is reported as a failure, by the store and by
everything above it, and nothing is reported missing and nobody denied for it. -/
structure SurfacesLoss (s : Service) (d : DataDir) : Prop where
  status : ∃ why, (Backend.files d).status (.steady false) = .error (.unreachable why)
  create : ∀ name value, d.Admits name →
    ∃ why, ((Backend.files d).create (.steady false) name value).1 = .error (.unreachable why)
  get : ∀ name, d.Admits name →
    ∃ why, (Backend.files d).get (.steady false) name = .error (.unreachable why)
  list : ∀ pattern,
    ∃ why, (Backend.files d).list (.steady false) pattern = .error (.unreachable why)
  decide : ∀ (w : World Unit) (c : Context) (caller : Identity) (e path : String) (h : Enclave),
    w.backend = .files d → w.ended c = false → s.registry.handle e = .ok h → caller.Valid →
      s.authorizer.isAdmin caller = false →
        ∃ err, ((s.authorizer.decide h caller path).attempt.run c w).1 = .error err
  calls : ∀ (w w' : World Unit) (c : Context) (caller : Identity) (call : Call)
    (r : Except Error Reply), w.backend = .files d → s.Lives c w → call.Asked →
      s.serve? c caller call w = some (r, w') → ∀ what, r ≠ .error (.notFound what)

/-- **How a loss goes unnoticed**: but for the status of the store, everything is answered as
over a directory in which nothing is stored. -/
structure HidesLoss (s : Service) (l : Layout) (d : DataDir) : Prop where
  status : ∃ why, (Backend.files d).status (.steady false) = .error (.unreachable why)
  create : ∀ name value, name ≠ "" →
    (Backend.files d).create (.steady false) name value = (.error (.notFound name), .files d)
  get : ∀ name, d.Admits name →
    (Backend.files d).get (.steady false) name = .error (.notFound name)
  list : ∀ pattern,
    (Backend.files d).list (.steady false) pattern = .error (.notFound d.path)
  decide : ∀ (w : World Unit) (c : Context) (caller : Identity) (e path : String) (h : Enclave),
    w.backend = .files d → w.ended c = false → s.registry.handle e = .ok h → caller.Valid →
      s.authorizer.isAdmin caller = false → d.Admits (l.space .assignment e ++ caller.text) →
        ((s.authorizer.decide h caller path).attempt.run c w).1 = .ok .deny
  calls : ∀ (w w' : World Unit) (c : Context) (caller : Identity) (enclave : String)
    (command : Command) (r : Except Error Reply), w.backend = .files d → s.Lives c w →
      s.authorizer.isAdmin caller = true → ValidEnclaveName (s.scopeOf enclave command) →
        d.Admits (l.record (s.scopeOf enclave command)) →
          s.serve? c caller (.command enclave command) w = some (r, w') →
            r = .error (enclaveMissing (s.scopeOf enclave command))

/-- A command whose gate fails reports that. -/
theorem serve?_command_of_gate {command : Command} {r : Except Error Reply} {w' : World Unit}
    {P : Error → Prop} (hlives : s.Lives c w)
    (hgate : ∀ (c : Context) (v : World Unit), v.backend = w.backend → v.ended c = false →
      ∃ err, (s.gate caller (target command enclave) command.operation).attempt.run c v =
        (.error err, v) ∧ P err)
    (hserved : s.serve? c caller (.command enclave command) w = some (r, w')) :
    ∃ err, r = .error err ∧ P err := by
  obtain ⟨c', tokens, hcontext, hlive⟩ := hlives
  obtain ⟨c'', tokens', hgiven, hended⟩ := run?_eq_some_iff.1 hserved
  rw [hcontext] at hgiven
  cases hgiven
  obtain ⟨err, hfailed, hP⟩ := hgate c' { w with tokens := tokens } rfl hlive
  unfold perform at hended
  rw [run_gated_of_error hfailed] at hended
  exact ⟨err, (congrArg Prod.fst hended).symm, hP⟩

/-- Over a mute store no call that is asked for reports anything missing. -/
theorem serve?_of_mute (hover : s.Over l) (hmute : w.backend.Mute) (hlives : s.Lives c w)
    {call : Call} (hasked : call.Asked) {r : Except Error Reply} {w' : World Unit}
    (hserved : s.serve? c caller call w = some (r, w')) :
    ∃ err, r = .error err ∧ err.isNotFound = false := by
  cases call with
  | command enclave command =>
      refine serve?_command_of_gate hlives (fun c v hsame hlive => ?_) hserved
      exact run_gate_of_mute hover (hsame ▸ hmute) hlive
  | describeSelf enclave =>
      obtain ⟨c', tokens, hcontext, hlive⟩ := hlives
      obtain ⟨⟨r', w₁⟩, hrun, hdone⟩ := Option.bind_eq_some_iff.1 hserved
      cases hdone
      obtain ⟨c'', tokens', hgiven, hended⟩ := run?_eq_some_iff.1 hrun
      rw [hcontext] at hgiven
      cases hgiven
      obtain ⟨err, hfailed, hother⟩ := run_describeSelf_of_mute
        (w := { w with tokens := tokens }) hover hmute hlive caller enclave
      rw [hended] at hfailed
      exact ⟨err, by rw [show r' = .error err from hfailed]; rfl, hother⟩
  | _ => exact hasked.elim

/-- A file in place of the root surfaces. -/
theorem surfacesLoss_of_file (hover : s.Over l) {d : DataDir} (hroot : d.root = .file) :
    s.SurfacesLoss d := by
  have hlost : d.entries = .error .notFolder := DataDir.entries_eq_error_iff.2 (.inr ⟨hroot, rfl⟩)
  have hmute := Backend.mute_of_file hroot
  constructor
  · exact DataDir.status_of_lost hlost
  · intro name value hname
    exact ⟨_, congrArg Prod.fst (DataDir.create_of_lost hlost hname.named value)⟩
  · intro name hname
    exact ⟨_, DataDir.get_of_lost hlost hname⟩
  · exact fun pattern => ⟨_, Backend.list_of_lost hlost pattern⟩
  · intro w c caller e path h hstore hlive hhandle hvalid hadmin
    obtain ⟨-, rfl⟩ := hover.handle_eq_ok_iff.1 hhandle
    have hknown : caller ≠ .unknown := fun h => hvalid.known (congrArg Identity.text h)
    obtain ⟨err, hdecided, -⟩ := Authorizer.run_decide_of_mute (l := l) (e := e)
      (hstore.symm ▸ hmute) hlive hknown hadmin path
    exact ⟨err, congrArg Prod.fst hdecided⟩
  · intro w w' c caller call r hstore hlives hasked hserved what
    obtain ⟨err, rfl, hother⟩ :=
      serve?_of_mute hover (hstore.symm ▸ hmute) hlives hasked hserved
    rintro ⟨⟩
    cases hother

/-- The loss of a root that was removed goes unnoticed. -/
theorem hidesLoss_of_missing (hover : s.Over l) {d : DataDir} (hroot : d.root = .missing) :
    s.HidesLoss l d := by
  have hlost : d.entries = .error .missing := DataDir.entries_eq_error_iff.2 (.inl ⟨hroot, rfl⟩)
  constructor
  · exact DataDir.status_of_lost hlost
  · intro name value hnamed
    have hcreate := DataDir.create_of_lost hlost hnamed value
    simp only [Backend.create, hcreate]
    rfl
  · intro name hname
    exact DataDir.get_of_lost hlost hname
  · exact Backend.list_of_lost hlost
  · intro w c caller e path h hstore hlive hhandle hvalid hadmin hname
    obtain ⟨-, rfl⟩ := hover.handle_eq_ok_iff.1 hhandle
    have hmisses := Backend.misses_of_missing hroot hname
    rw [← hstore] at hmisses
    exact congrArg Prod.fst (Authorizer.run_decide_of_misses hlive hvalid hadmin hmisses)
  · intro w w' c caller enclave command r hstore hlives hadmin hscope hname hserved
    have hmisses := Backend.misses_of_missing hroot hname
    rw [← hstore] at hmisses
    obtain ⟨err, rfl, rfl⟩ := serve?_command_of_gate
      (P := fun err => err = enclaveMissing (s.scopeOf enclave command)) hlives
      (fun c v hsame hlive => ⟨_, run_gate_of_admin hover hscope hadmin
        (Enclave.run_ensureRegistered_of_misses hlive hscope.nonempty (hsame ▸ hmisses)), rfl⟩)
      hserved
    rfl

/-- **Which losses surface.**  Of the two ways in which a directory gets lost, a file in place of
the root is reported as a failure by the store and by everything above it.  A root that was
removed is reported by the status of the store alone; look-ups, creations and listings report
something missing, callers are denied and the admin is told that enclaves do not exist. -/
theorem loss_surfaces_iff {settings : Settings} (hmade : ofSettings settings = .ok s)
    {d : DataDir} (hlost : ∀ es, d.root ≠ .folder es) :
    (s.SurfacesLoss d ↔ d.root = .file) ∧
      (s.HidesLoss ⟨settings.keyPrefix⟩ d ↔ d.root = .missing) := by
  have hover := over_of_ofSettings hmade
  have hone : d.Admits "k" := .of_short (by decide) (by decide +kernel)
  have hnotBoth (hsurfaces : s.SurfacesLoss d) (hhides : s.HidesLoss ⟨settings.keyPrefix⟩ d) :
      False := by
    obtain ⟨why, hget⟩ := hsurfaces.get "k" hone
    rw [hhides.get "k" hone] at hget
    cases hget
  cases hroot : d.root with
  | folder es => exact absurd hroot (hlost es)
  | missing =>
      have hhides := hidesLoss_of_missing hover hroot
      exact ⟨iff_of_false (fun h => hnotBoth h hhides) nofun, iff_of_true hhides rfl⟩
  | file =>
      have hsurfaces := surfacesLoss_of_file hover hroot
      exact ⟨iff_of_true hsurfaces rfl, iff_of_false (hnotBoth hsurfaces) nofun⟩

/-- Of two roots of one path, one of them surfaces. -/
theorem loss_surfaces_iff_data :
    let s : Service := ⟨Layout.catalog ⟨""⟩, .ofAdmin (some ⟨"root"⟩), "default", 30⟩
    ofSettings { Settings.default with admin := some ⟨"root"⟩ } = .ok s ∧
      s.SurfacesLoss ⟨"data", .file⟩ ∧ ¬ s.SurfacesLoss ⟨"data", .missing⟩ ∧
      s.HidesLoss ⟨""⟩ ⟨"data", .missing⟩ := by
  intro s
  have hmade : ofSettings { Settings.default with admin := some ⟨"root"⟩ } = .ok s := rfl
  obtain ⟨hfile, -⟩ := loss_surfaces_iff hmade (d := ⟨"data", .file⟩) nofun
  obtain ⟨hsurfaces, hhides⟩ := loss_surfaces_iff hmade (d := ⟨"data", .missing⟩) nofun
  exact ⟨hmade, hfile.2 rfl, (fun h => nomatch hsurfaces.1 h), hhides.2 rfl⟩

/-- **A root that was removed reads as absence.**  Only the status tells of it.  A look-up and a
creation report a missing name, a listing a missing path; a caller is denied, and the admin is
told that the default enclave does not exist. -/
theorem removed_root_reads_as_absence :
    let s : Service := ⟨Layout.catalog ⟨""⟩, .ofAdmin (some ⟨"root"⟩), "default", 30⟩
    let b : Backend := .files ⟨"data", .missing⟩
    let live := Signal.steady false
    ofSettings { Settings.default with admin := some ⟨"root"⟩ } = .ok s ∧
      b.status live = .error (.unreachable "data: No such file or directory (os error 2)") ∧
      (b.create live "k" [7]).1 = .error (.notFound "k") ∧
      b.get live "k" = .error (.notFound "k") ∧
      b.list live "*" = .error (.notFound "data") ∧
      Identity.Valid ⟨"ann"⟩ ∧ s.authorizer.isAdmin ⟨"ann"⟩ = false ∧
      s.authorizer.decideOver b (Layout.handle ⟨""⟩ "default") ⟨"ann"⟩ "/v1/key/get/k" =
        .ok .deny ∧
      (s.serve? (.ofToken []) ⟨"root"⟩ (.command "" (.describeEnclave "default"))
        (.calm b)).map Prod.fst = some (.error (.notFound "enclave default")) := by
  intro s b live
  have hmade : ofSettings { Settings.default with admin := some ⟨"root"⟩ } = .ok s := rfl
  have hvalid : Identity.Valid ⟨"ann"⟩ := Identity.check_eq_ok_iff.1 (by decide +kernel)
  refine ⟨hmade, ?_, ?_, ?_, rfl, hvalid, ?_, ?_, ?_⟩
  all_goals decide +kernel

end Service

end Calm

end KeyCustody
