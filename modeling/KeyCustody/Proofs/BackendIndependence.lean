import KeyCustody.Proofs.Mirroring

/-!
# Independence of the store

The service makes the same of all its stores.  A map in memory, a database and a directory,
each of them empty at first, give the same results and the same trail, and hold the same records
in the end; only times may differ, for each has a clock of its own.  All that is asked for is that
no file name is too long.  Main statements:

* `Backend.exists_mount_fresh`: where nothing is kept yet, every store opens and is empty;
* `Service.backends_alike`: what is the same.
-/

namespace KeyCustody

/-- Nothing is kept in the data directory yet. -/
def DirRoot.Fresh : DirRoot → Prop
  | .missing => True
  | .folder es => es = []
  | .file => False

/-- Where nothing is kept yet, every store opens; it is tidy and holds nothing. -/
theorem Backend.exists_mount_fresh (kind : BackendKind) (path : String) {root : DirRoot}
    (hfresh : root.Fresh) :
    ∃ b, mount kind path root .missing = .ok b ∧ b.Tidy ∧ ∀ name, b.stored? name = none := by
  have hfiles : (Backend.files ⟨path, .folder []⟩).Tidy :=
    ⟨[], rfl, List.nodup_nil, fun _ h => absurd h List.not_mem_nil⟩
  have hnone (name : String) : (Backend.files ⟨path, .folder []⟩).stored? name = none := by
    rw [stored?, DataDir.content?, DataDir.find_folder]
    by_cases hlong : (FileName.encode name).length > DataDir.maxFileName
    · rw [if_pos hlong]
    · rw [if_neg hlong]
      rfl
  cases root with
  | file => exact absurd hfresh id
  | missing =>
      cases kind with
      | memory => exact ⟨_, rfl, trivial, fun _ => rfl⟩
      | database => exact ⟨_, rfl, trivial, fun _ => rfl⟩
      | files => exact ⟨_, rfl, hfiles, hnone⟩
  | folder es =>
      obtain rfl : es = [] := hfresh
      cases kind with
      | memory => exact ⟨_, rfl, trivial, fun _ => rfl⟩
      | database => exact ⟨_, rfl, trivial, fun _ => rfl⟩
      | files => exact ⟨_, rfl, hfiles, hnone⟩

/-- It sees all but times. -/
def Observer.timeless : Observer := ⟨true, false⟩

namespace Service

variable {s : Service}

/-- **The stores are one as good as the other.**  Two stores of any kinds, both empty at first,
give the same results and the same trail, and in the end they hold the same records under the
same names, except for times. -/
theorem backends_alike {settings : Settings} (hmade : ofSettings settings = .ok s)
    {kind : BackendKind} {path : String} {root : DirRoot} (hfresh : root.Fresh)
    {w w₁ : World Unit} (hw : Backend.mount kind path root .missing = .ok w.backend)
    {steps : List Step} (hshort : s.Accesses Access.Short steps w) {transcript : List Served}
    (hserved : s.serveAll? steps w = some (transcript, w₁))
    (kind' : BackendKind) (path' : String) {root' : DirRoot} (hfresh' : root'.Fresh)
    (clock : Nat → Timestamp) :
    ∃ b transcript' v₁, Backend.mount kind' path' root' .missing = .ok b ∧
      s.serveAll? steps { w with backend := b, clock := clock } = some (transcript', v₁) ∧
      List.Forall₂ Observer.timeless.Alike transcript transcript' ∧
      List.Forall₂ Observer.timeless.Alike w₁.trail v₁.trail ∧
      ∀ name, Option.Rel (Observer.timeless.Written ⟨settings.keyPrefix⟩ name)
        (w₁.backend.stored? name) (v₁.backend.stored? name) := by
  obtain ⟨b, hb, htidy, hempty⟩ := Backend.exists_mount_fresh kind path hfresh
  obtain ⟨b', hb', htidy', hempty'⟩ := Backend.exists_mount_fresh kind' path' hfresh'
  obtain rfl : w.backend = b := Except.ok.inj (hw.symm.trans hb)
  have hmirrors : w.Mirrors .timeless ⟨settings.keyPrefix⟩
      { w with backend := b', clock := clock } := by
    refine ⟨htidy, htidy', fun name => ?_, rfl, rfl, rfl, rfl,
      List.forall₂_same.2 fun event _ => .refl event⟩
    rw [hempty, hempty']
    exact .none
  obtain ⟨transcript', v₁, hserved', hresults, hholds⟩ := serveAll?_matches
    (World.mirror_whole rfl ⟨settings.keyPrefix⟩) (over_of_ofSettings hmade)
    (List.forall₂_same.2 fun step _ => .refl step) hmirrors hshort hserved
  have hfinal : w₁.Mirrors .timeless ⟨settings.keyPrefix⟩ v₁ := hholds
  exact ⟨b', transcript', v₁, hb', hserved', hresults, hfinal.trail, hfinal.stored⟩

/-- In memory and in a directory, whatever its clock shows: a policy that is in use stays, and a
call is canceled. -/
theorem backends_alike_policy_in_use :
    let s : Service := ⟨Layout.catalog ⟨""⟩, .ofAdmin (some ⟨"root"⟩), "default", 30⟩
    let w := World.calm (.memory .empty)
    let time := w.clock 0
    let command (c : Command) : Step := .call (.ofToken []) ⟨"root"⟩ (.command "" c)
    let steps : List Step := [.call (.ofToken []) ⟨"root"⟩ .init,
      command (.createPolicy "p" ⟨["*"], [], none, .unknown⟩), command (.assignPolicy "p" [⟨"i"⟩]),
      command (.deletePolicy "p"), .pause ⟨9, [[8]]⟩ w.now,
      .call (.ofToken [8]) ⟨"root"⟩ (.command "" (.getPolicy "p"))]
    let results : List (Except Error Reply) := [.ok .done,
      .ok (.policyInfo ⟨"p", some time, ⟨"root"⟩⟩), .ok (.outcomes [⟨"i", .ok ()⟩]),
      .error (.policyInUse "p" 1), .error .canceled]
    ofSettings { Settings.default with admin := some ⟨"root"⟩ } = .ok s ∧
      Backend.mount .memory "" .missing .missing = .ok w.backend ∧
      s.Accesses Access.Short steps w ∧ ∃ transcript w₁,
        s.serveAll? steps w = some (transcript, w₁) ∧ transcript.map Served.result = results ∧
        ∀ clock, ∃ b transcript' v₁,
          Backend.mount .files "data" .missing .missing = .ok b ∧
          s.serveAll? steps { w with backend := b, clock := clock } = some (transcript', v₁) ∧
          List.Forall₂ Observer.timeless.Alike transcript transcript' ∧
          List.Forall₂ Observer.timeless.Alike w₁.trail v₁.trail := by
  intro s w time command steps results
  have hmade : ofSettings { Settings.default with admin := some ⟨"root"⟩ } = .ok s := rfl
  have hfresh : DirRoot.Fresh .missing := trivial
  have hmounted : Backend.mount .memory "" .missing .missing = .ok w.backend := rfl
  have hshort : s.Accesses Access.Short steps w := by decide +kernel
  have hrun : (s.serveAll? steps w).map (fun served => served.1.map Served.result) =
      some results := by decide +kernel
  obtain ⟨⟨transcript, w₁⟩, hserved, hresults⟩ := Option.map_eq_some_iff.1 hrun
  refine ⟨hmade, hmounted, hshort, transcript, w₁, hserved, hresults, fun clock => ?_⟩
  obtain ⟨b, transcript', v₁, hb, hserved', halike, htrail, -⟩ :=
    backends_alike hmade hfresh hmounted hshort hserved .files "data" hfresh clock
  exact ⟨b, transcript', v₁, hb, hserved', halike, htrail⟩

end Service

end KeyCustody
