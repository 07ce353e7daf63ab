import KeyCustody.Proofs.Durability
import KeyCustody.Proofs.Integrity
import KeyCustody.Proofs.Reports

/-!
# Keys over sequences of calls

When calls are made one after the other, a key that was reported as created stays, with the
value and the report of its creation, until a removal of the key is reported or its enclave
is to be deleted.  Stores may fail and contexts may end at any moment, calls that failed and
calls that were given up count, and so do calls that register the enclave again.

What carries this is the registration of the enclave.  A store that fails leaves its records
alone, so as long as no look-up reports a registration missing that is there, whoever
registers the enclave again finds it registered and never comes to the purge.  Main
statements:

* `Service.backend_of_deleteKey_error`: a removal of a key that fails removes nothing;
* `Service.KeyRun.holds`: sequences of calls keep the key;
* `Service.key_durable`: what callers see of it.
-/

namespace KeyCustody

variable {σ : Type} [Mishaps σ] {c : Context} {w : World σ} {l : Layout} {e n : String}

/-! ### Removals that fail -/

/-- A removal through a view that fails changes nothing. -/
theorem View.backend_of_delete_error {space name : String} {err : Error}
    (hfailed : (((View.under space .whole).delete name).attempt.run c w).1 = .error err) :
    (((View.under space .whole).delete name).attempt.run c w).2.backend = w.backend := by
  rcases run_delete_cases c w space name with ⟨_, -, hsame⟩ | ⟨hok, -⟩
  · exact hsame
  · rw [hok] at hfailed
    cases hfailed

/-- A removal of a key that fails changes nothing. -/
theorem Enclave.backend_of_deleteKey_error {err : Error}
    (hfailed : (((l.handle e).deleteKey n).attempt.run c w).1 = .error err) :
    (((l.handle e).deleteKey n).attempt.run c w).2.backend = w.backend := by
  unfold deleteKey at hfailed ⊢
  cases hname : checkName "key" n with
  | error _ => rfl
  | ok _ =>
      rw [hname] at hfailed
      exact View.backend_of_delete_error hfailed

/-! ### Creations -/

/-- A key that was created without an error is stored as it is reported. -/
theorem Enclave.stored_of_createKey {value : Bytes} {creator : Identity} {info : KeyInfo}
    (hok : (((l.handle e).createKey n value creator).attempt.run c w).1 = .ok info) :
    ValidName n ∧ ∃ time, info = ⟨n, time, creator⟩ ∧
      (((l.handle e).createKey n value creator).attempt.run c w).2.backend.stored?
        (l.space .key e ++ n) = some (Record.encode (⟨value, time, creator⟩ : SealedKey)) := by
  have hpeel {α β : Type} {a : Routine α} {f : α → Routine β} {y : β} {w : World σ} :=
    Routine.of_bind_ok (c := c) (w := w) (a := a) (f := f) (y := y) fun v =>
      ValidName n ∧ ∃ time, info = ⟨n, time, creator⟩ ∧ v.backend.stored?
        (l.space .key e ++ n) = some (Record.encode (⟨value, time, creator⟩ : SealedKey))
  unfold createKey at hok ⊢
  apply hpeel hok
  intro _ _ hok
  apply hpeel hok
  intro _ hnamed hok
  apply hpeel hok
  intro time _ hok
  apply hpeel hok
  intro _ hcreated hok
  have hinfo := (Except.ok.inj hok).symm
  exact ⟨checkName_eq_ok_iff.1 hnamed, time, hinfo, View.stored_of_create hcreated⟩

/-- The contract of not removing a name that is taken: no creation of it succeeds. -/
def Contract.taken (full : String) : Contract where
  allows r := ¬ r.Removes full
  assumes
    | .create name _, .ok () => name ≠ full
    | _, _ => True

/-- As long as the name is taken, all answers are as the contract assumes. -/
theorem World.taken_step {full : String} {held : Bytes} {r : Request}
    (hr : (Contract.taken full).allows r) (hheld : w.backend.stored? full = some held) :
    (Contract.taken full).assumes r (w.answer c r).1 ∧
      (w.answer c r).2.backend.stored? full = some held := by
  refine ⟨?_, stored?_answer_of_not_removes hr c hheld⟩
  cases r with
  | create name value =>
      cases hanswer : (w.answer c (.create name value)).1 with
      | error err => trivial
      | ok _ =>
          rintro rfl
          rcases w.answer_create_cases c name value with ⟨err, hfailed, -⟩ | ⟨-, hfresh, -⟩
          · rw [hfailed] at hanswer
            cases hanswer
          · rw [hfresh] at hheld
            cases hheld
  | _ => trivial

namespace Service

variable {s : Service} {caller : Identity} {enclave : String} {value : Bytes}

/-- A removal of a key that is not reported leaves the store as it was. -/
theorem backend_of_deleteKey_error (hover : s.Over l) {err : Error}
    (hfailed : ((s.perform caller enclave (.deleteKey n)).attempt.run c w).1 = .error err) :
    ((s.perform caller enclave (.deleteKey n)).attempt.run c w).2.backend = w.backend := by
  have hscope : s.scopeOf enclave (.deleteKey n) = s.enclaveName enclave := rfl
  rcases perform_cases hover c w caller hscope with
    ⟨_, -, hsame⟩ | ⟨w₁, hsame, -, -, hends, hstore⟩
  · exact hsame
  have hbody : (s.body caller (l.handle (s.enclaveName enclave)) (.deleteKey n)).attempt.run
      c w₁ = ((((l.handle (s.enclaveName enclave)).deleteKey n).attempt.run c w₁).1.map
        fun _ => Reply.done, (((l.handle (s.enclaveName enclave)).deleteKey n).attempt.run c
          w₁).2) := Routine.run_map c _ _ w₁
  rw [hends, hbody] at hfailed
  rw [hstore, hbody, ← hsame]
  exact Enclave.backend_of_deleteKey_error (map_eq_error_iff.1 hfailed)

/-- A key that is reported as created is held, and its enclave is registered. -/
theorem holdsKey_of_createKey (hover : s.Over l) {reply : Reply}
    (hok : ((s.perform caller enclave (.createKey n value)).attempt.run c w).1 = .ok reply) :
    ValidEnclaveName (s.enclaveName enclave) ∧ ValidName n ∧ ∃ time registration,
      reply = .keyInfo ⟨n, time, caller⟩ ∧
      (∃ g : Registration, Record.decode? registration = some g) ∧
      ((s.perform caller enclave (.createKey n value)).attempt.run c w).2.backend.HoldsKey l
        (s.enclaveName enclave) n (Record.encode (⟨value, time, caller⟩ : SealedKey))
        registration := by
  have hscope : s.scopeOf enclave (.createKey n value) = s.enclaveName enclave := rfl
  rcases perform_cases hover c w caller hscope with
    ⟨err, hfailed, -⟩ | ⟨w₁, hsame, he, ⟨g, hg⟩, hends, hstore⟩
  · rw [hfailed] at hok
    cases hok
  obtain ⟨registration, hregistered, hdecoded⟩ := Backend.record?_eq_some_iff.1 hg
  rw [← hsame] at hregistered
  generalize hcreate : (l.handle (s.enclaveName enclave)).createKey n value caller = create
  have hbody : (s.body caller (l.handle (s.enclaveName enclave))
      (.createKey n value)).attempt.run c w₁ =
        ((create.attempt.run c w₁).1.map Reply.keyInfo, (create.attempt.run c w₁).2) := by
    subst hcreate
    exact Routine.run_map c _ _ w₁
  rw [hends, hbody] at hok
  rw [hstore, hbody]
  have hspares : create.Keeps
      (.asking fun r => ¬ r.Removes (l.record (s.enclaveName enclave))) _ fun _ => True :=
    hcreate ▸ Enclave.keeps_createKey id id fun _ _ _ _ => id
  have hstays := (Program.Keeps.run hspares c
    (fun v => v.backend.stored? (l.record (s.enclaveName enclave)) = some registration)
    (fun _ _ hr hv => ⟨trivial, World.stored?_answer_of_not_removes hr c hv⟩) hregistered).2
  cases hcreated : (create.attempt.run c w₁).1 with
  | error err =>
      rw [hcreated] at hok
      cases hok
  | ok info =>
      rw [hcreated] at hok
      subst hcreate
      obtain ⟨hn, time, rfl, hheld⟩ := Enclave.stored_of_createKey hcreated
      exact ⟨he, hn, time, registration, (Except.ok.inj hok).symm, ⟨g, hdecoded⟩, hheld, hstays⟩

/-- A key that is there is not created again, and the attempt leaves it alone. -/
theorem createKey_refused (hover : s.Over l) {held : Bytes}
    (hheld : w.backend.stored? (l.space .key (s.enclaveName enclave) ++ n) = some held)
    (c : Context) (caller : Identity) (value : Bytes) :
    (∃ err, ((s.perform caller enclave (.createKey n value)).attempt.run c w).1 = .error err) ∧
      ((s.perform caller enclave (.createKey n value)).attempt.run c w).2.backend.stored?
        (l.space .key (s.enclaveName enclave) ++ n) = some held := by
  have hkeeps := stores_createKey (k := .taken (l.space .key (s.enclaveName enclave) ++ n)) hover
    (fun _ hr => hr _) caller enclave n value
  obtain ⟨hends, hstays⟩ := Program.Keeps.run hkeeps c
    (fun v => v.backend.stored? (l.space .key (s.enclaveName enclave) ++ n) = some held)
    (fun _ _ hr hv => World.taken_step hr hv) hheld
  refine ⟨?_, hstays⟩
  cases hrun : ((s.perform caller enclave (.createKey n value)).attempt.run c w).1 with
  | error err => exact ⟨err, rfl⟩
  | ok reply =>
      rw [hrun] at hends
      obtain ⟨-, -, _, -, hcreated⟩ := hends
      exact absurd rfl hcreated

/-- A key that is held is given to whoever is permitted to get it. -/
theorem run_getKey_of_record {settings : Settings} (hmade : ofSettings settings = .ok s)
    {v : World Unit} {key : SealedKey} (hlive : v.ended c = false)
    (he : ValidEnclaveName (s.enclaveName enclave)) (hn : ValidName n)
    (hpermits : Permits settings v.backend caller (s.enclaveName enclave) (.getKey n))
    (hkey : v.backend.record?
      (Layout.space ⟨settings.keyPrefix⟩ .key (s.enclaveName enclave) ++ n) = some key) :
    ((s.perform caller enclave (.getKey n)).attempt.run c v).1 = .ok (.key key) := by
  have hgate : (s.gate caller enclave (.getKey n)).attempt.run c v =
      (.ok (Layout.handle ⟨settings.keyPrefix⟩ (s.enclaveName enclave)), v) :=
    run_gate_of_permits hmade hlive he hpermits
  have hread : ((Layout.handle ⟨settings.keyPrefix⟩ (s.enclaveName enclave)).getKey
      n).attempt.run c v = (.ok key, v) :=
    Cabinet.run_getNamed_of_record hlive hn hkey "key"
  have hbody : (s.body caller (Layout.handle ⟨settings.keyPrefix⟩ (s.enclaveName enclave))
      (.getKey n)).attempt.run c v = (.ok (.key key), v) := by
    refine (Routine.run_map c _ _ v).trans ?_
    rw [hread]
    rfl
  have hrun := run_gated_of_ok hgate fun h => s.body caller h (.getKey n)
  rw [Program.run_bind, run_report, hbody] at hrun
  exact congrArg Prod.fst hrun

/-! ### Sequences of calls -/

/-- The call, which ended with the result, did not report the removal of the key, and it was
not made to delete the enclave. -/
def Spares (s : Service) (call : Call) (r : Except Error Reply) (e n : String) : Prop :=
  (∀ enclave reply, call = .command enclave (.deleteKey n) → s.enclaveName enclave = e →
    r ≠ .ok reply) ∧
  ∀ enclave, call ≠ .command enclave (.deleteEnclave e)

/-- No answer to a request of the call reports a name missing that the store holds. -/
def ServedHonestly (s : Service) (c : Context) (caller : Identity) (call : Call)
    (w : World σ) : Prop :=
  ∀ p ∈ s.programs caller call, ∀ c' tokens,
    s.callContext? c w.tokens w.now = some (c', tokens) →
      ∀ m, p.HonestFor c' m { w with tokens := tokens }

/-- Calls one after the other, each by any caller and under any context, of which none removes
the key.  A call is served to its end, or it is given up after some of its requests.  Only the
calls that register the enclave have to be answered honestly.  Between calls the world may
change as long as the store stays the same. -/
inductive KeyRun (s : Service) (e n : String) : World σ → World σ → Prop
  | start (w : World σ) : KeyRun s e n w w
  | served {w w₁ w₂ : World σ} {c : Context} {caller : Identity} {call : Call}
      {r : Except Error Reply} (earlier : KeyRun s e n w w₁)
      (serves : s.serve? c caller call w₁ = some (r, w₂)) (spares : s.Spares call r e n)
      (honest : s.Registers call e → s.ServedHonestly c caller call w₁) : KeyRun s e n w w₂
  | givenUp {w w₁ : World σ} {c c' : Context} {caller : Identity} {call : Call}
      {p : Program (Except Error Reply)} {tokens : Tokens} (m : Nat)
      (earlier : KeyRun s e n w w₁) (begun : p ∈ s.programs caller call)
      (context : s.callContext? c w₁.tokens w₁.now = some (c', tokens))
      (spares : ¬ s.Removes call e n)
      (honest : s.Registers call e → p.HonestFor c' m { w₁ with tokens := tokens }) :
      KeyRun s e n w (p.runFor c' m { w₁ with tokens := tokens })
  | pause {w w₁ w₂ : World σ} (earlier : KeyRun s e n w w₁)
      (same : w₂.backend = w₁.backend) : KeyRun s e n w w₂

end Service

/-- An honest answer to a request that leaves the key alone is as the contract of sparing the
key assumes, and the key stays. -/
theorem World.sparing_step {key registration : Bytes} {r : Request} (hr : r.Leaves l e n)
    (hhonest : w.Honest c r) (hw : w.backend.HoldsKey l e n key registration) :
    (Contract.sparing l e n).assumes r (w.answer c r).1 ∧
      (w.answer c r).2.backend.HoldsKey l e n key registration := by
  refine ⟨?_, holdsKey_answer hr c hw⟩
  cases r with
  | get name =>
      cases hanswer : (w.answer c (.get name)).1 with
      | ok value => trivial
      | error err =>
          cases err with
          | notFound what =>
              -- the registration is there, so it is not reported missing
              rintro rfl
              exact hhonest.ne_notFound hw.registered what hanswer
          | _ => trivial
  | _ => trivial

namespace Service

variable {s : Service} {caller : Identity} {call : Call} {key registration : Bytes}

/-- Up to any of its requests, a call that removes neither the key nor its enclave keeps the
key. -/
theorem holdsKey_runFor {p : Program (Except Error Reply)} (hover : s.Over l)
    (he : ValidEnclaveName e) (hp : p ∈ s.programs caller call) (hremoves : ¬ s.Removes call e n)
    {m : Nat} (hhonest : s.Registers call e → p.HonestFor c m w)
    (hw : w.backend.HoldsKey l e n key registration) :
    (p.runFor c m w).backend.HoldsKey l e n key registration := by
  by_cases hregisters : s.Registers call e
  · exact (spares_programs hover he hremoves hp).runFor_of_honest
      (fun r v hr hv hheld => World.sparing_step hr hv hheld) (hhonest hregisters) hw
  · have hleaves : p.Keeps (.asking (Request.Leaves l e n)) fun _ => True :=
      keeps_programs hover (fun r hasks => leaves_of_callAsks hasks he hremoves
        fun hregistered => absurd hregistered hregisters) hp
    have hkept : p.Throughout c (fun v => v.backend.HoldsKey l e n key registration) w :=
      hleaves.throughout (fun r v hr hv => ⟨trivial, World.holdsKey_answer hr c hv⟩) hw
    exact hkept m

/-- A call that spares the key keeps it. -/
theorem holdsKey_of_serve? (hover : s.Over l) (he : ValidEnclaveName e) {w' : World σ}
    {r : Except Error Reply} (hserved : s.serve? c caller call w = some (r, w'))
    (hspares : s.Spares call r e n)
    (hhonest : s.Registers call e → s.ServedHonestly c caller call w)
    (hw : w.backend.HoldsKey l e n key registration) :
    w'.backend.HoldsKey l e n key registration := by
  by_cases hremoves : s.Removes call e n
  · -- then it is a removal of the key that was not reported
    rcases hremoves with ⟨enclave, rfl, rfl⟩ | ⟨enclave, rfl⟩
    · obtain ⟨c', tokens, -, hended⟩ := run?_eq_some_iff.1 hserved
      cases r with
      | ok reply => exact absurd rfl (hspares.1 enclave reply rfl rfl)
      | error err =>
          have hsame := backend_of_deleteKey_error hover (congrArg Prod.fst hended)
          rw [hended] at hsame
          exact hsame ▸ hw
    · exact absurd rfl (hspares.2 enclave)
  by_cases hregisters : s.Registers call e
  · obtain ⟨p, hp, hsingle⟩ : ∃ p, s.programs caller call = [p] ∧
        ∀ e' names, call ≠ .deletePolicies e' names := by
      rcases hregisters with ⟨enclave, rfl⟩ | ⟨rfl, -⟩ <;> exact ⟨_, rfl, by simp⟩
    rw [serve?_eq_run? hp hsingle] at hserved
    obtain ⟨c', tokens, hcontext, hended⟩ := run?_eq_some_iff.1 hserved
    have hmem : p ∈ s.programs caller call := hp ▸ List.mem_singleton_self p
    have hkept : p.Throughout c' (fun v => v.backend.HoldsKey l e n key registration)
        { w with tokens := tokens } := fun m =>
      holdsKey_runFor hover he hmem hremoves
        (fun hregistered => hhonest hregistered p hmem c' tokens hcontext m) hw
    have hheld := hkept.run
    rw [hended] at hheld
    exact hheld
  · refine serve?_preserves (fun v => v.backend.HoldsKey l e n key registration)
      (fun _ _ h => h) (fun p hp c v hv => ?_) hw hserved
    have hkept : p.Throughout c (fun v => v.backend.HoldsKey l e n key registration) v :=
      fun m => holdsKey_runFor hover he hp hremoves (fun h => absurd h hregisters) hv
    exact hkept.run

/-- **Sequences of calls keep the key.** -/
theorem KeyRun.holds (hover : s.Over l) (he : ValidEnclaveName e) {w' : World σ}
    (hrun : s.KeyRun e n w w') (hw : w.backend.HoldsKey l e n key registration) :
    w'.backend.HoldsKey l e n key registration := by
  induction hrun with
  | start => exact hw
  | served _ hserves hspares hhonest ih =>
      exact holdsKey_of_serve? hover he hserves hspares hhonest ih
  | givenUp m _ hbegun _ hspares hhonest ih =>
      exact holdsKey_runFor hover he hbegun hspares hhonest ih
  | pause _ hsame ih => exact hsame ▸ ih

/-- **Keys are durable.**  The service of some settings reports that it created a key.  Calls
follow one after the other, with any failures of the store that report no name missing
that is there, and contexts end at any moment.  No removal of the key is reported, and the
enclave is not to be deleted.  Then whoever is permitted to get the key is given the value
with what was reported at its creation, unless something goes wrong, and no further creation
of the key succeeds or changes it. -/
theorem key_durable {settings : Settings} (hmade : ofSettings settings = .ok s)
    {w w₁ w₂ : World σ} {enclave : String} {value : Bytes} {reply : Reply}
    (hcreated : s.serve? c caller (.command enclave (.createKey n value)) w =
      some (.ok reply, w₁))
    (hrun : s.KeyRun (s.enclaveName enclave) n w₁ w₂) :
    let l : Layout := ⟨settings.keyPrefix⟩
    let e := s.enclaveName enclave
    ∃ time, reply = .keyInfo ⟨n, time, caller⟩ ∧
      (∀ (v : World Unit) (c' : Context) (caller' : Identity) (enclave' : String),
        v.backend = w₂.backend → s.Lives c' v → s.enclaveName enclave' = e →
        (settings.admin = some caller' ∧ caller' ≠ .unknown) ∨
          v.backend.Grants l e caller' (Operation.getKey n).path →
        ∃ v', s.serve? c' caller' (.command enclave' (.getKey n)) v =
          some (.ok (.key ⟨value, time, caller⟩), v')) ∧
      ∀ (c' : Context) (caller' : Identity) (enclave' : String) (value' : Bytes)
        (r : Except Error Reply) (w₃ : World σ), s.enclaveName enclave' = e →
        s.serve? c' caller' (.command enclave' (.createKey n value')) w₂ = some (r, w₃) →
        (∃ err, r = .error err) ∧
          w₃.backend.record? (l.keys e ++ n) = some (⟨value, time, caller⟩ : SealedKey) := by
  intro l e
  have hover := over_of_ofSettings hmade
  obtain ⟨c₁, tokens, -, hended⟩ := run?_eq_some_iff.1 hcreated
  obtain ⟨he, hn, time, registration, hreply, ⟨g, hg⟩, hheld⟩ :=
    holdsKey_of_createKey hover (congrArg Prod.fst hended)
  rw [hended] at hheld
  have hkept := hrun.holds hover he hheld
  refine ⟨time, hreply, ?_, ?_⟩
  · intro v c' caller' enclave' hsame hlives henclave hentitled
    obtain ⟨c₂, tokens', hcontext, hlive⟩ := hlives
    have hkey : v.backend.record? (l.space .key e ++ n) =
        some (⟨value, time, caller⟩ : SealedKey) :=
      Backend.record?_eq_some_iff.2 ⟨_, hsame ▸ hkept.held, Record.decode?_encode _⟩
    have hregistered : v.backend.record? (l.record e) = some g :=
      Backend.record?_eq_some_iff.2 ⟨_, hsame ▸ hkept.registered, hg⟩
    rw [← henclave] at hkey hregistered hentitled
    have hgot := run_getKey_of_record (v := { v with tokens := tokens' }) hmade hlive
      (henclave ▸ he) hn ⟨⟨g, hregistered⟩, hentitled⟩ hkey
    exact ⟨_, run?_eq_some_iff.2 ⟨c₂, tokens', hcontext, Prod.ext hgot rfl⟩⟩
  · intro c' caller' enclave' value' r w₃ henclave hserved
    obtain ⟨c₂, tokens', -, hended'⟩ := run?_eq_some_iff.1 hserved
    have hheld' : w₂.backend.stored? (l.space .key (s.enclaveName enclave') ++ n) =
        some (Record.encode (⟨value, time, caller⟩ : SealedKey)) := by
      rw [henclave]
      exact hkept.held
    obtain ⟨⟨err, hfailed⟩, hstays⟩ := createKey_refused (w := { w₂ with tokens := tokens' })
      hover hheld' c₂ caller' value'
    rw [hended'] at hfailed hstays
    rw [henclave] at hstays
    exact ⟨⟨err, hfailed⟩, Backend.record?_eq_some_iff.2 ⟨_, hstays, Record.decode?_encode _⟩⟩

/-- A removal of the key fails halfway and the service starts again; then the key is read, and it
cannot be created again. -/
theorem key_durable_failed_removal :
    let s : Service := ⟨Layout.catalog ⟨""⟩, .ofAdmin (some ⟨"root"⟩), "default", 30⟩
    let time := (World.calm (.memory .empty)).clock 0
    let registration : Registration := ⟨time, ⟨"root"⟩⟩
    let b : Backend :=
      .memory (Table.empty.insert "sys/enclaves/default" (Record.encode registration))
    let quiet (b : Backend) := World.stormy b fun _ => .nothing
    let down (b : Backend) := World.stormy b fun n =>
      if n = 1 then ⟨none, none, some (.unreachable "down")⟩ else .nothing
    let key : SealedKey := ⟨[7], time, ⟨"root"⟩⟩
    ofSettings { Settings.default with admin := some ⟨"root"⟩ } = .ok s ∧ ∃ w₁ w₂ w₃,
      s.serve? (.ofToken []) ⟨"root"⟩ (.command "" (.createKey "n" [7])) (quiet b) =
        some (.ok (.keyInfo ⟨"n", time, ⟨"root"⟩⟩), w₁) ∧
      s.serve? (.ofToken []) ⟨"root"⟩ (.command "default" (.deleteKey "n")) (down w₁.backend) =
        some (.error (.unreachable "down"), w₂) ∧
      s.serve? (.ofToken []) ⟨"root"⟩ .init (quiet w₂.backend) = some (.ok .done, w₃) ∧
      (∃ v, s.serve? (.ofToken []) ⟨"root"⟩ (.command "" (.getKey "n")) (.calm w₃.backend) =
        some (.ok (.key key), v)) ∧
      ∃ err w₄, s.serve? (.ofToken []) ⟨"root"⟩ (.command "" (.createKey "n" [8])) w₃ =
        some (.error err, w₄) ∧ w₄.backend.record? "enclaves/default/keys/n" = some key := by
  intro s time registration b quiet down key
  have hmade : ofSettings { Settings.default with admin := some ⟨"root"⟩ } = .ok s := rfl
  let create (w : World (Nat → Mishap)) :=
    s.serve? (.ofToken []) ⟨"root"⟩ (.command "" (.createKey "n" [7])) w
  let remove (w : World (Nat → Mishap)) :=
    s.serve? (.ofToken []) ⟨"root"⟩ (.command "default" (.deleteKey "n")) w
  let start (w : World (Nat → Mishap)) := s.serve? (.ofToken []) ⟨"root"⟩ .init w
  have hcreated := eq_some_of_map_fst (x := create (quiet b))
    (a := .ok (.keyInfo ⟨"n", time, ⟨"root"⟩⟩)) (by decide +kernel) (quiet b)
  generalize hw₁ : ((create (quiet b)).map Prod.snd).getD (quiet b) = w₁ at hcreated
  have hfailed := eq_some_of_map_fst (x := remove (down w₁.backend))
    (a := .error (.unreachable "down")) (by subst hw₁; decide +kernel) w₁
  generalize hw₂ : ((remove (down w₁.backend)).map Prod.snd).getD w₁ = w₂ at hfailed
  have hstarted := eq_some_of_map_fst (x := start (quiet w₂.backend)) (a := .ok .done)
    (by subst hw₂ hw₁; decide +kernel) w₂
  generalize hw₃ : ((start (quiet w₂.backend)).map Prod.snd).getD w₂ = w₃ at hstarted
  have hagain : (s.serve? (.ofToken []) ⟨"root"⟩ (.command "" (.createKey "n" [8]))
      w₃).isSome = true := by
    subst hw₃ hw₂ hw₁
    decide +kernel
  have hremoval : s.KeyRun (s.enclaveName "") "n" w₁ w₂ := by
    have hpaused : s.KeyRun (s.enclaveName "") "n" w₁ (down w₁.backend) := .pause (.start w₁) rfl
    refine hpaused.served hfailed ⟨?_, fun _ h => nomatch h⟩ ?_
    · exact fun _ _ _ _ h => nomatch h
    · rintro (⟨_, h⟩ | ⟨h, -⟩) <;> cases h
  have hrun : s.KeyRun (s.enclaveName "") "n" w₁ w₃ := by
    have hpaused : s.KeyRun (s.enclaveName "") "n" w₁ (quiet w₂.backend) := .pause hremoval rfl
    refine hpaused.served hstarted ⟨fun _ _ h => (nomatch h), fun _ h => nomatch h⟩ ?_
    intro _ p _ c' tokens _ m
    refine p.honestFor_of_neverMissing (fun _ what h => ?_) m
    cases (h : none = some (Error.notFound what))
  obtain ⟨time', hreply, hgiven, hrefused⟩ := key_durable hmade hcreated hrun
  obtain rfl : time = time' := by
    injection hreply with hinfo
    injection hinfo
  obtain ⟨⟨r, w₄⟩, hserved⟩ := Option.isSome_iff_exists.1 hagain
  obtain ⟨⟨err, rfl⟩, hkept⟩ := hrefused _ _ _ _ _ _ rfl hserved
  have hadmin : some (⟨"root"⟩ : Identity) = some ⟨"root"⟩ ∧ (⟨"root"⟩ : Identity) ≠ .unknown :=
    ⟨rfl, by decide⟩
  refine ⟨hmade, w₁, w₂, w₃, hcreated, hfailed, hstarted, ?_, err, w₄, hserved, hkept⟩
  exact hgiven (.calm w₃.backend) _ _ _ rfl ⟨_, _, rfl, rfl⟩ rfl (.inl hadmin)

end Service

end KeyCustody
