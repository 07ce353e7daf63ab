import KeyCustody.Proofs.Purging

/-!
# Durability of keys

A key that was created should stay until it is removed, or its enclave is.  One race breaks
this.  Whoever registers an enclave looks for the registration, purges what is left under the
enclave's name, and only then creates the registration.  If somebody else registers the
enclave behind that look-up and a key is created in it, the purge removes the key, and then
the registration fails because the enclave exists already.

This is the only way to lose a key: all other calls leave it alone, and so does a call that
registers the enclave if its look-up is still to come (`Service.Underway.spares_or_clears`).
So whether a key that was just created stays, in whatever order the calls go on, can be told
from the calls whose look-up found nothing, each run on its own.  Main statements:

* `Service.deletes_of_callAsks`: what calls remove;
* `Service.survives_iff`: when a key of a registered enclave stays;
* `Service.exists_commit`: a call that reports a new key has stored it, in an enclave that is
  registered;
* `Service.committed_key_survives_iff`: when a key that was reported stays;
* `Service.committed_key_lost`: a run that loses one.
-/

namespace KeyCustody

namespace Service

variable {k : Contract} {s : Service} {l : Layout} {caller : Identity} {call : Call}
  {e n : String}

/-! ### What calls remove -/

/-- The call removes the key or its enclave. -/
def Removes (s : Service) (call : Call) (e n : String) : Prop :=
  (∃ enclave, call = .command enclave (.deleteKey n) ∧ s.enclaveName enclave = e) ∨
    ∃ enclave, call = .command enclave (.deleteEnclave e)

/-- The names that a call may remove: a key by its name, policies and assignments, what an
enclave owns before it is registered or removed, and its registration. -/
inductive Deletes (k : Contract) (s : Service) (l : Layout) (call : Call) : String → Prop
  | key {e n : String} (valid : ValidEnclaveName e) (removes : s.Removes call e n) :
      Deletes k s l call (l.space .key e ++ n)
  | other {kind : RecordKind} {e name : String} (valid : ValidEnclaveName e)
      (nokey : kind ≠ .key) : Deletes k s l call (l.space kind e ++ name)
  | leftover {kind : RecordKind} {e name : String} (valid : ValidEnclaveName e)
      (registers : s.Registers call e) (missed : k.MayMiss (l.record e)) :
      Deletes k s l call (l.space kind e ++ name)
  | owned {kind : RecordKind} {e name : String} (valid : ValidEnclaveName e)
      (removes : ∀ n, s.Removes call e n) : Deletes k s l call (l.space kind e ++ name)
  | registration {e : String} (removes : ∀ n, s.Removes call e n) :
      Deletes k s l call (l.record e)

/-- **What calls remove.** -/
theorem deletes_of_callAsks {full : String}
    (hasks : CallAsks k s l caller call (.delete full)) : Deletes k s l call full := by
  generalize hr : Request.delete full = r at hasks
  induction hasks with
  | gate | eventId | time | emit | describeSelf | health => cases hr
  | @body enclave c r hpassed hbody =>
      subst hr
      have hvalid := hpassed.valid
      generalize hdelete : Request.delete full = r at hbody
      cases hbody with
      | deleteKey => cases hdelete; exact .key hvalid (.inl ⟨enclave, rfl, rfl⟩)
      | createPolicy_remove => cases hdelete; exact .other hvalid (by decide)
      | deletePolicy_remove => cases hdelete; exact .other hvalid (by decide)
      | assignPolicy_remove => cases hdelete; exact .other hvalid (by decide)
      | deleteIdentity => cases hdelete; exact .other hvalid (by decide)
      | createEnclave_remove hm hmissed =>
          cases hdelete
          exact .leftover hm (.inl ⟨enclave, rfl⟩) hmissed
      | deleteEnclave_remove hm =>
          cases hdelete
          exact .owned hm fun _ => .inr ⟨enclave, rfl⟩
      | deleteEnclave_unregister =>
          cases hdelete
          exact .registration fun _ => .inr ⟨enclave, rfl⟩
      | _ => cases hdelete
  | @deletePolicy enclave name _ _ _ _ ih =>
      -- a part of the call removes no key, and neither registers nor removes an enclave
      have hremoves {e n : String} :
          ¬ s.Removes (.command enclave (.deletePolicy name)) e n := by
        rintro (⟨_, hcall, -⟩ | ⟨_, hcall⟩) <;> cases hcall
      have hregisters {e : String} :
          ¬ s.Registers (.command enclave (.deletePolicy name)) e := by
        rintro (⟨_, hcall⟩ | ⟨hcall, -⟩) <;> cases hcall
      cases ih hr with
      | other hvalid hkind => exact .other hvalid hkind
      | key _ hremoved => exact absurd hremoved hremoves
      | leftover _ hregistered => exact absurd hregistered hregisters
      | owned _ hremoved => exact absurd (hremoved "") hremoves
      | registration hremoved => exact absurd (hremoved "") hremoves
  | init hasks =>
      subst hr
      generalize hdelete : Request.delete full = r at hasks
      cases hasks with
      | createEnclave_remove hm hmissed =>
          cases hdelete
          exact .leftover hm (.inr ⟨rfl, rfl⟩) hmissed
      | _ => cases hdelete

/-- No call but one that removes the enclave removes its registration. -/
theorem Deletes.ne_record {full : String} (h : Deletes k s l call full)
    (hremoves : ¬ s.Removes call e n) : full ≠ l.record e := by
  rintro rfl
  generalize hfull : l.record e = full at h
  cases h with
  | registration hremoved =>
      obtain rfl := Layout.record_inj hfull
      exact hremoves (hremoved n)
  | _ => exact Layout.record_ne_space_append _ _ _ _ _ hfull

/-- A call that removes neither the key nor its enclave leaves both alone, unless it registers
the enclave and may miss its registration. -/
theorem Deletes.leaves {full : String} (h : Deletes k s l call full) (he : ValidEnclaveName e)
    (hremoves : ¬ s.Removes call e n)
    (hregisters : s.Registers call e → ¬ k.MayMiss (l.record e)) :
    Request.Leaves l e n (.delete full) := by
  refine ⟨h.ne_record hremoves, ?_⟩
  rintro rfl
  generalize hfull : l.space .key e ++ n = full at h
  have hsame {kind : RecordKind} {e' name : String} (he' : ValidEnclaveName e')
      (hfull : l.space .key e ++ n = l.space kind e' ++ name) :=
    Layout.space_append_inj he.toValidName he'.toValidName hfull
  cases h with
  | key hvalid hremoved =>
      obtain ⟨-, rfl, rfl⟩ := hsame hvalid hfull
      exact hremoves hremoved
  | other hvalid hkind => exact hkind (hsame hvalid hfull).1.symm
  | leftover hvalid hregistered hmissed =>
      obtain ⟨-, rfl, -⟩ := hsame hvalid hfull
      exact hregisters hregistered hmissed
  | owned hvalid hremoved =>
      obtain ⟨-, rfl, -⟩ := hsame hvalid hfull
      exact hremoves (hremoved n)
  | registration => exact Layout.record_ne_space_append _ _ _ _ _ hfull.symm

/-- What a call asks leaves the key alone if what it removes does. -/
theorem leaves_of_callAsks {r : Request} (hasks : CallAsks k s l caller call r)
    (he : ValidEnclaveName e) (hremoves : ¬ s.Removes call e n)
    (hregisters : s.Registers call e → ¬ k.MayMiss (l.record e)) : r.Leaves l e n := by
  cases r with
  | delete full => exact (deletes_of_callAsks hasks).leaves he hremoves hregisters
  | _ => exact ⟨id, id⟩

/-! ### Calls on their way -/

/-- What is left of a program of a call that removes neither the key nor its enclave, or of
any call that has ended.  The service of the call has the prefix. -/
inductive Underway (root e n : String) : Program (Except Error Reply) → Prop
  | ended (a : Except Error Reply) : Underway root e n (.done a)
  | call {settings : Settings} {s : Service} {caller : Identity} {call : Call}
      {p q : Program (Except Error Reply)} (rooted : settings.keyPrefix = root)
      (made : ofSettings settings = .ok s) (keeps : ¬ s.Removes call e n)
      (begun : p ∈ s.programs caller call) (left : p.LeadsTo q) : Underway root e n q

/-- What is left of a program of a call that registers the enclave, after the look-up of its
registration found nothing. -/
inductive Stale (root e : String) : Program (Except Error Reply) → Prop
  | mk {settings : Settings} {s : Service} {caller : Identity} {call : Call}
      {p q : Program (Except Error Reply)} {what : String}
      {next : Except Error Bytes → Program (Except Error Reply)}
      (rooted : settings.keyPrefix = root) (made : ofSettings settings = .ok s)
      (registers : s.Registers call e) (begun : p ∈ s.programs caller call)
      (looked : p.LeadsTo (.ask (.get (Layout.record ⟨root⟩ e)) next))
      (left : (next (.error (.notFound what))).LeadsTo q) : Stale root e q

variable {root : String} {p q : Program (Except Error Reply)}

theorem Underway.of_leadsTo (h : Underway root e n p) (hq : p.LeadsTo q) :
    Underway root e n q := by
  cases h with
  | ended a =>
      cases hq
      exact .ended a
  | call hroot hmade hkeeps hbegun hleft =>
      exact .call hroot hmade hkeeps hbegun (hleft.trans hq)

/-- No call on its way removes the registration of the enclave. -/
theorem Underway.keeps_registration (h : Underway root e n p) :
    p.Keeps (.asking fun r => ¬ r.Removes (Layout.record ⟨root⟩ e)) fun _ => True := by
  cases h with
  | ended a => trivial
  | call hroot hmade hremoves hbegun hleft =>
      subst hroot
      refine Program.Keeps.asking_of_leadsTo ?_ hleft
      refine keeps_programs (over_of_ofSettings hmade) (fun r hasks => ?_) hbegun
      cases r with
      | delete full => exact (deletes_of_callAsks hasks).ne_record hremoves
      | _ => exact id

/-- A call that removes neither the key nor its enclave spares the key while the enclave is
registered. -/
theorem spares_programs (hover : s.Over l) (he : ValidEnclaveName e)
    (hremoves : ¬ s.Removes call e n) (hp : p ∈ s.programs caller call) :
    p.Keeps (.sparing l e n) fun _ => True := by
  refine keeps_programs hover (fun r hasks => ?_) hp
  refine leaves_of_callAsks hasks he hremoves fun _ => ?_
  rintro ⟨what, hassumed⟩
  exact hassumed rfl

/-- The only answer on which a call does not rely is that the enclave is not registered. -/
theorem Stale.of_broken {settings : Settings} {r : Request}
    {next : r.Answer → Program (Except Error Reply)} {x : r.Answer}
    (hmade : ofSettings settings = .ok s) (hregisters : s.Registers call e)
    (hbegun : p ∈ s.programs caller call) (hlooked : p.LeadsTo (.ask r next))
    (hbroken : ¬ (Contract.sparing ⟨settings.keyPrefix⟩ e n).assumes r x)
    (hleft : (next x).LeadsTo q) : Stale settings.keyPrefix e q := by
  cases r with
  | get name =>
      cases x with
      | ok value => exact absurd trivial hbroken
      | error err =>
          cases err with
          | notFound what =>
              obtain rfl : name = Layout.record ⟨settings.keyPrefix⟩ e := by
                by_contra hother
                exact hbroken hother
              exact .mk rfl hmade hregisters hbegun hlooked hleft
          | _ => exact absurd trivial hbroken
  | _ => exact absurd trivial hbroken

/-- **The one race.**  A call on its way spares the key of a registered enclave, or it is a
call that registers the enclave, has missed the registration, and clears the key. -/
theorem Underway.spares_or_clears (h : Underway root e n p) (he : ValidEnclaveName e)
    (hn : n ≠ "") :
    p.Keeps (.sparing ⟨root⟩ e n) (fun _ => True) ∨
      Stale root e p ∧ p.Clears (Layout.space ⟨root⟩ .key e ++ n) := by
  cases h with
  | ended a => exact .inl trivial
  | @call settings s caller call fresh _ hroot hmade hremoves hbegun hleft =>
      subst hroot
      have hover := over_of_ofSettings hmade
      by_cases hregisters : s.Registers call e
      · rcases settled_programs hover he hn hregisters hbegun _ hleft with hspares | hclears
        · exact .inl hspares
        rcases (spares_programs hover he hremoves hbegun).of_leadsTo hleft with
          hspares | ⟨r, next, x, hlooked, hbroken, hrest⟩
        · exact .inl hspares
        · exact .inr ⟨.of_broken hmade hregisters hbegun hlooked hbroken hrest, hclears⟩
      · refine .inl (Program.Keeps.sparing (Program.Keeps.asking_of_leadsTo ?_ hleft))
        exact keeps_programs hover (fun r hasks => leaves_of_callAsks hasks he hremoves
          fun hregistered => absurd hregistered hregisters) hbegun

/-! ### When a key stays -/

end Service

variable {l : Layout} {e n root : String}

/-- The store holds the key, and its enclave is registered. -/
structure Backend.HoldsKey (b : Backend) (l : Layout) (e n : String)
    (key registration : Bytes) : Prop where
  held : b.stored? (l.space .key e ++ n) = some key
  registered : b.stored? (l.record e) = some registration

theorem World.holdsKey_answer {σ : Type} [Mishaps σ] {w : World σ} {key registration : Bytes}
    {r : Request} (hr : r.Leaves l e n) (c : Context)
    (hw : w.backend.HoldsKey l e n key registration) :
    (w.answer c r).2.backend.HoldsKey l e n key registration :=
  ⟨stored?_answer_of_not_removes hr.2 c hw.held,
    stored?_answer_of_not_removes hr.1 c hw.registered⟩

/-- The contract of a call in a world: if it can still change something, it spares the key. -/
def Contract.sparingWhileLive (w : World Unit) (l : Layout) (e n : String) (c : Context) :
    Contract :=
  if w.ended c then .asking fun _ => True else .sparing l e n

/-- The answers to such a call are as the contract assumes, and the key stays. -/
theorem World.sparingWhileLive_step {w w' : World Unit} {key registration : Bytes}
    {c : Context} {r : Request} (hr : (Contract.sparingWhileLive w l e n c).allows r)
    (hended : w'.ended c = w.ended c)
    (hheld : w'.backend.HoldsKey l e n key registration) :
    (Contract.sparingWhileLive w l e n c).assumes r (w'.answer c r).1 ∧
      (w'.answer c r).2.backend.HoldsKey l e n key registration := by
  cases hlive : w.ended c with
  | true =>
      rw [World.backend_answer_of_ended (hended.trans hlive) r]
      simp only [Contract.sparingWhileLive, hlive, if_true]
      exact ⟨trivial, hheld⟩
  | false =>
      simp only [Contract.sparingWhileLive, hlive, Bool.false_eq_true, if_false] at hr ⊢
      refine ⟨?_, holdsKey_answer hr c hheld⟩
      cases r with
      | get name =>
          -- the registration is not missed
          cases hanswer : (w'.answer c (.get name)).1 with
          | ok value => trivial
          | error err =>
              cases err with
              | notFound what =>
                  rintro rfl
                  exact Backend.get_ne_notFound hheld.registered _ what hanswer
              | _ => trivial
      | _ => trivial

namespace Service

/-- **When a key stays.**  The key of a registered enclave stays in whatever order the calls on
their way go on, if and only if it stays when any one of those that missed the registration
runs to its end alone. -/
theorem survives_iff {ss : List (Strand (Except Error Reply))} {w : World Unit}
    (hunderway : ∀ t ∈ ss, Underway root e n t.program) (he : ValidEnclaveName e)
    (hn : n ≠ "") {key registration : Bytes}
    (hheld : w.backend.HoldsKey ⟨root⟩ e n key registration) :
    (∀ ss' w', Reaches ss w ss' w' →
        w'.backend.stored? (Layout.space ⟨root⟩ .key e ++ n) = some key) ↔
      ∀ t ∈ ss, Stale root e t.program →
        (t.program.run t.context w).2.backend.stored? (Layout.space ⟨root⟩ .key e ++ n) =
          some key := by
  constructor
  · intro hstays t ht _
    obtain ⟨i, hi⟩ := List.mem_iff_getElem?.1 ht
    exact hstays _ _ (Reaches.run w hi)
  · intro halone ss' w' hrun
    have hspares (t : Strand (Except Error Reply)) (ht : t ∈ ss) :
        t.program.Keeps (.sparingWhileLive w ⟨root⟩ e n t.context) fun _ => True := by
      cases hended : w.ended t.context with
      | true =>
          simp only [Contract.sparingWhileLive, hended, if_true]
          exact t.program.keeps_anything
      | false =>
          simp only [Contract.sparingWhileLive, hended, Bool.false_eq_true, if_false]
          rcases (hunderway t ht).spares_or_clears he hn with hspares | ⟨hstale, hclears⟩
          · exact hspares
          · have hlost := hclears t.context w hended
            rw [halone t ht hstale] at hlost
            cases hlost
    have hkept := Reaches.keeps (fun v => (∀ c, v.ended c = w.ended c) ∧
      v.backend.HoldsKey ⟨root⟩ e n key registration) (fun c r v hr hv => ?_) hrun hspares
      ⟨fun _ => rfl, hheld⟩
    · exact hkept.2.2.held
    · obtain ⟨hassumed, hstays⟩ := World.sparingWhileLive_step hr (hv.1 c) hv.2
      exact ⟨hassumed, fun c' => (v.ended_answer c c' r).trans (hv.1 c'), hstays⟩

/-! ### When a key is stored -/

end Service

/-- The contract of storing no key as long as its enclave is not registered. -/
def Contract.waiting (l : Layout) (e n : String) : Contract where
  allows r := ¬ r.Creates (l.space .key e ++ n)
  assumes
    | .get name, .ok _ => name ≠ l.record e
    | _, _ => True

variable {σ : Type} [Mishaps σ]

/-- As long as the enclave is not registered, all answers are as the contract assumes. -/
theorem World.waiting_step {w : World σ} (hmissing : w.backend.stored? (l.record e) = none)
    (c : Context) (r : Request) : (Contract.waiting l e n).assumes r (w.answer c r).1 := by
  cases r with
  | get name =>
      cases hanswer : (w.answer c (.get name)).1 with
      | ok value =>
          rintro rfl
          rw [stored?_of_answer_get hanswer] at hmissing
          cases hmissing
      | error err => trivial
  | _ => trivial

/-- In an interleaving in which no registration is removed, a program that waits for the
registration of an enclave goes on waiting until the enclave is registered. -/
theorem Reaches.registered_or_waiting {α : Type} {ss ss' : List (Strand α)} {w w' : World σ}
    {i : Nat} {s : Strand α} (hrun : Reaches ss w ss' w')
    (hkeeps : ∀ t ∈ ss,
      t.program.Keeps (.asking fun r => ¬ r.Removes (l.record e)) fun _ => True)
    (hi : ss[i]? = some s) (hwaits : s.program.Keeps (.waiting l e n) fun _ => True) :
    (∃ registration, w'.backend.stored? (l.record e) = some registration) ∨
      ∃ t, ss'[i]? = some t ∧ t.program.Keeps (.waiting l e n) fun _ => True := by
  refine (hrun.preserves (fun ss w =>
    (∀ t ∈ ss, t.program.Keeps (.asking fun r => ¬ r.Removes (l.record e)) fun _ => True) ∧
      ((∃ registration, w.backend.stored? (l.record e) = some registration) ∨
        ∃ t, ss[i]? = some t ∧ t.program.Keeps (.waiting l e n) fun _ => True))
    (fun ss w j t hj hinv => ?_) ⟨hkeeps, .inr ⟨s, hi, hwaits⟩⟩).2
  obtain ⟨hall, hstate⟩ := hinv
  have hmoved := (hall t (List.mem_of_getElem? hj)).asking_of_leadsTo (t.leadsTo_turn w)
  refine ⟨fun u hu => ?_, ?_⟩
  · rcases List.mem_or_eq_of_mem_set hu with hold | rfl
    · exact hall u hold
    · exact hmoved
  cases hheld : w.backend.stored? (l.record e) with
  | some registration =>
      -- once registered, the enclave stays so
      refine .inl ⟨registration, ?_⟩
      have hturn := hall t (List.mem_of_getElem? hj)
      obtain ⟨c, p⟩ := t
      cases p with
      | done a => exact hheld
      | ask r next => exact World.stored?_answer_of_not_removes hturn.1 c hheld
  | none =>
      obtain ⟨u, hu, hwaiting⟩ : ∃ u, ss[i]? = some u ∧
          u.program.Keeps (.waiting l e n) fun _ => True := by
        rcases hstate with ⟨registration, hregistered⟩ | hwaiting
        · rw [hheld] at hregistered
          cases hregistered
        · exact hwaiting
      right
      by_cases hij : j = i
      · subst hij
        obtain rfl := Option.some.inj (hu.symm.trans hj)
        refine ⟨_, List.getElem?_set_self (List.getElem?_eq_some_iff.1 hj).1, ?_⟩
        obtain ⟨c, p⟩ := u
        cases p with
        | done a => trivial
        | ask r next => exact hwaiting.2 _ (World.waiting_step hheld c r)
      · exact ⟨u, (List.getElem?_set_ne hij).trans hu, hwaiting⟩

namespace Service

variable {s : Service}

/-- A call that creates a key stores none before it found the enclave registered. -/
theorem waits_createKey (hover : s.Over l) (caller : Identity) (enclave n : String)
    (value : Bytes) : (s.perform caller enclave (.createKey n value)).attempt.Keeps
      (.waiting l (s.enclaveName enclave) n) fun _ => True := by
  refine Routine.Keeps.attempt (keeps_perform hover (fun _ _ _ => id) (fun hpassed => ?_) id id
    fun _ => id)
  obtain ⟨registration, bytes, hassumed, -⟩ := hpassed.registered
  exact absurd rfl hassumed

/-- A call that reports a new key was told that the key is stored. -/
theorem stores_createKey (hover : s.Over l) {k : Contract}
    (hall : ∀ r, (∀ full, ¬ r.Removes full) → k.allows r)
    (caller : Identity) (enclave n : String) (value : Bytes) :
    (s.perform caller enclave (.createKey n value)).Keeps k
      (fun reply => ValidEnclaveName (s.enclaveName enclave) ∧ ValidName n ∧
        ∃ time, reply = .keyInfo ⟨n, time, caller⟩ ∧
          k.assumes (.create (l.space .key (s.enclaveName enclave) ++ n)
            (Record.encode (⟨value, time, caller⟩ : SealedKey))) (.ok ()))
      fun _ => True := by
  refine keeps_gated (keeps_gate hover fun _ _ _ => hall _ fun _ => id) ?_
    (hall _ fun _ => id) (hall _ fun _ => id) fun _ => hall _ fun _ => id
  rintro h ⟨rfl, hpassed⟩
  refine Routine.Keeps.bind (Enclave.keeps_createKey (hall _ fun _ => id) (hall _ fun _ => id)
    fun _ _ _ _ => hall _ fun _ => id) fun info ⟨hname, time, hinfo, hstored⟩ => ?_
  exact Routine.Keeps.pure ⟨hpassed.valid, hname, time, by rw [hinfo], hstored⟩

variable {ss ss' : List (Strand (Except Error Reply))} {w w' : World σ}

/-- **The moment of storing.**  In an interleaving in which nobody removes the registration of
the enclave, a call that reports a new key has stored it at some moment, with the value that
was given and with what is reported, and then the enclave was registered. -/
theorem exists_commit (hover : s.Over l) {c : Context} {caller : Identity}
    {enclave n : String} {value : Bytes} {i : Nat} {reply : Reply}
    (hkeeps : ∀ t ∈ ss, t.program.Keeps
      (.asking fun r => ¬ r.Removes (l.record (s.enclaveName enclave))) fun _ => True)
    (hstart : ss[i]? = some ⟨c, (s.perform caller enclave (.createKey n value)).attempt⟩)
    (hrun : Reaches ss w ss' w') (hend : ss'[i]?.bind Strand.value? = some (.ok reply)) :
    ∃ ss₁ w₁ time registration, Reaches ss w ss₁ w₁ ∧ Reaches ss₁ w₁ ss' w' ∧
      reply = .keyInfo ⟨n, time, caller⟩ ∧
      ValidEnclaveName (s.enclaveName enclave) ∧ ValidName n ∧
      w₁.backend.HoldsKey l (s.enclaveName enclave) n
        (Record.encode (⟨value, time, caller⟩ : SealedKey)) registration := by
  obtain ⟨t, hi, hpromise⟩ := hrun.follow hstart
    (stores_createKey hover (fun _ _ => trivial) caller enclave n value)
  rw [hi] at hend
  obtain ⟨he, hn, time, hreply, hanswered⟩ :=
    hpromise (.ok reply) (Strand.value?_eq_some_iff.1 hend)
  obtain ⟨ss₀, w₀, c₀, next, hbefore, hasked, hgiven, hafter⟩ := hanswered
  -- whoever creates the key no longer waits for the registration
  obtain ⟨registration, hregistered⟩ : ∃ registration,
      w₀.backend.stored? (l.record (s.enclaveName enclave)) = some registration := by
    rcases hbefore.registered_or_waiting hkeeps hstart
      (waits_createKey hover caller enclave n value) with hregistered | ⟨u, hu, hwaiting⟩
    · exact hregistered
    · obtain rfl := Option.some.inj (hu.symm.trans hasked)
      exact absurd rfl hwaiting.1
  refine ⟨ss₀.set i ⟨c₀, next (.ok ())⟩, _, time, registration, ?_, hafter, hreply, he, hn, ?_⟩
  · refine hbefore.trans (.turn hasked ?_)
    rw [← hgiven]
    exact .refl _ _
  · refine ⟨?_, World.stored?_answer_of_not_removes id c₀ hregistered⟩
    generalize Record.encode (⟨value, time, caller⟩ : SealedKey) = key at hgiven ⊢
    rcases w₀.answer_create_cases c₀ (l.space .key (s.enclaveName enclave) ++ n) key with
      ⟨err, hfailed, -⟩ | ⟨-, -, hheld⟩
    · rw [hgiven] at hfailed
      cases hfailed
    · rw [hheld, if_pos rfl]

/-! ### Committed keys -/

/-- **Committed keys.**  Calls of services with one prefix over one store take turns in any
order, some of them perhaps on their way already when the key is asked for, and none of those
that go on removes the key or its enclave.  Nothing fails.  If the call that creates the key
reports success, then it stored the key at some moment with exactly what it was given and
reports.  From that moment on the key stays with this value, however the calls go on, if and
only if it stays when any one call that registers the enclave, and whose look-up missed the
registration, is run to its end alone. -/
theorem committed_key_survives_iff {settings : Settings} {s : Service}
    (hmade : ofSettings settings = .ok s) {ss ss' : List (Strand (Except Error Reply))}
    {w w' : World Unit} {c : Context} {caller : Identity} {enclave n : String} {value : Bytes}
    {i : Nat} {reply : Reply}
    (hunderway : ∀ t ∈ ss, Underway settings.keyPrefix (s.enclaveName enclave) n t.program)
    (hstart : ss[i]? = some ⟨c, (s.perform caller enclave (.createKey n value)).attempt⟩)
    (hrun : Reaches ss w ss' w') (hend : ss'[i]?.bind Strand.value? = some (.ok reply)) :
    let key := Layout.keys ⟨settings.keyPrefix⟩ (s.enclaveName enclave) ++ n
    ∃ ss₁ w₁ time, Reaches ss w ss₁ w₁ ∧ Reaches ss₁ w₁ ss' w' ∧
      reply = .keyInfo ⟨n, time, caller⟩ ∧
      w₁.backend.stored? key = some (Record.encode (⟨value, time, caller⟩ : SealedKey)) ∧
      ((∀ ss₂ w₂, Reaches ss₁ w₁ ss₂ w₂ →
          w₂.backend.stored? key = some (Record.encode (⟨value, time, caller⟩ : SealedKey))) ↔
        ∀ t ∈ ss₁, Stale settings.keyPrefix (s.enclaveName enclave) t.program →
          (t.program.run t.context w₁).2.backend.stored? key =
            some (Record.encode (⟨value, time, caller⟩ : SealedKey))) := by
  intro key
  have hkeeps (t : Strand (Except Error Reply)) (ht : t ∈ ss) :=
    (hunderway t ht).keeps_registration
  obtain ⟨ss₁, w₁, time, registration, hbefore, hafter, hreply, he, hn, hheld⟩ :=
    exists_commit (over_of_ofSettings hmade) hkeeps hstart hrun hend
  refine ⟨ss₁, w₁, time, hbefore, hafter, hreply, hheld.held, ?_⟩
  refine survives_iff ?_ he hn.nonempty hheld
  exact hbefore.forall_mem (fun _ _ _ hleft h => h.of_leadsTo hleft) hunderway

/-- In a run of two calls that register an enclave and one that creates a key in it. -/
theorem committed_key_survives_iff_race :
    let s : Service := ⟨Layout.catalog ⟨""⟩, .ofAdmin (some ⟨"root"⟩), "default", 30⟩
    let time := (World.calm (.memory .empty)).clock 0
    let registration : Registration := ⟨time, ⟨"root"⟩⟩
    let b : Backend :=
      .memory (Table.empty.insert "sys/enclaves/default" (Record.encode registration))
    let call (enclave : String) (c : Command) : Strand (Except Error Reply) :=
      ⟨.ofToken [], (s.perform ⟨"root"⟩ enclave c).attempt⟩
    let register := call "" (.createEnclave "e")
    let calls := [register, register, call "e" (.createKey "n" [7])]
    let key := Layout.keys ⟨""⟩ "e" ++ "n"
    let record := Record.encode (⟨[7], time, ⟨"root"⟩⟩ : SealedKey)
    ∃ ss w ss₁ w₁, Reaches calls (.calm b) ss w ∧
      ss[2]?.bind Strand.value? = some (.ok (.keyInfo ⟨"n", time, ⟨"root"⟩⟩)) ∧
      Reaches calls (.calm b) ss₁ w₁ ∧ Reaches ss₁ w₁ ss w ∧
      w₁.backend.stored? key = some record ∧
      ((∀ ss₂ w₂, Reaches ss₁ w₁ ss₂ w₂ → w₂.backend.stored? key = some record) ↔
        ∀ t ∈ ss₁, Stale "" "e" t.program →
          (t.program.run t.context w₁).2.backend.stored? key = some record) := by
  intro s time registration b call register calls key record
  have hmade : ofSettings { Settings.default with admin := some ⟨"root"⟩ } = .ok s := rfl
  have hunderway (t : Strand (Except Error Reply)) (ht : t ∈ calls) :
      Underway "" (s.enclaveName "e") "n" t.program := by
    have hfresh {enclave : String} {c : Command}
        (hkeeps : ¬ s.Removes (.command enclave c) (s.enclaveName "e") "n") :
        Underway "" (s.enclaveName "e") "n" (call enclave c).program :=
      .call rfl hmade hkeeps (List.mem_singleton_self _) (.refl _)
    simp only [calls, List.mem_cons, List.not_mem_nil, or_false] at ht
    rcases ht with rfl | rfl | rfl
    all_goals
      refine hfresh ?_
      rintro (⟨_, h, -⟩ | ⟨_, h⟩) <;> cases h
  obtain ⟨ss, w, hrun, hend⟩ : ∃ ss w, Reaches calls (.calm b) ss w ∧
      ss[2]?.bind Strand.value? = some (.ok (.keyInfo ⟨"n", time, ⟨"root"⟩⟩)) :=
    ⟨_, _, Reaches.takeTurns ([0, 0] ++ List.replicate 20 1 ++ List.replicate 20 2) _ _,
      by decide +kernel⟩
  have hstart : calls[2]? =
      some ⟨.ofToken [], (s.perform ⟨"root"⟩ "e" (.createKey "n" [7])).attempt⟩ := rfl
  obtain ⟨ss₁, w₁, time', hbefore, hafter, hreply, hstored, hstays⟩ :=
    committed_key_survives_iff hmade hunderway hstart hrun hend
  obtain rfl : time = time' := by
    injection hreply with hinfo
    injection hinfo
  exact ⟨ss, w, ss₁, w₁, hrun, hend, hbefore, hafter, hstored, hstays⟩

/-- Two calls register an enclave, and a third one creates a key in it.  The first call looks
for the registration and waits; the second registers the enclave, and the key is created.
Then the first call goes on: it reports that the enclave exists already, and the key is
gone. -/
theorem committed_key_lost :
    let settings := { Settings.default with admin := some ⟨"root"⟩ }
    let s : Service := ⟨Layout.catalog ⟨""⟩, .ofAdmin (some ⟨"root"⟩), "default", 30⟩
    let time := (World.calm (.memory .empty)).clock 0
    let registration : Registration := ⟨time, ⟨"root"⟩⟩
    let b : Backend :=
      .memory (Table.empty.insert "sys/enclaves/default" (Record.encode registration))
    let call (enclave : String) (c : Command) : Strand (Except Error Reply) :=
      ⟨.ofToken [], (s.perform ⟨"root"⟩ enclave c).attempt⟩
    let register := call "" (.createEnclave "e")
    ofSettings settings = .ok s ∧ ∃ ss w ss' w',
      Reaches [register, register, call "e" (.createKey "n" [7])] (.calm b) ss w ∧
      ss[2]?.bind Strand.value? = some (.ok (.keyInfo ⟨"n", time, ⟨"root"⟩⟩)) ∧
      w.backend.stored? "enclaves/e/keys/n" =
        some (Record.encode (⟨[7], time, ⟨"root"⟩⟩ : SealedKey)) ∧
      Reaches ss w ss' w' ∧
      ss'[0]?.bind Strand.value? = some (.error (.alreadyExists "enclave e")) ∧
      w'.backend.stored? "enclaves/e/keys/n" = none := by
  intro settings s time registration b call register
  have hmade : ofSettings { Settings.default with admin := some ⟨"root"⟩ } = .ok s := rfl
  refine ⟨hmade, _, _, _, _, Reaches.takeTurns
    ([0, 0] ++ List.replicate 20 1 ++ List.replicate 20 2) _ _, ?_, ?_,
    Reaches.takeTurns (List.replicate 20 0) _ _, ?_, ?_⟩
  · decide +kernel
  · decide +kernel
  · decide +kernel
  · decide +kernel

end Service

end KeyCustody
