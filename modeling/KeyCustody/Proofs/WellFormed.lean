import KeyCustody.Proofs.Authorization
import KeyCustody.Proofs.Durability
import KeyCustody.Proofs.Forms
import KeyCustody.Proofs.Stopping

/-!
# What a store holds after calls

A store that was empty when the service came to it holds only what the service files: every
name has one of the four shapes of the layout, every value is a record of its shape
(`Fits`), and no enclave that is not registered owns anything (`Backend.Orderly`).  No request
of a call breaks this, so it does not matter at which request a call fails or is given up.

Two kinds of calls need a reason.  A call that files a record has found the registration of
its enclave, and no call but one that removes enclaves removes registrations
(`Contract.filing`).  A call that removes an enclave removes the registration last, behind a
purge that did not fail; then nothing is left for which it could be missing
(`Registry.orderly_delete`).  Main statements:

* `Service.orderly_throughout`: calls keep a store orderly, even when they are given up;
* `Service.registered_of_init`: a successful start registers the default enclave;
* `Service.wellFormed_after_start`: what a store holds after calls.
-/

namespace KeyCustody

/-! ### Records in their places -/

/-- No list of rules has the empty rule, and none has a rule twice. -/
structure Policy.Clean (p : Policy) : Prop where
  allow_nonempty : "" ∉ p.allow
  deny_nonempty : "" ∉ p.deny
  allow_nodup : p.allow.Nodup
  deny_nodup : p.deny.Nodup

/-- A policy that is stored is clean. -/
theorem Enclave.clean_storedPolicy {policy : Policy} (hchecked : policy.check = .ok ())
    (time : Timestamp) (creator : Identity) : (storedPolicy policy time creator).Clean := by
  have hempty : "" ∉ policy.allow ∧ "" ∉ policy.deny := by
    unfold Policy.check at hchecked
    split at hchecked
    · cases hchecked
    split at hchecked
    · cases hchecked
    rename_i hallow hdeny
    exact ⟨by simpa using hallow, by simpa using hdeny⟩
  constructor
  · exact fun h => hempty.1 (Policy.mem_distinct.1 h)
  · exact fun h => hempty.2 (Policy.mem_distinct.1 h)
  · exact Policy.nodup_distinct policy.allow
  · exact Policy.nodup_distinct policy.deny

/-- The name and the value of a record of an enclave: a key or a policy under a valid name, or
an assignment under a valid identity.  Only identities of a given kind have assignments. -/
def RecordKind.Fits (ok : Identity → Prop) (name : String) (value : Bytes) : RecordKind → Prop
  | .key => ValidName name ∧ ∃ k : SealedKey, Record.decode? value = some k
  | .policy => ValidName name ∧ ∃ p : Policy, Record.decode? value = some p ∧ p.Clean
  | .assignment => ∃ i : Identity, i.text = name ∧ i.Valid ∧ ok i ∧
      ∃ a : Assignment, Record.decode? value = some a

theorem RecordKind.Fits.nonempty {ok : Identity → Prop} {name : String} {value : Bytes}
    {kind : RecordKind} (h : kind.Fits ok name value) : name ≠ "" := by
  cases kind with
  | key => exact h.1.nonempty
  | policy => exact h.1.nonempty
  | assignment =>
      obtain ⟨i, rfl, hknown, -⟩ := h
      exact hknown.known

/-- The full name has one of the four shapes of the layout, and the value is a record of this
shape. -/
inductive Fits (l : Layout) (ok : Identity → Prop) : String → Bytes → Prop
  | registration {e : String} {value : Bytes} {r : Registration} (valid : ValidEnclaveName e)
      (decodes : Record.decode? value = some r) : Fits l ok (l.record e) value
  | owned {kind : RecordKind} {e name : String} {value : Bytes} (valid : ValidEnclaveName e)
      (fits : kind.Fits ok name value) : Fits l ok (l.space kind e ++ name) value

namespace Fits

variable {l : Layout} {ok : Identity → Prop} {e name : String} {value : Bytes}
  {kind : RecordKind}

/-- What stands under the name of a registration is one. -/
theorem registration_inv (h : Fits l ok (l.record e) value) :
    ∃ r : Registration, Record.decode? value = some r := by
  generalize hfull : l.record e = full at h
  cases h with
  | registration hvalid hdecodes => exact ⟨_, hdecodes⟩
  | owned => exact absurd hfull (Layout.record_ne_space_append _ _ _ _ _)

/-- What stands under the name of a record of an enclave has the kind of the record. -/
theorem owned_inv (he : ValidEnclaveName e) (h : Fits l ok (l.space kind e ++ name) value) :
    kind.Fits ok name value := by
  generalize hfull : l.space kind e ++ name = full at h
  cases h with
  | registration => exact absurd hfull.symm (Layout.record_ne_space_append _ _ _ _ _)
  | owned hvalid hfits =>
      obtain ⟨rfl, -, rfl⟩ :=
        Layout.space_append_inj he.toValidName hvalid.toValidName hfull
      exact hfits

end Fits

/-! ### Orderly stores -/

/-- The store holds a registration of the enclave. -/
def Backend.Registered (b : Backend) (l : Layout) (e : String) : Prop :=
  ∃ value, b.stored? (l.record e) = some value

/-- Everything stands in its place, and only registered enclaves own anything. -/
structure Backend.Orderly (b : Backend) (l : Layout) (ok : Identity → Prop) : Prop where
  fits : ∀ full value, b.stored? full = some value → Fits l ok full value
  owned : ∀ kind e n value, ValidEnclaveName e → b.stored? (l.space kind e ++ n) = some value →
    b.Registered l e

variable {l : Layout} {ok : Identity → Prop} {known owners : String → Prop}

theorem Backend.orderly_of_empty {b : Backend} (hempty : ∀ name, b.stored? name = none) :
    b.Orderly l ok where
  fits := fun full value h => by rw [hempty] at h; cases h
  owned := fun kind e n value _ h => by rw [hempty] at h; cases h

namespace Backend

variable {b b' : Backend} {full e : String} {value : Bytes}

theorem Registered.of_create (h : b.Registered l e)
    (hheld : ∀ other, b'.stored? other = if other = full then some value else b.stored? other) :
    b'.Registered l e := by
  obtain ⟨registration, hregistered⟩ := h
  by_cases hsame : l.record e = full
  · exact ⟨value, by rw [hheld, if_pos hsame]⟩
  · exact ⟨registration, by rw [hheld, if_neg hsame, hregistered]⟩

theorem registered_delete_iff (hfull : full ≠ l.record e)
    (hheld : ∀ other, b'.stored? other = if other = full then none else b.stored? other) :
    b'.Registered l e ↔ b.Registered l e := by
  unfold Registered
  rw [hheld, if_neg hfull.symm]

/-- A store in which something was put in its place is orderly, if its owner is registered. -/
theorem Orderly.of_create (hb : b.Orderly l ok) (hfits : Fits l ok full value)
    (howned : ∀ kind e n, ValidEnclaveName e → full = l.space kind e ++ n → b.Registered l e)
    (hheld : ∀ other, b'.stored? other = if other = full then some value else b.stored? other) :
    b'.Orderly l ok where
  fits := by
    intro other v hv
    rw [hheld] at hv
    split at hv
    · rename_i hsame
      rw [hsame, ← Option.some.inj hv]
      exact hfits
    · exact hb.fits other v hv
  owned := by
    intro kind e n v he hv
    refine Registered.of_create ?_ hheld
    rw [hheld] at hv
    split at hv
    · rename_i hsame
      exact howned kind e n he hsame.symm
    · exact hb.owned kind e n v he hv

/-- A store from which something was removed is orderly, if it was no registration or if its
enclave owned nothing. -/
theorem Orderly.of_delete (hb : b.Orderly l ok)
    (hbare : ∀ e, ValidEnclaveName e → full = l.record e →
      ∀ kind n, b.stored? (l.space kind e ++ n) = none)
    (hheld : ∀ other, b'.stored? other = if other = full then none else b.stored? other) :
    b'.Orderly l ok where
  fits := by
    intro other v hv
    rw [hheld] at hv
    split at hv
    · cases hv
    · exact hb.fits other v hv
  owned := by
    intro kind e n v he hv
    rw [hheld] at hv
    split at hv
    · cases hv
    · have hother : full ≠ l.record e := by
        intro hsame
        rw [hbare e he hsame kind n] at hv
        cases hv
      exact (registered_delete_iff hother hheld).2 (hb.owned kind e n v he hv)

end Backend

/-- The contract of filing records: whatever is created fits and belongs to one of the owners,
and no registration is removed.  Registrations that are found or created are known. -/
def Contract.filing (l : Layout) (ok : Identity → Prop) (known owners : String → Prop) :
    Contract where
  allows
    | .create full value => Fits l ok full value ∧ (∀ e, full = l.record e → known e) ∧
        ∀ kind e n, ValidEnclaveName e → full = l.space kind e ++ n → owners e
    | .delete full => ∀ e, full ≠ l.record e
    | _ => True
  assumes
    | .get full, .ok _ => ∀ e, full = l.record e → known e
    | _, _ => True

/-- The store is orderly, all owners are registered, and only known enclaves are. -/
structure Backend.Filed (b : Backend) (l : Layout) (ok : Identity → Prop)
    (known owners : String → Prop) : Prop extends Backend.Orderly b l ok where
  known : ∀ e, b.Registered l e → known e
  owners : ∀ e, owners e → b.Registered l e

/-- **Filing keeps a store orderly.** -/
theorem World.filing_step {σ : Type} [Mishaps σ] (c : Context) (r : Request) (w : World σ)
    (hr : (Contract.filing l ok known owners).allows r)
    (hw : w.backend.Filed l ok known owners) :
    (Contract.filing l ok known owners).assumes r (w.answer c r).1 ∧
      (w.answer c r).2.backend.Filed l ok known owners := by
  cases r with
  | create full value =>
      obtain ⟨hfits, hknown, howners⟩ := hr
      refine ⟨trivial, ?_⟩
      rcases w.answer_create_cases c full value with ⟨e, -, hsame⟩ | ⟨-, -, hheld⟩
      · rw [hsame]
        exact hw
      · refine ⟨hw.toOrderly.of_create hfits (fun kind e n he hfull => ?_) hheld, ?_, ?_⟩
        · exact hw.owners e (howners kind e n he hfull)
        · rintro e ⟨v, hv⟩
          rw [hheld] at hv
          split at hv
          · rename_i hfull
            exact hknown e hfull.symm
          · exact hw.known e ⟨v, hv⟩
        · exact fun e he => (hw.owners e he).of_create hheld
  | delete full =>
      refine ⟨trivial, ?_⟩
      rcases w.answer_delete_cases c full with ⟨e, -, hsame⟩ | ⟨-, hheld⟩
      · rw [hsame]
        exact hw
      · refine ⟨hw.toOrderly.of_delete (fun e _ hfull => absurd hfull (hr e)) hheld, ?_, ?_⟩
        · exact fun e he => hw.known e ((Backend.registered_delete_iff (hr e) hheld).1 he)
        · exact fun e he => (Backend.registered_delete_iff (hr e) hheld).2 (hw.owners e he)
  | get full =>
      refine ⟨?_, by rw [World.backend_answer_of_read rfl]; exact hw⟩
      cases hanswer : (w.answer c (.get full)).1 with
      | ok value =>
          rintro e rfl
          exact hw.known e ⟨value, World.stored?_of_answer_get hanswer⟩
      | error err => trivial
  | _ => exact ⟨trivial, by rw [World.backend_answer_of_read rfl]; exact hw⟩

/-! ### What calls file -/

namespace Service

variable {k : Contract} {s : Service} {caller : Identity} {call : Call}

/-- The call gives policies only to identities of a given kind. -/
def AssignsOnly (s : Service) (ok : Identity → Prop) (call : Call) : Prop :=
  ∀ enclave policy identities, call = .command enclave (.assignPolicy policy identities) →
    ∀ i ∈ identities, i.Valid → s.authorizer.isAdmin i = false → ok i

/-- What calls create: registrations, if they register enclaves, and else records of enclaves
whose registration they may have found. -/
inductive Creates (k : Contract) (s : Service) (l : Layout) (ok : Identity → Prop)
    (call : Call) : String → Bytes → Prop
  | registration {e : String} {value : Bytes} (registers : s.Registers call e)
      (fits : Fits l ok (l.record e) value) : Creates k s l ok call (l.record e) value
  | owned {kind : RecordKind} {e n : String} {value : Bytes} {r : Registration}
      (fits : Fits l ok (l.space kind e ++ n) value) (held : k.MayHold (l.record e) r)
      (valid : ValidEnclaveName e) (other : ∀ m, ¬ s.Registers call m) :
      Creates k s l ok call (l.space kind e ++ n) value

/-- **What calls create.** -/
theorem creates_of_callAsks {full : String} {value : Bytes} (hok : s.AssignsOnly ok call)
    (hasks : CallAsks k s l caller call (.create full value)) :
    Creates k s l ok call full value := by
  generalize hr : Request.create full value = r at hasks
  induction hasks with
  | gate | eventId | time | emit | describeSelf | health => cases hr
  | @body enclave c r hpassed hbody =>
      subst hr
      have hvalid := hpassed.valid
      generalize hcreate : Request.create full value = r at hbody
      cases hbody with
      | createKey_create hregistered hname =>
          cases hcreate
          refine .owned (.owned hvalid ⟨hname, _, Record.decode?_encode _⟩) hregistered hvalid ?_
          rintro m (⟨_, hcall⟩ | ⟨hcall, -⟩) <;> cases hcall
      | createPolicy_create hregistered hname hchecked =>
          cases hcreate
          refine .owned (.owned hvalid ⟨hname, _, Record.decode?_encode _, ?_⟩) hregistered
            hvalid ?_
          · exact Enclave.clean_storedPolicy hchecked _ _
          · rintro m (⟨_, hcall⟩ | ⟨hcall, -⟩) <;> cases hcall
      | assignPolicy_create hregistered hheld hnamed hknown hother hruled =>
          cases hcreate
          have hadmitted := hok _ _ _ rfl _ hnamed hknown hruled
          refine .owned (.owned hvalid ⟨_, rfl, hknown, hadmitted, _, Record.decode?_encode _⟩)
            hregistered hvalid ?_
          rintro m (⟨_, hcall⟩ | ⟨hcall, -⟩) <;> cases hcall
      | createEnclave_create hm =>
          cases hcreate
          exact .registration (.inl ⟨enclave, rfl⟩) (.registration hm (Record.decode?_encode _))
      | _ => cases hcreate
  | @deletePolicy enclave name names r hnamed hasks ih =>
      -- a deletion of a policy creates nothing
      have hnone : s.AssignsOnly ok (.command enclave (.deletePolicy name)) :=
        fun _ _ _ hcall => nomatch hcall
      cases ih hnone hr with
      | registration hregisters =>
          rcases hregisters with ⟨_, hcall⟩ | ⟨hcall, -⟩ <;> cases hcall
      | owned hfits hheld hvalid =>
          refine .owned hfits hheld hvalid ?_
          rintro m (⟨_, hcall⟩ | ⟨hcall, -⟩) <;> cases hcall
  | init hasks =>
      subst hr
      generalize hcreate : Request.create full value = r at hasks
      cases hasks with
      | createEnclave_create hm =>
          cases hcreate
          exact .registration (.inr ⟨rfl, rfl⟩) (.registration hm (Record.decode?_encode _))
      | _ => cases hcreate

/-- What calls ask for is filing, if they remove no enclave. -/
theorem filing_of_callAsks {r : Request} (hok : s.AssignsOnly ok call)
    (hremoves : ∀ enclave e, call ≠ .command enclave (.deleteEnclave e))
    (hknown : ∀ e, s.Registers call e → known e)
    (howners : (∀ m, ¬ s.Registers call m) → ∀ e, known e → owners e)
    (hasks : CallAsks (.filing l ok known owners) s l caller call r) :
    (Contract.filing l ok known owners).allows r := by
  cases r with
  | create full value =>
      have hcreates := creates_of_callAsks hok hasks
      cases hcreates with
      | registration hregisters hfits =>
          refine ⟨hfits, fun e hsame => ?_, fun kind e n _ hsame => ?_⟩
          · exact Layout.record_inj hsame ▸ hknown _ hregisters
          · exact absurd hsame (Layout.record_ne_space_append _ _ _ _ _)
      | owned hfits hheld hvalid hother =>
          refine ⟨hfits, fun e hsame => ?_, fun kind e n he hsame => ?_⟩
          · exact absurd hsame.symm (Layout.record_ne_space_append _ _ _ _ _)
          · obtain ⟨-, rfl, -⟩ :=
              Layout.space_append_inj hvalid.toValidName he.toValidName hsame
            obtain ⟨bytes, hfound, -⟩ := hheld
            exact howners hother _ (hfound _ rfl)
  | delete full =>
      -- no call removes two keys
      intro e hrecord
      have hall (n : String) : s.Removes call e n := by
        by_contra hother
        exact (deletes_of_callAsks hasks).ne_record hother hrecord
      rcases hall "" with ⟨_, hfirst, -⟩ | ⟨_, hcall⟩
      · rcases hall "x" with ⟨_, hsecond, -⟩ | ⟨_, hcall⟩
        · rw [hfirst] at hsecond
          simp at hsecond
        · exact hremoves _ _ hcall
      · exact hremoves _ _ hcall
  | _ => trivial

/-- No call removes the registration of the default enclave. -/
theorem ne_home_of_callAsks {full : String}
    (hasks : CallAsks k s l caller call (.delete full)) : full ≠ l.record s.defaultEnclave := by
  generalize hr : Request.delete full = r at hasks
  have hspace {kind : RecordKind} {e n : String} :
      l.space kind e ++ n ≠ l.record s.defaultEnclave :=
    (Layout.record_ne_space_append _ _ _ _ _).symm
  induction hasks with
  | gate | eventId | time | emit | describeSelf | health => cases hr
  | body hpassed hbody =>
      subst hr
      generalize hdelete : Request.delete full = r at hbody
      cases hbody with
      | deleteEnclave_unregister _ hspared =>
          cases hdelete
          exact fun hsame => hspared (Layout.record_inj hsame)
      | _ => cases hdelete <;> exact hspace
  | deletePolicy _ _ ih => exact ih hr
  | init hasks =>
      subst hr
      generalize hdelete : Request.delete full = r at hasks
      cases hasks with
      | _ => cases hdelete <;> exact hspace

end Service

/-! ### Removals of enclaves -/

section Removing

variable {σ : Type} [Mishaps σ] {c : Context} {w : World σ} {e : String}

/-- A program that only looks leaves the store alone throughout. -/
theorem Program.Keeps.throughout_reads {α : Type} {p : Program α} (inv : Backend → Prop)
    (h : p.Keeps (.asking fun r => r.isWrite = false) fun _ => True) (hw : inv w.backend) :
    p.Throughout c (fun w => inv w.backend) w :=
  h.throughout (fun r w hr hw => ⟨trivial, by rw [World.backend_answer_of_read hr]; exact hw⟩) hw

/-- **A registration is removed last**, when its enclave owns nothing more. -/
theorem Registry.orderly_delete (hplain : Glob.hasMeta l.root = false)
    (hw : w.backend.Orderly l ok) :
    (l.catalog.delete e).attempt.Throughout c (fun w => w.backend.Orderly l ok) w := by
  have hdescribes : (l.catalog.describe e).Keeps (.asking fun r => r.isWrite = false)
      (fun _ => ValidEnclaveName e) fun _ => True :=
    Routine.Keeps.weaken (keeps_describe fun _ => rfl) (fun _ h => h.1) fun _ => id
  have hpurges : (l.catalog.purge e).attempt.Keeps
      (.asking fun r => r.isWrite = false ∨ ∃ kind n, r = .delete (l.space kind e ++ n))
      fun _ => True :=
    Routine.Keeps.attempt (keeps_purge (fun kind => .inl rfl) fun kind n => .inr ⟨kind, n, rfl⟩)
  have hdescribed : (l.catalog.describe e).attempt.Throughout c
      (fun w => w.backend.Orderly l ok) w :=
    Program.Keeps.throughout_reads (fun b => b.Orderly l ok)
      (Program.Keeps.weaken hdescribes fun _ _ => trivial) hw
  unfold delete
  refine Routine.throughout_bind hdescribed fun info hfound => ?_
  have hvalid : ValidEnclaveName e := by
    have hpromise := (Program.Keeps.run hdescribes c (fun _ => True)
      (fun _ _ _ _ => ⟨trivial, trivial⟩) (w := w) trivial).1
    rw [hfound] at hpromise
    exact hpromise
  have hw₁ := hdescribed.run
  generalize ((l.catalog.describe e).attempt.run c w).2 = w₁ at hw₁ ⊢
  have hpurged : (l.catalog.purge e).attempt.Throughout c
      (fun w => w.backend.Orderly l ok) w₁ := by
    refine hpurges.throughout (fun r w hr hw => ⟨trivial, ?_⟩) hw₁
    rcases hr with hread | ⟨kind, n, rfl⟩
    · rw [World.backend_answer_of_read hread]
      exact hw
    · rcases w.answer_delete_cases c (l.space kind e ++ n) with ⟨err, -, hsame⟩ | ⟨-, hheld⟩
      · rw [hsame]
        exact hw
      · refine hw.of_delete (fun e' _ hfull => ?_) hheld
        exact absurd hfull.symm (Layout.record_ne_space_append _ _ _ _ _)
  refine Routine.throughout_bind hpurged fun _ hdone => ?_
  have hcleared (kind : RecordKind) {n : String} (hn : n ≠ "") :=
    purge_cleared hplain hvalid.toValidName hdone kind hn
  have hw₂ := hpurged.run
  generalize ((l.catalog.purge e).attempt.run c w₁).2 = w₂ at hcleared hw₂ ⊢
  change (Routine.attempt ((View.under l.registry .whole).delete e)).Throughout c _ w₂
  rw [View.delete_attempt, requireKey_of_ne hvalid.nonempty]
  refine Program.throughout_ask hw₂ (Program.throughout_done ?_)
  rcases w₂.answer_delete_cases c (l.registry ++ e) with ⟨err, -, hsame⟩ | ⟨-, hheld⟩
  · rw [hsame]
    exact hw₂
  · refine hw₂.of_delete (fun e' _ hfull kind n => ?_) hheld
    obtain rfl : e = e' := Layout.record_inj hfull
    cases hstored : w₂.backend.stored? (l.space kind e ++ n) with
    | none => rfl
    | some value =>
        have hn := ((hw₂.fits _ _ hstored).owned_inv hvalid).nonempty
        rw [hcleared kind hn] at hstored
        cases hstored

namespace Service

variable {s : Service} {caller : Identity}

/-- A call is the gate and its body; the event behind them changes no record. -/
theorem throughout_gated {α : Type} {enclave : String} {op : Operation}
    {body : Enclave → Routine α} (inv : Backend → Prop)
    (hbody : (s.gate caller enclave op >>= body).attempt.Throughout c
      (fun w => inv w.backend) w) :
    (s.gated caller enclave op body).attempt.Throughout c (fun w => inv w.backend) w := by
  apply Program.Throughout.bind hbody
  exact Program.Keeps.throughout_reads inv (keeps_report rfl rfl (fun _ => rfl) _) hbody.run

/-- A call that removes an enclave keeps the store orderly. -/
theorem orderly_deleteEnclave (hover : s.Over l) (enclave e : String)
    (hw : w.backend.Orderly l ok) :
    (s.perform caller enclave (.deleteEnclave e)).attempt.Throughout c
      (fun w => w.backend.Orderly l ok) w := by
  have hgate : (s.gate caller (target (.deleteEnclave e) enclave)
      (Command.deleteEnclave e).operation).attempt.Throughout c
        (fun w => w.backend.Orderly l ok) w :=
    Program.Keeps.throughout_reads (fun b => b.Orderly l ok)
      (Program.Keeps.weaken (keeps_gate hover fun _ _ _ => rfl) fun _ _ => trivial) hw
  refine throughout_gated (fun b => b.Orderly l ok)
    (Routine.throughout_bind hgate fun h _ => ?_)
  have hw₁ := hgate.run
  dsimp only [body]
  by_cases hspared : e = s.defaultEnclave
  · rw [if_pos hspared]
    exact Program.throughout_done hw₁
  · rw [if_neg hspared, hover.registry_eq]
    have hdeletes := Registry.orderly_delete (e := e) (c := c) hover.plain hw₁
    exact Routine.throughout_bind hdeletes fun _ _ => Program.throughout_done hdeletes.run

/-- **Calls keep a store orderly**, up to any of their requests. -/
theorem orderly_throughout (hover : s.Over l) {call : Call} (hok : s.AssignsOnly ok call)
    {p : Program (Except Error Reply)} (hp : p ∈ s.programs caller call)
    (hw : w.backend.Orderly l ok) :
    p.Throughout c (fun w => w.backend.Orderly l ok) w := by
  by_cases hremoves : ∃ enclave e, call = .command enclave (.deleteEnclave e)
  · obtain ⟨enclave, e, rfl⟩ := hremoves
    obtain rfl := List.mem_singleton.1 hp
    exact orderly_deleteEnclave hover enclave e hw
  have hfiling (known owners : String → Prop) (hknown : ∀ e, s.Registers call e → known e)
      (howners : (∀ m, ¬ s.Registers call m) → ∀ e, known e → owners e)
      (hfiled : w.backend.Filed l ok known owners) :
      p.Throughout c (fun w => w.backend.Orderly l ok) w := by
    have hkeeps : p.Keeps (.filing l ok known owners) fun _ => True :=
      keeps_programs hover (fun r => filing_of_callAsks hok
        (fun enclave e hcall => hremoves ⟨enclave, e, hcall⟩) hknown howners) hp
    exact fun n => (hkeeps.throughout (World.filing_step c) hfiled n).toOrderly
  by_cases hregisters : ∃ m, s.Registers call m
  · -- a call that registers an enclave files nothing for an enclave
    refine hfiling (fun _ => True) (fun _ => False) (fun _ _ => trivial)
      (fun hnone => absurd hregisters (not_exists.2 hnone)) ⟨hw, fun _ _ => trivial, ?_⟩
    exact fun _ => False.elim
  · refine hfiling (w.backend.Registered l) (w.backend.Registered l)
      (fun e he => absurd ⟨e, he⟩ hregisters) (fun _ _ => id) ⟨hw, fun _ => id, fun _ => id⟩

/-- The default enclave stays registered, up to any request of a call. -/
theorem registered_throughout (hover : s.Over l) {call : Call}
    {p : Program (Except Error Reply)} (hp : p ∈ s.programs caller call)
    (hw : w.backend.Registered l s.defaultEnclave) :
    p.Throughout c (fun w => w.backend.Registered l s.defaultEnclave) w := by
  have hspares : p.Keeps (.asking fun r => ¬ r.Removes (l.record s.defaultEnclave))
      fun _ => True := by
    refine keeps_programs hover (fun r hasks => ?_) hp
    cases r with
    | delete full => exact ne_home_of_callAsks hasks
    | _ => exact id
  refine hspares.throughout (fun r w hr hw => ⟨trivial, ?_⟩) hw
  obtain ⟨value, hvalue⟩ := hw
  exact ⟨value, World.stored?_answer_of_not_removes hr c hvalue⟩

end Service

/-! ### A successful start -/

/-- If two routines in a row end with a value, then both do, and the second one where the
first one ended. -/
theorem Routine.of_bind_ok {α β : Type} {a : Routine α} {f : α → Routine β} {y : β}
    (holds : World σ → Prop) (hok : ((a >>= f).attempt.run c w).1 = .ok y)
    (h : ∀ x, (a.attempt.run c w).1 = .ok x →
      ((f x).attempt.run c (a.attempt.run c w).2).1 = .ok y →
        holds ((f x).attempt.run c (a.attempt.run c w).2).2) :
    holds ((a >>= f).attempt.run c w).2 := by
  rw [run_bind] at hok ⊢
  cases ha : (a.attempt.run c w).1 with
  | error e =>
      rw [ha] at hok
      cases hok
  | ok x =>
      rw [ha] at hok
      exact h x ha hok

/-- What was created through a view without an error is stored. -/
theorem View.stored_of_create {space name : String} {value : Bytes}
    (hok : (((View.under space .whole).create name value).attempt.run c w).1 = .ok ()) :
    (((View.under space .whole).create name value).attempt.run c w).2.backend.stored?
      (space ++ name) = some value := by
  rcases run_create_cases c w space name value with ⟨e, hfailed, -⟩ | ⟨-, -, hheld⟩
  · rw [hfailed] at hok
    cases hok
  · rw [hheld, if_pos rfl]

namespace Registry

/-- An enclave that was registered without an error is registered. -/
theorem registered_of_create {creator : Identity} {info : EnclaveInfo}
    (hok : ((l.catalog.create e creator).attempt.run c w).1 = .ok info) :
    ((l.catalog.create e creator).attempt.run c w).2.backend.Registered l e := by
  have hpeel {α β : Type} {a : Routine α} {f : α → Routine β} {y : β} {w : World σ} :=
    Routine.of_bind_ok (c := c) (w := w) (a := a) (f := f) (y := y)
      fun w => w.backend.Registered l e
  unfold create at hok ⊢
  refine hpeel hok fun _ _ hok => ?_
  refine hpeel hok fun found _ hok => ?_
  cases found with
  | some r => cases hok
  | none =>
      refine hpeel hok fun _ _ hok => ?_
      refine hpeel hok fun time _ hok => ?_
      refine hpeel hok fun _ hcreated _ => ?_
      rw [Routine.run_mapError] at hcreated ⊢
      exact ⟨_, View.stored_of_create (mapError_eq_ok_iff.1 hcreated)⟩

/-- An enclave that was described is registered. -/
theorem registered_of_describe {info : EnclaveInfo}
    (hok : ((l.catalog.describe e).attempt.run c w).1 = .ok info) :
    ((l.catalog.describe e).attempt.run c w).2.backend.Registered l e := by
  have hdescribes : (l.catalog.describe e).Keeps (.looking w.backend)
      (fun _ => w.backend.Registered l e) fun _ => True :=
    Routine.Keeps.weaken (keeps_describe fun _ => rfl)
      (fun _ ⟨_, _, value, hvalue, _⟩ => ⟨value, hvalue⟩) fun _ => id
  obtain ⟨hpromise, hsame⟩ := Program.Keeps.run hdescribes c (fun v => v.backend = w.backend)
    (fun r v => World.looking_step c r v) (w := w) rfl
  rw [hok] at hpromise
  rw [hsame]
  exact hpromise

end Registry

/-- **A successful start** registers the default enclave. -/
theorem Service.registered_of_init {s : Service} (hover : s.Over l)
    (hok : (s.init.attempt.run c w).1 = .ok ()) :
    (s.init.attempt.run c w).2.backend.Registered l s.defaultEnclave := by
  unfold init at hok ⊢
  rw [hover.registry_eq] at hok ⊢
  refine Routine.of_bind_ok (fun w => w.backend.Registered l s.defaultEnclave) hok
    fun info hensured _ => ?_
  change (((l.catalog.ensure s.defaultEnclave _).attempt.run c w).2.backend).Registered l _
  unfold Registry.ensure at hensured ⊢
  rw [Routine.run_handle] at hensured ⊢
  cases hcreated : ((l.catalog.create s.defaultEnclave
      (s.authorizer.admin.getD .unknown)).attempt.run c w).1 with
  | ok info => exact Registry.registered_of_create hcreated
  | error e =>
      rw [hcreated] at hensured
      cases e with
      | alreadyExists what => exact Registry.registered_of_describe hensured
      | _ => cases hensured

end Removing

/-! ### Sessions -/

section Sessions

variable {σ : Type} [Mishaps σ] {s : Service}

/-- Calls one after the other, each by any caller and under any context.  A call is served to
its end, or it is given up after some of its requests.  Between calls the world may change as
long as the store stays the same: time goes by, contexts are canceled, other mishaps are in
store. -/
inductive Service.Session (s : Service) : World σ → World σ → Prop
  | start (w : World σ) : Session s w w
  | served {w w₁ w₂ : World σ} {c : Context} {caller : Identity} {call : Call}
      {r : Except Error Reply} (earlier : Session s w w₁)
      (serves : s.serve? c caller call w₁ = some (r, w₂)) : Session s w w₂
  | givenUp {w w₁ : World σ} {c c' : Context} {caller : Identity} {call : Call}
      {p : Program (Except Error Reply)} {tokens : Tokens} (n : Nat)
      (earlier : Session s w w₁) (begun : p ∈ s.programs caller call)
      (context : s.callContext? c w₁.tokens w₁.now = some (c', tokens)) :
      Session s w (p.runFor c' n { w₁ with tokens := tokens })
  | pause {w w₁ w₂ : World σ} (earlier : Session s w w₁) (same : w₂.backend = w₁.backend) :
      Session s w w₂

/-- Sessions preserve what calls preserve up to any of their requests. -/
theorem Service.Session.preserves (inv : Backend → Prop) {w w' : World σ}
    (hcalls : ∀ call caller p c (w : World σ), p ∈ s.programs caller call → inv w.backend →
      p.Throughout c (fun w => inv w.backend) w)
    (hsession : s.Session w w') (hw : inv w.backend) : inv w'.backend := by
  induction hsession with
  | start => exact hw
  | served _ hserves ih =>
      refine serve?_preserves (fun w => inv w.backend) (fun _ _ h => h) ?_ ih hserves
      exact fun p hp c w hw => (hcalls _ _ p c w hp hw).run
  | @givenUp w₁ c c' caller call p tokens n _ hbegun _ ih =>
      exact hcalls call caller p c' { w₁ with tokens := tokens } hbegun ih n
  | pause _ hsame ih => exact hsame ▸ ih

/-- A store holds nothing but what belongs into it. -/
structure Backend.WellFormed (b : Backend) (l : Layout) (home : String)
    (admin : Option Identity) : Prop where
  /-- Names have the four shapes of the layout, and values are records of their shapes. -/
  fits : ∀ full value, b.stored? full = some value → Fits l (fun i => admin ≠ some i) full value
  /-- No record of an enclave is an orphan. -/
  owned : ∀ kind e n value, ValidEnclaveName e →
    b.stored? (l.space kind e ++ n) = some value →
      ∃ r : Registration, b.record? (l.record e) = some r
  /-- The default enclave is registered. -/
  home : ∃ r : Registration, b.record? (l.record home) = some r
  /-- No list of rules has the empty rule or a rule twice. -/
  clean : ∀ e n value, ValidEnclaveName e → b.stored? (l.policies e ++ n) = some value →
    ∃ p : Policy, b.record? (l.policies e ++ n) = some p ∧ p.Clean
  /-- Neither the unknown identity nor the admin has an assignment. -/
  unassigned : ∀ e i, ValidEnclaveName e → i = .unknown ∨ admin = some i →
    b.stored? (l.identities e ++ i.text) = none

/-- An orderly store with a default enclave is well formed. -/
theorem Backend.Orderly.wellFormed {b : Backend} {home : String} {admin : Option Identity}
    (h : b.Orderly l fun i => admin ≠ some i) (hhome : b.Registered l home) :
    b.WellFormed l home admin := by
  have hregistration {e : String} (hregistered : b.Registered l e) :
      ∃ r : Registration, b.record? (l.record e) = some r := by
    obtain ⟨value, hvalue⟩ := hregistered
    obtain ⟨r, hr⟩ := (h.fits _ _ hvalue).registration_inv
    exact ⟨r, record?_eq_some_iff.2 ⟨value, hvalue, hr⟩⟩
  refine ⟨h.fits, ?_, hregistration hhome, ?_, ?_⟩
  · exact fun kind e n value he hvalue => hregistration (h.owned kind e n value he hvalue)
  · intro e n value he hvalue
    have hfits : RecordKind.policy.Fits _ n value := (h.fits _ _ hvalue).owned_inv he
    obtain ⟨-, p, hp, hclean⟩ := hfits
    exact ⟨p, record?_eq_some_iff.2 ⟨value, hvalue, hp⟩, hclean⟩
  · intro e i he hi
    cases hvalue : b.stored? (l.identities e ++ i.text) with
    | none => rfl
    | some value =>
        have hfits : RecordKind.assignment.Fits _ i.text value :=
          (h.fits _ _ hvalue).owned_inv he
        obtain ⟨j, htext, hknown, hadmin, -⟩ := hfits
        obtain rfl : j = i := Identity.text_inj.1 htext
        rcases hi with rfl | hi
        · exact absurd rfl hknown.known
        · exact absurd hi hadmin

/-- **What a store holds after calls.**  The service of some settings comes to an empty store.
Calls are served one after the other or given up at any request, the store fails whenever it
likes, and contexts end at any moment.  After the first start that succeeds, the store is
well formed for ever. -/
theorem Service.wellFormed_after_start {settings : Settings} (hmade : ofSettings settings = .ok s)
    {w w₁ w₂ w₃ : World σ} {c : Context} {caller : Identity} {reply : Reply}
    (hempty : ∀ name, w.backend.stored? name = none) (hbefore : s.Session w w₁)
    (hinit : s.serve? c caller .init w₁ = some (.ok reply, w₂)) (hafter : s.Session w₂ w₃) :
    w₃.backend.WellFormed ⟨settings.keyPrefix⟩ settings.defaultEnclave settings.admin := by
  have hover := over_of_ofSettings hmade
  let admitted (i : Identity) : Prop := settings.admin ≠ some i
  have hok (call : Call) : s.AssignsOnly admitted call := by
    intro enclave policy identities _ i _ hknown hruled hadmin
    have hunknown : i ≠ .unknown := fun h => hknown.known (h ▸ rfl)
    rw [(isAdmin_iff_of_ofSettings hmade).2 ⟨hadmin, hunknown⟩] at hruled
    cases hruled
  have horderly {w w' : World σ} (hsession : s.Session w w')
      (hw : w.backend.Orderly ⟨settings.keyPrefix⟩ admitted) :
      w'.backend.Orderly ⟨settings.keyPrefix⟩ admitted :=
    hsession.preserves (fun b => b.Orderly ⟨settings.keyPrefix⟩ admitted)
      (fun call caller p c w hp hw => orderly_throughout hover (hok call) hp hw) hw
  have hend := horderly hafter (horderly (.served hbefore hinit)
    (Backend.orderly_of_empty hempty))
  have hhome : w₂.backend.Registered ⟨settings.keyPrefix⟩ s.defaultEnclave := by
    obtain ⟨⟨r, v⟩, hrun, hreply⟩ := Option.bind_eq_some_iff.1 hinit
    obtain ⟨c', tokens, -, hended⟩ := run?_eq_some_iff.1 hrun
    cases r with
    | error e => cases hreply
    | ok u =>
        cases hreply
        have hregistered := registered_of_init hover (congrArg Prod.fst hended)
        rw [hended] at hregistered
        exact hregistered
  have hstays := hafter.preserves (fun b => b.Registered ⟨settings.keyPrefix⟩ s.defaultEnclave)
    (fun call caller p c w hp hw => registered_throughout hover hp hw) hhome
  obtain ⟨rfl, -, -⟩ := eq_of_ofSettings hmade
  exact hend.wellFormed hstays

/-- A result that is known shows the pair that it is part of. -/
theorem eq_some_of_map_fst {α β : Type} {x : Option (α × β)} {a : α}
    (h : x.map Prod.fst = some a) (d : β) : x = some (a, (x.map Prod.snd).getD d) := by
  obtain ⟨⟨a', b⟩, rfl, rfl⟩ := Option.map_eq_some_iff.1 h
  rfl

/-- The store fails when the service starts for the first time; it starts again, and a call
that creates a key is given up before it can report. -/
theorem Service.wellFormed_after_failed_start :
    let s : Service := ⟨Layout.catalog ⟨""⟩, .ofAdmin (some ⟨"root"⟩), "default", 30⟩
    let down : Mishap := ⟨none, none, some (.unreachable "down")⟩
    let w := World.stormy (.memory .empty) fun n => if n = 3 then down else .nothing
    let start (w : World (Nat → Mishap)) := s.serve? (.ofToken []) ⟨"root"⟩ .init w
    ofSettings { Settings.default with admin := some ⟨"root"⟩ } = .ok s ∧
      (∀ name, w.backend.stored? name = none) ∧ ∃ w₁ w₂ w₃,
        start w = some (.error (.unreachable "down"), w₁) ∧
        start w₁ = some (.ok .done, w₂) ∧ s.Session w₂ w₃ ∧
        (w₃.backend.stored? "enclaves/default/keys/n").isSome = true ∧
        w₃.backend.WellFormed ⟨""⟩ "default" (some ⟨"root"⟩) := by
  intro s down w start
  have hmade : ofSettings { Settings.default with admin := some ⟨"root"⟩ } = .ok s := rfl
  have hempty (name : String) : w.backend.stored? name = none := rfl
  have hfirst := eq_some_of_map_fst
    (x := start w) (a := .error (.unreachable "down")) (by decide +kernel) w
  generalize hw₁ : ((start w).map Prod.snd).getD w = w₁ at hfirst
  have hsecond := eq_some_of_map_fst
    (x := start w₁) (a := .ok .done) (by subst hw₁; decide +kernel) w₁
  generalize hw₂ : ((start w₁).map Prod.snd).getD w₁ = w₂ at hsecond
  let create := (s.perform ⟨"root"⟩ "" (.createKey "n" [7])).attempt
  have hbegun : create ∈ s.programs ⟨"root"⟩ (.command "" (.createKey "n" [7])) :=
    List.mem_singleton_self _
  have hcontext : s.callContext? (.ofToken []) w₂.tokens w₂.now =
      some (⟨[2], some ⟨30, 0⟩⟩, ⟨3, []⟩) := by
    subst hw₂ hw₁
    decide +kernel
  have hstored : ((create.runFor ⟨[2], some ⟨30, 0⟩⟩ 5
      { w₂ with tokens := ⟨3, []⟩ }).backend.stored? "enclaves/default/keys/n").isSome = true := by
    subst hw₂ hw₁
    decide +kernel
  have hgivenUp := Session.givenUp 5 (.start w₂) hbegun hcontext
  refine ⟨hmade, hempty, w₁, w₂, _, hfirst, hsecond, hgivenUp, hstored, ?_⟩
  exact wellFormed_after_start hmade hempty (.served (.start w) hfirst) hsecond hgivenUp

end Sessions

end KeyCustody
