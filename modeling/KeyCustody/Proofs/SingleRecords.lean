import Mathlib.Logic.Relation
import KeyCustody.Proofs.KeyRuns

/-!
# Calls on single records

A key is created, and a key, a policy or an assignment is removed, by one request to the store.
Whatever comes before the request only looks, and nothing comes after it that could fail.  So
such a call is all or nothing: if it fails, wherever the failure struck and whenever the context
ended, the store is as it was, and if it succeeds, one record was added or is gone.

A policy is looked up before it is removed, and nothing is removed if it is missing.  Who takes a
failure for a missing policy deletes nothing and succeeds.  No other call relies on what it did not
find, so the names that look-ups are *misled* about are a parameter of the contract of looking, and
only the deletion of a policy mentions it.

The request itself is one commit of a map or of a database.  A directory takes several steps for
a creation, and the system may fail at each of them; `Creation.Moves` is one such step.  Main
statements:

* `Program.Keeps.run_doubting`: what can be relied on of look-ups, and what they leave alone;
* `Routine.AllOrNothing` with one rule for each way of building a routine;
* `Creation.Came.moves`, `Creation.stored?_of_finished`: all steps of a creation together add one
  file or none;
* `Service.all_or_nothing`: the calls;
* `Service.deletion_misled`: a deletion that succeeds and leaves the policy.
-/

namespace KeyCustody

namespace Backend

/-- A new name holds the value, and nothing else differs. -/
def Gains (b b' : Backend) (full : String) (value : Bytes) : Prop :=
  b.stored? full = none ∧
    ∀ other, b'.stored? other = if other = full then some value else b.stored? other

/-- The name holds nothing, and nothing else differs. -/
def Loses (b b' : Backend) (full : String) : Prop :=
  ∀ other, b'.stored? other = if other = full then none else b.stored? other

/-- What a creation with an outcome did: it added the value under a new name, or nothing. -/
def Created (b b' : Backend) (name : String) (value : Bytes) : Except Error Unit → Prop
  | .ok _ => b.Gains b' name value
  | .error _ => ∀ other, b'.stored? other = b.stored? other

/-- Nothing is lost under a name that holds nothing. -/
theorem loses_self {b : Backend} {full : String} (hmissing : b.stored? full = none) :
    b.Loses b full := by
  intro other
  by_cases hother : other = full
  · rw [if_pos hother, hother, hmissing]
  · rw [if_neg hother]

end Backend

/-! ### Creations in a directory, step by step -/

namespace DataDir.Creation

/-- One step of a creation, before or after its context ended.  The system may fail to make the
temporary file, or make a part of it only, it may fail to link it, and to remove it. -/
inductive Moves (k : Creation) : Phase × DataDir → Phase × DataDir → Prop
  | step (ended : Bool) (x : Phase × DataDir) : Moves k x (k.step ended x.1 x.2)
  | unwritten {d : DataDir} (e : Error) : Moves k (.started, d) (.settled (.error e), d)
  | halfWritten {d : DataDir} (e : Error) (part : Bytes) (hfree : d.find k.temp = .ok none) :
      Moves k (.started, d) (.settled (.error e), d.add k.temp (.file part))
  | unlinked {d : DataDir} (e : Error) : Moves k (.checked, d) (.settled (.error e), d)
  | leftBehind {d : DataDir} (r : Except Error Unit) : Moves k (.settled r, d) (.finished r, d)

/-- The files of all names are the same in both directories. -/
def SameFiles (d d' : DataDir) : Prop :=
  ∀ name, d'.find (FileName.encode name) = d.find (FileName.encode name)

/-- What a settled creation has done to the files of names. -/
def Did (k : Creation) (d d' : DataDir) : Except Error Unit → Prop
  | .error _ => SameFiles d d'
  | .ok _ => d.find (FileName.encode k.name) = .ok none ∧
      ∀ name, d'.find (FileName.encode name) =
        if name = k.name then .ok (some (.file k.value)) else d.find (FileName.encode name)

/-- How far a creation came in a directory that was `d` when it started. -/
def Came (k : Creation) (d : DataDir) : Phase × DataDir → Prop
  | (.started, d') => d' = d
  | (.written, d') | (.checked, d') =>
    d'.find k.temp = .ok (some (.file k.value)) ∧ SameFiles d d'
  | (.settled r, d') | (.finished r, d') => k.Did d d' r

variable {k : Creation} {d d' : DataDir}

/-- The temporary file is the file of no name. -/
theorem SameFiles.add (hhidden : FileName.decode? k.temp = none) (hsame : SameFiles d d')
    (hfree : d'.find k.temp = .ok none) (content : Bytes) :
    SameFiles d (d'.add k.temp (.file content)) := by
  intro name
  rw [find_add hfree, if_neg (encode_ne_of_hidden hhidden)]
  exact hsame name

/-- Without the temporary file the files of names are the same. -/
theorem Did.drop (hhidden : FileName.decode? k.temp = none) {found : Option DirEntry}
    (hfound : d'.find k.temp = .ok found) {r : Except Error Unit} (hdid : k.Did d d' r) :
    k.Did d (d'.drop k.temp) r := by
  have hfind (name : String) :
      (d'.drop k.temp).find (FileName.encode name) = d'.find (FileName.encode name) := by
    rw [find_drop hfound, if_neg (encode_ne_of_hidden hhidden)]
  cases r with
  | error e => exact fun name => (hfind name).trans (hdid name)
  | ok _ => exact ⟨hdid.1, fun name => (hfind name).trans (hdid.2 name)⟩

/-- A file that is written was not there. -/
theorem write_eq_ok {file content : Bytes} {d₁ : DataDir} (h : d.write file content = .ok d₁) :
    d.find file = .ok none ∧ d₁ = d.add file (.file content) := by
  unfold write at h
  rcases hfind : d.find file with e | _ | entry
  · rw [hfind] at h
    cases h
  · rw [hfind] at h
    exact ⟨rfl, (Except.ok.inj h).symm⟩
  · rw [hfind] at h
    cases h

/-- A file that is linked to a name was there, and the name was free. -/
theorem link_eq_ok {source target content : Bytes} {d₁ : DataDir}
    (hsource : d.find source = .ok (some (.file content))) (h : d.link source target = .ok d₁) :
    d.find target = .ok none ∧ d₁ = d.add target (.file content) := by
  unfold link at h
  rw [hsource] at h
  rcases hfind : d.find target with e | _ | entry
  · simp [hfind, bind, Except.bind] at h
  · refine ⟨rfl, ?_⟩
    simp only [hfind, bind, Except.bind, Except.ok.injEq] at h
    exact h.symm
  · simp [hfind, bind, Except.bind] at h

/-- A file that is removed was there. -/
theorem unlink_eq_ok {file : Bytes} {d₁ : DataDir} (h : d.unlink file = .ok d₁) :
    ∃ found, d.find file = .ok found ∧ d₁ = d.drop file := by
  unfold unlink at h
  rcases hfind : d.find file with e | _ | _ | _
  all_goals simp only [hfind, bind, Except.bind, Except.ok.injEq, reduceCtorEq] at h
  exact ⟨_, rfl, h.symm⟩

/-- One step of a creation, also one at which the system fails, adds no file of a name but the
one to be created, and that one whole. -/
theorem Came.moves (hhidden : FileName.decode? k.temp = none) {x y : Phase × DataDir}
    (hmoves : k.Moves x y) (hcame : k.Came d x) : k.Came d y := by
  cases hmoves with
  | unwritten e => exact hcame ▸ fun name => rfl
  | halfWritten e part hfree =>
      obtain rfl : _ = d := hcame
      exact SameFiles.add hhidden (fun _ => rfl) hfree part
  | unlinked e => exact hcame.2
  | leftBehind r => exact hcame
  | step ended =>
      obtain ⟨phase, d'⟩ := x
      cases phase with
      | started =>
          obtain rfl : d' = d := hcame
          cases hwrite : d'.write k.temp k.value with
          | error e => simp only [step, hwrite]; exact fun name => rfl
          | ok d₁ =>
              obtain ⟨hfree, rfl⟩ := write_eq_ok hwrite
              simp only [step, hwrite]
              refine ⟨?_, SameFiles.add hhidden (fun _ => rfl) hfree k.value⟩
              rw [find_add hfree, if_pos rfl]
      | written =>
          cases ended with
          | true => exact hcame.2
          | false => exact hcame
      | checked =>
          obtain ⟨htemp, hsame⟩ := hcame
          cases hlink : d'.link k.temp (FileName.encode k.name) with
          | error e => simp only [step, hlink]; exact hsame
          | ok d₁ =>
              obtain ⟨hfree, rfl⟩ := link_eq_ok htemp hlink
              simp only [step, hlink]
              refine ⟨(hsame k.name).symm.trans hfree, fun name => ?_⟩
              rw [find_add hfree, hsame]
              by_cases hname : name = k.name
              · rw [if_pos hname, if_pos (congrArg FileName.encode hname)]
              · rw [if_neg hname, if_neg (FileName.encode_injective.ne hname)]
      | settled r =>
          cases hunlink : d'.unlink k.temp with
          | error e => simp only [step, hunlink]; exact hcame
          | ok d₁ =>
              obtain ⟨found, hfound, rfl⟩ := unlink_eq_ok hunlink
              simp only [step, hunlink]
              exact Did.drop hhidden hfound hcame
      | finished r => exact hcame

/-- **Creations in a directory.**  A creation that came to its end has added the file of its name
if it succeeded, and no file of any name if it failed. -/
theorem stored?_of_finished (hhidden : FileName.decode? k.temp = none) {r : Except Error Unit}
    (hsteps : Relation.ReflTransGen k.Moves (.started, d) (.finished r, d')) :
    (Backend.files d).Created (.files d') k.name k.value r := by
  have hcame {y : Phase × DataDir} (h : Relation.ReflTransGen k.Moves (.started, d) y) :
      k.Came d y := by
    induction h with
    | refl => rfl
    | tail _ hmoves ih => exact ih.moves hhidden hmoves
  cases r with
  | error e =>
      intro name
      have hsame : d'.find (FileName.encode name) = d.find (FileName.encode name) :=
        hcame hsteps name
      rw [Backend.stored?, Backend.stored?, content?, content?, hsame]
  | ok _ =>
      obtain ⟨hfree, hfind⟩ := hcame hsteps
      refine ⟨by rw [Backend.stored?, content?, hfree], fun name => ?_⟩
      rw [Backend.stored?, Backend.stored?, content?, content?, hfind]
      by_cases hname : name = k.name
      · rw [if_pos hname, if_pos hname]
      · rw [if_neg hname, if_neg hname]

end DataDir.Creation

/-! ### Look-ups that mislead -/

namespace Program

variable {α β σ : Type} [Mishaps σ] {c : Context} {w : World σ} {full : String}

/-- Some look-up of the name is answered that it is missing, although the store holds it. -/
def Misled (c : Context) (full : String) : Program α → World σ → Prop
  | .done _, _ => False
  | .ask r next, w => (r = .get full ∧ ¬ w.Honest c r) ∨
    (next (w.answer c r).1).Misled c full (w.answer c r).2

/-- Of two programs, one after the other, either may be misled. -/
theorem misled_bind_iff {p : Program α} {f : α → Program β} :
    (p >>= f).Misled c full w ↔
      p.Misled c full w ∨ (f (p.run c w).1).Misled c full (p.run c w).2 := by
  induction p generalizing w with
  | done a => exact (or_iff_right id).symm
  | ask r next ih => exact (or_congr_right (ih _)).trans or_assoc.symm

/-- Who is answered honestly is not misled. -/
theorem not_misled_of_honestFor {p : Program α} (hhonest : ∀ n, p.HonestFor c n w) :
    ¬ p.Misled c full w := by
  induction p generalizing w with
  | done a => exact id
  | ask r next ih =>
      rintro (⟨-, hdishonest⟩ | hlater)
      · exact hdishonest (hhonest 1).1
      · exact ih _ (fun n => (hhonest (n + 1)).2) hlater

end Program

/-- The contract of looking at a store.  Some names may be reported missing that are held. -/
def Contract.doubting (b : Backend) (missed : String → Prop) : Contract where
  allows r := r.isWrite = false
  assumes
    | .get name, .error (.notFound _) => b.stored? name = none ∨ missed name
    | _, _ => True

/-- **Looking at a store** leaves it alone and meets the contract, if all the names that look-ups
are misled about may be reported missing. -/
theorem Program.Keeps.run_doubting {α σ : Type} [Mishaps σ] {b : Backend} {missed : String → Prop}
    {fits : α → Prop} {p : Program α} (h : p.Keeps (.doubting b missed) fits) {c : Context}
    {w : World σ} (hw : w.backend = b) (hmissed : ∀ full, p.Misled c full w → missed full) :
    fits (p.run c w).1 ∧ (p.run c w).2.backend = b := by
  induction p generalizing w with
  | done a => exact ⟨h, hw⟩
  | ask r next ih =>
      have hassumed : (Contract.doubting b missed).assumes r (w.answer c r).1 := by
        cases r with
        | get name =>
            cases hx : (w.answer c (.get name)).1 with
            | ok value => trivial
            | error e =>
                cases e with
                | notFound what =>
                    refine or_iff_not_imp_left.2 fun hheld => hmissed name (.inl ⟨rfl, ?_⟩)
                    exact fun hhonest => hheld (hw ▸ hhonest what hx)
                | _ => trivial
        | _ => trivial
      exact ih _ (h.2 _ hassumed) ((World.backend_answer_of_read h.1 w c).trans hw)
        fun full hlater => hmissed full (.inr hlater)

/-! ### Routines that are all or nothing -/

namespace Routine

variable {α β σ : Type} [Mishaps σ] {b : Backend} {missed : String → Prop}
  {change : α → Backend → Prop}

/-- Over the store, the routine changes what it says if it succeeds, and nothing if it fails,
whatever fails and whenever the context ends.  The names that its look-ups are misled about are
among those that may be missed. -/
def AllOrNothing (σ : Type) [Mishaps σ] (b : Backend) (missed : String → Prop)
    (change : α → Backend → Prop) (a : Routine α) : Prop :=
  ∀ (c : Context) (w : World σ), w.backend = b →
    (∀ full, a.attempt.Misled c full w → missed full) →
      match (a.attempt.run c w).1 with
      | .ok x => change x (a.attempt.run c w).2.backend
      | .error _ => (a.attempt.run c w).2.backend = b

namespace AllOrNothing

/-- A routine at its end changes nothing. -/
theorem pure {x : α} (hchange : change x b) :
    (Pure.pure x : Routine α).AllOrNothing σ b missed change :=
  fun _ _ hw _ => hw ▸ hchange

/-- A routine that fails at once changes nothing. -/
theorem throw {e : Error} :
    (MonadExcept.throw e : Routine α).AllOrNothing σ b missed change :=
  fun _ _ hw _ => hw

/-- Looking before a routine that is all or nothing. -/
theorem after {change : β → Backend → Prop} {good : α → Prop} {a : Routine α}
    {f : α → Routine β} (hlooks : a.Keeps (.doubting b missed) good fun _ => True)
    (hrest : ∀ x, good x → (f x).AllOrNothing σ b missed change) :
    (a >>= f).AllOrNothing σ b missed change := by
  intro c w hw hmissed
  rw [attempt_bind] at hmissed
  obtain ⟨hends, hsame⟩ := Program.Keeps.run_doubting hlooks hw fun full hmisled =>
    hmissed full (Program.misled_bind_iff.2 (.inl hmisled))
  rw [run_bind]
  cases hrun : (a.attempt.run c w).1 with
  | error e => exact hsame
  | ok x =>
      rw [hrun] at hends
      refine hrest x hends c _ hsame fun full hmisled => ?_
      refine hmissed full (Program.misled_bind_iff.2 (.inr ?_))
      rw [hrun]
      exact hmisled

/-- A check before a routine that is all or nothing. -/
theorem check {change : β → Backend → Prop} {r : Except Error α} {f : α → Routine β}
    (hrest : ∀ x, r = .ok x → (f x).AllOrNothing σ b missed change) :
    (ofExcept r >>= f).AllOrNothing σ b missed change := by
  cases r with
  | ok x => exact hrest x rfl
  | error e => exact throw

/-- Behind a routine that is all or nothing its value is told differently. -/
theorem map {change' : β → Backend → Prop} {a : Routine α} {f : α → β}
    (h : a.AllOrNothing σ b missed change) (hchange : ∀ x b', change x b' → change' (f x) b') :
    (a >>= fun x => Pure.pure (f x)).AllOrNothing σ b missed change' := by
  intro c w hw hmissed
  rw [attempt_bind] at hmissed
  have hends := h c w hw fun full hmisled =>
    hmissed full (Program.misled_bind_iff.2 (.inl hmisled))
  rw [run_map]
  cases hrun : (a.attempt.run c w).1 with
  | error e =>
      rw [hrun] at hends
      exact hends
  | ok x =>
      rw [hrun] at hends
      exact hchange x _ hends

/-- A routine that is all or nothing with a weaker promise. -/
theorem weaken {change' : α → Backend → Prop} {a : Routine α}
    (h : a.AllOrNothing σ b missed change) (hchange : ∀ x b', change x b' → change' x b') :
    a.AllOrNothing σ b missed change' := by
  have hmapped : (a >>= fun x => Pure.pure x).AllOrNothing σ b missed change' := h.map hchange
  rwa [bind_pure] at hmapped

/-- A creation through a view. -/
theorem create {space name : String} {value : Bytes} :
    ((View.under space .whole).create name value).AllOrNothing σ b missed
      fun _ b' => b.Gains b' (space ++ name) value := by
  rintro c w rfl -
  rcases View.run_create_cases c w space name value with ⟨e, hfailed, hsame⟩ | ⟨hok, hgains⟩
  · rw [hfailed]
    exact hsame
  · rw [hok]
    exact hgains

/-- A removal through a view. -/
theorem delete {space name : String} :
    ((View.under space .whole).delete name).AllOrNothing σ b missed
      fun _ b' => b.Loses b' (space ++ name) := by
  rintro c w rfl -
  rcases View.run_delete_cases c w space name with ⟨e, hfailed, hsame⟩ | ⟨hok, hloses⟩
  · rw [hfailed]
    exact hsame
  · rw [hok]
    exact hloses

end AllOrNothing

end Routine

namespace Enclave

variable {σ : Type} [Mishaps σ] {b : Backend} {missed : String → Prop} {l : Layout}
  {e name : String}

open Routine (AllOrNothing)

/-- A key is stored as it is reported, or nothing is. -/
theorem allOrNothing_createKey {value : Bytes} {creator : Identity} :
    ((l.handle e).createKey name value creator).AllOrNothing σ b missed fun info b' =>
      ∃ time, info = ⟨name, time, creator⟩ ∧ b.Gains b' (l.space .key e ++ name)
        (Record.encode (⟨value, time, creator⟩ : SealedKey)) := by
  unfold createKey
  apply AllOrNothing.after (keeps_ensureRegistered rfl)
  intro _ _
  apply AllOrNothing.check
  intro _ _
  apply AllOrNothing.after (Routine.Keeps.time rfl)
  intro time _
  apply AllOrNothing.map AllOrNothing.create
  exact fun _ _ hgains => ⟨time, rfl, hgains⟩

theorem allOrNothing_deleteKey :
    ((l.handle e).deleteKey name).AllOrNothing σ b missed fun _ b' =>
      b.Loses b' (l.space .key e ++ name) :=
  AllOrNothing.check fun _ _ => AllOrNothing.delete

/-- A policy is removed unless its look-up reports it missing. -/
theorem allOrNothing_deletePolicy :
    ((l.handle e).deletePolicy name).AllOrNothing σ b missed fun _ b' =>
      b.Loses b' (l.space .policy e ++ name) ∨
        b' = b ∧ (b.stored? (l.space .policy e ++ name)).isSome ∧
          missed (l.space .policy e ++ name) := by
  have hlooks : ((l.handle e).hasPolicy name).Keeps (.doubting b missed)
      (fun found => found = false → b.stored? (l.space .policy e ++ name) = none ∨
        missed (l.space .policy e ++ name)) fun _ => True := by
    unfold hasPolicy
    apply Routine.Keeps.check (fun _ _ => trivial)
    intro _ _
    apply Routine.Keeps.bind (Cabinet.keeps_find? rfl)
    intro found hfound
    apply Routine.Keeps.pure
    cases found with
    | some p => exact nofun
    | none =>
        obtain ⟨what, hmissing⟩ := hfound
        exact fun _ => hmissing
  unfold deletePolicy
  apply AllOrNothing.after hlooks
  intro found hfound
  cases found with
  | false =>
      apply AllOrNothing.pure
      cases hheld : b.stored? (l.space .policy e ++ name) with
      | none => exact .inl (Backend.loses_self hheld)
      | some value =>
          have hmissed := (hfound rfl).resolve_left (hheld ▸ nofun)
          exact .inr ⟨rfl, rfl, hmissed⟩
  | true =>
      apply AllOrNothing.after (keeps_identitiesWithPolicy rfl fun _ => rfl)
      intro users _
      split
      · exact AllOrNothing.delete.weaken fun _ _ => .inl
      · exact AllOrNothing.throw

/-- The unknown identity has no assignment to remove. -/
theorem allOrNothing_unassign {i : Identity} :
    ((l.handle e).unassign i).AllOrNothing σ b missed fun _ b' =>
      if i.isUnknown then b' = b else b.Loses b' (l.space .assignment e ++ i.text) := by
  unfold unassign
  split
  · exact AllOrNothing.pure rfl
  · exact AllOrNothing.check fun _ _ => AllOrNothing.delete

end Enclave

/-! ### Calls -/

namespace Service

variable {s : Service} {l : Layout} {caller : Identity} {b : Backend} {missed : String → Prop}

/-- The call only looks: it is a read, a listing, a description or a question for the status. -/
def Call.looks : Call → Bool
  | .command _ c =>
    match c with
    | .createKey .. | .deleteKey _ | .createPolicy .. | .deletePolicy _ | .assignPolicy ..
    | .deleteIdentity _ | .createEnclave _ | .deleteEnclave _ => false
    | _ => true
  | .describeSelf .. | .health => true
  | .deletePolicies .. | .init => false

/-- The call creates a key, or it removes a key, a policy or an assignment. -/
def Call.changesOne : Call → Bool
  | .command _ (.createKey ..) | .command _ (.deleteKey _) | .command _ (.deletePolicy _)
  | .command _ (.deleteIdentity _) => true
  | _ => false

/-- Some look-up of the name by the call is answered that it is missing, although the store holds
it. -/
def ServedMisled {σ : Type} [Mishaps σ] (s : Service) (c : Context) (caller : Identity)
    (call : Call) (w : World σ) (full : String) : Prop :=
  ∃ p ∈ s.programs caller call, ∃ c' tokens,
    s.callContext? c w.tokens w.now = some (c', tokens) ∧
      p.Misled c' full { w with tokens := tokens }

/-- What is stored after a call that changes one record.  If it fails, nothing is changed.  If it
succeeds, the record that was named is added or gone, and nothing else differs.  Only a policy
that is held and that its look-up missed stays, and then nothing differs. -/
def ChangesOne (s : Service) (l : Layout) (caller : Identity) (missed : String → Prop)
    (b b' : Backend) : Call → Except Error Reply → Prop
  | _, .error _ => b' = b
  | .command enclave (.createKey name value), .ok reply =>
    ∃ time, reply = .keyInfo ⟨name, time, caller⟩ ∧
      b.Gains b' (l.keys (s.enclaveName enclave) ++ name)
        (Record.encode (⟨value, time, caller⟩ : SealedKey))
  | .command enclave (.deleteKey name), .ok _ =>
    b.Loses b' (l.keys (s.enclaveName enclave) ++ name)
  | .command enclave (.deletePolicy name), .ok _ =>
    let full := l.policies (s.enclaveName enclave) ++ name
    b.Loses b' full ∨ b' = b ∧ (b.stored? full).isSome ∧ missed full
  | .command enclave (.deleteIdentity i), .ok _ =>
    if i.isUnknown then b' = b
    else b.Loses b' (l.identities (s.enclaveName enclave) ++ i.text)
  | _, .ok _ => True

/-- A call that only looks asks for nothing else. -/
theorem CallAsks.isWrite_eq_false {k : Contract} {call : Call} {r : Request}
    (hlooks : call.looks = true) (hasks : CallAsks k s l caller call r) : r.isWrite = false := by
  cases hasks with
  | gate | eventId | time | emit | describeSelf | health => rfl
  | deletePolicy | init => cases hlooks
  | body hpassed hasks =>
      cases hasks with
      | createKey_create | deleteKey | createPolicy_remove | createPolicy_create
        | deletePolicy_remove | assignPolicy_remove | assignPolicy_create | deleteIdentity
        | createEnclave_remove | createEnclave_create | deleteEnclave_remove
        | deleteEnclave_unregister => cases hlooks
      | _ => rfl

/-- **A call that only looks** leaves the store alone. -/
theorem backend_of_looks {σ : Type} [Mishaps σ] (hover : s.Over l) {c : Context} {call : Call}
    {w w' : World σ} {r : Except Error Reply} (hlooks : call.looks = true)
    (hserved : s.serve? c caller call w = some (r, w')) : w'.backend = w.backend := by
  refine serve?_preserves (fun v => v.backend = w.backend) (fun _ _ h => h)
    (fun p hp c' v hv => ?_) rfl hserved
  have hkeeps : p.Keeps (.asking fun r => r.isWrite = false) fun _ => True :=
    keeps_programs hover (fun r hasks => hasks.isWrite_eq_false hlooks) hp
  exact (hkeeps.run c' (fun v => v.backend = w.backend)
    (fun r v hread hv => ⟨trivial, (World.backend_answer_of_read hread v c').trans hv⟩) hv).2

/-- A call is all or nothing if its body is. -/
theorem allOrNothing_perform {σ : Type} [Mishaps σ] (hover : s.Over l) {enclave : String}
    {command : Command} {change : Reply → Backend → Prop}
    (hbody : (s.body caller (l.handle (s.scopeOf enclave command)) command).AllOrNothing σ b missed
      change) :
    (s.perform caller enclave command).AllOrNothing σ b missed change := by
  have hgate : (s.gate caller (target command enclave) command.operation).Keeps
      (.doubting b missed) (fun h => h = l.handle (s.scopeOf enclave command)) fun _ => True :=
    (keeps_gate hover fun _ _ _ => rfl).weaken (fun _ h => h.1) fun _ => id
  have hdone : (s.gate caller (target command enclave) command.operation >>= fun e =>
      s.body caller e command).AllOrNothing σ b missed change := by
    apply Routine.AllOrNothing.after hgate
    rintro _ rfl
    exact hbody
  intro c w hw hmissed
  unfold perform
  rw [run_gated]
  refine hdone c w hw fun full hmisled => hmissed full ?_
  exact Program.misled_bind_iff.2 (.inl hmisled)

/-- The calls that change one record are all or nothing. -/
theorem allOrNothing_of_changesOne {σ : Type} [Mishaps σ] (hover : s.Over l) {enclave : String}
    {command : Command} (hone : Call.changesOne (.command enclave command) = true) :
    (s.perform caller enclave command).AllOrNothing σ b missed fun reply b' =>
      s.ChangesOne l caller missed b b' (.command enclave command) (.ok reply) := by
  apply allOrNothing_perform hover
  cases command with
  | createKey name value =>
      apply Routine.AllOrNothing.map Enclave.allOrNothing_createKey
      rintro info b' ⟨time, rfl, hgains⟩
      exact ⟨time, rfl, hgains⟩
  | deleteKey name =>
      exact Routine.AllOrNothing.map Enclave.allOrNothing_deleteKey fun _ _ h => h
  | deletePolicy name =>
      exact Routine.AllOrNothing.map Enclave.allOrNothing_deletePolicy fun _ _ h => h
  | deleteIdentity i =>
      exact Routine.AllOrNothing.map Enclave.allOrNothing_unassign fun _ _ h => h
  | _ => cases hone

/-- **Single records.**  Calls that only look leave the store alone.  A call that creates a key or
removes a key, a policy or an assignment leaves the store as it was if it fails, and has changed
the one record that was named if it succeeds, whatever fails and whenever the context ends.  A
deletion of a policy has one more way to succeed: its look-up of the policy reported it missing,
although it was stored, and nothing was changed.  This needs a failure that reports a name missing.
In a directory all this is so of every step of a creation, at which the system may fail too:
together the steps add the one file or none. -/
theorem all_or_nothing {settings : Settings} (hmade : ofSettings settings = .ok s) {c : Context}
    {call : Call} {w w' : World (Nat → Mishap)} {r : Except Error Reply}
    (hserved : s.serve? c caller call w = some (r, w')) :
    let l : Layout := ⟨settings.keyPrefix⟩
    (call.looks = true → w'.backend = w.backend) ∧
      (call.changesOne = true →
        s.ChangesOne l caller (s.ServedMisled c caller call w) w.backend w'.backend call r) ∧
      (w.NeverMissing → ∀ full, ¬ s.ServedMisled c caller call w full) ∧
      ∀ (k : DataDir.Creation) (d d' : DataDir) (r' : Except Error Unit),
        FileName.decode? k.temp = none →
        Relation.ReflTransGen k.Moves (.started, d) (.finished r', d') →
          (Backend.files d).Created (.files d') k.name k.value r' := by
  intro l
  have hover := over_of_ofSettings hmade
  refine ⟨fun hlooks => backend_of_looks hover hlooks hserved, fun hone => ?_, ?_,
    fun k d d' r' hhidden => DataDir.Creation.stored?_of_finished hhidden⟩
  · obtain ⟨enclave, command, rfl⟩ : ∃ enclave command, call = .command enclave command := by
      cases call with
      | command enclave command => exact ⟨enclave, command, rfl⟩
      | _ => cases hone
    obtain ⟨c', tokens, hcontext, hended⟩ := run?_eq_some_iff.1 hserved
    have hdone : (s.perform caller enclave command).AllOrNothing (Nat → Mishap) w.backend
        (s.ServedMisled c caller (.command enclave command) w) fun reply b' =>
          s.ChangesOne l caller (s.ServedMisled c caller (.command enclave command) w) w.backend b'
            (.command enclave command) (.ok reply) := allOrNothing_of_changesOne hover hone
    have hends := hdone c' { w with tokens := tokens } rfl fun full hmisled =>
      ⟨_, List.mem_singleton_self _, c', tokens, hcontext, hmisled⟩
    rw [hended] at hends
    cases r with
    | ok reply => exact hends
    | error e => exact hends
  · rintro hnever full ⟨p, -, c', tokens, -, hmisled⟩
    have hnever' : World.NeverMissing { w with tokens := tokens } := hnever
    exact Program.not_misled_of_honestFor (p.honestFor_of_neverMissing hnever') hmisled

/-- The context of a creation ends between the look at the name and the commit. -/
theorem all_or_nothing_canceled_late :
    let s : Service := ⟨Layout.catalog ⟨""⟩, .ofAdmin (some ⟨"root"⟩), "default", 30⟩
    let registration : Registration := ⟨(World.calm (.memory .empty)).clock 0, ⟨"root"⟩⟩
    let w := World.stormy
      (.database (Table.empty.insert "sys/enclaves/default" (Record.encode registration)))
      fun n => if n = 2 then ⟨none, some [], none⟩ else .nothing
    ofSettings { Settings.default with admin := some ⟨"root"⟩ } = .ok s ∧
      ∃ w', s.serve? (.ofToken []) ⟨"root"⟩ (.command "" (.createKey "n" [7])) w =
        some (.error .canceled, w') ∧ w'.backend = w.backend := by
  intro s registration w
  have hmade : ofSettings { Settings.default with admin := some ⟨"root"⟩ } = .ok s := rfl
  have hserved := eq_some_of_map_fst
    (x := s.serve? (.ofToken []) ⟨"root"⟩ (.command "" (.createKey "n" [7])) w)
    (a := .error .canceled) (by decide +kernel) w
  exact ⟨hmade, _, hserved, (all_or_nothing hmade hserved).2.1 rfl⟩

/-- The look-up of a stored policy is answered that it is missing.  Its deletion succeeds, and the
policy stays. -/
theorem deletion_misled :
    let s : Service := ⟨Layout.catalog ⟨""⟩, .ofAdmin (some ⟨"root"⟩), "default", 30⟩
    let registration : Registration := ⟨(World.calm (.memory .empty)).clock 0, ⟨"root"⟩⟩
    let old := Record.encode (Policy.ofRules ["/v1/key/get/*"] [])
    let b : Backend := .memory ((Table.empty.insert "sys/enclaves/default"
      (Record.encode registration)).insert "enclaves/default/policies/p" old)
    let missing : Mishap := ⟨none, none, some (.notFound "policies/p")⟩
    let w := World.stormy b fun n => if n = 1 then missing else .nothing
    ofSettings { Settings.default with admin := some ⟨"root"⟩ } = .ok s ∧
      ∃ w', s.serve? (.ofToken []) ⟨"root"⟩ (.command "" (.deletePolicy "p")) w =
          some (.ok .done, w') ∧
        w'.backend.stored? "enclaves/default/policies/p" = some old ∧
        ¬ b.Loses w'.backend "enclaves/default/policies/p" := by
  intro s registration old b missing w
  have hserved := eq_some_of_map_fst
    (x := s.serve? (.ofToken []) ⟨"root"⟩ (.command "" (.deletePolicy "p")) w)
    (a := .ok .done) (by decide +kernel) w
  generalize hw' : ((s.serve? (.ofToken []) ⟨"root"⟩ (.command "" (.deletePolicy "p")) w).map
    Prod.snd).getD w = w' at hserved
  have hstays : w'.backend.stored? "enclaves/default/policies/p" = some old := by
    subst hw'
    decide +kernel
  refine ⟨rfl, w', hserved, hstays, fun hloses => ?_⟩
  have hgone := hloses "enclaves/default/policies/p"
  rw [hstays, if_pos rfl] at hgone
  cases hgone

end Service

end KeyCustody
