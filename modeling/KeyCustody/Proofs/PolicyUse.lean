import KeyCustody.Proofs.Tidy
import KeyCustody.Proofs.WellFormed

/-!
# Policies in use

A policy is removed only if no identity has it, and who has it is found out by looking at all
assignments of the enclave.  This search is right in a store that is *coherent*
(`Backend.Coherent`): a tidy store in which every assignment stands under the text of a valid
identity, decodes, and names a policy of its enclave.  Main statements:

* `Enclave.exists_users`: the search finds those that have the policy, each of them once;
* `Enclave.deletesPolicy_run`: what a removal of a policy does.
-/

namespace KeyCustody

/-- The identity was made from a fingerprint. -/
def Identity.Trimmed (i : Identity) : Prop :=
  ∃ fingerprint, i = .ofText fingerprint

theorem Identity.Trimmed.ofText_text {i : Identity} (h : i.Trimmed) : ofText i.text = i := by
  obtain ⟨fingerprint, rfl⟩ := h
  exact congrArg Identity.mk (Text.trim_trim fingerprint)

/-- A valid identity that is trimmed stays valid, unless nothing is left of it. -/
theorem Identity.valid_ofText {n : String} (h : Valid ⟨n⟩) :
    (ofText n).isUnknown = true ∨ (ofText n).Valid := by
  obtain ⟨front, back, hn⟩ := Text.exists_eq_append_trim n
  by_cases hknown : (ofText n).isUnknown = true
  · exact .inl hknown
  refine .inr ⟨fun hempty => hknown (by simp [isUnknown, hempty]), ?_, fun c hc => ?_⟩
  · have hsize := congrArg String.utf8ByteSize hn
    rw [String.utf8ByteSize_append, String.utf8ByteSize_append] at hsize
    have hshort : n.utf8ByteSize ≤ maxNameLength := h.short
    change (Text.trim n).utf8ByteSize ≤ maxNameLength
    omega
  · refine h.legal c ?_
    change c ∈ n.toList
    rw [hn, String.toList_append, String.toList_append]
    exact List.mem_append_left _ (List.mem_append_right _ hc)

/-- A tidy store in which policies have valid names and every assignment names a policy of its
enclave. -/
structure Backend.Coherent (b : Backend) (l : Layout) : Prop where
  tidy : b.Tidy
  named : ∀ e n value, ValidEnclaveName e → b.stored? (l.space .policy e ++ n) = some value →
    ValidName n
  assigned : ∀ e n value, ValidEnclaveName e →
    b.stored? (l.space .assignment e ++ n) = some value →
      Identity.Valid ⟨n⟩ ∧ Identity.Trimmed ⟨n⟩ ∧ ∃ a : Assignment,
        Record.decode? value = some a ∧
          ∃ p : Policy, b.record? (l.space .policy e ++ a.policy) = some p

/-- What becomes of a store when a policy of an enclave is to be removed.  A policy that no
identity has is removed, and nothing else changes.  A policy in use stays, and the number of
the identities that have it is told.  If there is no such policy, nothing changes. -/
structure Backend.DeletesPolicy (b : Backend) (l : Layout) (e name : String)
    (outcome : Except Error Unit) (b' : Backend) : Prop where
  /-- A policy that exists is removed, or those that have it are counted. -/
  existing : ∀ p : Policy, b.record? (l.space .policy e ++ name) = some p →
    ∃ users : List Identity, users.Nodup ∧
      (∀ i, i ∈ users ↔ ∃ a : Assignment,
        b.record? (l.space .assignment e ++ i.text) = some a ∧ a.policy = name) ∧
      (users = [] → outcome = .ok () ∧ ∀ other, b'.stored? other =
        if other = l.space .policy e ++ name then none else b.stored? other) ∧
      (users ≠ [] → outcome = .error (.policyInUse name users.length) ∧ b' = b)
  /-- Without a policy nothing changes. -/
  missing : (b.record? (l.space .policy e ++ name) : Option Policy) = none → b' = b
  /-- That nothing is there is no error, unless the look-up fails. -/
  absent : ValidName name → b.stored? (l.space .policy e ++ name) = none →
    outcome = .ok () ∨ ∃ err, b.get (.steady false) (l.space .policy e ++ name) = .error err ∧
      ∀ what, err ≠ .notFound what

/-! ### Deleting a policy -/

section Deleting

variable {w : World Unit} {c : Context} {l : Layout} {e name : String}

/-- What is held can be removed under a context that lives. -/
theorem View.run_delete_of_stored {space : String} {value : Bytes} (hlive : w.ended c = false)
    (hname : name ≠ "") (hheld : w.backend.stored? (space ++ name) = some value) :
    (((View.under space .whole).delete name).attempt.run c w).1 = .ok () ∧
      ∀ other, (((View.under space .whole).delete name).attempt.run c w).2.backend.stored? other =
        if other = space ++ name then none else w.backend.stored? other := by
  have hgone : (((View.under space .whole).delete name).attempt.run c w).2.backend.stored?
      (space ++ name) = none := clears_delete hname c w hlive
  rcases run_delete_cases c w space name with ⟨err, -, hsame⟩ | hremoved
  · rw [hsame, hheld] at hgone
    cases hgone
  · exact hremoved

namespace Enclave

theorem run_hasPolicy_of_record {p : Policy} (hlive : w.ended c = false) (hname : ValidName name)
    (hrecord : w.backend.record? (l.space .policy e ++ name) = some p) :
    ((l.handle e).hasPolicy name).attempt.run c w = (.ok true, w) := by
  have hfound : ((l.handle e).policies.find? name).attempt.run c w = (.ok (some p), w) :=
    Cabinet.run_find?_of_record hlive hname.nonempty hrecord
  unfold hasPolicy
  rw [checkName_eq_ok_iff.2 hname]
  change ((l.handle e).policies.find? name >>= fun found => pure found.isSome).attempt.run c w = _
  rw [Routine.run_bind, hfound]
  rfl

theorem run_hasPolicy_of_missing {what : String} (hlive : w.ended c = false)
    (hname : ValidName name) (hmissing : w.backend.get (.steady false)
      (l.space .policy e ++ name) = .error (.notFound what)) :
    ((l.handle e).hasPolicy name).attempt.run c w = (.ok false, w) := by
  have hfound : ((l.handle e).policies.find? name).attempt.run c w = (.ok none, w) :=
    Cabinet.run_find?_of_missing hlive hname.nonempty hmissing
  unfold hasPolicy
  rw [checkName_eq_ok_iff.2 hname]
  change ((l.handle e).policies.find? name >>= fun found => pure found.isSome).attempt.run c w = _
  rw [Routine.run_bind, hfound]
  rfl

/-- What a search among assignments gives, if each of them is looked up without an error and
nothing else happens. -/
theorem run_withPolicy_of_found {σ : Type} [Mishaps σ] {w : World σ} (policy : String)
    {names : List String} {found : String → Option Assignment}
    (hfound : ∀ n ∈ names, ((l.handle e).findAssignment (.ofText n)).attempt.run c w =
      (.ok (found n), w)) :
    ((l.handle e).withPolicy policy names).attempt.run c w =
      (.ok ((names.filter fun n => (found n).any (·.policy == policy)).map Identity.ofText),
        w) := by
  induction names with
  | nil => rfl
  | cons n names ih =>
      have hrest := ih fun m hm => hfound m (List.mem_cons_of_mem _ hm)
      unfold withPolicy
      rw [Routine.run_bind, hfound n List.mem_cons_self]
      simp only
      rw [Routine.run_bind, hrest, List.filter_cons]
      cases found n with
      | none => rfl
      | some a =>
          by_cases hsame : a.policy = policy
          · simp only [Option.any_some, hsame, beq_self_eq_true, if_true]
            rfl
          · simp only [Option.any_some, hsame, beq_false_of_ne hsame, Bool.false_eq_true, if_false]
            rfl

/-- What the search for those that have a policy gives, if each assignment of the enclave is looked
up without an error. -/
theorem run_identitiesWithPolicy_of_found (hplain : Glob.hasMeta l.root = false)
    (hlive : w.ended c = false) (htidy : w.backend.Tidy) (he : ValidEnclaveName e)
    (policy : String) {found : String → Option Assignment}
    (hfound : ∀ n value, w.backend.stored? (l.space .assignment e ++ n) = some value → n ≠ "" ∧
      ((l.handle e).findAssignment (.ofText n)).attempt.run c w = (.ok (found n), w)) :
    ∃ names : List String, names.Nodup ∧
      (∀ n, n ∈ names ↔ ∃ value, w.backend.stored? (l.space .assignment e ++ n) = some value) ∧
      ((l.handle e).identitiesWithPolicy policy).attempt.run c w =
        (.ok ((names.filter fun n => (found n).any (·.policy == policy)).map Identity.ofText),
          w) := by
  have hspace := Layout.hasMeta_space hplain he.toValidName .assignment
  obtain ⟨names, hlist, hnodup, hmem⟩ :=
    View.exists_run_list hlive htidy (l.space .assignment e) "*"
  have hnames (n : String) :
      n ∈ names ↔ ∃ value, w.backend.stored? (l.space .assignment e ++ n) = some value := by
    rw [hmem, ← Option.isSome_iff_exists]
    refine ⟨fun h => h.2.2, fun hheld => ?_⟩
    obtain ⟨value, hvalue⟩ := Option.isSome_iff_exists.1 hheld
    exact ⟨(hfound n value hvalue).1, Glob.accepts_all hspace n, hheld⟩
  refine ⟨names, hnodup, hnames, ?_⟩
  have hassigned : ((l.handle e).assignments.list "*").attempt.run c w = (.ok names, w) := hlist
  unfold identitiesWithPolicy
  rw [Routine.run_bind, hassigned]
  refine run_withPolicy_of_found policy fun n hn => ?_
  obtain ⟨value, hvalue⟩ := (hnames n).1 hn
  exact (hfound n value hvalue).2

/-- **The search for those that have a policy** finds them, each of them once. -/
theorem exists_users (hplain : Glob.hasMeta l.root = false) (hlive : w.ended c = false)
    (hw : w.backend.Coherent l) (he : ValidEnclaveName e) (policy : String) :
    ∃ users, ((l.handle e).identitiesWithPolicy policy).attempt.run c w = (.ok users, w) ∧
      users.Nodup ∧ ∀ i, i ∈ users ↔ ∃ a : Assignment,
        w.backend.record? (l.space .assignment e ++ i.text) = some a ∧ a.policy = policy := by
  obtain ⟨names, hnodup, hnames, hrun⟩ := run_identitiesWithPolicy_of_found hplain hlive hw.tidy he
    policy (fun n value hvalue => by
      obtain ⟨hvalid, htrimmed, a, ha, -⟩ := hw.assigned e n value he hvalue
      have hrecord := Backend.record?_eq_some_iff.2 ⟨value, hvalue, ha⟩
      rw [htrimmed.ofText_text]
      exact ⟨hvalid.known, hrecord ▸ run_findAssignment_of_record hlive hvalid hrecord⟩)
  have htrimmed (n : String) (hn : n ∈ names) : Identity.ofText n = ⟨n⟩ := by
    obtain ⟨value, hvalue⟩ := (hnames n).1 hn
    exact (hw.assigned e n value he hvalue).2.1.ofText_text
  refine ⟨_, hrun, (hnodup.filter _).map_on fun n hn n' hn' hsame => ?_, fun i => ?_⟩
  · rw [htrimmed n (List.mem_filter.1 hn).1, htrimmed n' (List.mem_filter.1 hn').1] at hsame
    exact congrArg Identity.text hsame
  · simp only [List.mem_map, List.mem_filter, Option.any_eq_true, beq_iff_eq]
    constructor
    · intro ⟨n, ⟨hn, a, ha, hpolicy⟩, hi⟩
      rw [htrimmed n hn] at hi
      exact ⟨a, hi ▸ ha, hpolicy⟩
    · intro ⟨a, ha, hpolicy⟩
      obtain ⟨value, hvalue, -⟩ := Backend.record?_eq_some_iff.1 ha
      have hn := (hnames i.text).2 ⟨value, hvalue⟩
      exact ⟨i.text, ⟨hn, a, ha, hpolicy⟩, htrimmed i.text hn⟩

/-- How the removal of a policy ends, once those that have it are found. -/
theorem run_deletePolicy_of_users (hlive : w.ended c = false) (hname : ValidName name) {p : Policy}
    (hp : w.backend.record? (l.space .policy e ++ name) = some p) {users : List Identity}
    (hrun : ((l.handle e).identitiesWithPolicy name).attempt.run c w = (.ok users, w)) :
    (users = [] → (((l.handle e).deletePolicy name).attempt.run c w).1 = .ok () ∧
      ∀ other, (((l.handle e).deletePolicy name).attempt.run c w).2.backend.stored? other =
        if other = l.space .policy e ++ name then none else w.backend.stored? other) ∧
      (users ≠ [] → (((l.handle e).deletePolicy name).attempt.run c w).1 =
          .error (.policyInUse name users.length) ∧
        (((l.handle e).deletePolicy name).attempt.run c w).2.backend = w.backend) := by
  obtain ⟨value, hvalue, -⟩ := Backend.record?_eq_some_iff.1 hp
  have hdeletes : ((l.handle e).deletePolicy name).attempt.run c w =
      (if users.isEmpty then (l.handle e).policies.delete name
        else throw (.policyInUse name users.length) : Routine Unit).attempt.run c w := by
    unfold deletePolicy
    rw [Routine.run_bind, run_hasPolicy_of_record hlive hname hp]
    simp only [if_true]
    rw [Routine.run_bind, hrun]
  refine ⟨fun hnone => ?_, fun hsome => ?_⟩
  · rw [hdeletes, hnone, List.isEmpty_nil, if_pos rfl]
    exact View.run_delete_of_stored hlive hname.nonempty hvalue
  · have hfull : users.isEmpty = false := by simpa using hsome
    rw [hdeletes, hfull, if_neg Bool.false_ne_true]
    exact ⟨rfl, rfl⟩

/-- **What a removal of a policy does** in a coherent store. -/
theorem deletesPolicy_run (hplain : Glob.hasMeta l.root = false) (hlive : w.ended c = false)
    (hw : w.backend.Coherent l) (he : ValidEnclaveName e) (name : String) :
    w.backend.DeletesPolicy l e name (((l.handle e).deletePolicy name).attempt.run c w).1
      (((l.handle e).deletePolicy name).attempt.run c w).2.backend := by
  refine ⟨fun p hp => ?_, fun hmissing => ?_, fun hname habsent => ?_⟩
  · obtain ⟨value, hvalue, -⟩ := Backend.record?_eq_some_iff.1 hp
    have hname := hw.named e name value he hvalue
    obtain ⟨users, hrun, hnodup, husers⟩ := exists_users hplain hlive hw he name
    exact ⟨users, hnodup, husers, run_deletePolicy_of_users hlive hname hp hrun⟩
  · have hlooks : ((l.handle e).deletePolicy name).Keeps (.looking w.backend) (fun _ => True)
        fun _ => True := by
      unfold deletePolicy
      refine Routine.Keeps.bind (keeps_hasPolicy rfl) fun found ⟨_, hfound⟩ => ?_
      cases found with
      | false => exact Routine.Keeps.pure trivial
      | true =>
          obtain ⟨p, hp⟩ := hfound rfl
          rw [Contract.mayHold_looking.1 hp] at hmissing
          cases hmissing
    exact (Program.Keeps.run hlooks c (fun v => v.backend = w.backend)
      (fun r v => World.looking_step c r v) rfl).2
  · cases hget : w.backend.get (.steady false) (l.space .policy e ++ name) with
    | ok value =>
        rw [Backend.stored?_of_get hget] at habsent
        cases habsent
    | error err =>
        by_cases hmissing : ∃ what, err = .notFound what
        · obtain ⟨what, rfl⟩ := hmissing
          refine .inl ?_
          unfold deletePolicy
          rw [Routine.run_bind, run_hasPolicy_of_missing hlive hname hget]
          rfl
        · exact .inr ⟨err, rfl, fun what hwhat => hmissing ⟨what, hwhat⟩⟩

end Enclave

end Deleting

end KeyCustody
