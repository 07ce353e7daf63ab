import KeyCustody.Proofs.LostDirectory
import KeyCustody.Proofs.Mirroring
import KeyCustody.Proofs.PolicyUse

/-!
# Who has a policy

A policy may go only while no identity has it.  Who has it is found out by listing the names of
the assignments, making identities of the names again and looking each of them up.  An identity
that is made of a fingerprint is trimmed, and the search trims too; but an identity that was read
from a document is stored as it stands there.  So the search looks for some assignments in the
wrong place: it passes over those whose identity has blanks around it, and finds the trimmed one
in their stead, if that has an assignment as well.  Main statements:

* `Backend.Reached.assignments`: what stands in an enclave to which assignments were made, whatever
  failed on the way;
* `Enclave.run_identitiesWithPolicy`: what the search finds;
* `Enclave.assignees_exact_iff`: when it is exact, and what that means for the removal of a policy.
-/

namespace KeyCustody

/-! ### File names of trimmed names -/

namespace FileName

/-- What follows a start is written behind what is written for the start. -/
theorem encode_append {start : String} (hstart : start ≠ "") (name : String) :
    encode (start ++ name) =
      encode start ++ Bytes.ofText (String.ofList (name.toList.flatMap escape)) := by
  obtain ⟨c, cs, hchars⟩ := List.exists_cons_of_ne_nil (mt String.toList_eq_nil_iff.1 hstart)
  unfold encode
  rw [String.toList_append, hchars, List.cons_append, encodeChars, encodeChars,
    List.flatMap_append, ← List.append_assoc, String.ofList_append, Bytes.ofText_append]

/-- A trimmed name has no longer file name. -/
theorem length_encode_trim_le {start : String} (hstart : start ≠ "") (name : String) :
    (encode (start ++ Text.trim name)).length ≤ (encode (start ++ name)).length := by
  obtain ⟨front, back, hname⟩ := Text.exists_eq_append_trim name
  have hsplit : name.toList.flatMap escape = front.toList.flatMap escape ++
      (Text.trim name).toList.flatMap escape ++ back.toList.flatMap escape := by
    rw [← List.flatMap_append, ← List.flatMap_append, ← String.toList_append,
      ← String.toList_append, ← hname]
  rw [encode_append hstart, encode_append hstart, hsplit]
  simp only [String.ofList_append, Bytes.ofText_append, List.length_append]
  omega

end FileName

/-! ### Enclaves to which assignments were made -/

namespace Backend

/-- The assignment that stands under the text of the identity in the enclave. -/
def assignment? (b : Backend) (l : Layout) (e : String) (i : Identity) : Option Assignment :=
  b.record? (l.space .assignment e ++ i.text)

/-- The identity has the policy in the enclave. -/
def Assigned (b : Backend) (l : Layout) (e : String) (i : Identity) (policy : String) : Prop :=
  ∃ a : Assignment, b.assignment? l e i = some a ∧ a.policy = policy

/-- All assignments of the enclave belong to identities of a kind that can be stored, and decode. -/
structure Assignments (b : Backend) (l : Layout) (e : String) (kind : Identity → Prop) :
    Prop where
  tidy : b.Tidy
  stored : ∀ n value, b.stored? (l.space .assignment e ++ n) = some value →
    Identity.Valid ⟨n⟩ ∧ kind ⟨n⟩ ∧ ∃ a : Assignment, Record.decode? value = some a

end Backend

/-- The contract of making assignments in the enclave only to identities of a kind that can be
stored. -/
def Contract.assigning (l : Layout) (e : String) (kind : Identity → Prop) : Contract :=
  .asking fun
    | .create full value => ∀ n, full = l.space .assignment e ++ n →
        Identity.Valid ⟨n⟩ ∧ kind ⟨n⟩ ∧ ∃ a : Assignment, Record.decode? value = some a
    | _ => True

/-- **One request** keeps the assignments of the enclave in order, whatever mishaps there are. -/
theorem Backend.Assignments.answer {σ : Type} [Mishaps σ] {w : World σ} {l : Layout} {e : String}
    {kind : Identity → Prop} (h : w.backend.Assignments l e kind) (c : Context) {r : Request}
    (hr : (Contract.assigning l e kind).allows r) :
    (w.answer c r).2.backend.Assignments l e kind := by
  refine ⟨World.tidy_answer c r w h.tidy, fun n value hheld => ?_⟩
  by_cases hcreates : r.Creates (l.space .assignment e ++ n)
  · cases r with
    | create full created =>
        obtain rfl : full = l.space .assignment e ++ n := hcreates
        rcases w.answer_create_cases c (l.space .assignment e ++ n) created with
          ⟨-, -, hsame⟩ | ⟨-, -, hcreated⟩
        · exact h.stored n value (hsame ▸ hheld)
        · rw [hcreated, if_pos rfl] at hheld
          exact Option.some.inj hheld ▸ hr n rfl
    | _ => exact hcreates.elim
  · rcases World.stored?_answer_of_not_creates hcreates c w with hsame | hnone
    · exact h.stored n value (hsame ▸ hheld)
    · rw [hnone] at hheld
      cases hheld

namespace Enclave

variable {l : Layout} {e : String} {kind : Identity → Prop}

/-- An assignment to an identity of the kind. -/
theorem keepsAssigning_assignPolicy {i : Identity} (hi : kind i) (policy : String)
    (creator : Identity) : ((l.handle e).assignPolicy policy i creator).Keeps
      (.assigning l e kind) (fun _ => True) fun _ => True := by
  refine keeps_assignPolicy trivial trivial trivial (fun _ => trivial) ?_
  intro g p time _ hvalid _ n hname
  have hsame : i.text = n := (String.append_right_inj _).1 hname
  subst hsame
  exact ⟨hvalid, hi, _, Record.decode?_encode _⟩

theorem keepsAssigning_unassign (i : Identity) : ((l.handle e).unassign i).Keeps
    (.assigning l e kind) (fun _ => True) fun _ => True :=
  keeps_unassign fun _ => trivial

end Enclave

/-- **The stores that are reached** from one without assignments in the enclave when policies are
assigned to identities of a kind and taken from identities, whatever goes wrong on the way, and
whatever else happens that leaves the assignments of the enclave as they are. -/
inductive Backend.Reached (l : Layout) (e : String) (kind : Identity → Prop) : Backend → Prop
  | start {b : Backend} (tidy : b.Tidy)
      (none : ∀ n, b.stored? (l.space .assignment e ++ n) = none) : Reached l e kind b
  | assigned {σ : Type} [Mishaps σ] {w : World σ} (reached : Reached l e kind w.backend)
      (c : Context) (policy : String) {i : Identity} (known : kind i) (creator : Identity) :
      Reached l e kind
        (((l.handle e).assignPolicy policy i creator).attempt.run c w).2.backend
  | unassigned {σ : Type} [Mishaps σ] {w : World σ} (reached : Reached l e kind w.backend)
      (c : Context) (i : Identity) :
      Reached l e kind (((l.handle e).unassign i).attempt.run c w).2.backend
  | otherwise {b b' : Backend} (reached : Reached l e kind b) (tidy : b'.Tidy)
      (same : ∀ n, b'.stored? (l.space .assignment e ++ n) =
        b.stored? (l.space .assignment e ++ n)) : Reached l e kind b'

/-- **What stands in an enclave to which assignments were made.** -/
theorem Backend.Reached.assignments {l : Layout} {e : String} {kind : Identity → Prop}
    {b : Backend} (h : Backend.Reached l e kind b) : b.Assignments l e kind := by
  -- what a program keeps that makes assignments only to identities of the kind
  have hrun {σ α : Type} [Mishaps σ] {a : Routine α} {w : World σ} (c : Context)
      (hkeeps : a.Keeps (.assigning l e kind) (fun _ => True) fun _ => True)
      (hw : w.backend.Assignments l e kind) :
      (a.attempt.run c w).2.backend.Assignments l e kind :=
    (Program.Keeps.run hkeeps c (fun v => v.backend.Assignments l e kind)
      (fun _ _ hr hv => ⟨trivial, hv.answer c hr⟩) hw).2
  induction h with
  | start tidy hnone =>
      refine ⟨tidy, fun n value hheld => ?_⟩
      rw [hnone] at hheld
      cases hheld
  | assigned _ c policy known creator ih =>
      exact hrun c (Enclave.keepsAssigning_assignPolicy known policy creator) ih
  | unassigned _ c i ih => exact hrun c (Enclave.keepsAssigning_unassign i) ih
  | otherwise _ tidy same ih =>
      exact ⟨tidy, fun n value hheld => ih.stored n value (same n ▸ hheld)⟩

/-- A store that holds an enclave's registration and one policy of it. -/
def Backend.ofPolicy (l : Layout) (e : String) (g : Registration) (name : String) (p : Policy) :
    Backend :=
  .memory ((Table.empty.insert (l.record e) (Record.encode g)).insert
    (l.space .policy e ++ name) (Record.encode p))

/-- Where there is a policy only, no assignment was made yet. -/
theorem Backend.Reached.ofPolicy {l : Layout} {e : String} {kind : Identity → Prop}
    (he : ValidEnclaveName e) (g : Registration) (name : String) (p : Policy) :
    Reached l e kind (.ofPolicy l e g name p) := by
  refine .start trivial fun n => ?_
  have hpolicy : l.space .assignment e ++ n ≠ l.space .policy e ++ name :=
    Layout.space_append_ne he.toValidName he.toValidName RecordKind.noConfusion
  change ((Table.empty.insert _ _).insert _ _).get? _ = none
  rw [Table.get?_insert, if_neg hpolicy, Table.get?_insert,
    if_neg (l.record_ne_space_append e e n .assignment).symm, Table.get?_empty]

/-! ### What the search finds -/

/-- A tidy store misses what it does not hold, if a name as long as this is held. -/
theorem Backend.Tidy.misses {b : Backend} (hb : b.Tidy) {full held : String} (hfull : full ≠ "")
    (hheld : (b.stored? held).isSome = true)
    (hlength : (FileName.encode full).length ≤ (FileName.encode held).length)
    (hnone : b.stored? full = none) : b.Misses full := by
  by_cases hkind : ∀ d, b ≠ .files d
  · exact (misses_iff_of_not_files hkind hfull).2 hnone
  · obtain ⟨d, hd⟩ := not_forall_not.1 hkind
    subst hd
    obtain ⟨value, hvalue⟩ := Option.isSome_iff_exists.1 hheld
    have hshort : DataDir.Short held := DataDir.short_of_find (DataDir.find_of_content? hvalue)
    refine ⟨full, ?_⟩
    rw [hb.get_eq hfull (hlength.trans hshort), hnone]
    rfl

section Searching

variable {w : World Unit} {c : Context} {l : Layout} {e : String} {kind : Identity → Prop}

theorem Layout.space_ne_empty (l : Layout) (k : RecordKind) (e : String) : l.space k e ≠ "" := by
  refine extend_ne (mt String.toList_eq_nil_iff.2 ?_)
  cases k <;> decide

namespace Enclave

/-- The assignment of a trimmed name is looked up where the trimmed name would be stored. -/
theorem run_findAssignment_of_name (hw : w.backend.Assignments l e kind)
    (hlive : w.ended c = false) {n : String}
    (hheld : (w.backend.stored? (l.space .assignment e ++ n)).isSome = true) :
    ((l.handle e).findAssignment (.ofText n)).attempt.run c w =
      (.ok (w.backend.assignment? l e (.ofText n)), w) := by
  obtain ⟨value, hvalue⟩ := Option.isSome_iff_exists.1 hheld
  obtain ⟨hvalid, -⟩ := hw.stored n value hvalue
  cases hfound : w.backend.assignment? l e (.ofText n) with
  | some a =>
      obtain ⟨value', hvalue', -⟩ := Backend.record?_eq_some_iff.1 hfound
      exact run_findAssignment_of_record hlive (hw.stored _ _ hvalue').1 hfound
  | none =>
      rcases Identity.valid_ofText hvalid with hunknown | htrimmed
      · unfold findAssignment
        rw [if_pos hunknown]
        rfl
      · have hnone : w.backend.stored?
            (l.space .assignment e ++ (Identity.ofText n).text) = none := by
          refine Option.eq_none_iff_forall_ne_some.2 fun value' hvalue' => ?_
          obtain ⟨-, -, a, ha⟩ := hw.stored _ value' hvalue'
          have hrecord : w.backend.assignment? l e (.ofText n) = some a :=
            Backend.record?_eq_some_iff.2 ⟨value', hvalue', ha⟩
          rw [hfound] at hrecord
          cases hrecord
        obtain ⟨what, hget⟩ := hw.tidy.misses (extend_ne htrimmed.known) hheld
          (FileName.length_encode_trim_le (l.space_ne_empty _ e) n) hnone
        rw [findAssignment_of_valid htrimmed]
        exact Cabinet.run_find?_of_missing hlive htrimmed.known hget

/-- The identities that are made of names and have the policy when they are looked up. -/
def foundAmong (b : Backend) (l : Layout) (e policy : String) (names : List String) :
    List Identity :=
  (names.filter fun n => (b.assignment? l e (.ofText n)).any (·.policy == policy)).map .ofText

/-- **What the search finds** where assignments were made: the identities that are made of the
names of the assignments and have the policy when they are looked up. -/
theorem run_identitiesWithPolicy (hplain : Glob.hasMeta l.root = false)
    (he : ValidEnclaveName e) (hlive : w.ended c = false)
    (hw : w.backend.Assignments l e kind) (policy : String) :
    ∃ names : List String, names.Nodup ∧
      (∀ n, n ∈ names ↔ ∃ a, w.backend.assignment? l e ⟨n⟩ = some a) ∧
      ((l.handle e).identitiesWithPolicy policy).attempt.run c w =
        (.ok (foundAmong w.backend l e policy names), w) := by
  obtain ⟨names, hnodup, hnames, hrun⟩ := run_identitiesWithPolicy_of_found hplain hlive hw.tidy he
    policy fun n value hvalue => ⟨(hw.stored n value hvalue).1.known,
      run_findAssignment_of_name hw hlive (Option.isSome_iff_exists.2 ⟨value, hvalue⟩)⟩
  refine ⟨names, hnodup, fun n => (hnames n).trans ⟨fun ⟨value, hvalue⟩ => ?_, fun ⟨a, ha⟩ => ?_⟩,
    hrun⟩
  · obtain ⟨-, -, a, ha⟩ := hw.stored n value hvalue
    exact ⟨a, Backend.record?_eq_some_iff.2 ⟨value, hvalue, ha⟩⟩
  · obtain ⟨value, hvalue, -⟩ := Backend.record?_eq_some_iff.1 ha
    exact ⟨value, hvalue⟩

end Enclave

end Searching

/-! ### When the search is exact -/

namespace Enclave

variable {b : Backend} {l : Layout} {e policy : String} {names : List String}

/-- Exactly the trimmed identities that have the policy are found. -/
theorem mem_foundAmong (hnames : ∀ n, n ∈ names ↔ ∃ a, b.assignment? l e ⟨n⟩ = some a)
    {i : Identity} : i ∈ foundAmong b l e policy names ↔ i.Trimmed ∧ b.Assigned l e i policy := by
  simp only [foundAmong, List.mem_map, List.mem_filter, Option.any_eq_true, beq_iff_eq]
  constructor
  · intro ⟨n, ⟨_, hassigned⟩, hi⟩
    subst hi
    exact ⟨⟨n, rfl⟩, hassigned⟩
  · intro ⟨htrimmed, a, ha, hpolicy⟩
    refine ⟨i.text, ⟨(hnames i.text).2 ⟨a, ha⟩, a, ?_, hpolicy⟩, htrimmed.ofText_text⟩
    rw [htrimmed.ofText_text]
    exact ha

/-- An identity is found once, unless it is made of the name of another identity as well. -/
theorem nodup_foundAmong_iff (hnodup : names.Nodup)
    (hnames : ∀ n, n ∈ names ↔ ∃ a, b.assignment? l e ⟨n⟩ = some a) :
    (foundAmong b l e policy names).Nodup ↔ ∀ i a, b.assignment? l e i = some a →
      ¬ i.Trimmed → ¬ b.Assigned l e (.ofText i.text) policy := by
  unfold foundAmong
  rw [List.nodup_map_iff_inj_on (hnodup.filter _)]
  simp only [List.mem_filter, Option.any_eq_true, beq_iff_eq]
  constructor
  · intro hinj i a ha huntrimmed hassigned
    -- the trimmed text is the name of an assignment too, and another one
    have hmade : Identity.ofText (Identity.ofText i.text).text = .ofText i.text :=
      Identity.Trimmed.ofText_text ⟨i.text, rfl⟩
    obtain ⟨a', ha', hpolicy⟩ := hassigned
    have hsame : (Identity.ofText i.text).text = i.text :=
      hinj _ ⟨(hnames _).2 ⟨a', ha'⟩, a', hmade.symm ▸ ha', hpolicy⟩ _
        ⟨(hnames _).2 ⟨a, ha⟩, a', ha', hpolicy⟩ hmade
    exact huntrimmed ⟨i.text, Identity.text_inj.1 hsame.symm⟩
  · intro hapart n ⟨hn, hassigned⟩ n' ⟨hn', hassigned'⟩ hsame
    have htext {m : String} (hm : m ∈ names)
        (hassigned : b.Assigned l e (.ofText m) policy) : (Identity.ofText m).text = m := by
      obtain ⟨a, ha⟩ := (hnames m).1 hm
      have htrimmed : Identity.Trimmed ⟨m⟩ := by
        by_contra huntrimmed
        exact hapart ⟨m⟩ a ha huntrimmed hassigned
      exact congrArg Identity.text htrimmed.ofText_text
    rw [← htext hn hassigned, ← htext hn' hassigned', hsame]

end Enclave

/-- The list has each identity that has the policy once, and no other. -/
structure Backend.Lists (b : Backend) (l : Layout) (e policy : String) (users : List Identity) :
    Prop where
  once : users.Nodup
  exactly : ∀ i, i ∈ users ↔ b.Assigned l e i policy

/-- A search is exact unless an identity with blanks around it has an assignment, and it or the
trimmed one has the policy. -/
theorem Enclave.lists_foundAmong_iff {b : Backend} {l : Layout} {e policy : String}
    {names : List String} (hnodup : names.Nodup)
    (hnames : ∀ n, n ∈ names ↔ ∃ a, b.assignment? l e ⟨n⟩ = some a) :
    b.Lists l e policy (foundAmong b l e policy names) ↔
      ∀ i a, b.assignment? l e i = some a → ¬ i.Trimmed →
        ¬ b.Assigned l e i policy ∧ ¬ b.Assigned l e (.ofText i.text) policy := by
  constructor
  · intro ⟨honce, hexactly⟩ i a ha huntrimmed
    refine ⟨fun hassigned => ?_, (nodup_foundAmong_iff hnodup hnames).1 honce i a ha huntrimmed⟩
    exact huntrimmed ((mem_foundAmong hnames).1 ((hexactly i).2 hassigned)).1
  · intro hapart
    refine ⟨(nodup_foundAmong_iff hnodup hnames).2 fun i a ha huntrimmed =>
      (hapart i a ha huntrimmed).2, fun i => ?_⟩
    rw [mem_foundAmong hnames]
    refine ⟨And.right, fun hassigned => ⟨?_, hassigned⟩⟩
    by_contra huntrimmed
    obtain ⟨a, ha, -⟩ := id hassigned
    exact (hapart i a ha huntrimmed).1 hassigned

namespace Enclave

variable {s : Service} {settings : Settings} {w : World Unit} {c : Context} {e : String}
  {kind : Identity → Prop} {h : Enclave}

/-- **Who has a policy.**  In an enclave that was reached by assignments and their removals, and
where nothing goes wrong now, the search ends and finds the trimmed identities that have the
policy.  It is exact unless an identity that is not trimmed has an assignment, and it or the
trimmed one has the policy; so it is exact if assignments are made to trimmed identities only.
A policy of the enclave is then removed, and nothing else changes, if no trimmed identity has it;
else it stays and those that were found are counted. -/
theorem assignees_exact_iff (hmade : Service.ofSettings settings = .ok s)
    (hhandle : s.registry.handle e = .ok h)
    (hreached : Backend.Reached ⟨settings.keyPrefix⟩ e kind w.backend)
    (hlive : w.ended c = false) (policy : String) :
    let l : Layout := ⟨settings.keyPrefix⟩
    let removal := (h.deletePolicy policy).attempt.run c w
    ∃ users, (h.identitiesWithPolicy policy).attempt.run c w = (.ok users, w) ∧
      (w.backend.Lists l e policy users ↔ ∀ i a, w.backend.assignment? l e i = some a →
        ¬ i.Trimmed → ¬ w.backend.Assigned l e i policy ∧
          ¬ w.backend.Assigned l e (.ofText i.text) policy) ∧
      ((∀ i, kind i → i.Trimmed) → w.backend.Lists l e policy users) ∧
      (users = [] ↔ ∀ i : Identity, i.Trimmed → ¬ w.backend.Assigned l e i policy) ∧
      ∀ p : Policy, ValidName policy →
        w.backend.record? (l.space .policy e ++ policy) = some p →
        (users = [] → removal.1 = .ok () ∧ ∀ other, removal.2.backend.stored? other =
          if other = l.space .policy e ++ policy then none else w.backend.stored? other) ∧
        (users ≠ [] → removal.1 = .error (.policyInUse policy users.length) ∧
          removal.2.backend = w.backend) := by
  intro l removal
  have hover := Service.over_of_ofSettings hmade
  obtain ⟨he, hsame⟩ := hover.handle_eq_ok_iff.1 hhandle
  subst hsame
  have hassignments := hreached.assignments
  obtain ⟨names, hnodup, hnames, hrun⟩ :=
    run_identitiesWithPolicy hover.plain he hlive hassignments policy
  have hexact : w.backend.Lists l e policy (foundAmong w.backend l e policy names) ↔ _ :=
    lists_foundAmong_iff hnodup hnames
  refine ⟨_, hrun, hexact, fun hkind => hexact.2 fun i a ha huntrimmed => ?_, ?_, fun p hname hp =>
    run_deletePolicy_of_users hlive hname hp hrun⟩
  · obtain ⟨value, hvalue, -⟩ := Backend.record?_eq_some_iff.1 ha
    exact absurd (hkind i (hassignments.stored i.text value hvalue).2.1) huntrimmed
  · rw [List.eq_nil_iff_forall_not_mem]
    simp only [mem_foundAmong hnames, not_and]
    exact Iff.rfl

/-- The policy `p` is given to `ann`.  The search finds `ann`, and the policy stays. -/
theorem assignees_exact_iff_trimmed :
    let time := (World.calm (.memory .empty)).clock 0
    let policy : Policy := ⟨["*"], [], some time, ⟨"root"⟩⟩
    let h := Layout.handle ⟨""⟩ "default"
    let w := ((h.assignPolicy "p" ⟨"ann"⟩ ⟨"root"⟩).attempt.run (.ofToken [])
      (World.calm (.ofPolicy ⟨""⟩ "default" ⟨time, ⟨"root"⟩⟩ "p" policy))).2
    let removal := (h.deletePolicy "p").attempt.run (.ofToken []) w
    (h.identitiesWithPolicy "p").attempt.run (.ofToken []) w = (.ok [⟨"ann"⟩], w) ∧
      w.backend.Lists ⟨""⟩ "default" "p" [⟨"ann"⟩] ∧
      removal.1 = .error (.policyInUse "p" 1) ∧ removal.2.backend = w.backend := by
  intro time policy h w removal
  have hmade : Service.ofSettings { Settings.default with admin := some ⟨"root"⟩ } =
      .ok ⟨Layout.catalog ⟨""⟩, .ofAdmin (some ⟨"root"⟩), "default", 30⟩ := rfl
  have he := (Service.over_of_ofSettings hmade).validDefault
  have hhandle := (Service.over_of_ofSettings hmade).handle_eq_ok_iff.2 ⟨he, rfl⟩
  have hann : Identity.Trimmed ⟨"ann"⟩ := ⟨"ann", by decide +kernel⟩
  have hreached : Backend.Reached ⟨""⟩ "default" Identity.Trimmed w.backend :=
    .assigned (.ofPolicy he _ _ _) _ _ hann _
  have hnamed : checkName "policy" "p" = .ok () := by decide +kernel
  obtain ⟨hlive, hfound, hp⟩ : w.ended (.ofToken []) = false ∧
      ((h.identitiesWithPolicy "p").attempt.run (.ofToken []) w).1 = .ok [⟨"ann"⟩] ∧
      w.backend.record? (Layout.space ⟨""⟩ .policy "default" ++ "p") = some policy := by
    decide +kernel
  clear_value w
  obtain ⟨users, hrun, -, hlists, -, hremoval⟩ :=
    assignees_exact_iff hmade hhandle hreached hlive "p"
  have husers : users = [⟨"ann"⟩] :=
    Except.ok.inj ((congrArg Prod.fst hrun).symm.trans hfound)
  subst husers
  obtain ⟨-, hstays⟩ := hremoval policy (checkName_eq_ok_iff.1 hnamed) hp
  exact ⟨hrun, hlists fun _ => id, hstays (List.cons_ne_nil _ _)⟩

/-- **An identity with blanks around it hides its policy.**  The identity ` ann ` is read from a
document and can be stored.  The policy `p` is given to it.  The search finds nobody that has the
policy, and the policy is removed. -/
theorem blanks_hide_assignee :
    let time := (World.calm (.memory .empty)).clock 0
    let policy : Policy := ⟨["*"], [], some time, ⟨"root"⟩⟩
    let ann : Identity := ⟨" ann "⟩
    let h := Layout.handle ⟨""⟩ "default"
    let w := ((h.assignPolicy "p" ann ⟨"root"⟩).attempt.run (.ofToken [])
      (World.calm (.ofPolicy ⟨""⟩ "default" ⟨time, ⟨"root"⟩⟩ "p" policy))).2
    let removal := (h.deletePolicy "p").attempt.run (.ofToken []) w
    (Json.read? (Bytes.ofText "\" ann \"")).bind Record.identity? = some ann ∧ ann.Valid ∧
      Backend.Reached ⟨""⟩ "default" Identity.Valid w.backend ∧ w.ended (.ofToken []) = false ∧
      w.backend.Assigned ⟨""⟩ "default" ann "p" ∧
      ((h.identitiesWithPolicy "p").attempt.run (.ofToken []) w).1 = .ok [] ∧
      ¬ w.backend.Lists ⟨""⟩ "default" "p" [] ∧
      removal.1 = .ok () ∧ removal.2.backend.stored? "enclaves/default/policies/p" = none ∧
      removal.2.backend.Assigned ⟨""⟩ "default" ann "p" := by
  intro time policy ann h w removal
  have hvalid : ann.Valid := Identity.check_eq_ok_iff.1 (by decide +kernel)
  have he : ValidEnclaveName "default" := checkEnclaveName_eq_ok_iff.1 (by decide +kernel)
  have hreached : Backend.Reached ⟨""⟩ "default" Identity.Valid w.backend :=
    .assigned (.ofPolicy he _ _ _) _ _ hvalid _
  let assignment : Assignment := ⟨"p", time, ⟨"root"⟩⟩
  obtain ⟨hread, hlive, hgiven, hnobody, hdone, hgone, hleft⟩ :
      (Json.read? (Bytes.ofText "\" ann \"")).bind Record.identity? = some ann ∧
        w.ended (.ofToken []) = false ∧
        w.backend.assignment? ⟨""⟩ "default" ann = some assignment ∧
        ((h.identitiesWithPolicy "p").attempt.run (.ofToken []) w).1 = .ok [] ∧
        removal.1 = .ok () ∧ removal.2.backend.stored? "enclaves/default/policies/p" = none ∧
        removal.2.backend.assignment? ⟨""⟩ "default" ann = some assignment := by decide +kernel
  have hassigned : w.backend.Assigned ⟨""⟩ "default" ann "p" := ⟨assignment, hgiven, rfl⟩
  refine ⟨hread, hvalid, hreached, hlive, hassigned, hnobody, fun hlists => ?_, hdone, hgone,
    assignment, hleft, rfl⟩
  exact List.not_mem_nil ((hlists.exactly ann).2 hassigned)

end Enclave

end KeyCustody
