import KeyCustody.Proofs.Patterns
import KeyCustody.Proofs.Reports

/-!
# What a policy means

A policy allows the paths that some allow rule has in its language and no deny rule has.  So
only the rules themselves count, not their order or how often they are written; deny rules
only take away, and allow rules only add.

On its way into the store a policy loses its repeated rules and becomes a document.  On the
way out, a decision finds the caller's assignment, the policy that it names, and the rules in
it.  Nothing of the meaning is lost between the two.  Main statements:

* `Policy.evaluate_eq_allow_iff_matches`: decisions in terms of the languages of rules;
* `Policy.evaluate_eq_allow_of_subset`: what more rules can do;
* `Policy.distinct_eq_eraseDups`: of a repeated rule the first one stays;
* `Service.policy_meaning_preserved`: a policy that was stored and assigned decides as the
  policy that was submitted.
-/

namespace KeyCustody

namespace Policy

/-! ### Rules and languages -/

/-- The path is in the language of some rule of the list, each rule read as it is written. -/
def Matches (rules : List String) (path : String) : Prop :=
  ∃ r ∈ rules, Glob.Accepts ((Glob.orAll r).toList.map Glob.Token.ofChar) path.toList

variable {p q : Policy} {path : String}

theorem covers_iff_matches {rules : List String} :
    covers rules path = true ↔ Matches rules path := by
  simp only [covers_iff, Matches, Glob.accepts_iff_written]

/-- **Decisions** in terms of the languages of the rules. -/
theorem evaluate_eq_allow_iff_matches :
    p.evaluate path = .allow ↔ ¬ Matches p.deny path ∧ Matches p.allow path := by
  rw [evaluate_eq_allow_iff, ← Bool.not_eq_true, covers_iff_matches, covers_iff_matches]

/-- What is not allowed is denied. -/
theorem evaluate_eq_deny_iff : p.evaluate path = .deny ↔ p.evaluate path ≠ .allow := by
  cases p.evaluate path <;> simp

/-- A decision depends only on which rules there are, not on their order or how often they
are written. -/
theorem evaluate_congr (hallow : ∀ r, r ∈ q.allow ↔ r ∈ p.allow)
    (hdeny : ∀ r, r ∈ q.deny ↔ r ∈ p.deny) (path : String) :
    q.evaluate path = p.evaluate path := by
  unfold evaluate
  rw [covers_congr hallow path, covers_congr hdeny path]

theorem Matches.mono {rules rules' : List String} (hrules : rules ⊆ rules')
    (h : Matches rules path) : Matches rules' path := by
  obtain ⟨r, hr, haccepts⟩ := h
  exact ⟨r, hrules hr, haccepts⟩

/-- **More rules.**  What is allowed stays allowed with more allow rules and fewer deny rules. -/
theorem evaluate_eq_allow_of_subset (hallow : p.allow ⊆ q.allow) (hdeny : q.deny ⊆ p.deny)
    (h : p.evaluate path = .allow) : q.evaluate path = .allow := by
  obtain ⟨hnone, hsome⟩ := evaluate_eq_allow_iff_matches.1 h
  apply evaluate_eq_allow_iff_matches.2
  constructor
  · intro hmatches
    exact hnone (hmatches.mono hdeny)
  · exact hsome.mono hallow

/-! ### Repetitions -/

theorem distinctFrom_eq_eraseDups (seen rules : List String) :
    distinctFrom seen rules = (rules.filter fun r => !seen.contains r).eraseDups := by
  induction rules generalizing seen with
  | nil => rfl
  | cons r rules ih =>
      rw [distinctFrom, List.filter_cons]
      by_cases hr : r ∈ seen
      · have hskip : (!seen.contains r) = false := by simp [hr]
        rw [if_pos hr, ih, hskip]
        rfl
      · have hkeep : (!seen.contains r) = true := by simp [hr]
        rw [if_neg hr, ih, hkeep, if_pos rfl, List.eraseDups_cons, List.filter_filter]
        -- the rest is searched for what is new besides the rule at hand
        have hrest : (rules.filter fun s => !(r :: seen).contains s) =
            rules.filter fun s => !s == r && !seen.contains s := by
          apply List.filter_congr
          intro s _
          rw [List.contains_cons, Bool.not_or]
        rw [hrest]

/-- Of a repeated rule the first one stays, and the order is kept. -/
theorem distinct_eq_eraseDups (rules : List String) : distinct rules = rules.eraseDups := by
  unfold distinct
  rw [distinctFrom_eq_eraseDups]
  simp

end Policy

/-! ### Through the store -/

namespace Service

variable {s : Service} {l : Layout} {caller : Identity} {enclave name : String}

/-- A policy that was created without an error is stored without its repetitions. -/
theorem stored_of_createPolicy {σ : Type} [Mishaps σ] {c : Context} {w : World σ}
    {p : Policy} {reply : Reply} (hover : s.Over l)
    (hok : ((s.perform caller enclave (.createPolicy name p)).attempt.run c w).1 = .ok reply) :
    ValidName name ∧ ∃ time,
      ((s.perform caller enclave (.createPolicy name p)).attempt.run c w).2.backend.stored?
        (l.space .policy (s.enclaveName enclave) ++ name) =
          some (Record.encode (Enclave.storedPolicy p time caller)) := by
  refine of_perform_ok (e := s.enclaveName enclave) hover rfl (fun b => ValidName name ∧ ∃ time,
    b.stored? (l.space .policy (s.enclaveName enclave) ++ name) =
      some (Record.encode (Enclave.storedPolicy p time caller))) hok ?_
  intro w₁ _ _ _ hbody
  refine Routine.of_bind_ok (fun v => ValidName name ∧ ∃ time,
    v.backend.stored? (l.space .policy (s.enclaveName enclave) ++ name) =
      some (Record.encode (Enclave.storedPolicy p time caller))) hbody ?_
  intro info hset _
  exact Enclave.stored_of_setPolicy hset

/-- An identity has the policy that it was given in items that all succeeded. -/
theorem assigned_of_assignPolicy {σ : Type} [Mishaps σ] {c : Context} {w : World σ}
    {identities : List Identity} {outcomes : List Outcome} {i : Identity} (hover : s.Over l)
    (hok : ((s.perform caller enclave (.assignPolicy name identities)).attempt.run c w).1 =
      .ok (.outcomes outcomes))
    (hi : i ∈ identities)
    (hdone : ∀ x ∈ identities.zip outcomes, x.1 = i → x.2.result = .ok ()) :
    s.authorizer.isAdmin i = false ∧ i.Valid ∧ ∃ time,
      ((s.perform caller enclave (.assignPolicy name identities)).attempt.run c
        w).2.backend.stored? (l.space .assignment (s.enclaveName enclave) ++ i.text) =
          some (Record.encode (⟨name, time, caller⟩ : Assignment)) := by
  refine of_perform_ok (e := s.enclaveName enclave) hover rfl
    (fun b => s.authorizer.isAdmin i = false ∧ i.Valid ∧ ∃ time,
      b.stored? (l.space .assignment (s.enclaveName enclave) ++ i.text) =
      some (Record.encode (⟨name, time, caller⟩ : Assignment))) hok ?_
  intro w₁ _ _ _ hbody
  have heach : (s.body caller (l.handle (s.enclaveName enclave))
      (.assignPolicy name identities)).attempt.run c w₁ =
        (.ok (.outcomes
          ((s.assignEach (l.handle (s.enclaveName enclave)) caller name identities).run c w₁).1),
          ((s.assignEach (l.handle (s.enclaveName enclave)) caller name identities).run c
            w₁).2) := by
    dsimp only [body]
    rw [Routine.lift_bind, Program.run_bind]
    rfl
  rw [heach] at hbody ⊢
  obtain rfl : _ = outcomes := Reply.outcomes.inj (Except.ok.inj hbody)
  exact assigned_of_assignEach hi hdone

/-- **The meaning of a policy is kept.**  A policy without empty rules allows exactly what some
allow rule and no deny rule has in its language.  Order and repetitions of rules do not
matter, more deny rules never allow and more allow rules never deny.  If a call that creates
the policy reports success, whatever went wrong meanwhile, then its rules are stored in their
order without later repetitions.  If it is then given to an identity, and the call reports
that this was done, then as long as the two records stay, every decision for this identity
is the one of the policy that was submitted. -/
theorem policy_meaning_preserved {settings : Settings} (hmade : ofSettings settings = .ok s)
    {p : Policy} (hchecked : p.check = .ok ()) :
    let l : Layout := ⟨settings.keyPrefix⟩
    (∀ path, p.evaluate path = .allow ↔
      ¬ Policy.Matches p.deny path ∧ Policy.Matches p.allow path) ∧
    (∀ q : Policy, (∀ r, r ∈ q.allow ↔ r ∈ p.allow) → (∀ r, r ∈ q.deny ↔ r ∈ p.deny) →
      ∀ path, q.evaluate path = p.evaluate path) ∧
    (∀ rules path, p.deny ⊆ rules → p.evaluate path = .deny →
      { p with deny := rules }.evaluate path = .deny) ∧
    (∀ rules path, p.allow ⊆ rules → p.evaluate path = .allow →
      { p with allow := rules }.evaluate path = .allow) ∧
    ∀ {σ : Type} [Mishaps σ] (w w₁ : World σ) (c : Context) (caller : Identity)
      (enclave name : String) (reply : Reply),
      (s.perform caller enclave (.createPolicy name p)).attempt.run c w = (.ok reply, w₁) →
      let policyAt := l.policies (s.enclaveName enclave) ++ name
      (∃ q : Policy, w₁.backend.record? policyAt = some q ∧ q.check = .ok () ∧
        q.allow = p.allow.eraseDups ∧ q.deny = p.deny.eraseDups) ∧
      ∀ {τ : Type} [Mishaps τ] (v v₁ : World τ) (c₁ : Context) (assigner : Identity)
        (enclave' : String) (identities : List Identity) (outcomes : List Outcome),
        s.enclaveName enclave' = s.enclaveName enclave →
        (s.perform assigner enclave' (.assignPolicy name identities)).attempt.run c₁ v =
          (.ok (.outcomes outcomes), v₁) →
        ∀ i ∈ identities, (∀ x ∈ identities.zip outcomes, x.1 = i → x.2.result = .ok ()) →
          let assignmentAt := l.identities (s.enclaveName enclave) ++ i.text
          ∀ (u : World Unit) (c₂ : Context) (handle : Enclave), u.ended c₂ = false →
            s.registry.handle (s.enclaveName enclave) = .ok handle →
            u.backend.stored? policyAt = w₁.backend.stored? policyAt →
            u.backend.stored? assignmentAt = v₁.backend.stored? assignmentAt →
            ∀ path, (s.authorizer.decide handle i path).attempt.run c₂ u =
              (.ok (p.evaluate path), u) := by
  intro l
  have hover := over_of_ofSettings hmade
  refine ⟨fun path => Policy.evaluate_eq_allow_iff_matches,
    fun q hallow hdeny path => Policy.evaluate_congr hallow hdeny path, ?_, ?_, ?_⟩
  · intro rules path hrules hdenied
    rw [Policy.evaluate_eq_deny_iff] at hdenied ⊢
    intro hallowed
    have hbefore : p.evaluate path = .allow :=
      Policy.evaluate_eq_allow_of_subset (p := { p with deny := rules }) (fun _ => id) hrules
        hallowed
    exact hdenied hbefore
  · intro rules path hrules hallowed
    exact Policy.evaluate_eq_allow_of_subset hrules (fun _ => id) hallowed
  intro σ _ w w₁ c caller enclave name reply hcreated policyAt
  have hset := stored_of_createPolicy hover (congrArg Prod.fst hcreated)
  rw [hcreated] at hset
  obtain ⟨hname, time, hstored⟩ := hset
  have hclean := Enclave.clean_storedPolicy hchecked time caller
  refine ⟨⟨Enclave.storedPolicy p time caller, ?_, ?_, ?_, ?_⟩, ?_⟩
  · exact Backend.record?_eq_some_iff.2 ⟨_, hstored, Record.decode?_encode _⟩
  · simp [Policy.check, hclean.allow_nonempty, hclean.deny_nonempty]
  · exact Policy.distinct_eq_eraseDups p.allow
  · exact Policy.distinct_eq_eraseDups p.deny
  intro τ _ v v₁ c₁ assigner enclave' identities outcomes hsame hassigned i hi hdone
    assignmentAt u c₂ handle hlive hhandle hpolicy hassignment path
  have hgiven := assigned_of_assignPolicy hover (congrArg Prod.fst hassigned) hi hdone
  rw [hassigned, hsame] at hgiven
  obtain ⟨hadmin, hvalid, time', hheld⟩ := hgiven
  obtain ⟨-, rfl⟩ := hover.handle_eq_ok_iff.1 hhandle
  have hasg : u.backend.record? (l.space .assignment (s.enclaveName enclave) ++ i.text) =
      some (⟨name, time', assigner⟩ : Assignment) :=
    Backend.record?_eq_some_iff.2 ⟨_, hassignment.trans hheld, Record.decode?_encode _⟩
  have hpol : u.backend.record? (l.space .policy (s.enclaveName enclave) ++ name) =
      some (Enclave.storedPolicy p time caller) :=
    Backend.record?_eq_some_iff.2 ⟨_, hpolicy.trans hstored, Record.decode?_encode _⟩
  have hdecided :=
    s.authorizer.run_decide_of_records hlive hadmin hvalid hasg hname hpol path
  have hmeaning : (Enclave.storedPolicy p time caller).evaluate path = p.evaluate path :=
    Policy.evaluate_normalize p path
  rw [hdecided, hmeaning]

/-- A policy with a rule that is written twice, given to two identities of which one is the
admin and refused. -/
theorem policy_meaning_preserved_repeated :
    let s : Service := ⟨Layout.catalog ⟨""⟩, .ofAdmin (some ⟨"root"⟩), "default", 30⟩
    let c := Context.ofToken []
    let registration : Registration := ⟨(World.calm (.memory .empty)).clock 0, ⟨"root"⟩⟩
    let w := World.calm
      (.memory (Table.empty.insert "sys/enclaves/default" (Record.encode registration)))
    let p : Policy :=
      .ofRules ["/v1/key/*", "/v1/status", "/v1/key/*"] ["/v1/key/delete/*", "/v1/key/delete/*"]
    let policyAt := Layout.policies ⟨""⟩ "default" ++ "p"
    let created := (s.perform ⟨"root"⟩ "default" (.createPolicy "p" p)).attempt.run c w
    let assigned :=
      (s.perform ⟨"root"⟩ "" (.assignPolicy "p" [⟨"root"⟩, ⟨"ann"⟩])).attempt.run c created.2
    let decided (path : String) :=
      (s.authorizer.decide (Layout.handle ⟨""⟩ "default") ⟨"ann"⟩ path).attempt.run c assigned.2
    ofSettings { Settings.default with admin := some ⟨"root"⟩ } = .ok s ∧ p.check = .ok () ∧
      created.1 = .ok (.policyInfo ⟨"p", some (w.clock 0), ⟨"root"⟩⟩) ∧
      assigned.1 = .ok (.outcomes
        [⟨"root", .error (.invalid .assignToAdmin)⟩, ⟨"ann", .ok ()⟩]) ∧
      (∃ q : Policy, created.2.backend.record? policyAt = some q ∧
        q.allow = ["/v1/key/*", "/v1/status"] ∧ q.deny = ["/v1/key/delete/*"]) ∧
      (decided "/v1/key/get/k").1 = .ok .allow ∧ (decided "/v1/key/delete/k").1 = .ok .deny := by
  intro s c registration w p policyAt created assigned decided
  have hmade : ofSettings { Settings.default with admin := some ⟨"root"⟩ } = .ok s := rfl
  have hchecked : p.check = .ok () := by decide
  have hcreated : created.1 = .ok (.policyInfo ⟨"p", some (w.clock 0), ⟨"root"⟩⟩) := by
    decide +kernel
  have hassigned : assigned.1 = .ok (.outcomes
      [⟨"root", .error (.invalid .assignToAdmin)⟩, ⟨"ann", .ok ()⟩]) := by
    decide +kernel
  have hlive : assigned.2.ended c = false := by decide +kernel
  have hstays : assigned.2.backend.stored? policyAt = created.2.backend.stored? policyAt := by
    decide +kernel
  have hhandle : s.registry.handle "default" = .ok (Layout.handle ⟨""⟩ "default") :=
    (over_of_ofSettings hmade).handle_eq_ok_iff.2
      ⟨(over_of_ofSettings hmade).validDefault, rfl⟩
  obtain ⟨-, -, -, -, hstorage⟩ := policy_meaning_preserved hmade hchecked
  obtain ⟨⟨q, hq, -, hallow, hdeny⟩, hdecides⟩ :=
    hstorage w created.2 c ⟨"root"⟩ "default" "p" _ (Prod.ext hcreated rfl)
  have hdecided (path : String) : (decided path).1 = .ok (p.evaluate path) :=
    congrArg Prod.fst (hdecides created.2 assigned.2 c ⟨"root"⟩ "" [⟨"root"⟩, ⟨"ann"⟩] _ rfl
      (Prod.ext hassigned rfl) ⟨"ann"⟩ (by decide) (by decide) assigned.2 c _ hlive hhandle
      hstays rfl path)
  refine ⟨hmade, hchecked, hcreated, hassigned, ⟨q, hq, hallow, hdeny⟩, ?_, ?_⟩
  · rw [hdecided]
    decide
  · rw [hdecided]
    decide

end Service

end KeyCustody
