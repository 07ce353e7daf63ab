import KeyCustody.Operation
import KeyCustody.Proofs.PolicyMeaning

/-!
# Exact rules

A request path is a stem, which tells the kind of the operation, with the argument behind it.
The argument is whatever the caller wrote, slashes and other paths included.  A path is read
back all the same: no stem starts another one, so the front of a path settles the kind, and
what is left is the argument.  Two operations share a path only if they are the same, but for
the empty list pattern, which means a star and is spelled as one.

A rule without a star or a question mark is in its own language and nothing else is, brackets
and all.  So a policy that is written with paths of operations names exactly those operations.
Main statements:

* `Operation.path_eq_iff`: a path is the path of one operation;
* `Policy.covers_paths_iff`: rules that are paths cover the operations they are written for;
* `Operation.exact_rule_names_one`: one exact rule allows one operation, or takes one away.
-/

namespace KeyCustody

namespace Operation

/-! ### Paths -/

/-- The operation with the empty list pattern spelled as the star that it means. -/
def spelled : Operation → Operation
  | .listKeys pattern => .listKeys (Glob.orAll pattern)
  | .listPolicies pattern => .listPolicies (Glob.orAll pattern)
  | .listIdentities pattern => .listIdentities (Glob.orAll pattern)
  | .listEnclaves pattern => .listEnclaves (Glob.orAll pattern)
  | a => a

/-- The front of the path, which tells the kind of the operation. -/
def stem : Operation → String
  | .createKey _ => "/v1/key/create/"
  | .getKey _ => "/v1/key/get/"
  | .describeKey _ => "/v1/key/describe/"
  | .deleteKey _ => "/v1/key/delete/"
  | .listKeys _ => "/v1/key/list/"
  | .createPolicy _ => "/v1/policy/create/"
  | .assignPolicy _ => "/v1/policy/assign/"
  | .describePolicy _ => "/v1/policy/describe/"
  | .readPolicy _ => "/v1/policy/read/"
  | .deletePolicy _ => "/v1/policy/delete/"
  | .listPolicies _ => "/v1/policy/list/"
  | .describeIdentity _ => "/v1/identity/describe/"
  | .deleteIdentity _ => "/v1/identity/delete/"
  | .listIdentities _ => "/v1/identity/list/"
  | .createEnclave _ => "/v1/enclave/create/"
  | .describeEnclave _ => "/v1/enclave/describe/"
  | .deleteEnclave _ => "/v1/enclave/delete/"
  | .listEnclaves _ => "/v1/enclave/list/"
  | .status => "/v1/status"

/-- The rest of the path, as the caller wrote it, or the star that it means. -/
def argument : Operation → String
  | .createKey name | .getKey name | .describeKey name | .deleteKey name => name
  | .createPolicy name | .assignPolicy name | .describePolicy name => name
  | .readPolicy name | .deletePolicy name => name
  | .describeIdentity identity | .deleteIdentity identity => identity.text
  | .createEnclave name | .describeEnclave name | .deleteEnclave name => name
  | .listKeys pattern | .listPolicies pattern => Glob.orAll pattern
  | .listIdentities pattern | .listEnclaves pattern => Glob.orAll pattern
  | .status => ""

/-- What each stem makes of an argument. -/
def kinds : List (String × (String → Operation)) :=
  [("/v1/key/create/", .createKey),
    ("/v1/key/get/", .getKey),
    ("/v1/key/describe/", .describeKey),
    ("/v1/key/delete/", .deleteKey),
    ("/v1/key/list/", .listKeys),
    ("/v1/policy/create/", .createPolicy),
    ("/v1/policy/assign/", .assignPolicy),
    ("/v1/policy/describe/", .describePolicy),
    ("/v1/policy/read/", .readPolicy),
    ("/v1/policy/delete/", .deletePolicy),
    ("/v1/policy/list/", .listPolicies),
    ("/v1/identity/describe/", fun text => .describeIdentity ⟨text⟩),
    ("/v1/identity/delete/", fun text => .deleteIdentity ⟨text⟩),
    ("/v1/identity/list/", .listIdentities),
    ("/v1/enclave/create/", .createEnclave),
    ("/v1/enclave/describe/", .describeEnclave),
    ("/v1/enclave/delete/", .deleteEnclave),
    ("/v1/enclave/list/", .listEnclaves),
    ("/v1/status", fun _ => .status)]

/-- The operation that has this stem and this argument. -/
def read (stem argument : String) : Option Operation :=
  (kinds.lookup stem).map fun make => make argument

theorem path_eq_append (a : Operation) : a.path = a.stem ++ a.argument := by
  cases a <;> simp [path, stem, argument, String.join]

/-- The two parts of a path give the operation back, as it is spelled. -/
theorem read_stem_argument (a : Operation) : read a.stem a.argument = some a.spelled := by
  cases a <;> rfl

theorem stem_mem_kinds (a : Operation) : a.stem ∈ kinds.map Prod.fst := by
  cases a <;> simp [stem, kinds]

/-- No stem starts another one. -/
theorem stem_eq_of_starts {a b : Operation} (h : a.stem.toList <+: b.stem.toList) :
    a.stem = b.stem := by
  have apart : ∀ s ∈ kinds.map Prod.fst, ∀ t ∈ kinds.map Prod.fst,
      s.toList <+: t.toList → s = t := by
    decide +kernel
  exact apart _ a.stem_mem_kinds _ b.stem_mem_kinds h

theorem path_spelled (a : Operation) : a.spelled.path = a.path := by
  have hagain (pattern : String) : Glob.orAll (Glob.orAll pattern) = Glob.orAll pattern := by
    unfold Glob.orAll
    split <;> simp_all
  cases a <;> simp only [spelled, path, hagain]

/-- **A path is the path of one operation.**  Whatever the arguments are, two operations with
one path are the same, the empty list pattern counting as a star. -/
theorem path_eq_iff {a b : Operation} : a.path = b.path ↔ a.spelled = b.spelled := by
  constructor
  · intro h
    have hparts : a.stem.toList ++ a.argument.toList = b.stem.toList ++ b.argument.toList := by
      rw [path_eq_append, path_eq_append] at h
      simpa using congrArg String.toList h
    -- of two fronts of one path the shorter one starts the longer one
    have hstem : a.stem = b.stem := by
      rcases List.prefix_or_prefix_of_prefix (List.prefix_append _ _)
        (hparts ▸ List.prefix_append _ _) with hba | hab
      · exact (stem_eq_of_starts hba).symm
      · exact stem_eq_of_starts hab
    have hargument : a.argument = b.argument := by
      rw [hstem] at hparts
      exact String.toList_injective (List.append_cancel_left hparts)
    have hread : some a.spelled = some b.spelled := by
      rw [← read_stem_argument, ← read_stem_argument, hstem, hargument]
    exact Option.some.inj hread
  · intro h
    rw [← path_spelled a, ← path_spelled b, h]

/-- A path is never empty, so as a rule it is not taken for a star. -/
theorem path_ne_empty (a : Operation) : a.path ≠ "" := by
  rw [path_eq_append]
  cases a <;> simp [stem]

end Operation

/-! ### Rules without wildcards -/

namespace Glob

/-- The text has no star and no question mark, so that a pattern of this text has nothing to
choose. -/
def Exact (pattern : String) : Prop :=
  ∀ c ∈ pattern.toList, c ≠ '*' ∧ c ≠ '?'

instance (pattern : String) : Decidable (Exact pattern) :=
  List.decidableBAll (fun c => c ≠ '*' ∧ c ≠ '?') pattern.toList

/-- Characters that stand for themselves accept themselves only. -/
theorem accepts_map_char_iff {ds cs : List Char} : Accepts (ds.map Token.char) cs ↔ cs = ds := by
  induction ds generalizing cs with
  | nil =>
      constructor
      · rintro ⟨⟩
        rfl
      · rintro rfl
        exact .nil
  | cons d ds ih =>
      simp only [List.map_cons, accepts_char_iff, ih]
      constructor
      · rintro ⟨_, rfl, rfl⟩
        rfl
      · rintro rfl
        exact ⟨_, rfl, rfl⟩

/-- A pattern without wildcards accepts itself only, brackets and all. -/
theorem Exact.accepts_iff {pattern name : String} (hexact : Exact pattern) (hne : pattern ≠ "") :
    accepts pattern name = true ↔ name = pattern := by
  have htokens : (orAll pattern).toList.map Token.ofChar = pattern.toList.map Token.char := by
    have hself : orAll pattern = pattern := by
      unfold orAll
      rw [if_neg (by simpa using hne)]
    rw [hself, List.map_inj_left]
    intro c hc
    obtain ⟨hstar, hone⟩ := hexact c hc
    simp [Token.ofChar, hstar, hone]
  rw [accepts_iff_written, htokens, accepts_map_char_iff, String.toList_inj]

end Glob

namespace Policy

/-- **Rules that are paths** cover the operations that they are written for, and no others. -/
theorem covers_paths_iff {as : List Operation} (hexact : ∀ a ∈ as, Glob.Exact a.path)
    (b : Operation) :
    covers (as.map Operation.path) b.path = true ↔ b.spelled ∈ as.map Operation.spelled := by
  simp only [covers_iff, List.mem_map, exists_exists_and_eq_and]
  refine exists_congr fun a => and_congr_right fun ha => ?_
  rw [(hexact a ha).accepts_iff a.path_ne_empty, Operation.path_eq_iff, eq_comm]

/-- A star covers every path. -/
theorem covers_star (path : String) : covers ["*"] path = true := by
  have haccepts : Glob.accepts ("" ++ "*") ("" ++ path) = true := Glob.accepts_all rfl path
  rw [covers_iff]
  exact ⟨"*", List.mem_singleton_self _, by simpa using haccepts⟩

/-- Policies of exact rules, decided: what is written in the allow rules and not in the deny
rules. -/
theorem evaluate_paths_iff (p : Policy) {as ds : List Operation}
    (hallow : ∀ a ∈ as, Glob.Exact a.path) (hdeny : ∀ d ∈ ds, Glob.Exact d.path)
    (b : Operation) :
    ({ p with
        allow := as.map Operation.path
        deny := ds.map Operation.path } : Policy).evaluate b.path = .allow ↔
      b.spelled ∉ ds.map Operation.spelled ∧ b.spelled ∈ as.map Operation.spelled := by
  rw [evaluate_eq_allow_iff, ← Bool.not_eq_true, covers_paths_iff hallow, covers_paths_iff hdeny]

/-- An allowed star leaves all that is not denied. -/
theorem evaluate_all_but_iff (p : Policy) {ds : List Operation}
    (hdeny : ∀ d ∈ ds, Glob.Exact d.path) (b : Operation) :
    ({ p with allow := ["*"], deny := ds.map Operation.path } : Policy).evaluate b.path = .deny ↔
      b.spelled ∈ ds.map Operation.spelled := by
  rw [evaluate_eq_deny_iff, ne_eq, evaluate_eq_allow_iff, ← Bool.not_eq_true,
    covers_paths_iff hdeny]
  simp [covers_star]

end Policy

/-- **An exact rule names one operation.**  Operations with arbitrary arguments share a path
only if they are the same, the empty list pattern counting as a star.  For an operation whose
path has no star and no question mark, the policy with this path as its only rule allows this
operation and nothing else; and the policy that allows everything and denies this path denies
this operation and nothing else. -/
theorem Operation.exact_rule_names_one :
    (∀ a b : Operation, a.path = b.path ↔ a.spelled = b.spelled) ∧
      ∀ a : Operation, Glob.Exact a.path → ∀ (p : Policy) (b : Operation),
        (({ p with allow := [a.path], deny := [] } : Policy).evaluate b.path = .allow ↔
          b.spelled = a.spelled) ∧
        (({ p with allow := ["*"], deny := [a.path] } : Policy).evaluate b.path = .deny ↔
          b.spelled = a.spelled) := by
  refine ⟨fun a b => path_eq_iff, fun a hexact p b => ?_⟩
  have hrules : ∀ a' ∈ [a], Glob.Exact a'.path := by simpa using hexact
  constructor
  · have hnone : ∀ d ∈ ([] : List Operation), Glob.Exact d.path := List.forall_mem_nil _
    simpa using p.evaluate_paths_iff hrules hnone b
  · simpa using p.evaluate_all_but_iff hrules b

/-- A key whose name spells the removal of another key: the rule for reading it lets nobody
remove anything. -/
theorem Operation.exact_rule_names_one_slashes :
    Glob.Exact (Operation.getKey "[a]/../v1/key/delete/a").path ∧
      (({ allow := [(Operation.getKey "[a]/../v1/key/delete/a").path], deny := [],
          createdAt := none, createdBy := .unknown } : Policy).evaluate
        (Operation.deleteKey "a").path = .allow ↔
          (Operation.deleteKey "a").spelled =
            (Operation.getKey "[a]/../v1/key/delete/a").spelled) := by
  have hexact : Glob.Exact (Operation.getKey "[a]/../v1/key/delete/a").path := by
    decide +kernel
  exact ⟨hexact, (exact_rule_names_one.2 _ hexact (.ofRules [] []) (.deleteKey "a")).1⟩

end KeyCustody
