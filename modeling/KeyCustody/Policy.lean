import KeyCustody.Glob
import KeyCustody.Identity
import KeyCustody.Time.Timestamp

/-!
# Policies

A policy is a pair of rule lists.  Each rule is a glob over request paths.  A deny rule
that matches a path denies it; otherwise an allow rule that matches allows it; otherwise
it is denied.  Main statements:

* `evaluate_eq_allow_iff` — allowed is what some allow rule matches and no deny rule;
* `evaluate_normalize` — dropping repeated rules changes no decision.
-/

namespace KeyCustody

/-- The outcome of a request path under a policy. -/
inductive Decision where
  | allow
  | deny
deriving DecidableEq, Repr

namespace Decision

def isAllowed (d : Decision) : Bool := d == .allow

/-- The name of a decision in messages and records. -/
def name : Decision → String
  | .allow => "allow"
  | .deny => "deny"

/-- The decision of a name. -/
def ofName? (s : String) : Option Decision :=
  [Decision.allow, .deny].find? fun d => d.name == s

theorem ofName?_name (d : Decision) : ofName? d.name = some d := by
  cases d <;> decide

end Decision

/-- The rules as stored, with who set them and when. -/
structure Policy where
  allow : List String
  deny : List String
  createdAt : Option Timestamp
  /-- Unknown if the creator could not be identified. -/
  createdBy : Identity
deriving DecidableEq

/-- What is known of a policy besides its rules. -/
structure PolicyInfo where
  name : String
  createdAt : Option Timestamp
  createdBy : Identity
deriving DecidableEq

namespace Policy

/-- A policy with these rules, set by nobody yet. -/
def ofRules (allow deny : List String) : Policy :=
  ⟨allow, deny, none, .unknown⟩

/-- Refuses an empty rule; the allow rules are looked at first. -/
def check (p : Policy) : Except Error Unit :=
  if p.allow.contains "" then .error (.invalid (.emptyRule "allow"))
  else if p.deny.contains "" then .error (.invalid (.emptyRule "deny"))
  else .ok ()

/-- The rules without those in `seen`, each kept where it first stands. -/
def distinctFrom (seen : List String) : List String → List String
  | [] => []
  | r :: rs => if r ∈ seen then distinctFrom seen rs else r :: distinctFrom (r :: seen) rs

/-- The rules, each where it first stands. -/
def distinct (rules : List String) : List String :=
  distinctFrom [] rules

/-- The policy without repeated rules. -/
def normalize (p : Policy) : Policy :=
  { p with allow := distinct p.allow, deny := distinct p.deny }

/-- Some rule of the list matches the path. -/
def covers (rules : List String) (path : String) : Bool :=
  rules.any fun r => Glob.accepts r path

/-- The decision on a request path. -/
def evaluate (p : Policy) (path : String) : Decision :=
  if covers p.deny path then .deny
  else if covers p.allow path then .allow
  else .deny

/-- What is known of the policy besides its rules, under its name. -/
def info (p : Policy) (name : String) : PolicyInfo :=
  ⟨name, p.createdAt, p.createdBy⟩

theorem mem_distinctFrom {seen rules : List String} {r : String} :
    r ∈ distinctFrom seen rules ↔ r ∈ rules ∧ r ∉ seen := by
  induction rules generalizing seen with
  | nil => simp [distinctFrom]
  | cons s rules ih =>
    rw [distinctFrom]
    by_cases hs : s ∈ seen
    · rw [if_pos hs, ih]
      grind
    · rw [if_neg hs, List.mem_cons, ih]
      grind

/-- Dropping repetitions keeps exactly the rules there are. -/
theorem mem_distinct {rules : List String} {r : String} : r ∈ distinct rules ↔ r ∈ rules := by
  simp [distinct, mem_distinctFrom]

/-- No rule is left twice. -/
theorem nodup_distinct (rules : List String) : (distinct rules).Nodup := by
  have h : ∀ seen, (distinctFrom seen rules).Nodup := by
    induction rules with
    | nil => intro _; exact List.nodup_nil
    | cons s rules ih =>
      intro seen
      rw [distinctFrom]
      split
      · exact ih seen
      · refine List.nodup_cons.2 ⟨?_, ih _⟩
        rw [mem_distinctFrom]
        simp
  exact h []

theorem covers_iff {rules : List String} {path : String} :
    covers rules path = true ↔ ∃ r ∈ rules, Glob.accepts r path = true := by
  simp [covers]

/-- What a list of rules covers depends only on which rules are in it. -/
theorem covers_congr {rules rules' : List String} (h : ∀ r, r ∈ rules ↔ r ∈ rules')
    (path : String) : covers rules path = covers rules' path := by
  rw [Bool.eq_iff_iff, covers_iff, covers_iff]
  simp [h]

/-- Allowed is what some allow rule matches and no deny rule. -/
theorem evaluate_eq_allow_iff {p : Policy} {path : String} :
    p.evaluate path = .allow ↔ covers p.deny path = false ∧ covers p.allow path = true := by
  unfold evaluate
  cases covers p.deny path <;> cases covers p.allow path <;> simp

/-- Dropping repeated rules changes no decision. -/
theorem evaluate_normalize (p : Policy) (path : String) :
    p.normalize.evaluate path = p.evaluate path := by
  have h (rules : List String) : covers (distinct rules) path = covers rules path :=
    covers_congr (fun _ => mem_distinct) path
  simp only [evaluate, normalize, h]

end Policy

end KeyCustody
