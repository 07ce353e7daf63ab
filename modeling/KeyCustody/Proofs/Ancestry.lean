import KeyCustody.Forest
import KeyCustody.Service
import Mathlib.Logic.Relation

/-!
# Ancestry of contexts

When a context has ended can be told from how the contexts came about, without a look at their
tokens: it was canceled itself, or through a context that shares its token or the token of a
context from which it descends, or the earliest of the deadlines on its way has come.

Tokens carry this.  A token is as long as the way from its first ancestor, and it starts with a
number that no earlier token has.  So one token is a suffix of another one just if some context
with the first token is an ancestor of the contexts with the second.  Main statements:

* `Forest.Grown`: how the tokens and deadlines of a forest tell how it came about, step by step;
* `Forest.exists_shares_of_suffix`: a token that ends with another one descends from it;
* `Forest.cancellationTree`: when contexts have ended, and what a step does to them.
-/

namespace KeyCustody

/-! ### Moments in order -/

namespace Instant

theorem before_iff {a b : Instant} :
    a.before b = true ↔ a.seconds < b.seconds ∨ a.seconds = b.seconds ∧ a.nanos < b.nanos := by
  simp [before]

theorem not_before_iff {a b : Instant} :
    a.before b = false ↔ b.seconds < a.seconds ∨ a.seconds = b.seconds ∧ b.nanos ≤ a.nanos := by
  rw [← Bool.not_eq_true, before_iff]
  omega

theorem not_before_self (a : Instant) : a.before a = false :=
  not_before_iff.2 (by omega)

/-- A moment that is not before a second one, which is not before a third, is not before the
third. -/
theorem not_before_trans {a b c : Instant} (hab : b.before a = false)
    (hbc : c.before b = false) : c.before a = false := by
  rw [not_before_iff] at *
  omega

theorem not_before_of_before {a b : Instant} (h : a.before b = true) : b.before a = false := by
  rw [before_iff] at h
  rw [not_before_iff]
  omega

/-- Moments neither of which is before the other are the same. -/
theorem eq_of_not_before {a b : Instant} (hab : a.before b = false) (hba : b.before a = false) :
    a = b := by
  rw [not_before_iff] at hab hba
  have hseconds : a.seconds = b.seconds := by omega
  have hnanos : a.nanos = b.nanos := by omega
  cases a
  cases b
  exact congrArg₂ mk hseconds hnanos

/-- A span of whole seconds leaves the nanoseconds as they are. -/
theorem plus?_ofSeconds {t : Instant} (ht : t.nanos < 1000000000) (seconds : Nat) :
    t.plus? (.ofSeconds seconds) = t.after? seconds := by
  unfold plus?
  simp only [Span.ofSeconds, Nat.add_zero]
  cases hshown : t.after? seconds with
  | none => rfl
  | some t' =>
      have hsame : t'.nanos = t.nanos := by
        unfold after? at hshown
        split at hshown
        · rw [← Option.some.inj hshown]
        · cases hshown
      have hnanos : t'.nanos < 1000000000 := hsame ▸ ht
      simp [hnanos]

end Instant

/-! ### Deadlines -/

namespace Context

/-- A context with a deadline has the token that it had. -/
@[simp] theorem token_withDeadline (c : Context) (d : Instant) :
    (c.withDeadline d).token = c.token := by
  unfold withDeadline
  split
  · split <;> rfl
  · rfl

/-- The deadline that is set, unless the one before is earlier. -/
theorem deadline_withDeadline (c : Context) (d : Instant) :
    (c.withDeadline d).deadline =
      some (match c.deadline with
        | some own => if own.before d then own else d
        | none => d) := by
  unfold withDeadline
  cases hown : c.deadline with
  | none => rfl
  | some own =>
      dsimp only
      split
      · exact hown
      · rfl

/-- A deadline that has come stays so. -/
theorem isPast_of_not_before {c : Context} {now now' : Instant}
    (h : now'.before now = false) (hpast : c.isPast now = true) : c.isPast now' = true := by
  unfold isPast at hpast ⊢
  cases hd : c.deadline with
  | none => simp [hd] at hpast
  | some d =>
      simp only [hd, Bool.not_eq_true'] at hpast ⊢
      exact Instant.not_before_trans hpast h

theorem isPast_iff {c : Context} {now : Instant} :
    c.isPast now = true ↔ ∃ d, c.deadline = some d ∧ now.before d = false := by
  unfold isPast
  cases c.deadline <;> simp

end Context

/-! ### How contexts come about -/

namespace ContextStep

/-- The step makes a context. -/
def makes : ContextStep → Bool
  | .cancel _ => false
  | _ => true

/-- The context from which one is made. -/
def source? : ContextStep → Option Nat
  | .background | .cancel _ => none
  | .child i | .clone i | .ofToken i | .withDeadline i _ | .withTimeout i _ _ => some i

/-- The context whose token the new one gets. -/
def original? : ContextStep → Option Nat
  | .background | .cancel _ | .child _ => none
  | .clone i | .ofToken i | .withDeadline i _ | .withTimeout i _ _ => some i

/-- The context whose deadline the new one gets. -/
def bounded? : ContextStep → Option Nat
  | .background | .cancel _ | .ofToken _ => none
  | .child i | .clone i | .withDeadline i _ | .withTimeout i _ _ => some i

/-- The deadline that is set. -/
def limit? : ContextStep → Option Instant
  | .withDeadline _ d => some d
  | .withTimeout _ now span => now.plus? span
  | _ => none

end ContextStep

open ContextStep

section

variable (steps : List ContextStep)

/-- The context of this number was made by this step. -/
def MadeBy (k : Nat) (s : ContextStep) : Prop :=
  (steps.filter makes)[k]? = some s

/-- The context was made from the other one. -/
def MadeFrom (k j : Nat) : Prop :=
  ∃ s, MadeBy steps k s ∧ s.source? = some j

/-- The context was made from the other one and got its token. -/
def Copies (k j : Nat) : Prop :=
  ∃ s, MadeBy steps k s ∧ s.original? = some j

/-- The context is the other one, or was made from it over some contexts in between. -/
def Descends : Nat → Nat → Prop :=
  Relation.ReflTransGen (MadeFrom steps)

/-- The contexts have one token: both are copies of one context, over some in between. -/
def SharesToken : Nat → Nat → Prop :=
  Relation.Join (Relation.ReflTransGen (Copies steps))

/-- Canceling the first context cancels the second: they share the token, or the first shares
the token of an ancestor of the second. -/
def CancelsAlong (j k : Nat) : Prop :=
  ∃ a, Descends steps k a ∧ SharesToken steps j a

/-- The context was canceled at some time, itself or along its ancestors. -/
def WasCanceled (k : Nat) : Prop :=
  ∃ j, .cancel j ∈ steps ∧ CancelsAlong steps j k

/-- A deadline that was set on the way to the context since the token was last taken alone. -/
inductive Limit : Nat → Instant → Prop
  | set {k : Nat} {s : ContextStep} {d : Instant} (made : MadeBy steps k s)
      (sets : s.limit? = some d) : Limit k d
  | kept {k j : Nat} {s : ContextStep} {d : Instant} (made : MadeBy steps k s)
      (bounded : s.bounded? = some j) (earlier : Limit j d) : Limit k d

end

/-! ### What the steps make -/

namespace Forest

/-- The number is greater than those in the tokens of all contexts before the given one. -/
def Newer (cs : List Context) (k n : Nat) : Prop :=
  ∀ j < k, ∀ c, cs[j]? = some c → ∀ m ∈ c.token, m < n

/-- What a step makes as the context of a number, from the contexts before. -/
inductive Makes (cs : List Context) (k : Nat) : ContextStep → Context → Prop
  | background {n : Nat} (newer : Newer cs k n) : Makes cs k .background ⟨[n], none⟩
  | child {i n : Nat} {c : Context} (earlier : i < k) (source : cs[i]? = some c)
      (newer : Newer cs k n) : Makes cs k (.child i) ⟨n :: c.token, c.deadline⟩
  | clone {i : Nat} {c : Context} (earlier : i < k) (source : cs[i]? = some c) :
      Makes cs k (.clone i) c
  | ofToken {i : Nat} {c : Context} (earlier : i < k) (source : cs[i]? = some c) :
      Makes cs k (.ofToken i) (.ofToken c.token)
  | withDeadline {i : Nat} {c : Context} {d : Instant} (earlier : i < k)
      (source : cs[i]? = some c) : Makes cs k (.withDeadline i d) (c.withDeadline d)
  | withTimeout {i : Nat} {c : Context} {now d : Instant} {span : Span} (earlier : i < k)
      (source : cs[i]? = some c) (shown : now.plus? span = some d) :
      Makes cs k (.withTimeout i now span) (c.withDeadline d)

/-- **How a forest came about.** -/
structure Grown (steps : List ContextStep) (f : Forest) : Prop where
  /-- Every step that makes a context has made one. -/
  numbered : f.contexts.length = (steps.filter makes).length
  made : ∀ k s c, MadeBy steps k s → f.contexts[k]? = some c → Makes f.contexts k s c
  issued : ∀ c ∈ f.contexts, ∀ n ∈ c.token, n < f.tokens.issued
  targets : ∀ j, .cancel j ∈ steps → j < f.contexts.length
  canceled : ∀ t, t ∈ f.tokens.canceled ↔
    ∃ j c, .cancel j ∈ steps ∧ f.contexts[j]? = some c ∧ c.token = t

theorem makes_append {cs : List Context} {k : Nat} {s : ContextStep} {c : Context}
    (h : Makes cs k s c) (hk : k ≤ cs.length) (c' : Context) : Makes (cs ++ [c']) k s c := by
  have hsame {i : Nat} (hi : i < k) : (cs ++ [c'])[i]? = cs[i]? :=
    List.getElem?_append_left (by omega)
  have hnewer {n : Nat} (hn : Newer cs k n) : Newer (cs ++ [c']) k n := by
    intro j hj cj hcj
    exact hn j hj cj ((hsame hj).symm.trans hcj)
  cases h with
  | background newer => exact .background (hnewer newer)
  | child earlier source newer =>
      exact .child earlier ((hsame earlier).trans source) (hnewer newer)
  | clone earlier source => exact .clone earlier ((hsame earlier).trans source)
  | ofToken earlier source => exact .ofToken earlier ((hsame earlier).trans source)
  | withDeadline earlier source => exact .withDeadline earlier ((hsame earlier).trans source)
  | withTimeout earlier source shown =>
      exact .withTimeout earlier ((hsame earlier).trans source) shown

theorem grown_empty : Grown [] empty where
  numbered := rfl
  made k s c _ hc := by cases hc
  issued c hc := by cases hc
  targets j hj := by cases hj
  canceled t := by simp [empty, Tokens.empty]

variable {steps : List ContextStep} {f f' : Forest} {s : ContextStep}

/-- A step that makes a context. -/
theorem Grown.add (h : Grown steps f) (hs : s.makes = true) {c : Context} {ts : Tokens}
    (hmakes : Makes f.contexts f.contexts.length s c) (hts : f.tokens.issued ≤ ts.issued)
    (hissued : ∀ n ∈ c.token, n < ts.issued) (hcanceled : ts.canceled = f.tokens.canceled) :
    Grown (steps ++ [s]) ⟨ts, f.contexts ++ [c]⟩ where
  numbered := by simp [h.numbered, hs]
  made k s' ck hmade hck := by
    rcases Nat.lt_or_ge k f.contexts.length with hk | hk
    · have hold : MadeBy steps k s' := by
        unfold MadeBy at hmade
        rwa [List.filter_append, List.getElem?_append_left (h.numbered ▸ hk)] at hmade
      have hold' : f.contexts[k]? = some ck :=
        (List.getElem?_append_left hk).symm.trans hck
      exact makes_append (h.made k s' ck hold hold') (Nat.le_of_lt hk) c
    · have hlast : k < (f.contexts ++ [c]).length := (List.getElem?_eq_some_iff.1 hck).1
      obtain rfl : k = f.contexts.length := by
        rw [List.length_append, List.length_singleton] at hlast
        omega
      obtain rfl : c = ck := by simpa using hck
      obtain rfl : s = s' := by
        unfold MadeBy at hmade
        simpa [h.numbered, hs] using hmade
      exact makes_append hmakes (Nat.le_refl _) c
  issued ck hck n hn := by
    rcases List.mem_append.1 hck with hold | hnew
    · exact Nat.lt_of_lt_of_le (h.issued ck hold n hn) hts
    · obtain rfl := List.mem_singleton.1 hnew
      exact hissued n hn
  targets j hj := by
    rcases List.mem_append.1 hj with hold | hnew
    · exact Nat.lt_of_lt_of_le (h.targets j hold) (by simp)
    · obtain rfl := List.mem_singleton.1 hnew
      cases hs
  canceled t := by
    rw [hcanceled, h.canceled]
    constructor
    · rintro ⟨j, cj, hj, hcj, rfl⟩
      have hlt := (List.getElem?_eq_some_iff.1 hcj).1
      exact ⟨j, cj, List.mem_append_left _ hj, (List.getElem?_append_left hlt).trans hcj, rfl⟩
    · rintro ⟨j, cj, hj, hcj, rfl⟩
      have hold : .cancel j ∈ steps := by
        rcases List.mem_append.1 hj with hold | hnew
        · exact hold
        · obtain rfl := List.mem_singleton.1 hnew
          cases hs
      exact ⟨j, cj, hold, (List.getElem?_append_left (h.targets j hold)).symm.trans hcj, rfl⟩

/-- A step that cancels a context. -/
theorem Grown.cancel (h : Grown steps f) {i : Nat} {c : Context}
    (hi : f.contexts[i]? = some c) :
    Grown (steps ++ [.cancel i]) { f with tokens := f.tokens.cancel c.token } where
  numbered := by simp [h.numbered, makes]
  made k s ck hmade hck := by
    refine h.made k s ck ?_ hck
    unfold MadeBy at hmade ⊢
    simpa [makes] using hmade
  issued := h.issued
  targets j hj := by
    rcases List.mem_append.1 hj with hold | hnew
    · exact h.targets j hold
    · obtain rfl : j = i := by simpa using hnew
      exact (List.getElem?_eq_some_iff.1 hi).1
  canceled t := by
    simp only [Tokens.cancel, List.mem_cons, h.canceled, List.mem_append, List.not_mem_nil,
      or_false, ContextStep.cancel.injEq]
    constructor
    · rintro (rfl | ⟨j, cj, hj, hcj, rfl⟩)
      · exact ⟨i, c, .inr rfl, hi, rfl⟩
      · exact ⟨j, cj, .inl hj, hcj, rfl⟩
    · rintro ⟨j, cj, hj | rfl, hcj, rfl⟩
      · exact .inr ⟨j, cj, hj, hcj, rfl⟩
      · obtain rfl : c = cj := Option.some.inj (hi.symm.trans hcj)
        exact .inl rfl

/-- The numbers in tokens are smaller than the next one to give out. -/
theorem Grown.newer (h : Grown steps f) (k : Nat) : Newer f.contexts k f.tokens.issued :=
  fun _ _ c hc => h.issued c (List.mem_of_getElem? hc)

/-- **One step.** -/
theorem Grown.step (h : Grown steps f) (hstep : f.step? s = some f') :
    Grown (steps ++ [s]) f' := by
  have hearlier {i : Nat} {c : Context} (hi : f.contexts[i]? = some c) :
      i < f.contexts.length := (List.getElem?_eq_some_iff.1 hi).1
  have hold {i : Nat} {c : Context} (hi : f.contexts[i]? = some c) :=
    h.issued c (List.mem_of_getElem? hi)
  cases s with
  | background =>
      cases hstep
      exact h.add rfl (.background (h.newer _)) (Nat.le_succ _) (by simp [Context.ofToken]) rfl
  | child i =>
      obtain ⟨c, hi, hmade⟩ := Option.bind_eq_some_iff.1 hstep
      cases hmade
      refine h.add rfl (.child (hearlier hi) hi (h.newer _)) (Nat.le_succ _) ?_ rfl
      intro n hn
      rcases List.mem_cons.1 hn with rfl | hn
      · exact Nat.lt_succ_self _
      · exact Nat.lt_succ_of_lt (hold hi n hn)
  | clone i =>
      obtain ⟨c, hi, hmade⟩ := Option.bind_eq_some_iff.1 hstep
      cases hmade
      exact h.add rfl (.clone (hearlier hi) hi) (Nat.le_refl _) (hold hi) rfl
  | ofToken i =>
      obtain ⟨c, hi, hmade⟩ := Option.bind_eq_some_iff.1 hstep
      cases hmade
      exact h.add rfl (.ofToken (hearlier hi) hi) (Nat.le_refl _) (fun n hn => hold hi n hn) rfl
  | withDeadline i d =>
      obtain ⟨c, hi, hmade⟩ := Option.bind_eq_some_iff.1 hstep
      cases hmade
      refine h.add rfl (.withDeadline (hearlier hi) hi) (Nat.le_refl _) ?_ rfl
      rw [Context.token_withDeadline]
      exact hold hi
  | withTimeout i now span =>
      obtain ⟨c, hi, hmade⟩ := Option.bind_eq_some_iff.1 hstep
      obtain ⟨d, hshown, hmade⟩ := Option.bind_eq_some_iff.1 hmade
      cases hmade
      refine h.add rfl (.withTimeout (hearlier hi) hi hshown) (Nat.le_refl _) ?_ rfl
      rw [Context.token_withDeadline]
      exact hold hi
  | cancel i =>
      obtain ⟨c, hi, hmade⟩ := Option.bind_eq_some_iff.1 hstep
      cases hmade
      exact h.cancel hi

/-- **Step after step.** -/
theorem Grown.run (h : Grown steps f) {more : List ContextStep} (hrun : f.run? more = some f') :
    Grown (steps ++ more) f' := by
  induction more generalizing steps f with
  | nil =>
      cases hrun
      simpa using h
  | cons s more ih =>
      obtain ⟨f₁, hstep, hrun⟩ := Option.bind_eq_some_iff.1 hrun
      simpa using ih (h.step hstep) hrun

/-! ### Tokens and ancestors -/

variable {j k a : Nat} {c cj ck : Context}

/-- Every context was made by some step. -/
theorem Grown.exists_madeBy (h : Grown steps f) (hk : f.contexts[k]? = some c) :
    ∃ s, MadeBy steps k s ∧ Makes f.contexts k s c := by
  have hlt : k < (steps.filter makes).length := by
    rw [← h.numbered]
    exact (List.getElem?_eq_some_iff.1 hk).1
  have hmade : MadeBy steps k (steps.filter makes)[k] := List.getElem?_eq_getElem hlt
  exact ⟨_, hmade, h.made k _ c hmade hk⟩

/-- Every step that makes a context made the context of its number. -/
theorem Grown.exists_context (h : Grown steps f) (hmade : MadeBy steps k s) :
    ∃ c, f.contexts[k]? = some c ∧ Makes f.contexts k s c := by
  have hlt : k < f.contexts.length := by
    rw [h.numbered]
    exact (List.getElem?_eq_some_iff.1 hmade).1
  have hk : f.contexts[k]? = some f.contexts[k] := List.getElem?_eq_getElem hlt
  exact ⟨_, hk, h.made k s _ hmade hk⟩

/-- A context is made from an earlier one. -/
theorem Grown.lt_of_madeFrom (h : Grown steps f) (hkj : MadeFrom steps k j) : j < k := by
  obtain ⟨s, hmade, hsource⟩ := hkj
  obtain ⟨c, -, hmakes⟩ := h.exists_context hmade
  cases hmakes <;> cases hsource <;> assumption

theorem Grown.le_of_descends (h : Grown steps f) (hka : Descends steps k a) : a ≤ k := by
  induction hka with
  | refl => exact Nat.le_refl _
  | tail _ hstep ih => exact Nat.le_trans (Nat.le_of_lt (h.lt_of_madeFrom hstep)) ih

theorem madeFrom_of_copies (h : Copies steps k j) : MadeFrom steps k j := by
  obtain ⟨s, hmade, hcopied⟩ := h
  refine ⟨s, hmade, ?_⟩
  cases s <;> cases hcopied <;> rfl

/-- Copies of copies of a context descend from it. -/
theorem descends_of_copies (h : Relation.ReflTransGen (Copies steps) k a) :
    Descends steps k a :=
  Relation.ReflTransGen.mono (fun _ _ => madeFrom_of_copies) _ _ h

/-- A token is new, or it is a child of the token from which it was made, or it is a copy. -/
theorem Grown.token_cases (h : Grown steps f) (hk : f.contexts[k]? = some c) :
    (∃ n, c.token = [n] ∧ Newer f.contexts k n) ∨
      (∃ n i ci, MadeFrom steps k i ∧ f.contexts[i]? = some ci ∧ c.token = n :: ci.token ∧
        Newer f.contexts k n) ∨
      ∃ i ci, Copies steps k i ∧ f.contexts[i]? = some ci ∧ c.token = ci.token := by
  obtain ⟨s, hmade, hmakes⟩ := h.exists_madeBy hk
  cases hmakes with
  | background newer => exact .inl ⟨_, rfl, newer⟩
  | child _ source newer => exact .inr (.inl ⟨_, _, _, ⟨_, hmade, rfl⟩, source, rfl, newer⟩)
  | clone _ source => exact .inr (.inr ⟨_, _, ⟨_, hmade, rfl⟩, source, rfl⟩)
  | ofToken _ source => exact .inr (.inr ⟨_, _, ⟨_, hmade, rfl⟩, source, rfl⟩)
  | withDeadline _ source =>
      exact .inr (.inr ⟨_, _, ⟨_, hmade, rfl⟩, source, Context.token_withDeadline _ _⟩)
  | withTimeout _ source _ =>
      exact .inr (.inr ⟨_, _, ⟨_, hmade, rfl⟩, source, Context.token_withDeadline _ _⟩)

/-- The token of a context ends with the token of the one from which it was made. -/
theorem Grown.suffix_of_madeFrom (h : Grown steps f) (hkj : MadeFrom steps k j)
    (hk : f.contexts[k]? = some ck) :
    ∃ cj, f.contexts[j]? = some cj ∧ cj.token <:+ ck.token := by
  obtain ⟨s, hmade, hsource⟩ := hkj
  have hbounded (c : Context) (d : Instant) : c.token <:+ (c.withDeadline d).token := by
    simpa only [Context.token_withDeadline] using List.suffix_refl c.token
  have hmakes := h.made k s ck hmade hk
  cases hmakes with
  | background => cases hsource
  | child _ source => cases hsource; exact ⟨_, source, List.suffix_cons _ _⟩
  | clone _ source => cases hsource; exact ⟨_, source, List.suffix_refl _⟩
  | ofToken _ source => cases hsource; exact ⟨_, source, List.suffix_refl _⟩
  | withDeadline _ source => cases hsource; exact ⟨_, source, hbounded _ _⟩
  | withTimeout _ source => cases hsource; exact ⟨_, source, hbounded _ _⟩

/-- The token of a context ends with the tokens of its ancestors. -/
theorem Grown.suffix_of_descends (h : Grown steps f) (hka : Descends steps k a)
    (hk : f.contexts[k]? = some ck) :
    ∃ ca, f.contexts[a]? = some ca ∧ ca.token <:+ ck.token := by
  induction hka with
  | refl => exact ⟨ck, hk, List.suffix_refl _⟩
  | tail _ hstep ih =>
      obtain ⟨cb, hb, hsuffix⟩ := ih
      obtain ⟨ca, ha, hsuffix'⟩ := h.suffix_of_madeFrom hstep hb
      exact ⟨ca, ha, hsuffix'.trans hsuffix⟩

/-- Copies have the token of the context of which they are copies. -/
theorem Grown.token_of_copies (h : Grown steps f)
    (hkj : Relation.ReflTransGen (Copies steps) k j) (hk : f.contexts[k]? = some ck) :
    ∃ cj, f.contexts[j]? = some cj ∧ cj.token = ck.token := by
  induction hkj with
  | refl => exact ⟨ck, hk, rfl⟩
  | tail _ hstep ih =>
      obtain ⟨cb, hb, hsame⟩ := ih
      obtain ⟨s, hmade, hcopied⟩ := hstep
      have hbounded {c : Context} {d : Instant} (hsame : (c.withDeadline d).token = ck.token) :
          c.token = ck.token := by rwa [Context.token_withDeadline] at hsame
      have hmakes := h.made _ s cb hmade hb
      cases hmakes with
      | background => cases hcopied
      | child => cases hcopied
      | clone _ source => cases hcopied; exact ⟨_, source, hsame⟩
      | ofToken _ source => cases hcopied; exact ⟨_, source, hsame⟩
      | withDeadline _ source => cases hcopied; exact ⟨_, source, hbounded hsame⟩
      | withTimeout _ source => cases hcopied; exact ⟨_, source, hbounded hsame⟩

theorem Grown.token_of_shares (h : Grown steps f) (hjk : SharesToken steps j k)
    (hj : f.contexts[j]? = some cj) (hk : f.contexts[k]? = some ck) : cj.token = ck.token := by
  obtain ⟨m, hjm, hkm⟩ := hjk
  obtain ⟨cm, hm, hsame⟩ := h.token_of_copies hjm hj
  obtain ⟨cm', hm', hsame'⟩ := h.token_of_copies hkm hk
  obtain rfl := Option.some.inj (hm.symm.trans hm')
  rw [← hsame, hsame']

/-- A token was given out to one context, with a number that is greater than all before, and
every other context that has it is a copy of this one. -/
theorem Grown.exists_first (h : Grown steps f) (hk : f.contexts[k]? = some c) :
    ∃ m cm n rest, Relation.ReflTransGen (Copies steps) k m ∧ f.contexts[m]? = some cm ∧
      cm.token = c.token ∧ c.token = n :: rest ∧ Newer f.contexts m n := by
  induction k using Nat.strongRecOn generalizing c with
  | ind k ih =>
      rcases h.token_cases hk with
        ⟨n, htoken, hnewer⟩ | ⟨n, i, ci, -, -, htoken, hnewer⟩ | ⟨i, ci, hcopies, hi, htoken⟩
      · exact ⟨k, c, n, [], .refl, hk, rfl, htoken, hnewer⟩
      · exact ⟨k, c, n, ci.token, .refl, hk, rfl, htoken, hnewer⟩
      · have hlt := h.lt_of_madeFrom (madeFrom_of_copies hcopies)
        obtain ⟨m, cm, n, rest, hcopied, hm, hsame, hhead, hnewer⟩ := ih i hlt hi
        exact ⟨m, cm, n, rest, .head hcopies hcopied, hm, hsame.trans htoken.symm,
          htoken.trans hhead, hnewer⟩

/-- Contexts with one token share it: it was given out only once. -/
theorem Grown.shares_of_token (h : Grown steps f) (hj : f.contexts[j]? = some cj)
    (hk : f.contexts[k]? = some ck) (hsame : cj.token = ck.token) : SharesToken steps j k := by
  obtain ⟨m, cm, n, rest, hjm, hm, htoken, hhead, hnewer⟩ := h.exists_first hj
  obtain ⟨m', cm', n', rest', hkm, hm', htoken', hhead', hnewer'⟩ := h.exists_first hk
  obtain ⟨rfl, rfl⟩ : n = n' ∧ rest = rest' := by
    rw [hhead, hhead'] at hsame
    exact List.cons.inj hsame
  -- the number of the token is greater than all numbers before, so the first ones are the same
  rcases Nat.lt_trichotomy m m' with hlt | rfl | hlt
  · have := hnewer' m hlt cm hm n (by rw [htoken, hhead]; exact List.mem_cons_self)
    omega
  · exact ⟨m, hjm, hkm⟩
  · have := hnewer m' hlt cm' hm' n (by rw [htoken', hhead']; exact List.mem_cons_self)
    omega

/-- **Suffixes are ancestors.**  If the token of a context ends with the token of another one,
then this one cancels the first. -/
theorem Grown.cancelsAlong_of_suffix (h : Grown steps f) (hj : f.contexts[j]? = some cj)
    (hk : f.contexts[k]? = some ck) (hsuffix : cj.token <:+ ck.token) :
    CancelsAlong steps j k := by
  have hhere (hsame : cj.token = ck.token) : CancelsAlong steps j k :=
    ⟨k, .refl, h.shares_of_token hj hk hsame⟩
  induction k using Nat.strongRecOn generalizing ck with
  | ind k ih =>
      -- what holds of the context from which this one was made holds of this one
      have hfrom {i : Nat} {ci : Context} (hki : MadeFrom steps k i)
          (hi : f.contexts[i]? = some ci) (hrest : cj.token <:+ ci.token) :
          CancelsAlong steps j k := by
        obtain ⟨a, hia, hja⟩ := ih i (h.lt_of_madeFrom hki) hi hrest
          fun hsame => ⟨i, .refl, h.shares_of_token hj hi hsame⟩
        exact ⟨a, .head hki hia, hja⟩
      rcases h.token_cases hk with
        ⟨n, htoken, -⟩ | ⟨n, i, ci, hki, hi, htoken, -⟩ | ⟨i, ci, hcopies, hi, htoken⟩
      · obtain ⟨-, -, m, rest, -, -, -, hhead, -⟩ := h.exists_first hj
        refine hhere ?_
        rw [htoken, hhead] at hsuffix ⊢
        rcases List.suffix_cons_iff.1 hsuffix with hsame | hnil
        · exact hsame
        · cases List.suffix_nil.1 hnil
      · rw [htoken] at hsuffix
        rcases List.suffix_cons_iff.1 hsuffix with hsame | hrest
        · exact hhere (hsame.trans htoken.symm)
        · exact hfrom hki hi hrest
      · rw [htoken] at hsuffix
        exact hfrom (madeFrom_of_copies hcopies) hi hsuffix

/-- A token ends with the tokens that cancel it, and with no others. -/
theorem Grown.suffix_iff (h : Grown steps f) (hj : f.contexts[j]? = some cj)
    (hk : f.contexts[k]? = some ck) :
    cj.token <:+ ck.token ↔ CancelsAlong steps j k := by
  refine ⟨h.cancelsAlong_of_suffix hj hk, ?_⟩
  rintro ⟨a, hka, hja⟩
  obtain ⟨ca, ha, hsuffix⟩ := h.suffix_of_descends hka hk
  rwa [h.token_of_shares hja hj ha]

/-- **Cancellation.** -/
theorem Grown.isCanceled_iff (h : Grown steps f) (hk : f.contexts[k]? = some c) :
    f.tokens.isCanceled c.token = true ↔ WasCanceled steps k := by
  simp only [Tokens.isCanceled, List.any_eq_true, List.isSuffixOf_iff_suffix, h.canceled]
  constructor
  · rintro ⟨_, ⟨j, cj, hcancel, hj, rfl⟩, hsuffix⟩
    exact ⟨j, hcancel, (h.suffix_iff hj hk).1 hsuffix⟩
  · rintro ⟨j, hcancel, halong⟩
    obtain ⟨cj, hj⟩ : ∃ cj, f.contexts[j]? = some cj :=
      ⟨_, List.getElem?_eq_getElem (h.targets j hcancel)⟩
    exact ⟨_, ⟨j, cj, hcancel, hj, rfl⟩, (h.suffix_iff hj hk).2 halong⟩

/-! ### Deadlines along the way -/

/-- The deadline of a context was set on its way. -/
theorem Grown.limit_of_deadline (h : Grown steps f) (hk : f.contexts[k]? = some c) {d : Instant}
    (hd : c.deadline = some d) : Limit steps k d := by
  induction k using Nat.strongRecOn generalizing c with
  | ind k ih =>
      obtain ⟨s, hmade, hmakes⟩ := h.exists_madeBy hk
      -- the deadline that is set, unless the one before is earlier
      have hset {i : Nat} {ci : Context} {d' : Instant} (hi : i < k)
          (hsource : f.contexts[i]? = some ci) (hlimit : s.limit? = some d')
          (hbounded : s.bounded? = some i) (hd : (ci.withDeadline d').deadline = some d) :
          Limit steps k d := by
        rw [Context.deadline_withDeadline] at hd
        cases hown : ci.deadline with
        | none =>
            simp only [hown, Option.some.injEq] at hd
            exact .set hmade (hd ▸ hlimit)
        | some own =>
            simp only [hown, Option.some.injEq] at hd
            split at hd
            · exact .kept hmade hbounded (ih i hi hsource (hd ▸ hown))
            · exact .set hmade (hd ▸ hlimit)
      cases hmakes with
      | background => cases hd
      | child earlier source => exact .kept hmade rfl (ih _ earlier source hd)
      | clone earlier source => exact .kept hmade rfl (ih _ earlier source hd)
      | ofToken => cases hd
      | withDeadline earlier source => exact hset earlier source rfl rfl hd
      | withTimeout earlier source shown => exact hset earlier source shown rfl hd

/-- No deadline that was set on the way of a context is before its own. -/
theorem Grown.exists_deadline (h : Grown steps f) {d' : Instant} (hlimit : Limit steps k d')
    (hk : f.contexts[k]? = some c) : ∃ d, c.deadline = some d ∧ d'.before d = false := by
  induction hlimit generalizing c with
  | @set k s d' hmade hsets =>
      have hown (ci : Context) :
          ∃ d, (ci.withDeadline d').deadline = some d ∧ d'.before d = false := by
        rw [Context.deadline_withDeadline]
        cases ci.deadline with
        | none => exact ⟨d', rfl, d'.not_before_self⟩
        | some own =>
            cases hbefore : own.before d' with
            | true => exact ⟨own, by simp [hbefore], Instant.not_before_of_before hbefore⟩
            | false => exact ⟨d', by simp [hbefore], d'.not_before_self⟩
      have hmakes := h.made k s c hmade hk
      cases hmakes with
      | withDeadline => cases hsets; exact hown _
      | withTimeout _ _ shown =>
          obtain rfl := Option.some.inj (shown.symm.trans hsets)
          exact hown _
      | _ => cases hsets
  | @kept k j s d' hmade hbounded _ ih =>
      have hown {ci : Context} (d₁ : Instant) (hi : f.contexts[j]? = some ci) :
          ∃ d, (ci.withDeadline d₁).deadline = some d ∧ d'.before d = false := by
        obtain ⟨own, howned, hfirst⟩ := ih hi
        rw [Context.deadline_withDeadline, howned]
        cases hbefore : own.before d₁ with
        | true => exact ⟨own, by simp [hbefore], hfirst⟩
        | false => exact ⟨d₁, by simp [hbefore], Instant.not_before_trans hbefore hfirst⟩
      have hmakes := h.made k s c hmade hk
      cases hmakes with
      | background => cases hbounded
      | ofToken => cases hbounded
      | child _ source =>
          cases hbounded
          obtain ⟨d, hd⟩ := ih source
          exact ⟨d, hd⟩
      | clone _ source => cases hbounded; exact ih source
      | withDeadline _ source => cases hbounded; exact hown _ source
      | withTimeout _ source => cases hbounded; exact hown _ source

/-- **Deadlines.**  A context has the earliest of the deadlines that were set on its way. -/
theorem Grown.deadline_iff (h : Grown steps f) (hk : f.contexts[k]? = some c) (d : Instant) :
    c.deadline = some d ↔
      Limit steps k d ∧ ∀ d', Limit steps k d' → d'.before d = false := by
  constructor
  · intro hd
    refine ⟨h.limit_of_deadline hk hd, fun d' hlimit => ?_⟩
    obtain ⟨own, hown, hfirst⟩ := h.exists_deadline hlimit hk
    obtain rfl := Option.some.inj (hd.symm.trans hown)
    exact hfirst
  · rintro ⟨hlimit, hearliest⟩
    obtain ⟨own, hown, hfirst⟩ := h.exists_deadline hlimit hk
    rw [hown, Instant.eq_of_not_before (hearliest own (h.limit_of_deadline hk hown)) hfirst]

/-! ### What a step does to the contexts before -/

/-- A step makes a context and cancels none, or it cancels one and makes none. -/
theorem step_cases (hstep : f.step? s = some f') :
    (∃ c, f'.contexts = f.contexts ++ [c] ∧ f'.tokens.canceled = f.tokens.canceled) ∨
      ∃ i c, s = .cancel i ∧ f.contexts[i]? = some c ∧ f'.contexts = f.contexts ∧
        f'.tokens = f.tokens.cancel c.token := by
  cases s with
  | background =>
      cases hstep
      exact .inl ⟨_, rfl, rfl⟩
  | withTimeout i now span =>
      obtain ⟨c, hi, hmade⟩ := Option.bind_eq_some_iff.1 hstep
      obtain ⟨d, -, hmade⟩ := Option.bind_eq_some_iff.1 hmade
      cases hmade
      exact .inl ⟨_, rfl, rfl⟩
  | cancel i =>
      obtain ⟨c, hi, hmade⟩ := Option.bind_eq_some_iff.1 hstep
      cases hmade
      exact .inr ⟨i, c, rfl, hi, rfl, rfl⟩
  | _ =>
      obtain ⟨c, hi, hmade⟩ := Option.bind_eq_some_iff.1 hstep
      cases hmade
      exact .inl ⟨_, rfl, rfl⟩

/-- Steps leave the contexts before as they are. -/
theorem context_of_step (hstep : f.step? s = some f') (hk : f.contexts[k]? = some c) :
    f'.contexts[k]? = some c := by
  rcases step_cases hstep with ⟨c', hcontexts, -⟩ | ⟨i, c', -, -, hcontexts, -⟩
  · rw [hcontexts]
    exact (List.getElem?_append_left (List.getElem?_eq_some_iff.1 hk).1).trans hk
  · rw [hcontexts, hk]

/-- A step cancels only along the context that it names. -/
theorem Grown.isCanceled_step (h : Grown steps f) (hstep : f.step? s = some f')
    (hk : f.contexts[k]? = some c) :
    f'.tokens.isCanceled c.token = true ↔
      f.tokens.isCanceled c.token = true ∨ ∃ j, s = .cancel j ∧ CancelsAlong steps j k := by
  rcases step_cases hstep with ⟨c', hcontexts, hcanceled⟩ | ⟨i, c', rfl, hi, -, htokens⟩
  · unfold Tokens.isCanceled
    rw [hcanceled]
    refine (or_iff_left ?_).symm
    rintro ⟨j, rfl, -⟩
    -- a step that cancels makes no context
    obtain ⟨cj, -, hmade⟩ := Option.bind_eq_some_iff.1 hstep
    cases hmade
    simpa using congrArg List.length hcontexts
  · rw [htokens, Tokens.isCanceled_cancel, h.suffix_iff hi hk, or_comm]
    simp

/-- What has ended stays ended. -/
theorem ended_of_run {more : List ContextStep} (hrun : f.run? more = some f')
    (hk : f.contexts[k]? = some c) :
    f'.contexts[k]? = some c ∧
      ∀ t, f.tokens.isCanceled t = true → f'.tokens.isCanceled t = true := by
  induction more generalizing f with
  | nil =>
      cases hrun
      exact ⟨hk, fun _ => id⟩
  | cons s more ih =>
      obtain ⟨f₁, hstep, hrun⟩ := Option.bind_eq_some_iff.1 hrun
      obtain ⟨hstays, hended⟩ := ih hrun (context_of_step hstep hk)
      refine ⟨hstays, fun t ht => hended t ?_⟩
      rcases step_cases hstep with ⟨_, -, hcanceled⟩ | ⟨_, _, -, -, -, htokens⟩
      · unfold Tokens.isCanceled at ht ⊢
        rwa [hcanceled]
      · rw [htokens]
        exact Tokens.isCanceled_of_cancel ht

/-! ### The tree -/

/-- A child is canceled together with the contexts that descend from it, and with no others. -/
theorem descends_of_child {i p : Nat}
    (hchild : MadeBy steps i (.child p)) (halong : CancelsAlong steps i k) :
    Descends steps k i := by
  obtain ⟨a, hka, m, him, ham⟩ := halong
  obtain rfl : i = m := by
    rcases Relation.ReflTransGen.cases_head him with hsame | ⟨j, ⟨s, hmade, hcopied⟩, -⟩
    · exact hsame
    · obtain rfl := Option.some.inj (hchild.symm.trans hmade)
      cases hcopied
  exact hka.trans (descends_of_copies ham)

/-- Neither the context from which one was made descends from it, nor any other one that was
made from there. -/
theorem Grown.not_descends (h : Grown steps f) {i p : Nat} (hip : MadeFrom steps i p) :
    ¬ Descends steps p i ∧ ∀ k, MadeFrom steps k p → k ≠ i → ¬ Descends steps k i := by
  have hparent : ¬ Descends steps p i := by
    intro hpi
    have := h.le_of_descends hpi
    have := h.lt_of_madeFrom hip
    omega
  refine ⟨hparent, fun k hkp hne hki => ?_⟩
  rcases Relation.ReflTransGen.cases_head hki with hsame | ⟨j, ⟨s, hmade, hsource⟩, hji⟩
  · exact hne hsame
  · obtain ⟨s', hmade', hsource'⟩ := hkp
    obtain rfl := Option.some.inj (hmade.symm.trans hmade')
    obtain rfl := Option.some.inj (hsource.symm.trans hsource')
    exact hparent hji

/-- A step can be done if there is a context of the number that it names, and the clock can show
the deadline that it sets. -/
theorem isSome_step?_iff (f : Forest) (s : ContextStep) :
    (f.step? s).isSome = true ↔
      (∀ i, s.source? = some i ∨ s = .cancel i → i < f.contexts.length) ∧
        ∀ i now span, s = .withTimeout i now span → (now.plus? span).isSome = true := by
  cases s with
  | background => simp [step?, source?]
  | withTimeout i now span =>
      by_cases hi : i < f.contexts.length
      · cases hshown : now.plus? span <;> simp [step?, source?, hi, hshown]
      · simp [step?, source?, hi]
  | child i | clone i | ofToken i | withDeadline i _ | cancel i =>
      by_cases hi : i < f.contexts.length
      · simp [step?, source?, hi]
      · simp [step?, source?, hi]

/-- **A cancellation tree.**  What the contexts are that the steps have made, when they have
ended, and what more steps do to them. -/
structure CancellationTree (steps : List ContextStep) (f : Forest) : Prop where
  numbered : f.contexts.length = (steps.filter makes).length
  /-- More can be done with every context. -/
  goesOn (s : ContextStep) : (f.step? s).isSome = true ↔
    (∀ i, s.source? = some i ∨ s = .cancel i → i < f.contexts.length) ∧
      ∀ i now span, s = .withTimeout i now span → (now.plus? span).isSome = true
  /-- A context has ended if it was canceled, itself or along its ancestors, or its deadline is
  not after now. -/
  ended_iff {k : Nat} {c : Context} (hk : f.contexts[k]? = some c) (now : Instant) :
    c.ended f.tokens now = true ↔
      WasCanceled steps k ∨ ∃ d, c.deadline = some d ∧ now.before d = false
  /-- The deadline is the earliest of those on the way of the context. -/
  deadline_iff {k : Nat} {c : Context} (hk : f.contexts[k]? = some c) (d : Instant) :
    c.deadline = some d ↔ Limit steps k d ∧ ∀ d', Limit steps k d' → d'.before d = false
  /-- A context that was made from another one with its deadline does not outlive it. -/
  bounded {j k : Nat} {s : ContextStep} {cj ck : Context} {d : Instant}
    (made : MadeBy steps k s) (from_j : s.bounded? = some j) (hj : f.contexts[j]? = some cj)
    (hk : f.contexts[k]? = some ck) (hd : cj.deadline = some d) :
    ∃ d', ck.deadline = some d' ∧ d.before d' = false
  /-- Contexts stay as they are, and those that have ended stay ended. -/
  lasting {more : List ContextStep} {f' : Forest} (hrun : f.run? more = some f') {k : Nat}
    {c : Context} (hk : f.contexts[k]? = some c) : f'.contexts[k]? = some c ∧
      ∀ now now', now'.before now = false → c.ended f.tokens now = true →
        c.ended f'.tokens now' = true
  /-- A step ends no context, unless it cancels one that shares the token of the context or of
  one of its ancestors. -/
  spares {s : ContextStep} {f' : Forest} (hstep : f.step? s = some f') {k : Nat} {c : Context}
    (hk : f.contexts[k]? = some c) (hother : ∀ j, s = .cancel j → ¬ CancelsAlong steps j k)
    (now : Instant) : c.ended f'.tokens now = c.ended f.tokens now
  /-- To cancel a child is to cancel what descends from it, but neither the context from which
  it was made nor any other one that was made from there. -/
  child {i p : Nat} (made : MadeBy steps i (.child p)) :
    (∀ k, CancelsAlong steps i k → Descends steps k i) ∧ ¬ Descends steps p i ∧
      ∀ k, MadeFrom steps k p → k ≠ i → ¬ Descends steps k i
  /-- A task is not started under a context that has ended. -/
  stops {k : Nat} {c : Context} (hk : f.contexts[k]? = some c) {now : Instant}
    (hended : c.ended f.tokens now = true) {α : Type} (task : Tokens → Progress α × Tokens) :
    c.run now task f.tokens = (some (.error .canceled), f.tokens)
  /-- A call of a service runs under a child with a timeout. -/
  call (s : Service) {i : Nat} {c : Context} (hi : f.contexts[i]? = some c) {now : Instant}
    (hnow : now.nanos < 1000000000) :
    s.callContext? c f.tokens now =
      (f.run? [.child i, .withTimeout f.contexts.length now (.ofSeconds s.timeout)]).bind
        fun f' => f'.contexts.getLast?.map fun c' => (c', f'.tokens)

/-- **Cancellation along ancestors.**  Whatever is done with contexts, in any order: a context
has ended if it shares the token of a context that was canceled or has an ancestor that does, or
if the earliest deadline on its way has come. -/
theorem cancellationTree (hrun : empty.run? steps = some f) : CancellationTree steps f := by
  have h : Grown steps f := grown_empty.run hrun
  have hended {k : Nat} {c : Context} (hk : f.contexts[k]? = some c) (now : Instant) :
      c.ended f.tokens now = true ↔
        WasCanceled steps k ∨ ∃ d, c.deadline = some d ∧ now.before d = false := by
    rw [Context.ended, Bool.or_eq_true, h.isCanceled_iff hk, Context.isPast_iff]
  refine ⟨h.numbered, f.isSome_step?_iff, hended, h.deadline_iff, ?_, ?_, ?_, ?_, ?_, ?_⟩
  · intro j k s cj ck d hmade hbounded hj hk hd
    exact h.exists_deadline (.kept hmade hbounded (h.limit_of_deadline hj hd)) hk
  · intro more f' hmore k c hk
    obtain ⟨hstays, hcanceled⟩ := ended_of_run hmore hk
    refine ⟨hstays, fun now now' hlater hover => ?_⟩
    unfold Context.ended at hover ⊢
    rw [Bool.or_eq_true] at hover ⊢
    exact hover.imp (hcanceled _) (Context.isPast_of_not_before hlater)
  · intro s f' hstep k c hk hother now
    have hsame : f'.tokens.isCanceled c.token = f.tokens.isCanceled c.token := by
      rw [Bool.eq_iff_iff, h.isCanceled_step hstep hk]
      refine or_iff_left ?_
      rintro ⟨j, hcancel, halong⟩
      exact hother j hcancel halong
    rw [Context.ended, hsame, Context.ended]
  · intro i p hmade
    exact ⟨fun k => descends_of_child hmade, h.not_descends ⟨_, hmade, rfl⟩⟩
  · intro k c hk now hover α task
    simp only [Context.run, hover, if_true]
  · intro s i c hi now hnow
    have hnew : (f.contexts ++ [(c.child f.tokens).1])[f.contexts.length]? =
        some (c.child f.tokens).1 := List.getElem?_concat_length
    simp only [run?, step?, hi, add, bind, pure, Option.bind, hnew,
      Instant.plus?_ofSeconds hnow, Service.callContext?, Context.withTimeout?]
    cases now.after? s.timeout <;> simp

/-- A copy of a child is canceled.  That ends the child, its copies and what descends from them,
also through a token that was taken alone, and spares the context above the child. -/
theorem cancellationTree_of_family :
    let deadline : Instant := ⟨5, 0⟩
    let steps : List ContextStep := [.background, .child 0, .clone 1, .withDeadline 2 deadline,
      .child 3, .ofToken 4, .withTimeout 4 ⟨1, 0⟩ (.ofSeconds 9), .cancel 2]
    ∃ f, empty.run? steps = some f ∧ CancellationTree steps f ∧
      f.contexts.map (·.ended f.tokens ⟨0, 0⟩) = [false, true, true, true, true, true, true] ∧
      f.contexts.map Context.deadline =
        [none, none, none, some deadline, some deadline, none, some deadline] :=
  ⟨_, rfl, cancellationTree rfl, by decide, by decide⟩

end Forest

end KeyCustody
