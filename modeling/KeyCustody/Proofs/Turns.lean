import KeyCustody.Interleaving
import KeyCustody.Proofs.Contract

/-!
# Programs on their way

While programs take turns, each of them is on its way: some of its requests were answered,
and what is left of it is a program again.  `Program.LeadsTo` relates a program to all that
may be left of it.  An interleaving is followed turn by turn, through a property of all its
states, or along one of its programs, through the answers that this program got.  Main
statements:

* `Program.Keeps.of_leadsTo`: what is left of a program keeps the program's contract, unless
  there was an answer that the contract does not assume;
* `Reaches.preserves`: what every turn preserves, all turns preserve;
* `Reaches.keeps`: programs that take turns preserve what the answers to their requests do;
* `Reaches.follow`: a program ends as it promises for the answers that it got.
-/

namespace KeyCustody

namespace Program

variable {α β : Type} {k : Contract}

/-- Answers bring the first program to the second. -/
inductive LeadsTo : Program α → Program α → Prop
  | refl (p : Program α) : LeadsTo p p
  | answer {r : Request} {next : r.Answer → Program α} {q : Program α} (x : r.Answer)
      (rest : LeadsTo (next x) q) : LeadsTo (.ask r next) q

theorem LeadsTo.trans {p q q' : Program α} (h : p.LeadsTo q) (h' : q.LeadsTo q') :
    p.LeadsTo q' := by
  induction h with
  | refl => exact h'
  | answer x _ ih => exact .answer x (ih h')

/-- What is left of two programs in a row is left of the first or of the second. -/
theorem LeadsTo.bind_cases {p : Program α} {f : α → Program β} {q : Program β}
    (h : (p >>= f).LeadsTo q) :
    (∃ p', p.LeadsTo p' ∧ q = p' >>= f) ∨ ∃ a, (f a).LeadsTo q := by
  induction p with
  | done a => exact .inr ⟨a, h⟩
  | ask r next ih =>
      cases h with
      | refl => exact .inl ⟨_, .refl _, rfl⟩
      | answer x hrest =>
          rcases ih x hrest with ⟨p', hp', rfl⟩ | hsecond
          · exact .inl ⟨p', .answer x hp', rfl⟩
          · exact .inr hsecond

/-- **What is left of a program** keeps the program's contract, unless there was an answer on
the way that the contract does not assume. -/
theorem Keeps.of_leadsTo {fits : α → Prop} {p q : Program α} (h : p.Keeps k fits)
    (hpq : p.LeadsTo q) :
    q.Keeps k fits ∨ ∃ r next x, p.LeadsTo (.ask r next) ∧ ¬ k.assumes r x ∧
      (next x).LeadsTo q := by
  induction hpq with
  | refl => exact .inl h
  | @answer r next q x hrest ih =>
      by_cases hx : k.assumes r x
      · rcases ih (h.2 x hx) with hkeeps | ⟨r', next', x', hreached, hbroken, hleft⟩
        · exact .inl hkeeps
        · exact .inr ⟨r', next', x', .answer x hreached, hbroken, hleft⟩
      · exact .inr ⟨r, next, x, .refl _, hx, hrest⟩

/-- What is left of a program that relies on nothing makes the same kind of requests. -/
theorem Keeps.asking_of_leadsTo {allowed : Request → Prop} {fits : α → Prop}
    {p q : Program α} (h : p.Keeps (.asking allowed) fits) (hpq : p.LeadsTo q) :
    q.Keeps (.asking allowed) fits := by
  rcases h.of_leadsTo hpq with hkeeps | ⟨r, next, x, -, hbroken, -⟩
  · exact hkeeps
  · exact absurd trivial hbroken

end Program

/-! ### Turns -/

variable {α σ : Type} [Mishaps σ] {ss ss' : List (Strand α)} {w w' : World σ}

theorem Strand.context_turn (s : Strand α) (w : World σ) :
    (s.turn w).1.context = s.context := by
  obtain ⟨c, p⟩ := s
  cases p <;> rfl

theorem Strand.leadsTo_turn (s : Strand α) (w : World σ) :
    s.program.LeadsTo (s.turn w).1.program := by
  obtain ⟨c, p⟩ := s
  cases p with
  | done a => exact .refl _
  | ask r next => exact .answer _ (.refl _)

theorem Strand.value?_eq_some_iff {s : Strand α} {a : α} :
    s.value? = some a ↔ s.program = .done a := by
  obtain ⟨c, p⟩ := s
  cases p <;> simp [value?]

/-- The state after turns in a given order. -/
def takeTurns : List Nat → List (Strand α) → World σ → List (Strand α) × World σ
  | [], ss, w => (ss, w)
  | i :: is, ss, w =>
    match ss[i]? with
    | some s => takeTurns is (ss.set i (s.turn w).1) (s.turn w).2
    | none => takeTurns is ss w

theorem Reaches.takeTurns (is : List Nat) (ss : List (Strand α)) (w : World σ) :
    Reaches ss w (takeTurns is ss w).1 (takeTurns is ss w).2 := by
  induction is generalizing ss w with
  | nil => exact .refl ss w
  | cons i is ih =>
      rw [KeyCustody.takeTurns]
      split
      · rename_i s hi
        exact .turn hi (ih _ _)
      · exact ih _ _

/-- **What every turn preserves, all turns preserve.** -/
theorem Reaches.preserves (inv : List (Strand α) → World σ → Prop)
    (hturn : ∀ ss w i s, ss[i]? = some s → inv ss w →
      inv (ss.set i (s.turn w).1) (s.turn w).2)
    (hrun : Reaches ss w ss' w') (h : inv ss w) : inv ss' w' := by
  induction hrun with
  | refl => exact h
  | turn hi _ ih => exact ih (hturn _ _ _ _ hi h)

/-- Turns preserve what all strands have in common, if what is left of a strand has it too. -/
theorem Reaches.forall_mem {common : Strand α → Prop}
    (hleft : ∀ c p q, p.LeadsTo q → common ⟨c, p⟩ → common ⟨c, q⟩)
    (hrun : Reaches ss w ss' w') (h : ∀ s ∈ ss, common s) : ∀ s ∈ ss', common s := by
  refine hrun.preserves (fun ss _ => ∀ s ∈ ss, common s) (fun ss w i s hi h t ht => ?_) h
  rcases List.mem_or_eq_of_mem_set ht with hold | rfl
  · exact h t hold
  · have hmoved := hleft _ _ _ (s.leadsTo_turn w) (h s (List.mem_of_getElem? hi))
    rw [← s.context_turn w] at hmoved
    exact hmoved

/-- **Turns keep what the answers keep.**  Programs that take turns preserve what every
answer to an allowed request preserves, and go on keeping their contracts.  A contract may
depend on the context of the program. -/
theorem Reaches.keeps {k : Context → Contract} (inv : World σ → Prop)
    (hstep : ∀ c r w, (k c).allows r → inv w →
      (k c).assumes r (w.answer c r).1 ∧ inv (w.answer c r).2)
    (hrun : Reaches ss w ss' w')
    (hkeeps : ∀ s ∈ ss, s.program.Keeps (k s.context) fun _ => True) (hw : inv w) :
    (∀ s ∈ ss', s.program.Keeps (k s.context) fun _ => True) ∧ inv w' := by
  refine hrun.preserves (fun ss w => (∀ s ∈ ss, s.program.Keeps (k s.context) fun _ => True) ∧
    inv w) (fun ss w i s hi h => ?_) ⟨hkeeps, hw⟩
  have hs := h.1 s (List.mem_of_getElem? hi)
  have hmoved : (s.turn w).1.program.Keeps (k (s.turn w).1.context) (fun _ => True) ∧
      inv (s.turn w).2 := by
    obtain ⟨c, p⟩ := s
    cases p with
    | done a => exact ⟨hs, h.2⟩
    | ask r next =>
        obtain ⟨hanswer, hinv⟩ := hstep c r w hs.1 h.2
        exact ⟨hs.2 _ hanswer, hinv⟩
  refine ⟨fun t ht => ?_, hmoved.2⟩
  rcases List.mem_or_eq_of_mem_set ht with hold | rfl
  · exact h.1 t hold
  · exact hmoved.1

/-! ### One program of an interleaving -/

/-- At some moment of the interleaving the strand makes the request and gets the answer. -/
def Answered (ss : List (Strand α)) (w : World σ) (ss' : List (Strand α)) (w' : World σ)
    (i : Nat) (r : Request) (x : r.Answer) : Prop :=
  ∃ ss₁ w₁ c next, Reaches ss w ss₁ w₁ ∧ ss₁[i]? = some ⟨c, .ask r next⟩ ∧
    (w₁.answer c r).1 = x ∧ Reaches (ss₁.set i ⟨c, next x⟩) (w₁.answer c r).2 ss' w'

/-- The contract of relying on the answers that a strand gets in an interleaving. -/
def Contract.answered (ss : List (Strand α)) (w : World σ) (ss' : List (Strand α))
    (w' : World σ) (i : Nat) : Contract :=
  ⟨fun _ => True, Answered ss w ss' w' i⟩

/-- **A program of an interleaving** ends as it promises for the answers that it got. -/
theorem Reaches.follow {i : Nat} {s : Strand α} {fits : α → Prop}
    (hrun : Reaches ss w ss' w') (hi : ss[i]? = some s)
    (hkeeps : s.program.Keeps (.answered ss w ss' w' i) fits) :
    ∃ s', ss'[i]? = some s' ∧ ∀ a, s'.program = .done a → fits a := by
  induction hrun generalizing s with
  | refl =>
      refine ⟨s, hi, fun a ha => ?_⟩
      rw [ha] at hkeeps
      exact hkeeps
  | @turn ss ss' w w' j t hj hrest ih =>
      -- what is answered later was also answered in the whole interleaving
      have hlater {p : Program α} (hp : p.Keeps (.answered ss w ss' w' i) fits) :
          p.Keeps (.answered (ss.set j (t.turn w).1) (t.turn w).2 ss' w' i) fits := by
        refine hp.mono (fun _ => id) (fun r x _ hx => ?_) fun _ => id
        obtain ⟨ss₁, w₁, c, next, hbefore, hasked, hgiven, hafter⟩ := hx
        exact ⟨ss₁, w₁, c, next, .turn hj hbefore, hasked, hgiven, hafter⟩
      have hlength : i < ss.length := (List.getElem?_eq_some_iff.1 hi).1
      by_cases hij : j = i
      · subst hij
        obtain rfl := Option.some.inj (hi.symm.trans hj)
        refine ih (List.getElem?_set_self hlength) (hlater ?_)
        obtain ⟨c, p⟩ := s
        cases p with
        | done a => exact hkeeps
        | ask r next => exact hkeeps.2 _ ⟨ss, w, c, next, .refl _ _, hi, rfl, hrest⟩
      · exact ih ((List.getElem?_set_ne hij).trans hi) (hlater hkeeps)

end KeyCustody
