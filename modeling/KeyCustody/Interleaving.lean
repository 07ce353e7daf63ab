import KeyCustody.World

/-!
# Interleavings

Several programs may run over one world, each under the context of its own call.  At every
turn one of them, whichever it is, gets the answer to its next request; between two turns
the world stands still.  `Reaches` relates a start to every state that such turns lead to,
in any order and without fairness.  Main statement:

* `Reaches.run` — one of the orders lets a program run to its end while the others wait, so
  what holds of every interleaving holds of programs that run one after the other.
-/

namespace KeyCustody

/-- A program on its way, under the context of its call. -/
structure Strand (α : Type) where
  context : Context
  program : Program α

namespace Strand

variable {α σ : Type} [Mishaps σ]

/-- The value of a program that has come to its end. -/
def value? (s : Strand α) : Option α :=
  match s.program with
  | .done a => some a
  | .ask .. => none

/-- The strand and the world after the answer to the next request; a program at its end asks
for nothing. -/
def turn (s : Strand α) (w : World σ) : Strand α × World σ :=
  match s.program with
  | .done _ => (s, w)
  | .ask r next =>
    let (x, w) := w.answer s.context r
    ({ s with program := next x }, w)

end Strand

variable {α σ : Type} [Mishaps σ]

/-- Turns of the strands lead from one state to another. -/
inductive Reaches : List (Strand α) → World σ → List (Strand α) → World σ → Prop
  | refl (ss : List (Strand α)) (w : World σ) : Reaches ss w ss w
  | turn {ss ss' : List (Strand α)} {w w' : World σ} {i : Nat} {s : Strand α}
      (at_i : ss[i]? = some s)
      (rest : Reaches (ss.set i (s.turn w).1) (s.turn w).2 ss' w') : Reaches ss w ss' w'

/-- Turns after turns are turns. -/
theorem Reaches.trans {ss ss' ss'' : List (Strand α)} {w w' w'' : World σ}
    (h : Reaches ss w ss' w') (h' : Reaches ss' w' ss'' w'') : Reaches ss w ss'' w'' := by
  induction h with
  | refl => exact h'
  | turn at_i _ ih => exact .turn at_i (ih h')

/-- A strand that is put back in its place changes nothing. -/
theorem set_of_getElem? {ss : List (Strand α)} {i : Nat} {s : Strand α} (at_i : ss[i]? = some s) :
    ss.set i s = ss := by
  obtain ⟨h, hs⟩ := List.getElem?_eq_some_iff.1 at_i
  rw [← hs, List.set_getElem_self]

/-- A program may run to its end while all others wait. -/
theorem Reaches.run {ss : List (Strand α)} {i : Nat} {c : Context} {p : Program α}
    (w : World σ) (at_i : ss[i]? = some ⟨c, p⟩) :
    Reaches ss w (ss.set i ⟨c, .done (p.run c w).1⟩) (p.run c w).2 := by
  induction p generalizing ss w with
  | done a =>
    simpa only [Program.run, set_of_getElem? at_i] using Reaches.refl ss w
  | ask r next ih =>
    have lt : i < ss.length := (List.getElem?_eq_some_iff.1 at_i).1
    refine .turn at_i ?_
    have moved : (ss.set i ⟨c, next (w.answer c r).1⟩)[i]? =
        some ⟨c, next (w.answer c r).1⟩ := by
      rw [List.getElem?_set_self lt]
    have step := ih _ (w.answer c r).2 moved
    rwa [List.set_set] at step

end KeyCustody
