import KeyCustody.Context

/-!
# Contexts made from contexts

Whoever holds a context may make others from it: a child, a copy, a copy with an earlier end,
or a context that has its token only.  Whoever holds one may cancel it.  So over time a forest
of contexts grows.  `Forest` is such a forest, with the contexts numbered in the order in which
they were made, and `ContextStep` is one thing that can be done with it.
-/

namespace KeyCustody

/-- A length of time, to the nanosecond. -/
structure Span where
  seconds : Nat
  nanos : Nat
  nanos_lt : nanos < 1000000000
deriving DecidableEq, Repr

/-- A span of whole seconds. -/
def Span.ofSeconds (seconds : Nat) : Span := ⟨seconds, 0, by decide⟩

/-- The moment a span later, if the clock can show it. -/
def Instant.plus? (t : Instant) (d : Span) : Option Instant := do
  let t ← t.after? d.seconds
  if t.nanos + d.nanos < 1000000000 then pure { t with nanos := t.nanos + d.nanos }
  else
    let t ← t.after? 1
    pure { t with nanos := t.nanos + d.nanos - 1000000000 }

/-- What can be done with contexts, which are given by their numbers. -/
inductive ContextStep where
  /-- A context that only ends when it is canceled. -/
  | background
  | child (parent : Nat)
  | clone (original : Nat)
  /-- A context on the token of another one, without its deadline. -/
  | ofToken (source : Nat)
  | withDeadline (original : Nat) (deadline : Instant)
  /-- A deadline so long after the given moment. -/
  | withTimeout (original : Nat) (now : Instant) (span : Span)
  | cancel (target : Nat)
deriving DecidableEq, Repr

/-- The contexts made so far, with their tokens. -/
structure Forest where
  tokens : Tokens
  contexts : List Context
deriving DecidableEq, Repr

namespace Forest

/-- Nothing was made yet. -/
def empty : Forest := ⟨.empty, []⟩

/-- The forest with one more context. -/
def add (f : Forest) (c : Context) : Forest :=
  { f with contexts := f.contexts ++ [c] }

/-- The forest after a step, if there is a context of the number that the step names and the
clock can show the deadline that it sets. -/
def step? (f : Forest) : ContextStep → Option Forest
  | .background =>
    let (t, ts) := f.tokens.root
    some ({ f with tokens := ts }.add (.ofToken t))
  | .child i => do
    let (c, ts) := (← f.contexts[i]?).child f.tokens
    pure ({ f with tokens := ts }.add c)
  | .clone i => do pure (f.add (← f.contexts[i]?))
  | .ofToken i => do pure (f.add (.ofToken (← f.contexts[i]?).token))
  | .withDeadline i d => do pure (f.add ((← f.contexts[i]?).withDeadline d))
  | .withTimeout i now span => do
    let c ← f.contexts[i]?
    pure (f.add (c.withDeadline (← now.plus? span)))
  | .cancel i => do
    let c ← f.contexts[i]?
    pure { f with tokens := f.tokens.cancel c.token }

/-- The forest after steps, if each of them can be done. -/
def run? : List ContextStep → Forest → Option Forest
  | [], f => some f
  | s :: steps, f => do run? steps (← f.step? s)

end Forest

end KeyCustody
