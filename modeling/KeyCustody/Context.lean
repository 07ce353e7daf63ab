import KeyCustody.Error

/-!
# Contexts

Every call runs under a context, which ends when it is canceled or when its deadline
comes.  A context is a token and perhaps a deadline.  Copies of a context share its token;
a child has a token of its own, which is canceled with its parent's but not the other way
round.

A token is the list of the numbers given out on its way from its first ancestor, its own
number first.  So the tokens it descends from are the suffixes of the list, and a token
counts as canceled if one of its suffixes was canceled (`Tokens.isCanceled`).  Main
statements:

* `isCanceled_cancel` — canceling a token cancels exactly it and its descendants;
* `isCanceled_of_cancel` — cancellation is never taken back.
-/

namespace KeyCustody

/-- A moment of the clock that never goes back, to the nanosecond. -/
structure Instant where
  seconds : Int
  nanos : Nat
deriving DecidableEq, Repr

namespace Instant

/-- The moment comes before the other one. -/
def before (a b : Instant) : Bool :=
  a.seconds < b.seconds || (a.seconds == b.seconds && a.nanos < b.nanos)

/-- The clock counts seconds in signed words of 64 bits. -/
def maxSeconds : Int := 9223372036854775807

/-- The moment so many seconds later, if the clock can show it. -/
def after? (t : Instant) (seconds : Nat) : Option Instant :=
  if t.seconds + seconds ≤ maxSeconds then some ⟨t.seconds + seconds, t.nanos⟩ else none

end Instant

/-- What contexts share and what is canceled: numbers, its own first, its ancestors' behind. -/
abbrev Token := List Nat

/-- All tokens given out so far, and those that were canceled. -/
structure Tokens where
  /-- The next number to give out. -/
  issued : Nat
  canceled : List Token
deriving DecidableEq, Repr

namespace Tokens

/-- No token was given out yet. -/
def empty : Tokens := ⟨0, []⟩

/-- A token without parent. -/
def root (ts : Tokens) : Token × Tokens :=
  ([ts.issued], { ts with issued := ts.issued + 1 })

/-- A token that is canceled with its parent but can be canceled alone. -/
def child (ts : Tokens) (parent : Token) : Token × Tokens :=
  (ts.issued :: parent, { ts with issued := ts.issued + 1 })

/-- Cancels the token and all that descend from it. -/
def cancel (ts : Tokens) (t : Token) : Tokens :=
  { ts with canceled := t :: ts.canceled }

/-- The token or one of its ancestors was canceled. -/
def isCanceled (ts : Tokens) (t : Token) : Bool :=
  ts.canceled.any fun c => c.isSuffixOf t

/-- Canceling a token cancels exactly it and its descendants. -/
theorem isCanceled_cancel (ts : Tokens) (t u : Token) :
    (ts.cancel t).isCanceled u = true ↔ t <:+ u ∨ ts.isCanceled u = true := by
  simp [cancel, isCanceled]

/-- Cancellation is never taken back. -/
theorem isCanceled_of_cancel {ts : Tokens} {t u : Token} (h : ts.isCanceled u = true) :
    (ts.cancel t).isCanceled u = true :=
  (isCanceled_cancel ts t u).2 (.inr h)

/-- A child is canceled with its parent. -/
theorem isCanceled_child {ts : Tokens} {t : Token} (h : ts.isCanceled t = true) :
    ts.isCanceled (ts.child t).1 = true := by
  simp only [isCanceled, List.any_eq_true, List.isSuffixOf_iff_suffix] at h ⊢
  obtain ⟨c, hc, hs⟩ := h
  exact ⟨c, hc, hs.trans (List.suffix_cons _ _)⟩

end Tokens

/-- The signal that tells a call to stop. -/
structure Context where
  token : Token
  deadline : Option Instant
deriving DecidableEq, Repr

/-- How far a task came before it had to wait. -/
inductive Progress (α : Type) where
  | ready (result : Except Error α)
  | waiting

namespace Context

/-- A context on a token, without a deadline. -/
def ofToken (t : Token) : Context :=
  ⟨t, none⟩

/-- The context with this deadline, unless its own is earlier. -/
def withDeadline (c : Context) (d : Instant) : Context :=
  match c.deadline with
  | some own => if own.before d then c else { c with deadline := some d }
  | none => { c with deadline := some d }

/-- The context with a deadline so many seconds from now, if the clock can show it. -/
def withTimeout? (c : Context) (now : Instant) (seconds : Nat) : Option Context := do
  pure (c.withDeadline (← now.after? seconds))

/-- A context that ends with this one and can be canceled on its own. -/
def child (c : Context) (ts : Tokens) : Context × Tokens :=
  let (t, ts) := ts.child c.token
  ({ c with token := t }, ts)

/-- The deadline has come. -/
def isPast (c : Context) (now : Instant) : Bool :=
  match c.deadline with
  | some d => !now.before d
  | none => false

/-- The context was canceled, or its deadline has come. -/
def ended (c : Context) (ts : Tokens) (now : Instant) : Bool :=
  ts.isCanceled c.token || c.isPast now

/-- Fails if the context ended. -/
def check (c : Context) (ts : Tokens) (now : Instant) : Except Error Unit :=
  if c.ended ts now then .error .canceled else .ok ()

/-- Runs a task that may cancel tokens, unless the context ended before.  A result that is
ready counts even if the context ended meanwhile.  A task that waits is given up when the
context ends; without a deadline and a cancellation it waits for ever (`none`). -/
def run {α : Type} (c : Context) (now : Instant) (task : Tokens → Progress α × Tokens)
    (ts : Tokens) : Option (Except Error α) × Tokens :=
  if c.ended ts now then (some (.error .canceled), ts)
  else
    match task ts with
    | (.ready r, ts) => (some r, ts)
    | (.waiting, ts) =>
      if ts.isCanceled c.token || c.deadline.isSome then (some (.error .canceled), ts)
      else (none, ts)

end Context

end KeyCustody
