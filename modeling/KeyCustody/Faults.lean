import KeyCustody.World

/-!
# Fault rules

A list of rules is a source of mishaps.  A rule waits for accesses of one kind whose name
or pattern contains a fragment.  It passes over the first few, then strikes a number of
times, or without end.  The first rule that strikes decides; the rules behind it do not even
count the access.
-/

namespace KeyCustody

/-- The kinds of accesses that rules tell apart. -/
inductive AccessKind where
  | create
  | get
  | delete
  | list
  | status
  | next
deriving DecidableEq, Repr

/-- The kind of an access and the name or pattern in it.  The end of a listing is none. -/
def Access.subject? : Access → Option (AccessKind × String)
  | .create name => some (.create, name)
  | .get name => some (.get, name)
  | .delete name => some (.delete, name)
  | .list pattern => some (.list, pattern)
  | .status => some (.status, "")
  | .next (some name) => some (.next, name)
  | .next none => none

/-- A rule for mishaps. -/
structure FaultRule where
  on : AccessKind
  /-- What the name or pattern has to contain. -/
  fragment : String
  /-- How many accesses it still passes over. -/
  skip : Nat
  /-- How often it still strikes, without end if there is no number. -/
  times : Option Nat
  error : Option Error
  cancels : Option Token
deriving DecidableEq, Repr

/-- The text contains the fragment. -/
def containsChars (fragment : List Char) : List Char → Bool
  | [] => fragment.isEmpty
  | c :: cs => fragment.isPrefixOf (c :: cs) || containsChars fragment cs

namespace FaultRule

/-- The rule is about the access and not used up. -/
def applies (r : FaultRule) (kind : AccessKind) (subject : String) : Bool :=
  r.on == kind && containsChars r.fragment.toList subject.toList && r.times != some 0

/-- What the rules do at an access of this kind. -/
def strikeAll (kind : AccessKind) (subject : String) :
    List FaultRule → Mishap × List FaultRule
  | [] => (.nothing, [])
  | r :: rs =>
    if r.applies kind subject then
      if r.skip = 0 then
        (⟨r.cancels, none, r.error⟩, { r with times := r.times.map (· - 1) } :: rs)
      else
        let (m, rs) := strikeAll kind subject rs
        (m, { r with skip := r.skip - 1 } :: rs)
    else
      let (m, rs) := strikeAll kind subject rs
      (m, r :: rs)

end FaultRule

instance : Mishaps (List FaultRule) where
  strike a rules :=
    match a.subject? with
    | some (kind, subject) => FaultRule.strikeAll kind subject rules
    | none => (.nothing, rules)

end KeyCustody
