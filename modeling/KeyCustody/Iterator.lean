import KeyCustody.Store.Moments
import KeyCustody.View

/-!
# Iterators

Whoever lists names gets an iterator, which is a cursor behind the views through which the store
is used.  A view asks the iterator inside for names until there is one that it shows.

A call for the next name takes as many turns as it needs, each at a moment of its own
(`View.Next`).  A caller sees no difference between a call that failed and one that found
nothing; the failure is kept, and closing reports it.
-/

namespace KeyCustody

/-- How a call for the next name ends. -/
inductive Ending where
  | name (n : String)
  /-- There is nothing more. -/
  | nothing
  /-- The call gives nothing and keeps the failure. -/
  | failed (e : Error)
deriving DecidableEq, Repr

namespace Ending

/-- How a turn ends a call if it yields nothing. -/
def ofTrouble? : Option Error → Ending
  | some e => failed e
  | none => nothing

/-- The name that the caller gets. -/
def name? : Ending → Option String
  | name n => some n
  | nothing | failed _ => none

/-- The failure that is kept. -/
def failure? : Ending → Option Error
  | failed e => some e
  | name _ | nothing => none

end Ending

/-- A call for the next name, at the moments of its turns. -/
inductive View.Next : View → Cursor → List Moment → Ending → Cursor → Prop
  | stop {c c' : Cursor} {m : Moment} (hturn : c.attempt m = (.stop, c')) :
      Next .whole c [m] (.ofTrouble? (c.trouble? m)) c'
  | yield {c c' : Cursor} {m : Moment} {n : String} (hturn : c.attempt m = (.yield n, c')) :
      Next .whole c [m] (.name n) c'
  | again {c c' c'' : Cursor} {m : Moment} {ms : List Moment} {e : Ending}
      (hturn : c.attempt m = (.again, c')) (hrest : Next .whole c' ms e c'') :
      Next .whole c (m :: ms) e c''
  /-- The iterator inside gave nothing. -/
  | passOn {space : String} {v : View} {c c' : Cursor} {ms : List Moment} {e : Ending}
      (hinside : Next v c ms e c') (hnone : e.name? = none) : Next (.under space v) c ms e c'
  | shown {space : String} {v : View} {c c' : Cursor} {ms : List Moment} {full n : String}
      (hinside : Next v c ms (.name full) c') (hshown : strip space full = some n) :
      Next (.under space v) c ms (.name n) c'
  | hidden {space : String} {v : View} {c c' c'' : Cursor} {ms ms' : List Moment} {e : Ending}
      {full : String} (hinside : Next v c ms (.name full) c') (hhidden : strip space full = none)
      (hrest : Next (.under space v) c' ms' e c'') :
      Next (.under space v) c (ms ++ ms') e c''

/-- A call on an iterator and what came of it. -/
inductive IteratorCall where
  | next (ms : List Moment) (e : Ending)
  | close (r : Except Error Unit)

/-- Calls on an iterator, one after the other. -/
inductive View.Run (v : View) : Cursor → List IteratorCall → Cursor → Prop
  | nil {c : Cursor} : Run v c [] c
  | next {c c' c'' : Cursor} {ms : List Moment} {e : Ending} {calls : List IteratorCall}
      (hnext : v.Next c ms e c') (hrest : Run v c' calls c'') :
      Run v c (.next ms e :: calls) c''
  | close {c c' : Cursor} {calls : List IteratorCall} (hrest : Run v c.close.2 calls c') :
      Run v c (.close c.close.1 :: calls) c'

/-- Asking for names until there is none, and closing: how the calls ended, and the result. -/
inductive View.Drains (v : View) :
    Cursor → List Moment → List Ending → Except Error (List String) → Prop
  | last {c c' : Cursor} {ms : List Moment} {e : Ending} (hnext : v.Next c ms e c')
      (hnone : e.name? = none) : Drains v c ms [e] (c'.close.1.map fun _ => [])
  | more {c c' : Cursor} {ms ms' : List Moment} {n : String} {es : List Ending}
      {r : Except Error (List String)} (hnext : v.Next c ms (.name n) c')
      (hrest : Drains v c' ms' es r) :
      Drains v c (ms ++ ms') (.name n :: es) (r.map (n :: ·))

end KeyCustody
