import KeyCustody.Text.Blank
import KeyCustody.Time.Date

/-!
# Timestamps

A timestamp is a moment of universal time to the nanosecond.  A leap second is the
second after the 59th of some minute; its fraction runs from 10^9 on.  Timestamps are
written as RFC 3339 asks, with `Z` for the offset and with 0, 3, 6 or 9 digits of the
fraction, as few as keep it exact; years of other than four digits carry a sign.

The reader takes more than the writer gives: blanks between the parts, fields of one
digit, an offset with or without a colon, a minus sign of typography, and any number of
digits of the fraction, of which it keeps nine.  Main statement:

* `Timestamp.shift?_zero` — reading with the offset zero moves nothing.
-/

namespace KeyCustody

/-- A second of the day and a fraction, in nanoseconds, that a clock can show. -/
def IsClock (second nano : Nat) : Prop :=
  second < 86400 ∧ nano < 2000000000 ∧ (1000000000 ≤ nano → second % 60 = 59)

instance (second nano : Nat) : Decidable (IsClock second nano) :=
  inferInstanceAs (Decidable (_ ∧ _))

/-- A moment of universal time. -/
structure Timestamp where
  date : Date
  /-- The second of the day; a leap second counts as the one before it. -/
  second : Nat
  /-- The fraction in nanoseconds, 10^9 or more during a leap second. -/
  nano : Nat
  isClock : IsClock second nano
deriving DecidableEq

namespace Timestamp

/-- The moment of a date, a second and a fraction, if a clock can show them. -/
def of? (date : Date) (second nano : Nat) : Option Timestamp :=
  if h : IsClock second nano then some ⟨date, second, nano, h⟩ else none

theorem of?_self (t : Timestamp) : of? t.date t.second t.nano = some t := by
  rw [of?, dif_pos t.isClock]

/-- The universal time of a local one that is `offset` seconds ahead of it. -/
def shift? (date : Date) (second nano : Nat) (offset : Int) : Option Timestamp :=
  let s : Int := second - offset
  if s < 0 then do of? (← date.previous?) (s + 86400).toNat nano
  else if s < 86400 then of? date s.toNat nano
  else do of? (← date.next?) (s - 86400).toNat nano

/-- The offset zero moves nothing. -/
theorem shift?_zero (t : Timestamp) : shift? t.date t.second t.nano 0 = some t := by
  have h := t.isClock.1
  have h1 : ¬ ((t.second : Int) - 0 < 0) := by omega
  have h2 : (t.second : Int) - 0 < 86400 := by omega
  have h3 : ((t.second : Int) - 0).toNat = t.second := by omega
  simp only [shift?, if_neg h1, if_pos h2, h3, of?_self]

/-! ### Writing -/

/-- The number with zeros in front up to `width` digits. -/
def pad (width n : Nat) : List Char :=
  let ds := (toString n).toList
  List.replicate (width - ds.length) '0' ++ ds

/-- The year: four digits, or a sign and at least four digits. -/
def yearText (year : Int) : List Char :=
  if 0 ≤ year ∧ year ≤ 9999 then pad 4 year.toNat
  else (if year < 0 then '-' else '+') :: pad 4 year.natAbs

/-- The fraction of a second, as short as it is exact in steps of three digits. -/
def fractionText (nano : Nat) : List Char :=
  if nano = 0 then []
  else if nano % 1000000 = 0 then '.' :: pad 3 (nano / 1000000)
  else if nano % 1000 = 0 then '.' :: pad 6 (nano / 1000)
  else '.' :: pad 9 nano

/-- The characters of a timestamp. -/
def toChars (t : Timestamp) : List Char :=
  let leap := if t.nano < 1000000000 then 0 else 1
  yearText t.date.year ++ '-' :: pad 2 t.date.month ++ '-' :: pad 2 t.date.day ++
    'T' :: pad 2 (t.second / 3600) ++ ':' :: pad 2 (t.second / 60 % 60) ++
    ':' :: pad 2 (t.second % 60 + leap) ++ fractionText (t.nano % 1000000000) ++ ['Z']

/-- The timestamp as text. -/
def toText (t : Timestamp) : String :=
  String.ofList t.toChars

/-! ### Reading -/

/-- The number that decimal digits spell. -/
def digitsValue (ds : List Char) : Nat :=
  ds.foldl (fun n c => 10 * n + (c.toNat - 48)) 0

/-- Reads at least one and at most `max` digits. -/
def number? (max : Nat) (cs : List Char) : Option (Nat × List Char) :=
  let ds := (cs.take max).takeWhile Char.isDigit
  if ds.isEmpty then none else some (digitsValue ds, cs.drop ds.length)

/-- Reads a year: at most four digits, or a sign and any number of them. -/
def year? (cs : List Char) : Option (Int × List Char) :=
  match Text.trimStart cs with
  | '-' :: rest => (number? rest.length rest).map fun (n, r) => (-(n : Int), r)
  | '+' :: rest => (number? rest.length rest).map fun (n, r) => ((n : Int), r)
  | cs => (number? 4 cs).map fun (n, r) => ((n : Int), r)

/-- Reads a field of one or two digits behind blanks. -/
def field? (cs : List Char) : Option (Nat × List Char) :=
  number? 2 (Text.trimStart cs)

/-- Reads one character behind blanks. -/
def mark? (c : Char) (cs : List Char) : Option (List Char) :=
  match Text.trimStart cs with
  | d :: rest => if d = c then some rest else none
  | [] => none

/-- Reads the fraction of a second, if there is one, and keeps nine digits of it,
with zeros for those that are missing. -/
def fraction? : List Char → Option (Nat × List Char)
  | '.' :: cs =>
    let ds := cs.takeWhile Char.isDigit
    if ds.isEmpty then none
    else
      some (digitsValue ((ds ++ List.replicate 9 '0').take 9), cs.drop ds.length)
  | cs => some (0, cs)

/-- Reads exactly two digits. -/
def pair? : List Char → Option (Nat × List Char)
  | a :: b :: rest =>
    if a.isDigit && b.isDigit then some (digitsValue [a, b], rest) else none
  | _ => none

/-- Reads the offset of the local time from universal time, in seconds. -/
def offset? (cs : List Char) : Option (Int × List Char) :=
  match cs with
  | c :: rest =>
    if c = 'Z' ∨ c = 'z' then some (0, rest)
    else if (cs.take 3).map Char.toUpper = ['U', 'T', 'C'] then some (0, cs.drop 3)
    else if c = '+' ∨ c = '-' ∨ c = '−' then do
      let (hours, rest) ← pair? rest
      let (minutes, rest) ← pair? (rest.dropWhile fun d => d == ':' || Text.isBlank d)
      if minutes < 60 then
        let s : Int := hours * 3600 + minutes * 60
        pure (if c = '+' then s else -s, rest)
      else none
    else none
  | [] => none

/-- The second of the day and the fraction, from the fields of a clock. -/
def clock? (hour minute second nano : Nat) : Option (Nat × Nat) :=
  if hour < 24 ∧ minute < 60 ∧ second < 60 then
    some (hour * 3600 + minute * 60 + second, nano)
  else if hour < 24 ∧ minute < 60 ∧ second = 60 then
    some (hour * 3600 + minute * 60 + 59, 1000000000 + nano)
  else none

/-- Reads a timestamp. -/
def ofChars? (cs : List Char) : Option Timestamp := do
  let (year, cs) ← year? cs
  let (month, cs) ← field? (← mark? '-' cs)
  let (day, cs) ← field? (← mark? '-' cs)
  let cs ← match cs with
    | c :: rest => if c = 'T' ∨ c = 't' ∨ c = ' ' then some rest else none
    | [] => none
  let (hour, cs) ← field? cs
  let (minute, cs) ← field? (← mark? ':' cs)
  let (second, cs) ← field? (← mark? ':' cs)
  let (nano, cs) ← fraction? cs
  let (offset, cs) ← offset? (Text.trimStart cs)
  if cs.all Text.isBlank && offset.natAbs < 86400 then
    let date ← Date.of? year month day
    let (second, nano) ← clock? hour minute second nano
    shift? date second nano offset
  else none

/-- The timestamp that a text tells. -/
def ofText? (s : String) : Option Timestamp :=
  ofChars? s.toList

end Timestamp

end KeyCustody
