/-!
# Dates

Dates of the proleptic Gregorian calendar, in the years that a timestamp can hold.
A date carries the proof that it is one.  Main statement:

* `previous?_next?` — a day later and a day earlier is the same date.
-/

namespace KeyCustody

/-- The first year of the calendar. -/
def minYear : Int := -262143

/-- The last year of the calendar. -/
def maxYear : Int := 262142

/-- Every fourth year, except that of the full centuries only every fourth. -/
def isLeapYear (year : Int) : Bool :=
  year % 4 == 0 && (year % 100 != 0 || year % 400 == 0)

/-- The number of days of a month, zero for what is no month. -/
def daysIn (year : Int) (month : Nat) : Nat :=
  match month with
  | 1 | 3 | 5 | 7 | 8 | 10 | 12 => 31
  | 4 | 6 | 9 | 11 => 30
  | 2 => if isLeapYear year then 29 else 28
  | _ => 0

/-- The three numbers are a date of the calendar. -/
def IsDate (year : Int) (month day : Nat) : Prop :=
  minYear ≤ year ∧ year ≤ maxYear ∧ 1 ≤ day ∧ day ≤ daysIn year month

instance (year : Int) (month day : Nat) : Decidable (IsDate year month day) :=
  inferInstanceAs (Decidable (_ ∧ _))

/-- A date of the calendar. -/
structure Date where
  year : Int
  month : Nat
  day : Nat
  isDate : IsDate year month day
deriving DecidableEq

namespace Date

/-- The date of the three numbers, if they are one. -/
def of? (year : Int) (month day : Nat) : Option Date :=
  if h : IsDate year month day then some ⟨year, month, day, h⟩ else none

theorem of?_self (d : Date) : of? d.year d.month d.day = some d := by
  rw [of?, dif_pos d.isDate]

theorem of?_eq_some_iff {year : Int} {month day : Nat} {d : Date} :
    of? year month day = some d ↔ d.year = year ∧ d.month = month ∧ d.day = day := by
  constructor
  · intro h
    unfold of? at h
    split at h
    · cases h
      exact ⟨rfl, rfl, rfl⟩
    · cases h
  · rintro ⟨rfl, rfl, rfl⟩
    exact d.of?_self

/-- The day after, unless the calendar ends. -/
def next? (d : Date) : Option Date :=
  if d.day < daysIn d.year d.month then of? d.year d.month (d.day + 1)
  else if d.month < 12 then of? d.year (d.month + 1) 1
  else of? (d.year + 1) 1 1

/-- The day before, unless the calendar starts. -/
def previous? (d : Date) : Option Date :=
  if 1 < d.day then of? d.year d.month (d.day - 1)
  else if 1 < d.month then of? d.year (d.month - 1) (daysIn d.year (d.month - 1))
  else of? (d.year - 1) 12 31

/-- A month with a day in it is one of the twelve. -/
theorem month_le (d : Date) : 1 ≤ d.month ∧ d.month ≤ 12 := by
  obtain ⟨_, _, h1, h2⟩ := d.isDate
  have pos : 0 < daysIn d.year d.month := by omega
  unfold daysIn at pos
  split at pos <;> omega

/-- A day later and a day earlier is the same date. -/
theorem previous?_next? {d e : Date} (h : d.next? = some e) : e.previous? = some d := by
  obtain ⟨hmin, hmax, hday, hdays⟩ := d.isDate
  have hmonth := d.month_le
  unfold next? at h
  split at h
  · obtain ⟨hy, hm, hd⟩ := of?_eq_some_iff.1 h
    rw [previous?, if_pos (by omega), of?_eq_some_iff]
    exact ⟨hy.symm, hm.symm, by omega⟩
  split at h
  · rename_i h1 h2
    obtain ⟨hy, hm, hd⟩ := of?_eq_some_iff.1 h
    rw [previous?, if_neg (by omega), if_pos (by omega), of?_eq_some_iff]
    refine ⟨hy.symm, by omega, ?_⟩
    rw [hy, hm, Nat.add_sub_cancel]
    omega
  · rename_i h1 h2
    obtain ⟨hy, hm, hd⟩ := of?_eq_some_iff.1 h
    rw [previous?, if_neg (by omega), if_neg (by omega), of?_eq_some_iff]
    have h12 : d.month = 12 := by omega
    have h31 : daysIn d.year 12 = 31 := rfl
    rw [h12, h31] at h1 hdays
    exact ⟨by omega, h12, by omega⟩

end Date

end KeyCustody
