import KeyCustody.Time.Timestamp
import Mathlib.Data.Nat.Digits.Defs

/-!
# Timestamps that are read back

A timestamp that is written is read as the same moment.  The writer fills every field with
zeros up to its width, so the reader knows where a field ends without looking further
(`number?_append`); only a year with a sign ends where its digits do.  A leap second is
written as the second 60 and read as the fraction from 10^9 on.  Main statement:

* `Timestamp.ofText?_toText`.
-/

namespace KeyCustody.Timestamp

/-! ### Digits -/

theorem digitsValue_eq (ds : List Char) : digitsValue ds = Nat.ofDigitChars 10 ds 0 := rfl

theorem digitsValue_append (ds es : List Char) :
    digitsValue (ds ++ es) = Nat.ofDigitChars 10 es (digitsValue ds) := by
  simp [digitsValue_eq, Nat.ofDigitChars]

/-- Zeros behind digits multiply. -/
theorem digitsValue_append_zeros (ds : List Char) (k : Nat) :
    digitsValue (ds ++ List.replicate k '0') = digitsValue ds * 10 ^ k := by
  rw [digitsValue_append]
  generalize digitsValue ds = n
  induction k generalizing n with
  | zero => simp [Nat.ofDigitChars]
  | succ k ih =>
      have hzero : Nat.ofDigitChars 10 (List.replicate (k + 1) '0') n =
          Nat.ofDigitChars 10 (List.replicate k '0') (10 * n) := rfl
      rw [hzero, ih, Nat.pow_succ]
      ring

/-- Zeros in front of digits change nothing. -/
theorem digitsValue_zeros_append (k : Nat) (ds : List Char) :
    digitsValue (List.replicate k '0' ++ ds) = digitsValue ds := by
  have hzeros : digitsValue (List.replicate k '0') = 0 := by
    have h := digitsValue_append_zeros [] k
    simpa [digitsValue] using h
  rw [digitsValue_append, hzeros, digitsValue_eq]

theorem toList_toString (n : Nat) : (toString n).toList = Nat.toDigits 10 n :=
  Nat.toList_repr

/-- A padded number is the number. -/
theorem digitsValue_pad (width n : Nat) : digitsValue (pad width n) = n := by
  rw [pad, digitsValue_zeros_append, toList_toString, digitsValue_eq]
  exact Nat.ofDigitChars_toDigits (by decide) (by decide)

theorem isDigit_of_mem_pad {width n : Nat} {c : Char} (h : c ∈ pad width n) :
    c.isDigit = true := by
  rw [pad, toList_toString, List.mem_append] at h
  rcases h with hzero | hdigit
  · rw [List.eq_of_mem_replicate hzero]
    decide
  · exact Nat.isDigit_of_mem_toDigits (by decide) (by decide) hdigit

/-- A number that fits is padded to the width. -/
theorem length_pad {width n : Nat} (hwidth : 0 < width) (hn : n < 10 ^ width) :
    (pad width n).length = width := by
  have hle := (Nat.length_toDigits_le_iff (b := 10) (by decide) hwidth).2 hn
  rw [pad, toList_toString, List.length_append, List.length_replicate]
  omega

theorem pad_ne_nil (width n : Nat) : pad width n ≠ [] := by
  intro h
  rw [pad, toList_toString] at h
  exact Nat.toDigits_ne_nil (List.append_eq_nil_iff.1 h).2

/-- A number is read up to its last digit: the field is full, or what follows is none. -/
theorem number?_append {max : Nat} {ds rest : List Char} (hdigits : ∀ c ∈ ds, c.isDigit = true)
    (hsome : ds ≠ []) (hmax : ds.length ≤ max)
    (hend : (rest.take (max - ds.length)).takeWhile Char.isDigit = []) :
    number? max (ds ++ rest) = some (digitsValue ds, rest) := by
  have htaken : ((ds ++ rest).take max).takeWhile Char.isDigit = ds := by
    rw [List.take_append, List.take_of_length_le hmax,
      List.takeWhile_append_of_pos (by simpa using hdigits), hend, List.append_nil]
  simp [number?, htaken, hsome]

/-- A padded number is read back, if it fills the field. -/
theorem number?_pad {width n : Nat} (hwidth : 0 < width) (hn : n < 10 ^ width)
    (rest : List Char) : number? width (pad width n ++ rest) = some (n, rest) := by
  have hlength := length_pad hwidth hn
  have hread : number? width (pad width n ++ rest) = some (digitsValue (pad width n), rest) :=
    number?_append (fun _ => isDigit_of_mem_pad) (pad_ne_nil width n) (by omega)
      (by simp [hlength])
  rw [hread, digitsValue_pad]

/-! ### Fields -/

theorem not_isBlank_of_isDigit {c : Char} (h : c.isDigit = true) : Text.isBlank c = false := by
  have hrange : 48 ≤ c.toNat ∧ c.toNat ≤ 57 := by
    simpa [Char.isDigit, UInt32.le_iff_toNat_le] using h
  unfold Text.isBlank
  simp only [Bool.or_eq_false_iff, Bool.and_eq_false_iff, decide_eq_false_iff_not,
    beq_eq_false_iff_ne]
  omega

theorem trimStart_cons {c : Char} (h : Text.isBlank c = false) (cs : List Char) :
    Text.trimStart (c :: cs) = c :: cs := by
  simp [Text.trimStart, h]

/-- No blanks stand in front of a padded number. -/
theorem trimStart_pad (width n : Nat) (rest : List Char) :
    Text.trimStart (pad width n ++ rest) = pad width n ++ rest := by
  obtain ⟨c, cs, hpad⟩ := List.exists_cons_of_ne_nil (pad_ne_nil width n)
  have hdigit := isDigit_of_mem_pad (hpad ▸ List.mem_cons_self : c ∈ pad width n)
  rw [hpad, List.cons_append, trimStart_cons (not_isBlank_of_isDigit hdigit)]

/-- A field of two digits is read back. -/
theorem field?_pad {n : Nat} (hn : n < 100) (rest : List Char) :
    field? (pad 2 n ++ rest) = some (n, rest) := by
  rw [field?, trimStart_pad]
  exact number?_pad (by decide) hn rest

theorem mark?_self {c : Char} (h : Text.isBlank c = false) (rest : List Char) :
    mark? c (c :: rest) = some rest := by
  simp [mark?, trimStart_cons h]

/-- A padded number that a dash ends is read back from a field of any width. -/
theorem number?_pad_dash (n : Nat) (rest : List Char) :
    number? (pad 4 n ++ '-' :: rest).length (pad 4 n ++ '-' :: rest) =
      some (n, '-' :: rest) := by
  have hend : ((('-' :: rest).take ((pad 4 n ++ '-' :: rest).length - (pad 4 n).length))
      |>.takeWhile Char.isDigit) = [] := by
    have htake : (pad 4 n ++ '-' :: rest).length - (pad 4 n).length = rest.length + 1 := by
      simp
    rw [htake, List.take_succ_cons, List.takeWhile_cons]
    rfl
  have hread := number?_append (fun _ => isDigit_of_mem_pad) (pad_ne_nil 4 n) (by simp) hend
  rw [hread, digitsValue_pad]

/-- A year is read back in front of the dash of the month. -/
theorem year?_yearText (year : Int) (rest : List Char) :
    year? (yearText year ++ '-' :: rest) = some (year, '-' :: rest) := by
  unfold yearText
  split
  · -- four digits without a sign
    rename_i hplain
    have hread : number? 4 (pad 4 year.toNat ++ '-' :: rest) = some (year.toNat, '-' :: rest) :=
      number?_pad (by decide) (by omega) ('-' :: rest)
    obtain ⟨c, cs, hpad⟩ := List.exists_cons_of_ne_nil (pad_ne_nil 4 year.toNat)
    have hdigit := isDigit_of_mem_pad (hpad ▸ List.mem_cons_self : c ∈ pad 4 year.toNat)
    have hsign : c ≠ '-' ∧ c ≠ '+' := by
      constructor <;> rintro rfl <;> cases hdigit
    have hyear : ((year.toNat : Nat) : Int) = year := by omega
    rw [hpad, List.cons_append] at hread ⊢
    rw [year?, trimStart_cons (not_isBlank_of_isDigit hdigit)]
    split
    · rename_i h
      exact absurd (List.cons.inj h).1 hsign.1
    · rename_i h
      exact absurd (List.cons.inj h).1 hsign.2
    · simp only [hread, Option.map_some, hyear]
  · rename_i hsigned
    by_cases hnegative : year < 0
    · have hyear : -((year.natAbs : Nat) : Int) = year := by omega
      rw [if_pos hnegative, List.cons_append, year?, trimStart_cons (by decide)]
      simp only [number?_pad_dash, Option.map_some, hyear]
    · have hyear : ((year.natAbs : Nat) : Int) = year := by omega
      rw [if_neg hnegative, List.cons_append, year?, trimStart_cons (by decide)]
      simp only [number?_pad_dash, Option.map_some, hyear]

/-- A fraction is read back in front of the mark of universal time. -/
theorem fraction?_fractionText {nano : Nat} (hnano : nano < 1000000000) :
    fraction? (fractionText nano ++ ['Z']) = some (nano, ['Z']) := by
  -- a point and the first digits of the nine, the rest being zeros
  have hread {width n : Nat} (hwidth : 0 < width) (hnine : width ≤ 9) (hn : n < 10 ^ width) :
      fraction? ('.' :: pad width n ++ ['Z']) = some (n * 10 ^ (9 - width), ['Z']) := by
    have hlength := length_pad hwidth hn
    have hdigits : (pad width n ++ ['Z']).takeWhile Char.isDigit = pad width n := by
      rw [List.takeWhile_append_of_pos fun _ => isDigit_of_mem_pad]
      simp
    have hfilled : (pad width n ++ List.replicate 9 '0').take 9 =
        pad width n ++ List.replicate (9 - width) '0' := by
      have hmin : min (9 - width) 9 = 9 - width := by omega
      rw [List.take_append, List.take_of_length_le (by omega), hlength, List.take_replicate, hmin]
    have hvalue : digitsValue ((pad width n ++ List.replicate 9 '0').take 9) =
        n * 10 ^ (9 - width) := by
      rw [hfilled, digitsValue_append_zeros, digitsValue_pad]
    have hrest : (pad width n ++ ['Z']).drop (pad width n).length = ['Z'] := by simp
    simp only [List.cons_append, fraction?, hdigits, hvalue, hrest]
    simp [pad_ne_nil]
  unfold fractionText
  split
  · rename_i hzero
    rw [hzero]
    rfl
  split
  · rw [hread (by decide) (by decide) (by omega)]
    simp only [Option.some.injEq, Prod.mk.injEq, and_true]
    omega
  split
  · rw [hread (by decide) (by decide) (by omega)]
    simp only [Option.some.injEq, Prod.mk.injEq, and_true]
    omega
  · rw [hread (by decide) (by decide) (by omega)]
    simp

/-! ### Timestamps -/

/-- The clock is read back, leap seconds included. -/
theorem clock?_fields {second nano : Nat} (h : IsClock second nano) :
    clock? (second / 3600) (second / 60 % 60)
        (second % 60 + if nano < 1000000000 then 0 else 1) (nano % 1000000000) =
      some (second, nano) := by
  obtain ⟨hday, hnano, hleap⟩ := h
  by_cases hplain : nano < 1000000000
  · rw [if_pos hplain, clock?, if_pos (by omega)]
    simp only [Option.some.injEq, Prod.mk.injEq]
    omega
  · have hlast := hleap (by omega)
    rw [if_neg hplain, clock?, if_neg (by omega), if_pos (by omega)]
    simp only [Option.some.injEq, Prod.mk.injEq]
    omega

/-- A text is read field by field. -/
theorem ofChars?_of_fields {cs r₁ r₂ r₃ r₄ r₅ r₆ : List Char} {year : Int}
    {month day hour minute second nano : Nat} {t : Timestamp}
    (hyear : year? cs = some (year, '-' :: r₁)) (hmonth : field? r₁ = some (month, '-' :: r₂))
    (hday : field? r₂ = some (day, 'T' :: r₃)) (hhour : field? r₃ = some (hour, ':' :: r₄))
    (hminute : field? r₄ = some (minute, ':' :: r₅)) (hsecond : field? r₅ = some (second, r₆))
    (hnano : fraction? r₆ = some (nano, ['Z'])) (hdate : Date.of? year month day = some t.date)
    (hclock : clock? hour minute second nano = some (t.second, t.nano)) :
    ofChars? cs = some t := by
  have hzone : offset? (Text.trimStart ['Z']) = some (0, []) := by decide
  unfold ofChars?
  refine Option.bind_eq_some_iff.2 ⟨_, hyear, ?_⟩
  refine Option.bind_eq_some_iff.2 ⟨_, mark?_self (by decide) r₁, ?_⟩
  refine Option.bind_eq_some_iff.2 ⟨_, hmonth, ?_⟩
  refine Option.bind_eq_some_iff.2 ⟨_, mark?_self (by decide) r₂, ?_⟩
  refine Option.bind_eq_some_iff.2 ⟨_, hday, ?_⟩
  dsimp only
  rw [if_pos (.inl rfl)]
  refine Option.bind_eq_some_iff.2 ⟨r₃, rfl, ?_⟩
  refine Option.bind_eq_some_iff.2 ⟨_, hhour, ?_⟩
  refine Option.bind_eq_some_iff.2 ⟨_, mark?_self (by decide) r₄, ?_⟩
  refine Option.bind_eq_some_iff.2 ⟨_, hminute, ?_⟩
  refine Option.bind_eq_some_iff.2 ⟨_, mark?_self (by decide) r₅, ?_⟩
  refine Option.bind_eq_some_iff.2 ⟨_, hsecond, ?_⟩
  refine Option.bind_eq_some_iff.2 ⟨_, hnano, ?_⟩
  refine Option.bind_eq_some_iff.2 ⟨_, hzone, ?_⟩
  refine Option.bind_eq_some_iff.2 ⟨_, hdate, ?_⟩
  exact Option.bind_eq_some_iff.2 ⟨_, hclock, t.shift?_zero⟩

/-- **A timestamp is read back.** -/
theorem ofChars?_toChars (t : Timestamp) : ofChars? t.toChars = some t := by
  obtain ⟨hday, hnano, hleap⟩ := t.isClock
  have hmonth := t.date.month_le
  have hdays : t.date.day < 100 := by
    have hle := t.date.isDate.2.2.2
    have hmonths : daysIn t.date.year t.date.month ≤ 31 := by
      unfold daysIn
      split <;> try split
      all_goals omega
    omega
  have hsecond : (t.second % 60 + if t.nano < 1000000000 then 0 else 1) < 100 := by
    split <;> omega
  have hread := ofChars?_of_fields (year?_yearText t.date.year _)
    (field?_pad (show t.date.month < 100 by omega) _) (field?_pad hdays _)
    (field?_pad (show t.second / 3600 < 100 by omega) _)
    (field?_pad (show t.second / 60 % 60 < 100 by omega) _) (field?_pad hsecond _)
    (fraction?_fractionText (show t.nano % 1000000000 < 1000000000 by omega))
    t.date.of?_self (clock?_fields t.isClock)
  simpa only [toChars, List.append_assoc, List.cons_append] using hread

theorem ofText?_toText (t : Timestamp) : ofText? t.toText = some t := by
  rw [ofText?, toText, String.toList_ofList, ofChars?_toChars]

end KeyCustody.Timestamp
