import KeyCustody.Bytes

/-!
# Base64

The standard alphabet of RFC 4648 with padding.  Only what the encoder writes is read:
padding is required, stands at the end alone, and the bits it leaves over are zero.
Main statement:

* `decode?_encode` — reading what was written gives the octets again.
-/

namespace KeyCustody.Base64

/-- The digit of a number below 64. -/
def digit (n : Nat) : UInt8 :=
  UInt8.ofNat
    (if n < 26 then 65 + n
    else if n < 52 then 71 + n
    else if n < 62 then n - 4
    else if n = 62 then 43
    else 47)

/-- The number of a digit. -/
def value? (x : UInt8) : Option Nat :=
  let n := x.toNat
  if 65 ≤ n ∧ n ≤ 90 then some (n - 65)
  else if 97 ≤ n ∧ n ≤ 122 then some (n - 71)
  else if 48 ≤ n ∧ n ≤ 57 then some (n + 4)
  else if n = 43 then some 62
  else if n = 47 then some 63
  else none

/-- The sign that fills the last group. -/
def padding : UInt8 := 61

/-- Three octets become four digits. -/
def encode : Bytes → Bytes
  | [] => []
  | [x] => [digit (x.toNat / 4), digit (x.toNat % 4 * 16), padding, padding]
  | [x, y] =>
    [digit (x.toNat / 4), digit (x.toNat % 4 * 16 + y.toNat / 16), digit (y.toNat % 16 * 4),
      padding]
  | x :: y :: z :: rest =>
    digit (x.toNat / 4) :: digit (x.toNat % 4 * 16 + y.toNat / 16) ::
      digit (y.toNat % 16 * 4 + z.toNat / 64) :: digit (z.toNat % 64) :: encode rest

/-- Four digits become three octets, and fewer in a padded last group. -/
def decode? : Bytes → Option Bytes
  | [] => some []
  | a :: b :: c :: d :: rest =>
    if d = padding then
      if rest.isEmpty then do
        let p ← value? a
        let q ← value? b
        if c = padding then
          if q % 16 = 0 then some [UInt8.ofNat (p * 4 + q / 16)] else none
        else
          let r ← value? c
          if r % 4 = 0 then
            some [UInt8.ofNat (p * 4 + q / 16), UInt8.ofNat (q % 16 * 16 + r / 4)]
          else none
      else none
    else do
      let p ← value? a
      let q ← value? b
      let r ← value? c
      let s ← value? d
      let more ← decode? rest
      some (UInt8.ofNat (p * 4 + q / 16) :: UInt8.ofNat (q % 16 * 16 + r / 4) ::
        UInt8.ofNat (r % 4 * 64 + s) :: more)
  | _ => none

theorem value?_digit {n : Nat} (h : n < 64) : value? (digit n) = some n := by
  have all : ∀ n : Fin 64, value? (digit n.val) = some n.val := by decide
  exact all ⟨n, h⟩

theorem digit_ne_padding {n : Nat} (h : n < 64) : digit n ≠ padding := by
  have all : ∀ n : Fin 64, digit n.val ≠ padding := by decide
  exact all ⟨n, h⟩

/-- A digit's value is below 64, so the octet put together from its parts is the octet. -/
theorem ofNat_eq {x : UInt8} {n : Nat} (h : n = x.toNat) : UInt8.ofNat n = x := by
  rw [h, UInt8.ofNat_toNat]

/-- Reading what was written gives the octets again. -/
theorem decode?_encode (b : Bytes) : decode? (encode b) = some b := by
  fun_induction encode b with
  | case1 => rfl
  | case2 x =>
    have hx := x.toNat_lt
    simp only [decode?, if_true, List.isEmpty_nil]
    rw [value?_digit (by omega), value?_digit (by omega)]
    have e : UInt8.ofNat (x.toNat / 4 * 4 + x.toNat % 4 * 16 / 16) = x := ofNat_eq (by omega)
    have z : x.toNat % 4 * 16 % 16 = 0 := by omega
    simp only [Option.bind_eq_bind, Option.bind_some, if_true, z, e]
  | case3 x y =>
    have hx := x.toNat_lt
    have hy := y.toNat_lt
    have hne : digit (y.toNat % 16 * 4) ≠ padding := digit_ne_padding (by omega)
    simp only [decode?, if_true, List.isEmpty_nil, if_neg hne]
    rw [value?_digit (by omega), value?_digit (by omega), value?_digit (by omega)]
    have e1 : UInt8.ofNat (x.toNat / 4 * 4 + (x.toNat % 4 * 16 + y.toNat / 16) / 16) = x :=
      ofNat_eq (by omega)
    have e2 :
        UInt8.ofNat ((x.toNat % 4 * 16 + y.toNat / 16) % 16 * 16 + y.toNat % 16 * 4 / 4) = y :=
      ofNat_eq (by omega)
    have z : y.toNat % 16 * 4 % 4 = 0 := by omega
    simp only [Option.bind_eq_bind, Option.bind_some, if_true, z, e1, e2]
  | case4 x y z rest ih =>
    have hx := x.toNat_lt
    have hy := y.toNat_lt
    have hz := z.toNat_lt
    have hne : digit (z.toNat % 64) ≠ padding := digit_ne_padding (by omega)
    simp only [decode?, if_neg hne]
    rw [value?_digit (by omega), value?_digit (by omega), value?_digit (by omega),
      value?_digit (by omega), ih]
    have e1 : UInt8.ofNat (x.toNat / 4 * 4 + (x.toNat % 4 * 16 + y.toNat / 16) / 16) = x :=
      ofNat_eq (by omega)
    have e2 : UInt8.ofNat ((x.toNat % 4 * 16 + y.toNat / 16) % 16 * 16 +
        (y.toNat % 16 * 4 + z.toNat / 64) / 4) = y := ofNat_eq (by omega)
    have e3 : UInt8.ofNat ((y.toNat % 16 * 4 + z.toNat / 64) % 4 * 64 + z.toNat % 64) = z :=
      ofNat_eq (by omega)
    simp only [Option.bind_eq_bind, Option.bind_some, e1, e2, e3]

end KeyCustody.Base64
