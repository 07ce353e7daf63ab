import KeyCustody.Bytes

/-!
# The order of octets

Tables keep their names in the order of code points.  The octets of names are in the same
order: of two characters, an octet tells the one that comes first, whatever follows them.  A
longer code has a greater first octet, and within one length the octets show the digits of the
code point to the base 64, from the front.  Main statement:

* `Bytes.ofText_lt_iff`: texts are in the order of their octets.
-/

namespace KeyCustody.Bytes

/-- The octets of a text are those of its characters in a row. -/
theorem ofText_eq_flatMap (s : String) : ofText s = s.toList.flatMap String.utf8EncodeChar := by
  rw [ofText, ← String.utf8Encode_toList, List.utf8Encode]
  simp

/-- An octet shows a digit above the mark of its place. -/
theorem toNat_octet (n : Nat) {digits mark : Nat} (hdigits : 0 < digits)
    (hmark : digits + mark ≤ 256) :
    (UInt8.ofNat (n % digits + mark)).toNat = n % digits + mark := by
  have hdigit : n % digits < digits := Nat.mod_lt n hdigits
  rw [UInt8.toNat_ofNat']
  omega

/-- Characters in order are told apart by an octet, whatever follows them. -/
theorem encodeChar_append_lt {c d : Char} (h : c < d) (x y : Bytes) :
    String.utf8EncodeChar c ++ x < String.utf8EncodeChar d ++ y := by
  have hlt : c.val.toNat < d.val.toNat := UInt32.lt_iff_toNat_lt.1 h
  have hd : d.val.toNat < 1114112 := by
    have hvalid := d.valid
    simp only [UInt32.isValidChar, Nat.isValidChar] at hvalid
    omega
  simp only [String.utf8EncodeChar]
  generalize c.val.toNat = m at hlt
  generalize d.val.toNat = n at hlt hd
  -- the digits of a code point to the base 64, one from the other
  have hdigits (k : Nat) : k / 4096 = k / 64 / 64 ∧ k / 262144 = k / 64 / 64 / 64 := by omega
  have hsingle (k : Nat) (hk : k ≤ 127) : (UInt8.ofNat k).toNat = k := by
    rw [UInt8.toNat_ofNat']
    omega
  have htwo (k : Nat) : (UInt8.ofNat (k % 32 + 192)).toNat = k % 32 + 192 :=
    toNat_octet k (by decide) (by decide)
  have hthree (k : Nat) : (UInt8.ofNat (k % 16 + 224)).toNat = k % 16 + 224 :=
    toNat_octet k (by decide) (by decide)
  have hfour (k : Nat) : (UInt8.ofNat (k % 8 + 240)).toNat = k % 8 + 240 :=
    toNat_octet k (by decide) (by decide)
  have hnext (k : Nat) : (UInt8.ofNat (k % 64 + 128)).toNat = k % 64 + 128 :=
    toNat_octet k (by decide) (by decide)
  repeat' split
  all_goals
    simp (disch := assumption) only [List.cons_append, List.nil_append, List.cons_lt_cons_iff,
      UInt8.lt_iff_toNat_lt, ← UInt8.toNat_inj, hdigits, htwo, hthree, hfour, hnext, hsingle]
  all_goals omega

theorem ofText_lt {s t : String} (h : s < t) : ofText s < ofText t := by
  rw [ofText_eq_flatMap, ofText_eq_flatMap]
  have h : s.toList < t.toList := h
  generalize s.toList = cs at h
  generalize t.toList = ds at h
  induction h with
  | @nil d ds =>
      obtain ⟨x, u, hu⟩ := List.exists_cons_of_ne_nil (String.utf8EncodeChar_ne_nil (c := d))
      rw [List.flatMap_cons, hu]
      exact List.nil_lt_cons _ _
  | rel h => exact encodeChar_append_lt h _ _
  | @cons c cs ds _ ih =>
      rw [List.flatMap_cons, List.flatMap_cons]
      generalize String.utf8EncodeChar c = u
      induction u with
      | nil => exact ih
      | cons x u ihu => exact List.cons_lt_cons_iff.2 (.inr ⟨rfl, ihu⟩)

/-- **Texts are in the order of their octets.** -/
theorem ofText_lt_iff {s t : String} : ofText s < ofText t ↔ s < t := by
  refine ⟨fun h => String.not_le.1 fun hle => ?_, ofText_lt⟩
  rcases Std.le_iff_lt_or_eq.1 hle with hlt | heq
  · exact List.lt_irrefl _ (List.lt_trans h (ofText_lt hlt))
  · rw [heq] at h
    exact List.lt_irrefl _ h

end KeyCustody.Bytes
