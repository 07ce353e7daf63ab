/-!
# Octets

Stored values, file names and encoded records are lists of octets.  Text enters
and leaves them through UTF-8.  Main statement:

* `text?_ofText` — the octets of a text read back as that text, so
  `ofText` keeps different texts apart (`ofText_injective`).
-/

namespace KeyCustody

/-- A stored value, a file name or an encoded text. -/
abbrev Bytes := List UInt8

namespace Bytes

/-- The UTF-8 octets of a text. -/
def ofText (s : String) : Bytes :=
  s.toByteArray.data.toList

/-- The text the octets spell, if they are well-formed UTF-8. -/
def text? (b : Bytes) : Option String :=
  String.fromUTF8? ⟨b.toArray⟩

/-- Writing a text as octets and reading them gives the text again. -/
theorem text?_ofText (s : String) : text? (ofText s) = some s := by
  obtain ⟨a, h⟩ := s
  have e : (⟨a.data.toList.toArray⟩ : ByteArray) = a := by cases a; simp
  simp only [text?, ofText, String.fromUTF8?, e]
  rw [dif_pos h]
  rfl

/-- Different texts have different octets. -/
theorem ofText_injective {s t : String} (h : ofText s = ofText t) : s = t := by
  have := text?_ofText s
  rw [h, text?_ofText] at this
  exact (Option.some.inj this).symm

/-- The octets of two texts in a row. -/
theorem ofText_append (s t : String) : ofText (s ++ t) = ofText s ++ ofText t := by
  simp [ofText, String.toByteArray_append]

/-- The hexadecimal digit of a number below sixteen, in lower case. -/
def hexDigit (n : Nat) : Char :=
  if n < 10 then Char.ofNat (48 + n) else Char.ofNat (87 + n)

/-- Two hexadecimal digits per octet, in lower case. -/
def toHex (b : Bytes) : String :=
  String.ofList (b.flatMap fun x => [hexDigit (x.toNat / 16), hexDigit (x.toNat % 16)])

/-- The value of an ASCII hexadecimal digit of either case. -/
def hexValue? (x : UInt8) : Option Nat :=
  let n := x.toNat
  if 48 ≤ n ∧ n ≤ 57 then some (n - 48)
  else if 65 ≤ n ∧ n ≤ 70 then some (n - 55)
  else if 97 ≤ n ∧ n ≤ 102 then some (n - 87)
  else none

/-- Reads an even number of hexadecimal digits. -/
def ofHex? : Bytes → Option Bytes
  | [] => some []
  | a :: b :: rest => do
    let hi ← hexValue? a
    let lo ← hexValue? b
    let more ← ofHex? rest
    pure (UInt8.ofNat (16 * hi + lo) :: more)
  | [_] => none

end Bytes

end KeyCustody
