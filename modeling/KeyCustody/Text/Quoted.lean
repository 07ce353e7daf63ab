import KeyCustody.Text.Printable

/-!
# Quoted texts

Messages show names in double quotes.  A quote and a backslash are written behind a
backslash, four controls have a letter of their own, and every other character that
does not print, or that would extend the grapheme before it, is written as its code
point in braces.  Main statement:

* `quoted_eq_of_plain` — a text of plain characters is written as it is between quotes.
-/

namespace KeyCustody.Text

/-- The digits of a number in hexadecimal, without leading zeros. -/
def hexDigits (n : Nat) : List Char :=
  Nat.toDigits 16 n

/-- How one character is written inside a quoted text. -/
def quoteChar (c : Char) : List Char :=
  if c = '\x00' then ['\\', '0']
  else if c = '\t' then ['\\', 't']
  else if c = '\r' then ['\\', 'r']
  else if c = '\n' then ['\\', 'n']
  else if c = '"' then ['\\', '"']
  else if c = '\\' then ['\\', '\\']
  else if extendsGrapheme c || !isPrintable c then
    ['\\', 'u', '\x7b'] ++ hexDigits c.toNat ++ ['\x7d']
  else [c]

/-- The text between double quotes, with everything escaped that would not print. -/
def quoted (s : String) : String :=
  String.ofList ('"' :: s.toList.flatMap quoteChar ++ ['"'])

/-- A character that a quoted text shows as it is. -/
def IsPlain (c : Char) : Prop :=
  isPrintable c = true ∧ extendsGrapheme c = false ∧ c ≠ '"' ∧ c ≠ '\\'

theorem quoteChar_of_plain {c : Char} (h : IsPlain c) : quoteChar c = [c] := by
  obtain ⟨hp, he, hq, hb⟩ := h
  have ne : ∀ d : Char, isPrintable d = false → c ≠ d := by
    intro d hd hcd
    rw [hcd, hd] at hp
    cases hp
  simp [quoteChar, ne '\x00' (by decide), ne '\t' (by decide), ne '\r' (by decide),
    ne '\n' (by decide), hq, hb, he, hp]

/-- A text of plain characters is written as it is between quotes. -/
theorem quoted_eq_of_plain {s : String} (h : ∀ c ∈ s.toList, IsPlain c) :
    (quoted s).toList = '"' :: s.toList ++ ['"'] := by
  have hflat : ∀ cs : List Char, (∀ c ∈ cs, IsPlain c) → cs.flatMap quoteChar = cs := by
    intro cs
    induction cs with
    | nil => intro _; rfl
    | cons c cs ih =>
      intro hcs
      rw [List.flatMap_cons, quoteChar_of_plain (hcs c (by simp)),
        ih fun d hd => hcs d (by simp [hd])]
      rfl
  simp [quoted, hflat _ h]

end KeyCustody.Text
