import KeyCustody.Bytes

/-!
# File names

A stored name becomes the name of one file.  A percent sign, a slash and a NUL are written
as a percent sign and two hexadecimal digits, and so is a dot in front, which keeps hidden
files out of the listing.  Main statement:

* `decode?_encode` — a name is read back from its file name.
-/

namespace KeyCustody.FileName

/-- How one character behind the first is written. -/
def escape (c : Char) : List Char :=
  if c = '%' then ['%', '2', '5']
  else if c = '/' then ['%', '2', 'F']
  else if c = '\x00' then ['%', '0', '0']
  else [c]

/-- The characters of the file name: a dot in front is escaped too. -/
def encodeChars : List Char → List Char
  | [] => []
  | c :: cs => (if c = '.' then ['%', '2', 'E'] else escape c) ++ cs.flatMap escape

/-- The file name of a stored name. -/
def encode (name : String) : Bytes :=
  Bytes.ofText (String.ofList (encodeChars name.toList))

/-- The value of a hexadecimal digit. -/
def digit? (c : Char) : Option Nat :=
  if c.toNat < 128 then Bytes.hexValue? (UInt8.ofNat c.toNat) else none

/-- The octet that two characters behind a percent sign stand for.  A plus sign may take the
place of the first digit. -/
def octet? (a b : Char) : Option UInt8 := do
  let hi ← if a = '+' then some 0 else digit? a
  let lo ← digit? b
  pure (UInt8.ofNat (16 * hi + lo))

/-- The octets that the characters of a file name stand for. -/
def decodeChars? : List Char → Option Bytes
  | [] => some []
  | c :: cs =>
    if c = '%' then
      match cs with
      | a :: b :: rest => do
        let x ← octet? a b
        let more ← decodeChars? rest
        pure (x :: more)
      | _ => none
    else do
      let more ← decodeChars? cs
      pure (Bytes.ofText (String.singleton c) ++ more)

/-- The stored name of a file name, if it has one.  Hidden files have none. -/
def decode? (fileName : Bytes) : Option String := do
  let text ← Bytes.text? fileName
  if text.toList.head? = some '.' then none
  else Bytes.text? (← decodeChars? text.toList)

theorem singleton_append_ofList (c : Char) (cs : List Char) :
    String.singleton c ++ String.ofList cs = String.ofList (c :: cs) := by
  rw [← String.toList_inj]
  simp

/-- A percent sign and two digits are read as one octet. -/
theorem decodeChars?_percent {a b : Char} {x : UInt8} (h : octet? a b = some x)
    (cs : List Char) :
    decodeChars? ('%' :: a :: b :: cs) = (decodeChars? cs).map (x :: ·) := by
  rw [decodeChars?, if_pos rfl, h]
  cases decodeChars? cs <;> rfl

/-- Any other character is read as itself. -/
theorem decodeChars?_plain {c : Char} (h : c ≠ '%') (cs : List Char) :
    decodeChars? (c :: cs) =
      (decodeChars? cs).map (Bytes.ofText (String.singleton c) ++ ·) := by
  rw [decodeChars?.eq_def]
  simp only [if_neg h]
  cases decodeChars? cs <;> rfl

/-- What was written for a character is read as its octets. -/
theorem decodeChars?_escape (c : Char) (cs : List Char) :
    decodeChars? (escape c ++ cs) =
      (decodeChars? cs).map (Bytes.ofText (String.singleton c) ++ ·) := by
  unfold escape
  split
  · subst_vars
    exact decodeChars?_percent (by decide) cs
  split
  · subst_vars
    exact decodeChars?_percent (by decide) cs
  split
  · subst_vars
    exact decodeChars?_percent (by decide) cs
  · exact decodeChars?_plain ‹_› cs

/-- What was written for a text is read as its octets. -/
theorem decodeChars?_escaped (cs : List Char) :
    decodeChars? (cs.flatMap escape) = some (Bytes.ofText (String.ofList cs)) := by
  induction cs with
  | nil => rfl
  | cons c cs ih =>
    rw [List.flatMap_cons, decodeChars?_escape, ih, Option.map_some, ← Bytes.ofText_append,
      singleton_append_ofList]

/-- The dot in front is read as a dot. -/
theorem decodeChars?_encodeChars (cs : List Char) :
    decodeChars? (encodeChars cs) = some (Bytes.ofText (String.ofList cs)) := by
  cases cs with
  | nil => rfl
  | cons c cs =>
    rw [encodeChars]
    split
    · subst_vars
      have h : octet? '2' 'E' = some 0x2E := by decide
      rw [List.cons_append, List.cons_append, List.cons_append, List.nil_append,
        decodeChars?_percent h, decodeChars?_escaped, Option.map_some,
        ← singleton_append_ofList, Bytes.ofText_append]
      rfl
    · rw [← List.flatMap_cons, decodeChars?_escaped]

/-- No file name starts with a dot. -/
theorem head?_encodeChars (cs : List Char) : (encodeChars cs).head? ≠ some '.' := by
  cases cs with
  | nil => simp [encodeChars]
  | cons c cs =>
    by_cases hc : c = '.'
    · simp [encodeChars, hc]
    · simp only [encodeChars, if_neg hc, escape]
      split
      · simp
      · split
        · simp
        · split <;> simp [hc]

/-- A name is read back from its file name. -/
theorem decode?_encode (name : String) : decode? (encode name) = some name := by
  simp only [decode?, encode, Bytes.text?_ofText, Option.bind_eq_bind, Option.bind_some,
    String.toList_ofList, if_neg (head?_encodeChars _), decodeChars?_encodeChars,
    String.ofList_toList]

end KeyCustody.FileName
