import KeyCustody.Bytes

/-!
# JSON

Documents of RFC 8259.  A string is kept as it is written, with its escapes, because a
reader that skips a string asks less of it than a reader that wants its text: a lone
surrogate or ill-formed UTF-8 spoils only a text that is asked for (`Json.text?`).
Numbers too are kept as written.  Object members keep their order and their repetitions.

`Json.render` writes a document without blanks, `Json.read?` reads one with blanks
anywhere between its parts.
-/

namespace KeyCustody

/-- A document. -/
inductive Json where
  | null
  | bool (b : Bool)
  /-- A number as it is written. -/
  | number (digits : Bytes)
  /-- A string as it is written between its quotes. -/
  | string (raw : Bytes)
  | array (items : List Json)
  | object (members : List (Bytes × Json))

namespace Json

/-! ### Texts -/

/-- One octet of a text as it is written in a string. -/
def escapeByte (x : UInt8) : Bytes :=
  if x = 0x22 then [0x5C, 0x22]
  else if x = 0x5C then [0x5C, 0x5C]
  else if x = 0x08 then [0x5C, 0x62]
  else if x = 0x09 then [0x5C, 0x74]
  else if x = 0x0A then [0x5C, 0x6E]
  else if x = 0x0C then [0x5C, 0x66]
  else if x = 0x0D then [0x5C, 0x72]
  else if x < 0x20 then
    Bytes.ofText "\\u00" ++ Bytes.ofText (Bytes.toHex [x])
  else [x]

/-- The string that has the text. -/
def ofText (s : String) : Json :=
  .string ((Bytes.ofText s).flatMap escapeByte)

/-- The octet that a letter behind a backslash stands for. -/
def unescapeByte? (x : UInt8) : Option UInt8 :=
  if x = 0x22 ∨ x = 0x5C ∨ x = 0x2F then some x
  else if x = 0x62 then some 0x08
  else if x = 0x66 then some 0x0C
  else if x = 0x6E then some 0x0A
  else if x = 0x72 then some 0x0D
  else if x = 0x74 then some 0x09
  else none

/-- The number of four hexadecimal digits. -/
def hex4? (a b c d : UInt8) : Option Nat := do
  let a ← Bytes.hexValue? a
  let b ← Bytes.hexValue? b
  let c ← Bytes.hexValue? c
  let d ← Bytes.hexValue? d
  pure (((a * 16 + b) * 16 + c) * 16 + d)

/-- The octets of a code point. -/
def codePoint (n : Nat) : Bytes :=
  Bytes.ofText (String.singleton (Char.ofNat n))

/-- The octets a string stands for.  Surrogates come in pairs or not at all. -/
def unescape? : Bytes → Option Bytes
  | [] => some []
  | 0x5C :: 0x75 :: a :: b :: c :: d :: rest => do
    let n ← hex4? a b c d
    if 0xDC00 ≤ n ∧ n ≤ 0xDFFF then none
    else if 0xD800 ≤ n ∧ n ≤ 0xDBFF then
      match rest with
      | 0x5C :: 0x75 :: e :: f :: g :: h :: rest => do
        let m ← hex4? e f g h
        if 0xDC00 ≤ m ∧ m ≤ 0xDFFF then
          let more ← unescape? rest
          pure (codePoint ((n - 0xD800) * 0x400 + (m - 0xDC00) + 0x10000) ++ more)
        else none
      | _ => none
    else
      let more ← unescape? rest
      pure (codePoint n ++ more)
  | 0x5C :: x :: rest => do
    let y ← unescapeByte? x
    let more ← unescape? rest
    pure (y :: more)
  | [0x5C] => none
  | x :: rest => do
    let more ← unescape? rest
    pure (x :: more)

/-- The text of a string as written. -/
def rawText? (raw : Bytes) : Option String := do
  Bytes.text? (← unescape? raw)

/-- The text of a document that is a string. -/
def text? : Json → Option String
  | .string raw => rawText? raw
  | _ => none

/-! ### Writing -/

mutual

/-- The document without blanks. -/
def render : Json → Bytes
  | .null => Bytes.ofText "null"
  | .bool true => Bytes.ofText "true"
  | .bool false => Bytes.ofText "false"
  | .number digits => digits
  | .string raw => 0x22 :: raw ++ [0x22]
  | .array [] => [0x5B, 0x5D]
  | .array (v :: vs) => 0x5B :: render v ++ renderItems vs
  | .object [] => [0x7B, 0x7D]
  | .object ((k, v) :: ms) => 0x7B :: 0x22 :: k ++ 0x22 :: 0x3A :: render v ++ renderMembers ms

/-- The items behind the first, and the closing bracket. -/
def renderItems : List Json → Bytes
  | [] => [0x5D]
  | v :: vs => 0x2C :: render v ++ renderItems vs

/-- The members behind the first, and the closing brace. -/
def renderMembers : List (Bytes × Json) → Bytes
  | [] => [0x7D]
  | (k, v) :: ms => 0x2C :: 0x22 :: k ++ 0x22 :: 0x3A :: render v ++ renderMembers ms

end

/-! ### Reading -/

/-- Space, tabulator, line feed and carriage return. -/
def isBlank (x : UInt8) : Bool :=
  x == 0x20 || x == 0x09 || x == 0x0A || x == 0x0D

/-- Drops the blanks in front. -/
def skip (b : Bytes) : Bytes :=
  b.dropWhile isBlank

/-- Reads a string behind its opening quote, up to and with the closing one. -/
def string? : Bytes → Option (Bytes × Bytes)
  | [] => none
  | 0x22 :: rest => some ([], rest)
  | 0x5C :: 0x75 :: a :: b :: c :: d :: rest => do
    let _ ← hex4? a b c d
    let (raw, rest) ← string? rest
    pure (0x5C :: 0x75 :: a :: b :: c :: d :: raw, rest)
  | 0x5C :: x :: rest => do
    let _ ← unescapeByte? x
    let (raw, rest) ← string? rest
    pure (0x5C :: x :: raw, rest)
  | x :: rest =>
    if x < 0x20 then none
    else if x = 0x5C then none
    else do
      let (raw, rest) ← string? rest
      pure (x :: raw, rest)

def isDigit (x : UInt8) : Bool :=
  0x30 ≤ x && x ≤ 0x39

/-- Reads at least one digit. -/
def digits? (b : Bytes) : Option (Bytes × Bytes) :=
  let ds := b.takeWhile isDigit
  if ds.isEmpty then none else some (ds, b.dropWhile isDigit)

/-- Reads the whole part of a number, which starts with zero only if it is zero. -/
def whole? (b : Bytes) : Option (Bytes × Bytes) := do
  let (ds, rest) ← digits? b
  if ds.head? = some 0x30 ∧ ds.length ≠ 1 then none else pure (ds, rest)

/-- Reads the part of a number behind a point, if there is one. -/
def fraction? : Bytes → Option (Bytes × Bytes)
  | 0x2E :: b => do
    let (ds, rest) ← digits? b
    pure (0x2E :: ds, rest)
  | b => pure ([], b)

/-- Reads the sign and the digits of an exponent. -/
def power? : Bytes → Option (Bytes × Bytes)
  | x :: b => do
    if x = 0x2B ∨ x = 0x2D then
      let (ds, rest) ← digits? b
      pure (x :: ds, rest)
    else digits? (x :: b)
  | [] => none

/-- Reads the exponent of a number, if there is one. -/
def exponent? : Bytes → Option (Bytes × Bytes)
  | x :: b => do
    if x = 0x65 ∨ x = 0x45 then
      let (ds, rest) ← power? b
      pure (x :: ds, rest)
    else pure ([], x :: b)
  | [] => some ([], [])

/-- Reads a number without a sign. -/
def unsigned? (b : Bytes) : Option (Bytes × Bytes) := do
  let (i, b) ← whole? b
  let (f, b) ← fraction? b
  let (e, b) ← exponent? b
  pure (i ++ f ++ e, b)

/-- Reads a number. -/
def number? : Bytes → Option (Bytes × Bytes)
  | 0x2D :: b => do
    let (ds, rest) ← unsigned? b
    pure (0x2D :: ds, rest)
  | b => unsigned? b

mutual

/-- Reads one value, blanks in front of it included, and gives what stands behind it. -/
def value? : Nat → Bytes → Option (Json × Bytes)
  | 0, _ => none
  | fuel + 1, b =>
    match skip b with
    | 0x22 :: rest => (string? rest).map fun (raw, rest) => (.string raw, rest)
    | 0x5B :: rest =>
      match skip rest with
      | 0x5D :: rest => some (.array [], rest)
      | rest => (items? fuel rest).map fun (vs, rest) => (.array vs, rest)
    | 0x7B :: rest =>
      match skip rest with
      | 0x7D :: rest => some (.object [], rest)
      | rest => (members? fuel rest).map fun (ms, rest) => (.object ms, rest)
    | 0x6E :: 0x75 :: 0x6C :: 0x6C :: rest => some (.null, rest)
    | 0x74 :: 0x72 :: 0x75 :: 0x65 :: rest => some (.bool true, rest)
    | 0x66 :: 0x61 :: 0x6C :: 0x73 :: 0x65 :: rest => some (.bool false, rest)
    | rest => (number? rest).map fun (ds, rest) => (.number ds, rest)

/-- Reads the items of an array and its closing bracket. -/
def items? : Nat → Bytes → Option (List Json × Bytes)
  | 0, _ => none
  | fuel + 1, b => do
    let (v, rest) ← value? fuel b
    match skip rest with
    | 0x2C :: rest => do
      let (vs, rest) ← items? fuel rest
      pure (v :: vs, rest)
    | 0x5D :: rest => pure ([v], rest)
    | _ => none

/-- Reads the members of an object and its closing brace. -/
def members? : Nat → Bytes → Option (List (Bytes × Json) × Bytes)
  | 0, _ => none
  | fuel + 1, b =>
    match skip b with
    | 0x22 :: rest => do
      let (k, rest) ← string? rest
      match skip rest with
      | 0x3A :: rest => do
        let (v, rest) ← value? fuel rest
        match skip rest with
        | 0x2C :: rest => do
          let (ms, rest) ← members? fuel rest
          pure ((k, v) :: ms, rest)
        | 0x7D :: rest => pure ([(k, v)], rest)
        | _ => none
      | _ => none
    | _ => none

end

/-- Reads a document: one value and blanks.  Each octet carries at most two steps down. -/
def read? (b : Bytes) : Option Json := do
  let (v, rest) ← value? (2 * b.length + 2) b
  if rest.all isBlank then some v else none

/-! ### Structures -/

/-- The values of the named fields of a structure.  An object may hold them in any order
and other members besides, but none of them twice.  An array holds them in their order; the
last ones may be left out as long as `required` remain. -/
def fields? (required : Nat) (names : List String) : Json → Option (List (Option Json))
  | .array items =>
    if required ≤ items.length ∧ items.length ≤ names.length then
      some (names.zipIdx.map fun p => items[p.2]?)
    else none
  | .object members => do
    let members ← members.mapM fun (k, v) => do pure (← rawText? k, v)
    names.mapM fun name =>
      match members.filter fun m => m.1 == name with
      | [] => some none
      | [m] => some (some m.2)
      | _ => none
  | _ => none

end Json

end KeyCustody
