import KeyCustody.Format.Json
import KeyCustody.Identity
import KeyCustody.Time.Timestamp

/-!
# Records

A record is a value that is stored as a JSON document.  `Record.encode` gives the octets
stored, `Record.decode?` reads them and fails on what is no document or no record of the
kind.  The functions below write and read single fields.  A field that holds its default
is left out, and a field that is left out holds its default.
-/

namespace KeyCustody

/-- A kind of value that is stored as a JSON document. -/
class Record (α : Type) where
  toJson : α → Json
  ofJson? : Json → Option α

namespace Record

/-- The octets stored for a record. -/
def encode {α : Type} [Record α] (a : α) : Bytes :=
  (toJson a).render

/-- The record that the octets hold. -/
def decode? {α : Type} [Record α] (b : Bytes) : Option α := do
  ofJson? (← Json.read? b)

/-! ### Fields to write -/

/-- The members of a document, fields first to last. -/
abbrev Members := List (Bytes × Json)

/-- A field that is always written. -/
def member (name : String) (v : Json) : Members :=
  [(Bytes.ofText name, v)]

/-- A field that is written if there is a value. -/
def memberIf (name : String) : Option Json → Members
  | some v => member name v
  | none => []

/-- A time. -/
def timeJson (t : Timestamp) : Json :=
  .ofText t.toText

/-- A list of texts. -/
def textsJson (ts : List String) : Json :=
  .array (ts.map .ofText)

/-- A text or nothing, which is written too. -/
def nullableJson : Option String → Json
  | some s => .ofText s
  | none => .null

/-- Who made the record; the unknown identity is left out. -/
def createdByMember (i : Identity) : Members :=
  memberIf "created_by" (if i.isUnknown then none else some (.ofText i.text))

/-! ### Fields to read -/

/-- A field that has to be there. -/
def required? {α : Type} (read : Json → Option α) (field : Option Json) : Option α :=
  field.bind read

/-- A field that has a default. -/
def orDefault? {α : Type} (default : α) (read : Json → Option α) : Option Json → Option α
  | none => some default
  | some v => read v

/-- A value, or `null` for none. -/
def nullable? {α : Type} (read : Json → Option α) : Json → Option (Option α)
  | .null => some none
  | v => (read v).map some

def time? (v : Json) : Option Timestamp := do
  Timestamp.ofText? (← v.text?)

def identity? (v : Json) : Option Identity :=
  v.text?.map Identity.mk

def texts? : Json → Option (List String)
  | .array items => items.mapM Json.text?
  | _ => none

def bool? : Json → Option Bool
  | .bool b => some b
  | _ => none

/-- One of several names: the name as a string, or an object that has it for its only key. -/
def name? : Json → Option String
  | .string raw => Json.rawText? raw
  | .object [(k, .null)] => Json.rawText? k
  | _ => none

end Record

end KeyCustody
