import KeyCustody.Audit
import KeyCustody.Proofs.Records
import Mathlib.Logic.Equiv.Defs

/-!
# Forms of records

Every kind of record is written field by field, and most fields are of a few kinds.  A
`Field` is such a kind with its laws: what is written is read back, and if an absent field
stands for a value, then only that value is left out or written as `null`.  A `Form` is a row
of fields with the same laws for the row (`Form.cons`), and a kind of record is `Formed` if a
form writes and reads it.  Main statements:

* `Formed` for keys, policies, assignments and registrations, what is told of them, and the
  events of the audit trail;
* `LawfulRecord` for every kind that is formed: records are read back.
-/

namespace KeyCustody

namespace Record

/-! ### Fields -/

/-- How a field of some kind is read and written. -/
structure Field (α : Type) where
  /-- The value of the field, which may be absent from the document. -/
  read : Option Json → Option α
  /-- What is written, unless the field is left out. -/
  write : α → Option Json
  /-- What says no more than an absent field, if an absent field is allowed. -/
  blank : Option Json
  plain_write : ∀ (a : α), ∀ v ∈ write a, v.Plain
  read_write : ∀ a : α, read (write a) = some a
  read_blank : read blank = read none
  /-- An absent field stands for what is written as `null` and for nothing else written. -/
  needed : ∀ (a : α) (v : Json), write a = some v → (read none = some a ↔ v = .null)

theorem ofText_ne_null (text : String) : Json.ofText text ≠ .null := nofun

namespace Field

/-- A field that has to be there. -/
def ofRequired {α : Type} (read : Json → Option α) (write : α → Json)
    (plain : ∀ a, (write a).Plain) (back : ∀ a, read (write a) = some a)
    (solid : ∀ a, write a ≠ .null) : Field α where
  read := required? read
  write a := some (write a)
  blank := none
  plain_write a v hv := Option.some.inj hv ▸ plain a
  read_write a := back a
  read_blank := rfl
  needed a v hv := by
    have hnull : v ≠ .null := Option.some.inj hv ▸ solid a
    exact iff_of_false nofun hnull

/-- A field that is left out if it holds its default. -/
def ofDefault {α : Type} (default : α) (read : Json → Option α) (write : α → Option Json)
    (blank : Json) (plain : ∀ (a : α), ∀ v ∈ write a, v.Plain)
    (back : ∀ a, orDefault? default read (write a) = some a)
    (same : read blank = some default)
    (solid : ∀ (a : α) (v : Json), write a = some v → a ≠ default ∧ v ≠ .null) : Field α where
  read := orDefault? default read
  write := write
  blank := some blank
  plain_write := plain
  read_write := back
  read_blank := same
  needed a v hv := by
    obtain ⟨hother, hnull⟩ := solid a v hv
    exact iff_of_false (fun hdefault => hother (Option.some.inj hdefault).symm) hnull

/-- A text. -/
def text : Field String :=
  .ofRequired Json.text? .ofText Json.plain_ofText Json.text?_ofText ofText_ne_null

/-- A time. -/
def time : Field Timestamp :=
  .ofRequired time? timeJson (fun _ => Json.plain_ofText _) time?_timeJson
    fun _ => ofText_ne_null _

/-- An identity. -/
def identity : Field Identity :=
  .ofRequired identity? (fun i => .ofText i.text) (fun _ => Json.plain_ofText _)
    (fun i => by simp [identity?, Json.text?_ofText]) fun _ => ofText_ne_null _

/-- Octets in base 64. -/
def octets : Field Bytes :=
  .ofRequired (fun v => do Base64.decode? (Bytes.ofText (← v.text?)))
    (fun b => .string (Base64.encode b)) (fun b => .string (spells_encode b))
    (fun b => by
      obtain ⟨digits, htext, hdecoded⟩ := exists_text?_encode b
      simp [htext, hdecoded])
    nofun

/-- Yes or no. -/
def flag : Field Bool :=
  .ofRequired bool? .bool .bool (fun _ => rfl) nofun

/-- A kind of event. -/
def eventType : Field EventType :=
  .ofRequired ofJson? (fun t => .ofText t.name) (fun _ => Json.plain_ofText _)
    (fun t => by
      have hname : name? (.ofText t.name) = some t.name := Json.text?_ofText t.name
      change (name? (.ofText t.name)).bind EventType.ofName? = some t
      rw [hname, Option.bind_some, EventType.ofName?_name])
    fun _ => ofText_ne_null _

/-- Who made the record, left out if it is unknown. -/
def creator : Field Identity :=
  .ofDefault .unknown identity? creatorJson (.ofText "") (fun _ _ => plain_creatorJson)
    orDefault?_creatorJson rfl
    (fun i v hv => by
      unfold creatorJson at hv
      split at hv
      · cases hv
      · rename_i hknown
        obtain rfl := Option.some.inj hv
        exact ⟨fun hunknown => hknown (Identity.isUnknown_iff.2 hunknown), ofText_ne_null _⟩)

/-- Rules, left out if there are none. -/
def rules : Field (List String) :=
  .ofDefault [] texts? rulesJson (.array []) (fun _ _ => plain_rulesJson) orDefault?_rulesJson
    rfl
    (fun rules v hv => by
      unfold rulesJson at hv
      split at hv
      · cases hv
      · rename_i hsome
        obtain rfl := Option.some.inj hv
        exact ⟨fun hnone => hsome (List.isEmpty_iff.2 hnone), nofun⟩)

/-- A time that is left out if it is not known. -/
def knownTime : Field (Option Timestamp) :=
  .ofDefault none (nullable? time?) (Option.map timeJson) .null
    (fun t v hv => by
      obtain ⟨t, -, rfl⟩ := Option.map_eq_some_iff.1 hv
      exact Json.plain_ofText _)
    orDefault?_time rfl
    (fun t v hv => by
      obtain ⟨t, rfl, rfl⟩ := Option.map_eq_some_iff.1 hv
      exact ⟨nofun, ofText_ne_null _⟩)

/-- A text or nothing, which is written as `null`. -/
def nullable : Field (Option String) where
  read := orDefault? none (nullable? Json.text?)
  write text := some (nullableJson text)
  blank := some .null
  plain_write text v hv := by
    obtain rfl := Option.some.inj hv
    cases text with
    | none => exact .null
    | some text => exact Json.plain_ofText text
  read_write text := by
    cases text with
    | none => rfl
    | some text =>
        rw [nullableJson, orDefault?, nullable?_ofText, Json.text?_ofText, Option.map_some]
  read_blank := rfl
  needed text v hv := by
    obtain rfl := Option.some.inj hv
    cases text with
    | none => exact iff_of_true rfl rfl
    | some text => exact iff_of_false nofun (ofText_ne_null text)

/-! How each kind of field is read. -/

@[simp] theorem text_read : text.read = required? Json.text? := rfl

@[simp] theorem time_read : time.read = required? time? := rfl

@[simp] theorem identity_read : identity.read = required? identity? := rfl

@[simp] theorem octets_read (field : Option Json) :
    octets.read field =
      (required? Json.text? field).bind fun digits => Base64.decode? (Bytes.ofText digits) :=
  (Option.bind_assoc field _ _).symm

@[simp] theorem flag_read : flag.read = required? bool? := rfl

@[simp] theorem eventType_read : eventType.read = required? ofJson? := rfl

@[simp] theorem creator_read : creator.read = orDefault? .unknown identity? := rfl

@[simp] theorem rules_read : rules.read = orDefault? [] texts? := rfl

@[simp] theorem knownTime_read : knownTime.read = orDefault? none (nullable? time?) := rfl

@[simp] theorem nullable_read : nullable.read = orDefault? none (nullable? Json.text?) := rfl

end Field

/-! ### Rows of fields -/

/-- The second row of members is the first, but for absent members that were filled with what
says no more. -/
inductive Padded : List (Option Json) → List (Option Json) → List (Option Json) → Prop
  | nil : Padded [] [] []
  | same (blank value : Option Json) {blanks values values' : List (Option Json)}
      (rest : Padded blanks values values') :
      Padded (blank :: blanks) (value :: values) (value :: values')
  | filled (blank : Option Json) {blanks values values' : List (Option Json)}
      (rest : Padded blanks values values') :
      Padded (blank :: blanks) (none :: values) (blank :: values')

/-- A row of fields: their names, and how the whole row is read and written. -/
structure Form (α : Type) where
  names : List String
  blanks : List (Option Json)
  read : List (Option Json) → Option α
  write : α → List (Option Json)
  length_blanks : blanks.length = names.length
  length_write : ∀ a : α, (write a).length = names.length
  plain_write : ∀ (a : α), ∀ value ∈ write a, ∀ v ∈ value, v.Plain
  read_write : ∀ a : α, read (write a) = some a
  /-- What says no more than an absent member may be put in its place. -/
  read_padded : ∀ {values values' : List (Option Json)}, Padded blanks values values' →
    read values' = read values
  /-- No written member can be left out, unless it is `null`. -/
  needed : ∀ (a : α) (before behind : List (Option Json)) (v : Json),
    write a = before ++ some v :: behind →
      (read (before ++ none :: behind) = some a ↔ v = .null)

namespace Form

variable {α β : Type}

/-- No fields. -/
def nil : Form Unit where
  names := []
  blanks := []
  read
    | [] => some ()
    | _ => none
  write _ := []
  length_blanks := rfl
  length_write _ := rfl
  plain_write _ _ hvalue := nomatch hvalue
  read_write _ := rfl
  read_padded hpadded := by
    cases hpadded
    rfl
  needed _ before _ _ hwritten := by
    cases before <;> cases hwritten

/-- One field more. -/
def cons (name : String) (f : Field α) (form : Form β) : Form (α × β) where
  names := name :: form.names
  blanks := f.blank :: form.blanks
  read
    | value :: values => do
      let a ← f.read value
      let b ← form.read values
      pure (a, b)
    | [] => none
  write p := f.write p.1 :: form.write p.2
  length_blanks := congrArg (· + 1) form.length_blanks
  length_write p := congrArg (· + 1) (form.length_write p.2)
  plain_write p :=
    List.forall_mem_cons.2 ⟨f.plain_write p.1, form.plain_write p.2⟩
  read_write p := by
    simp [f.read_write, form.read_write]
  read_padded hpadded := by
    cases hpadded with
    | same _ value hrest => simp only [form.read_padded hrest]
    | filled _ hrest => simp only [form.read_padded hrest, f.read_blank]
  needed p before behind v hwritten := by
    obtain ⟨a, b⟩ := p
    cases before with
    | nil =>
        obtain ⟨hfirst, rfl⟩ := List.cons.inj hwritten
        have hneeded := f.needed a v hfirst
        simp only [List.nil_append, form.read_write]
        rw [← hneeded]
        cases f.read none <;> simp
    | cons value before =>
        obtain ⟨rfl, hrest⟩ := List.cons.inj hwritten
        have hneeded := form.needed b before behind v hrest
        simp only [List.cons_append, f.read_write]
        rw [← hneeded]
        cases form.read (before ++ none :: behind) <;> simp

/-- The form of a kind of value that is put together from what the form reads. -/
def map (parts : α ≃ β) (form : Form β) : Form α where
  names := form.names
  blanks := form.blanks
  read values := (form.read values).map parts.symm
  write a := form.write (parts a)
  length_blanks := form.length_blanks
  length_write a := form.length_write (parts a)
  plain_write a := form.plain_write (parts a)
  read_write a := by simp [form.read_write]
  read_padded hpadded := congrArg _ (form.read_padded hpadded)
  needed a before behind v hwritten := by
    rw [← form.needed (parts a) before behind v hwritten, Option.map_eq_some_iff]
    constructor
    · intro hread
      obtain ⟨b, hb, rfl⟩ := hread
      rw [hb, Equiv.apply_symm_apply]
    · intro hread
      exact ⟨parts a, hread, parts.symm_apply_apply a⟩

end Form

end Record

open Record

/-! ### Kinds -/

theorem written_zip_cons (name : String) (names : List String) (value : Option Json)
    (values : List (Option Json)) :
    written ((name :: names).zip (value :: values)) =
      memberIf name value ++ written (names.zip values) := rfl

theorem written_zip_nil : written (([] : List String).zip []) = [] := rfl

/-- Records of the kind are written and read by a form whose names are distinct. -/
class Formed (α : Type) [Record α] where
  form : Form α
  required : Nat
  plainNames : ∀ name ∈ form.names, PlainName name
  nodup : form.names.Nodup
  toJson_eq (a : α) : toJson a = .object (written (form.names.zip (form.write a)))
  ofJson?_eq (v : Json) : ofJson? v = (v.fields? required form.names).bind form.read

/-- **Records of a form are read back.** -/
instance (priority := low) {α : Type} [Record α] [h : Formed α] : LawfulRecord α where
  plain a := by
    rw [h.toJson_eq]
    have hlength := h.form.length_write a
    have hnames : (h.form.names.zip (h.form.write a)).map Prod.fst = h.form.names :=
      List.map_fst_zip (le_of_eq hlength.symm)
    refine plain_written hnames h.plainNames fun value hvalue => ?_
    rw [List.map_snd_zip (le_of_eq hlength)] at hvalue
    exact h.form.plain_write a value hvalue
  ofJson?_toJson a := by
    have hlength := h.form.length_write a
    rw [h.toJson_eq, h.ofJson?_eq, Json.fields?_written h.required
      (List.map_fst_zip (le_of_eq hlength.symm)) h.plainNames h.nodup,
      List.map_snd_zip (le_of_eq hlength)]
    exact h.form.read_write a

/-- When a record was made and by whom. -/
def Record.Form.made : Form (Timestamp × Identity × Unit) :=
  .cons "created_at" .time (.cons "created_by" .creator .nil)

instance : Formed SealedKey where
  form := (Form.cons "value" .octets .made).map
    ⟨fun k => (k.value, k.createdAt, k.createdBy, ()), fun p => ⟨p.1, p.2.1, p.2.2.1⟩,
      fun _ => rfl, fun _ => rfl⟩
  required := 2
  plainNames := by decide +kernel
  nodup := by decide
  toJson_eq k := congrArg Json.object (by
    simp only [Form.map, Form.cons, Form.nil, Form.made, written_zip_cons,
      written_zip_nil, List.append_assoc, List.append_nil]
    rfl)
  ofJson?_eq v := by
    refine congrArg (Option.bind _) (funext fun values => ?_)
    rcases values with _ | ⟨value, _ | ⟨time, _ | ⟨creator, _ | ⟨more, values⟩⟩⟩⟩
    all_goals simp [Form.map, Form.cons, Form.nil, Form.made, Option.bind_assoc]

instance : Formed KeyInfo where
  form := (Form.cons "name" .text .made).map
    ⟨fun k => (k.name, k.createdAt, k.createdBy, ()), fun p => ⟨p.1, p.2.1, p.2.2.1⟩,
      fun _ => rfl, fun _ => rfl⟩
  required := 2
  plainNames := by decide +kernel
  nodup := by decide
  toJson_eq k := congrArg Json.object (by
    simp only [Form.map, Form.cons, Form.nil, Form.made, written_zip_cons,
      written_zip_nil, List.append_assoc, List.append_nil]
    rfl)
  ofJson?_eq v := by
    refine congrArg (Option.bind _) (funext fun values => ?_)
    rcases values with _ | ⟨name, _ | ⟨time, _ | ⟨creator, _ | ⟨more, values⟩⟩⟩⟩
    all_goals simp [Form.map, Form.cons, Form.nil, Form.made, Option.bind_assoc]

instance : Formed Policy where
  form := (Form.cons "allow" .rules (.cons "deny" .rules (.cons "created_at" .knownTime
    (.cons "created_by" .creator .nil)))).map
      ⟨fun p => (p.allow, p.deny, p.createdAt, p.createdBy, ()),
        fun p => ⟨p.1, p.2.1, p.2.2.1, p.2.2.2.1⟩, fun _ => rfl, fun _ => rfl⟩
  required := 0
  plainNames := by decide +kernel
  nodup := by decide
  toJson_eq p := congrArg Json.object (by
    simp only [Form.map, Form.cons, Form.nil, written_zip_cons,
      written_zip_nil, List.append_assoc, List.append_nil]
    rfl)
  ofJson?_eq v := by
    refine congrArg (Option.bind _) (funext fun values => ?_)
    rcases values with _ | ⟨allow, _ | ⟨deny, _ | ⟨time, _ | ⟨creator, _ | ⟨more, values⟩⟩⟩⟩⟩
    all_goals simp [Form.map, Form.cons, Form.nil, Option.bind_assoc]

instance : Formed PolicyInfo where
  form := (Form.cons "name" .text (.cons "created_at" .knownTime
    (.cons "created_by" .creator .nil))).map
      ⟨fun p => (p.name, p.createdAt, p.createdBy, ()), fun p => ⟨p.1, p.2.1, p.2.2.1⟩,
        fun _ => rfl, fun _ => rfl⟩
  required := 1
  plainNames := by decide +kernel
  nodup := by decide
  toJson_eq p := congrArg Json.object (by
    simp only [Form.map, Form.cons, Form.nil, written_zip_cons,
      written_zip_nil, List.append_assoc, List.append_nil]
    rfl)
  ofJson?_eq v := by
    refine congrArg (Option.bind _) (funext fun values => ?_)
    rcases values with _ | ⟨name, _ | ⟨time, _ | ⟨creator, _ | ⟨more, values⟩⟩⟩⟩
    all_goals simp [Form.map, Form.cons, Form.nil, Option.bind_assoc]

instance : Formed Assignment where
  form := (Form.cons "policy" .text .made).map
    ⟨fun a => (a.policy, a.createdAt, a.createdBy, ()), fun p => ⟨p.1, p.2.1, p.2.2.1⟩,
      fun _ => rfl, fun _ => rfl⟩
  required := 2
  plainNames := by decide +kernel
  nodup := by decide
  toJson_eq a := congrArg Json.object (by
    simp only [Form.map, Form.cons, Form.nil, Form.made, written_zip_cons,
      written_zip_nil, List.append_assoc, List.append_nil]
    rfl)
  ofJson?_eq v := by
    refine congrArg (Option.bind _) (funext fun values => ?_)
    rcases values with _ | ⟨policy, _ | ⟨time, _ | ⟨creator, _ | ⟨more, values⟩⟩⟩⟩
    all_goals simp [Form.map, Form.cons, Form.nil, Form.made, Option.bind_assoc]

instance : Formed AssignmentInfo where
  form := (Form.cons "identity" .identity (.cons "policy" .text .made)).map
    ⟨fun a => (a.identity, a.policy, a.createdAt, a.createdBy, ()),
      fun p => ⟨p.1, p.2.1, p.2.2.1, p.2.2.2.1⟩, fun _ => rfl, fun _ => rfl⟩
  required := 3
  plainNames := by decide +kernel
  nodup := by decide
  toJson_eq a := congrArg Json.object (by
    simp only [Form.map, Form.cons, Form.nil, Form.made, written_zip_cons,
      written_zip_nil, List.append_assoc, List.append_nil]
    rfl)
  ofJson?_eq v := by
    refine congrArg (Option.bind _) (funext fun values => ?_)
    rcases values with _ | ⟨identity, _ | ⟨policy, _ | ⟨time, _ | ⟨creator, _ | ⟨more, values⟩⟩⟩⟩⟩
    all_goals simp [Form.map, Form.cons, Form.nil, Form.made, Option.bind_assoc]

instance : Formed Registration where
  form := Form.made.map
    ⟨fun r => (r.createdAt, r.createdBy, ()), fun p => ⟨p.1, p.2.1⟩, fun _ => rfl, fun _ => rfl⟩
  required := 1
  plainNames := by decide +kernel
  nodup := by decide
  toJson_eq r := congrArg Json.object (by
    simp only [Form.map, Form.cons, Form.nil, Form.made, written_zip_cons,
      written_zip_nil, List.append_nil]
    rfl)
  ofJson?_eq v := by
    refine congrArg (Option.bind _) (funext fun values => ?_)
    rcases values with _ | ⟨time, _ | ⟨creator, _ | ⟨more, values⟩⟩⟩
    all_goals simp [Form.map, Form.cons, Form.nil, Form.made, Option.bind_assoc]

instance : Formed EnclaveInfo where
  form := (Form.cons "name" .text .made).map
    ⟨fun e => (e.name, e.createdAt, e.createdBy, ()), fun p => ⟨p.1, p.2.1, p.2.2.1⟩,
      fun _ => rfl, fun _ => rfl⟩
  required := 2
  plainNames := by decide +kernel
  nodup := by decide
  toJson_eq e := congrArg Json.object (by
    simp only [Form.map, Form.cons, Form.nil, Form.made, written_zip_cons,
      written_zip_nil, List.append_assoc, List.append_nil]
    rfl)
  ofJson?_eq v := by
    refine congrArg (Option.bind _) (funext fun values => ?_)
    rcases values with _ | ⟨name, _ | ⟨time, _ | ⟨creator, _ | ⟨more, values⟩⟩⟩⟩
    all_goals simp [Form.map, Form.cons, Form.nil, Form.made, Option.bind_assoc]

instance : Formed AuditEvent where
  form := (Form.cons "event_id" .text (.cons "timestamp" .time (.cons "event_type" .eventType
    (.cons "identity" .nullable (.cons "enclave" .nullable (.cons "path" .nullable
      (.cons "success" .flag (.cons "error" .nullable .nil)))))))).map
        ⟨fun e => (e.id, e.time, e.kind, e.identity, e.enclave, e.path, e.success, e.error, ()),
          fun p => ⟨p.1, p.2.1, p.2.2.1, p.2.2.2.1, p.2.2.2.2.1, p.2.2.2.2.2.1,
            p.2.2.2.2.2.2.1, p.2.2.2.2.2.2.2.1⟩,
          fun _ => rfl, fun _ => rfl⟩
  required := 8
  plainNames := by decide +kernel
  nodup := by decide
  toJson_eq e := congrArg Json.object (by
    simp only [Form.map, Form.cons, Form.nil, written_zip_cons,
      written_zip_nil, List.append_assoc, List.append_nil]
    rfl)
  ofJson?_eq v := by
    refine congrArg (Option.bind _) (funext fun values => ?_)
    rcases values with _ | ⟨id, _ | ⟨time, _ | ⟨kind, _ | ⟨identity, _ | ⟨enclave, _ | ⟨path, _ |
      ⟨success, _ | ⟨error, _ | ⟨more, values⟩⟩⟩⟩⟩⟩⟩⟩⟩
    all_goals simp [Form.map, Form.cons, Form.nil, Option.bind_assoc]

end KeyCustody
