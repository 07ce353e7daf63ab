import KeyCustody.Format.Base64
import KeyCustody.Policy
import KeyCustody.Record.Basic

/-!
# Kinds of records

Three kinds of records are stored besides policies: keys with their sealed value,
assignments of a policy to an identity, and registrations of enclaves.  To each belongs
what callers learn of it, its *info*, which adds the name and keeps the sealed value back.
All of them, and decisions and identities, are written as documents.
-/

namespace KeyCustody

/-- A key as stored. -/
structure SealedKey where
  /-- The sealed key material. -/
  value : Bytes
  createdAt : Timestamp
  createdBy : Identity
deriving DecidableEq

/-- What is known of a key besides its value. -/
structure KeyInfo where
  name : String
  createdAt : Timestamp
  createdBy : Identity
deriving DecidableEq

/-- The policy of an identity, as stored. -/
structure Assignment where
  policy : String
  createdAt : Timestamp
  createdBy : Identity
deriving DecidableEq

/-- The policy of an identity, as told to callers. -/
structure AssignmentInfo where
  identity : Identity
  policy : String
  createdAt : Timestamp
  createdBy : Identity
deriving DecidableEq

/-- An enclave's record in the registry. -/
structure Registration where
  createdAt : Timestamp
  createdBy : Identity
deriving DecidableEq

/-- What is known of an enclave. -/
structure EnclaveInfo where
  name : String
  createdAt : Timestamp
  createdBy : Identity
deriving DecidableEq

/-- What is known of the key, under its name. -/
def SealedKey.info (k : SealedKey) (name : String) : KeyInfo :=
  ⟨name, k.createdAt, k.createdBy⟩

/-- The key in diagnostics, which never show its value. -/
def SealedKey.diagnostic (k : SealedKey) : String :=
  String.join ["KeyRecord \x7b value: ", Text.quoted "<sealed>",
    ", created_at: ", k.createdAt.toText,
    ", created_by: Identity(", Text.quoted k.createdBy.text, ") \x7d"]

/-- The assignment as told of an identity. -/
def Assignment.info (a : Assignment) (identity : Identity) : AssignmentInfo :=
  ⟨identity, a.policy, a.createdAt, a.createdBy⟩

/-- What is known of the enclave, under its name. -/
def Registration.info (r : Registration) (name : String) : EnclaveInfo :=
  ⟨name, r.createdAt, r.createdBy⟩

open Record

instance : Record SealedKey where
  toJson k := .object <|
    member "value" (.string (Base64.encode k.value)) ++
    member "created_at" (timeJson k.createdAt) ++
    createdByMember k.createdBy
  ofJson? v := do
    match ← v.fields? 2 ["value", "created_at", "created_by"] with
    | [value, at', by'] =>
      let digits ← required? Json.text? value
      let value ← Base64.decode? (Bytes.ofText digits)
      let time ← required? time? at'
      let creator ← orDefault? .unknown identity? by'
      pure ⟨value, time, creator⟩
    | _ => none

instance : Record KeyInfo where
  toJson k := .object <|
    member "name" (.ofText k.name) ++
    member "created_at" (timeJson k.createdAt) ++
    createdByMember k.createdBy
  ofJson? v := do
    match ← v.fields? 2 ["name", "created_at", "created_by"] with
    | [name, at', by'] =>
      let name ← required? Json.text? name
      let time ← required? time? at'
      let creator ← orDefault? .unknown identity? by'
      pure ⟨name, time, creator⟩
    | _ => none

instance : Record Policy where
  toJson p := .object <|
    memberIf "allow" (if p.allow.isEmpty then none else some (textsJson p.allow)) ++
    memberIf "deny" (if p.deny.isEmpty then none else some (textsJson p.deny)) ++
    memberIf "created_at" (p.createdAt.map timeJson) ++
    createdByMember p.createdBy
  ofJson? v := do
    match ← v.fields? 0 ["allow", "deny", "created_at", "created_by"] with
    | [allow, deny, at', by'] =>
      let allow ← orDefault? [] texts? allow
      let deny ← orDefault? [] texts? deny
      let time ← orDefault? none (nullable? time?) at'
      let creator ← orDefault? .unknown identity? by'
      pure ⟨allow, deny, time, creator⟩
    | _ => none

instance : Record PolicyInfo where
  toJson p := .object <|
    member "name" (.ofText p.name) ++
    memberIf "created_at" (p.createdAt.map timeJson) ++
    createdByMember p.createdBy
  ofJson? v := do
    match ← v.fields? 1 ["name", "created_at", "created_by"] with
    | [name, at', by'] =>
      let name ← required? Json.text? name
      let time ← orDefault? none (nullable? time?) at'
      let creator ← orDefault? .unknown identity? by'
      pure ⟨name, time, creator⟩
    | _ => none

instance : Record Assignment where
  toJson a := .object <|
    member "policy" (.ofText a.policy) ++
    member "created_at" (timeJson a.createdAt) ++
    createdByMember a.createdBy
  ofJson? v := do
    match ← v.fields? 2 ["policy", "created_at", "created_by"] with
    | [policy, at', by'] =>
      let policy ← required? Json.text? policy
      let time ← required? time? at'
      let creator ← orDefault? .unknown identity? by'
      pure ⟨policy, time, creator⟩
    | _ => none

instance : Record AssignmentInfo where
  toJson a := .object <|
    member "identity" (.ofText a.identity.text) ++
    member "policy" (.ofText a.policy) ++
    member "created_at" (timeJson a.createdAt) ++
    createdByMember a.createdBy
  ofJson? v := do
    match ← v.fields? 3 ["identity", "policy", "created_at", "created_by"] with
    | [identity, policy, at', by'] =>
      let identity ← required? identity? identity
      let policy ← required? Json.text? policy
      let time ← required? time? at'
      let creator ← orDefault? .unknown identity? by'
      pure ⟨identity, policy, time, creator⟩
    | _ => none

instance : Record Registration where
  toJson r := .object <|
    member "created_at" (timeJson r.createdAt) ++
    createdByMember r.createdBy
  ofJson? v := do
    match ← v.fields? 1 ["created_at", "created_by"] with
    | [at', by'] =>
      let time ← required? time? at'
      let creator ← orDefault? .unknown identity? by'
      pure ⟨time, creator⟩
    | _ => none

instance : Record EnclaveInfo where
  toJson e := .object <|
    member "name" (.ofText e.name) ++
    member "created_at" (timeJson e.createdAt) ++
    createdByMember e.createdBy
  ofJson? v := do
    match ← v.fields? 2 ["name", "created_at", "created_by"] with
    | [name, at', by'] =>
      let name ← required? Json.text? name
      let time ← required? time? at'
      let creator ← orDefault? .unknown identity? by'
      pure ⟨name, time, creator⟩
    | _ => none

instance : Record Identity where
  toJson i := .ofText i.text
  ofJson? := identity?

instance : Record Decision where
  toJson d := .ofText d.name
  ofJson? v := do Decision.ofName? (← name? v)

end KeyCustody
