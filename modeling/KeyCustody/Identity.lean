import KeyCustody.Bytes
import KeyCustody.Format.Sha256
import KeyCustody.Name

/-!
# Identities

An identity is the fingerprint of a caller's credential, an opaque text.  The empty
identity is the *unknown* one: it stands for a credential that is absent or could not be
verified, and it is never granted anything.  Main statement:

* `check_eq_ok_iff` — exactly the identities that can be stored and addressed pass.
-/

namespace KeyCustody

/-- The fingerprint of a caller's credential. -/
structure Identity where
  text : String
deriving DecidableEq, Repr

namespace Identity

/-- The identity of a fingerprint, without the blanks around it. -/
def ofText (fingerprint : String) : Identity :=
  ⟨Text.trim fingerprint⟩

/-- The identity of a caller without a verified credential. -/
def unknown : Identity := ⟨""⟩

instance : Inhabited Identity := ⟨unknown⟩

/-- The identity of a public key is the SHA-256 digest of its encoding. -/
def ofPublicKey (encoding : Bytes) : Identity :=
  ⟨(Sha256.digest encoding).toHex⟩

def isUnknown (i : Identity) : Bool :=
  i.text.isEmpty

/-- How messages name the identity. -/
def display (i : Identity) : String :=
  if i.isUnknown then "<unknown>" else i.text

/-- The identity can be stored and addressed. -/
structure Valid (i : Identity) : Prop where
  known : i.text ≠ ""
  short : i.text.utf8ByteSize ≤ maxNameLength
  legal : ∀ c ∈ i.text.toList, isIllegal c = false

/-- Refuses an identity that cannot be stored, with the first reason that applies. -/
def check (i : Identity) : Except Error Unit :=
  if i.isUnknown then .error (.invalid .unknownIdentity)
  else if i.text.utf8ByteSize > maxNameLength then .error (.invalid .longIdentity)
  else if i.text.toList.any isIllegal then .error (.invalid (.illegalIdentity i.text))
  else .ok ()

/-- An identity is its text. -/
theorem text_inj {i j : Identity} : i.text = j.text ↔ i = j := by
  cases i
  cases j
  simp

@[simp] theorem isUnknown_iff {i : Identity} : i.isUnknown = true ↔ i = unknown := by
  cases i
  simp [isUnknown, unknown]

/-- Exactly the identities that can be stored and addressed pass. -/
theorem check_eq_ok_iff {i : Identity} : i.check = .ok () ↔ i.Valid := by
  unfold check
  constructor
  · intro h
    split at h
    · cases h
    split at h
    · cases h
    split at h
    · cases h
    rename_i h1 h2 h3
    exact ⟨by simpa [isUnknown] using h1, by omega, by simpa using h3⟩
  · intro h
    have h1 : i.isUnknown = false := by simpa [isUnknown] using h.known
    have h3 : i.text.toList.any isIllegal = false := by simpa using h.legal
    simp [h1, Nat.not_lt.2 h.short, h3]

end Identity

end KeyCustody
