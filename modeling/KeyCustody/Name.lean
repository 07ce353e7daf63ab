import KeyCustody.Error
import KeyCustody.Glob
import KeyCustody.Text.Blank

/-!
# Names

Names of keys, policies and enclaves become parts of request paths and of storage
names.  So they hold no slash, no control character and no character of patterns.
Enclave names keep to a small alphabet.  Main statements:

* `checkName_eq_ok_iff` — exactly the valid names pass;
* `checkEnclaveName_eq_ok_iff` — exactly the valid enclave names pass.
-/

namespace KeyCustody

/-- A character that no name and no identity may hold. -/
def isIllegal (c : Char) : Bool :=
  c == '/' || Text.isControl c

/-- The name can be stored and addressed, and no pattern reads as it. -/
structure ValidName (name : String) : Prop where
  nonempty : name ≠ ""
  short : name.utf8ByteSize ≤ maxNameLength
  legal : ∀ c ∈ name.toList, isIllegal c = false
  noMeta : ∀ c ∈ name.toList, Glob.isMeta c = false

/-- Refuses what is no valid name, with the first reason that applies. -/
def checkName (kind name : String) : Except Error Unit :=
  if name = "" then .error (.invalid (.emptyName kind))
  else if name.utf8ByteSize > maxNameLength then .error (.invalid (.longName kind))
  else if name.toList.any isIllegal then .error (.invalid (.illegalName kind name))
  else if Glob.hasMeta name then .error (.invalid (.patternName kind name))
  else .ok ()

/-- The alphabet of enclave names. -/
def isEnclaveChar (c : Char) : Bool :=
  c.isAlphanum || c == '.' || c == '_' || c == '-'

/-- The name can be the name of an enclave. -/
structure ValidEnclaveName (name : String) : Prop extends ValidName name where
  notDot : name ≠ "."
  notDots : name ≠ ".."
  alphabet : ∀ c ∈ name.toList, isEnclaveChar c = true

/-- Refuses what is no valid enclave name, with the first reason that applies. -/
def checkEnclaveName (name : String) : Except Error Unit := do
  checkName "enclave" name
  if name = "." ∨ name = ".." then .error (.invalid (.reservedEnclave name))
  else if name.toList.all isEnclaveChar then .ok ()
  else .error (.invalid (.foreignEnclave name))

/-- Exactly the valid names pass. -/
theorem checkName_eq_ok_iff {kind name : String} :
    checkName kind name = .ok () ↔ ValidName name := by
  unfold checkName
  constructor
  · intro h
    split at h
    · cases h
    split at h
    · cases h
    split at h
    · cases h
    split at h
    · cases h
    rename_i h1 h2 h3 h4
    exact ⟨h1, by omega, by simpa using h3, by simpa [Glob.hasMeta] using h4⟩
  · intro h
    have h3 : name.toList.any isIllegal = false := by simpa using h.legal
    have h4 : Glob.hasMeta name = false := by simpa [Glob.hasMeta] using h.noMeta
    simp [h.nonempty, Nat.not_lt.2 h.short, h3, h4]

/-- Exactly the valid enclave names pass. -/
theorem checkEnclaveName_eq_ok_iff {name : String} :
    checkEnclaveName name = .ok () ↔ ValidEnclaveName name := by
  unfold checkEnclaveName
  cases hn : checkName "enclave" name with
  | error e =>
    constructor
    · intro h
      cases h
    · intro h
      rw [checkName_eq_ok_iff.2 h.toValidName] at hn
      cases hn
  | ok u =>
    have valid := checkName_eq_ok_iff.1 hn
    simp only [bind, Except.bind]
    constructor
    · intro h
      split at h
      · cases h
      split at h
      · rename_i h1 h2
        exact { valid with
          notDot := fun e => h1 (.inl e)
          notDots := fun e => h1 (.inr e)
          alphabet := by simpa using h2 }
      · cases h
    · intro h
      have ha : name.toList.all isEnclaveChar = true := by simpa using h.alphabet
      simp [h.notDot, h.notDots, ha]

end KeyCustody
