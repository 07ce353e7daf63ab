import KeyCustody.Identity
import KeyCustody.Text.LowerCase

/-!
# Settings

The service is set up by variables, which are looked up by name.  A variable that is unset
or blank leaves its default.  The variables are read in a fixed order, and the first that
is wrong decides the error.
-/

namespace KeyCustody

/-- What keeps the records. -/
inductive BackendKind where
  /-- A map in memory, gone with the process. -/
  | memory
  /-- One file per name in the data directory. -/
  | files
  /-- A database file in the data directory. -/
  | database
deriving DecidableEq, Repr

/-- How diagnostics are written. -/
inductive LogFormat where
  | pretty
  | json
deriving DecidableEq, Repr

/-- How the service is set up. -/
structure Settings where
  backend : BackendKind
  dataDir : String
  keyPrefix : String
  admin : Option Identity
  defaultEnclave : String
  /-- The time a call may take, in seconds. -/
  timeout : Nat
  logFormat : LogFormat
  logFilter : String
deriving DecidableEq, Repr

/-- The backend of a name. -/
def BackendKind.ofText (s : String) : Except Error BackendKind :=
  let name := Text.lower (Text.trim s)
  if name = "memory" ∨ name = "mem" then .ok .memory
  else if name = "fs" ∨ name = "file" then .ok .files
  else if name = "redb" then .ok .database
  else .error (.invalid (.unknownBackend name))

/-- The log format of a name. -/
def LogFormat.ofText (s : String) : Except Error LogFormat :=
  let name := Text.lower (Text.trim s)
  if name = "pretty" ∨ name = "text" then .ok .pretty
  else if name = "json" then .ok .json
  else .error (.invalid (.unknownLogFormat name))

/-- Decimal digits, perhaps behind a plus sign, of a number below 2^64. -/
def word64? (s : String) : Option Nat :=
  let digits := match s.toList with
    | '+' :: ds => ds
    | ds => ds
  if digits.isEmpty || !digits.all Char.isDigit then none
  else
    let n := digits.foldl (fun n c => 10 * n + (c.toNat - 48)) 0
    if n < UInt64.size then some n else none

namespace Settings

/-- The settings without any variable. -/
def default : Settings where
  backend := .files
  dataDir := "/data"
  keyPrefix := ""
  admin := none
  defaultEnclave := "default"
  timeout := 30
  logFormat := .pretty
  logFilter := "info"

/-- Lets `set` put the value of a variable into the settings, unless it is blank. -/
def apply (lookup : String → Option String) (variableName : String)
    (set : String → Settings → Except Error Settings) (s : Settings) : Except Error Settings :=
  match lookup variableName with
  | some value => if (Text.trim value).isEmpty then .ok s else set value s
  | none => .ok s

def setBackend (value : String) (s : Settings) : Except Error Settings := do
  pure { s with backend := ← BackendKind.ofText value }

def setDataDir (value : String) (s : Settings) : Except Error Settings :=
  .ok { s with dataDir := value }

def setKeyPrefix (value : String) (s : Settings) : Except Error Settings :=
  if Glob.hasMeta value then .error (.invalid (.patternKeyPrefix value))
  else .ok { s with keyPrefix := value }

def setAdmin (value : String) (s : Settings) : Except Error Settings := do
  let admin := Identity.ofText value
  admin.check
  pure { s with admin := some admin }

def setDefaultEnclave (value : String) (s : Settings) : Except Error Settings := do
  checkEnclaveName value
  pure { s with defaultEnclave := value }

def setTimeout (value : String) (s : Settings) : Except Error Settings :=
  match word64? (Text.trim value) with
  | none => .error (.invalid (.timeoutNotNumber value))
  | some 0 => .error (.invalid .timeoutZero)
  | some n => .ok { s with timeout := n }

def setLogFormat (value : String) (s : Settings) : Except Error Settings := do
  pure { s with logFormat := ← LogFormat.ofText value }

def setLogFilter (value : String) (s : Settings) : Except Error Settings :=
  .ok { s with logFilter := value }

/-- The settings that the variables give. -/
def load (lookup : String → Option String) : Except Error Settings := do
  let s ← apply lookup "KMS_BACKEND" setBackend default
  let s ← apply lookup "DATA_DIR" setDataDir s
  let s ← apply lookup "KMS_KEY_PREFIX" setKeyPrefix s
  let s ← apply lookup "KMS_ADMIN_IDENTITY" setAdmin s
  let s ← apply lookup "KMS_DEFAULT_ENCLAVE" setDefaultEnclave s
  let s ← apply lookup "KMS_OP_TIMEOUT_SECS" setTimeout s
  let s ← apply lookup "LOG_FORMAT" setLogFormat s
  apply lookup "RUST_LOG" setLogFilter s

/-- The database file in the data directory. -/
def databasePath (s : Settings) : String :=
  if s.dataDir.toList.getLast? = some '/' then s.dataDir ++ "keystore.redb"
  else s.dataDir ++ "/keystore.redb"

end Settings

end KeyCustody
