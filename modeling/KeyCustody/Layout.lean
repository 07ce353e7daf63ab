/-!
# The layout of storage names

All records live in one flat space of names.  Under a deployment's prefix stand the
registry of enclaves and, for each enclave, one namespace each for its keys, its
policies and its assignments:

    {prefix}sys/enclaves/{enclave}
    {prefix}enclaves/{enclave}/keys/{key}
    {prefix}enclaves/{enclave}/policies/{policy}
    {prefix}enclaves/{enclave}/identities/{identity}
-/

namespace KeyCustody

/-- The names of records under a deployment's prefix, which may be empty. -/
structure Layout where
  root : String
deriving DecidableEq, Repr

namespace Layout

/-- The namespace with one record per enclave. -/
def registry (l : Layout) : String :=
  l.root ++ "sys/enclaves/"

/-- The registry record of an enclave. -/
def record (l : Layout) (enclave : String) : String :=
  l.registry ++ enclave

/-- The namespace of everything an enclave owns. -/
def enclave (l : Layout) (enclave : String) : String :=
  l.root ++ "enclaves/" ++ enclave ++ "/"

/-- The namespace of an enclave's keys. -/
def keys (l : Layout) (enclave : String) : String :=
  l.enclave enclave ++ "keys/"

/-- The namespace of an enclave's policies. -/
def policies (l : Layout) (enclave : String) : String :=
  l.enclave enclave ++ "policies/"

/-- The namespace of an enclave's assignments of policies to identities. -/
def identities (l : Layout) (enclave : String) : String :=
  l.enclave enclave ++ "identities/"

end Layout

end KeyCustody
