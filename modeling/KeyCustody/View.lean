import KeyCustody.Program
import KeyCustody.Store.Signal

/-!
# Views of the store

A view shows the part of the store whose names start with a namespace, with the namespace
taken off.  Views stand inside views.  Names asked for get the namespace in front, names
listed lose it, and errors name what the caller named.  Main statements:

* `strip_eq_some_iff` — a view shows exactly the names that properly extend its namespace;
* `View.show?_eq_some_iff` — views inside views show a name as what all their namespaces are
  put in front of;
* `enter_eq_ok_iff` — a namespace is any text without pattern characters.
-/

namespace KeyCustody

/-- The whole store, or what a view shows under a namespace. -/
inductive View where
  | whole
  | under (space : String) (inner : View)
deriving DecidableEq, Repr

/-- The name without the namespace in front, if something is left. -/
def strip (space name : String) : Option String :=
  match space.toList.isPrefixOf name.toList, name.toList.drop space.toList.length with
  | true, c :: cs => some (String.ofList (c :: cs))
  | _, _ => none

theorem strip_eq_some_iff {space name rest : String} :
    strip space name = some rest ↔ name = space ++ rest ∧ rest ≠ "" := by
  have split_of : ∀ {s t : List Char}, s <+: t → s ++ t.drop s.length = t := by
    intro s t h
    obtain ⟨u, rfl⟩ := h
    simp
  unfold strip
  constructor
  · intro h
    split at h
    · rename_i c cs hp hd
      have hp := split_of (List.isPrefixOf_iff_prefix.1 hp)
      rw [hd] at hp
      have hr : rest.toList = c :: cs := by
        rw [← Option.some.inj h, String.toList_ofList]
      refine ⟨?_, fun he => ?_⟩
      · rw [← String.toList_inj, String.toList_append, hr, hp]
      · rw [he] at hr
        cases hr
    · cases h
  · rintro ⟨rfl, hne⟩
    have hd : (space ++ rest).toList.drop space.toList.length = rest.toList := by simp
    have hp : space.toList.isPrefixOf (space ++ rest).toList = true :=
      List.isPrefixOf_iff_prefix.2 ⟨rest.toList, by simp⟩
    rw [hp, hd]
    cases hr : rest.toList with
    | nil => exact absurd (String.toList_inj.1 (by simpa using hr)) hne
    | cons c cs => simp [← hr]

namespace View

/-- A view inside a view.  Listing patterns start with the namespace, so it holds no pattern
characters. -/
def enter (inner : View) (space : String) : Except Error View :=
  if Glob.hasMeta space then .error (.invalid (.patternNamespace space))
  else .ok (.under space inner)

theorem enter_eq_ok_iff {inner v : View} {space : String} :
    inner.enter space = .ok v ↔ Glob.hasMeta space = false ∧ v = .under space inner := by
  unfold enter
  cases Glob.hasMeta space <;> simp [eq_comm]

/-- A name that is taken is told as the caller knows it. -/
def renameTaken (name : String) : Error → Error
  | .alreadyExists _ => .alreadyExists name
  | e => e

/-- A name that is missing is told as the caller knows it. -/
def renameMissing (name : String) : Error → Error
  | .notFound _ => .notFound name
  | e => e

/-- Stores a value under a new name. -/
def create : View → String → Bytes → Routine Unit
  | .whole, name, value => Routine.create name value
  | .under space inner, name, value => do
    Routine.ofExcept (requireKey name)
    (inner.create (space ++ name) value).mapError (renameTaken name)

/-- The value under a name. -/
def get : View → String → Routine Bytes
  | .whole, name => Routine.get name
  | .under space inner, name => do
    Routine.ofExcept (requireKey name)
    (inner.get (space ++ name)).mapError (renameMissing name)

/-- Removes a name. -/
def delete : View → String → Routine Unit
  | .whole, name => Routine.delete name
  | .under space inner, name => do
    Routine.ofExcept (requireKey name)
    inner.delete (space ++ name)

/-- All names that a pattern matches. -/
def list : View → String → Routine (List String)
  | .whole, pattern => Routine.list pattern
  | .under space inner, pattern => do
    let names ← inner.list (space ++ Glob.orAll pattern)
    pure (names.filterMap (strip space))

/-- Fails if the store cannot be reached. -/
def status (_ : View) : Routine Unit :=
  Routine.status

/-- The pattern over the whole store for a pattern over the view. -/
def fullPattern : View → String → String
  | .whole, pattern => pattern
  | .under space inner, pattern => inner.fullPattern (space ++ Glob.orAll pattern)

/-- The name in the whole store of a name in the view. -/
def fullName : View → String → String
  | .whole, name => name
  | .under space inner, name => inner.fullName (space ++ name)

/-- The name in the view of a name in the whole store. -/
def show? : View → String → Option String
  | .whole, name => some name
  | .under space inner, name => do strip space (← inner.show? name)

theorem show?_eq_some_iff {v : View} {full name : String} :
    v.show? full = some name ↔ full = v.fullName name ∧ (v = .whole ∨ name ≠ "") := by
  induction v generalizing name with
  | whole =>
      constructor
      · rintro ⟨⟩
        exact ⟨rfl, .inl rfl⟩
      · rintro ⟨rfl, -⟩
        rfl
  | under space inner ih =>
      refine Option.bind_eq_some_iff.trans ⟨?_, ?_⟩
      · rintro ⟨inside, hshown, hstrip⟩
        obtain ⟨rfl, hname⟩ := strip_eq_some_iff.1 hstrip
        exact ⟨(ih.1 hshown).1, .inr hname⟩
      · rintro ⟨hnamed, hspace | hname⟩
        · cases hspace
        · have hinside : space ++ name ≠ "" := fun h => hname (String.append_eq_empty_iff.1 h).2
          exact ⟨_, ih.2 ⟨hnamed, .inr hinside⟩, strip_eq_some_iff.2 ⟨rfl, hname⟩⟩

end View

end KeyCustody
