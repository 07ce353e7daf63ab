import KeyCustody.Calls
import KeyCustody.Proofs.Namespaces
import KeyCustody.Proofs.Forms

/-!
# What observers see

Two runs are compared by an *observer* who sees all of their results, events and records but
sealed values, or all but times, or neither.  What it does not see is blanked out
(`Observed.sees`), and two things are alike to the observer if what it sees of them is the same.
Values of a store are bytes; they are alike if they were written for records of one kind
that are (`Observer.Written`), and so is what is read from them.  Main statements:

* `Command.alike_iff`: commands are alike if they differ in the value of a new key at most;
* `Observer.reads_of_written`: in a namespace of records of one kind, values that are alike decode
  to records that are alike, or neither decodes.
-/

namespace KeyCustody

/-- Who compares two runs. -/
structure Observer where
  /-- It sees sealed values. -/
  values : Bool
  /-- It sees times. -/
  times : Bool
deriving DecidableEq, Repr

/-- What an observer sees of a thing; the rest is blanked out. -/
class Observed (α : Type) where
  sees : Observer → α → α

/-- The observer cannot tell the two things apart. -/
def Observer.Alike {α : Type} [Observed α] (o : Observer) (a b : α) : Prop :=
  Observed.sees o a = Observed.sees o b

variable {o : Observer}

namespace Observer.Alike

variable {α : Type} [Observed α] {a b c : α}

theorem refl (a : α) : o.Alike a a := Eq.refl _

theorem symm (h : o.Alike a b) : o.Alike b a := Eq.symm h

theorem trans (h : o.Alike a b) (h' : o.Alike b c) : o.Alike a c := Eq.trans h h'

end Observer.Alike

/-! ### Instances -/

namespace Observed

theorem isClock_midnight : IsClock 0 0 := by decide

/-- The time in place of one that is not seen. -/
def noTime : Timestamp := ⟨⟨1970, 1, 1, by decide⟩, 0, 0, isClock_midnight⟩

/-- What is seen of a sealed value. -/
def seesValue (o : Observer) (value : Bytes) : Bytes :=
  if o.values then value else []

instance : Observed Timestamp where
  sees o t := if o.times then t else noTime

instance {α : Type} [Observed α] : Observed (Option α) where
  sees o := Option.map (sees o)

instance {α : Type} [Observed α] : Observed (Except Error α) where
  sees o := Except.map (sees o)

instance : Observed SealedKey where
  sees o k := ⟨seesValue o k.value, sees o k.createdAt, k.createdBy⟩

instance : Observed KeyInfo where
  sees o i := { i with createdAt := sees o i.createdAt }

instance : Observed Policy where
  sees o p := { p with createdAt := sees o p.createdAt }

instance : Observed PolicyInfo where
  sees o i := { i with createdAt := sees o i.createdAt }

instance : Observed Assignment where
  sees o a := { a with createdAt := sees o a.createdAt }

instance : Observed AssignmentInfo where
  sees o i := { i with createdAt := sees o i.createdAt }

instance : Observed Registration where
  sees o r := { r with createdAt := sees o r.createdAt }

instance : Observed EnclaveInfo where
  sees o i := { i with createdAt := sees o i.createdAt }

instance : Observed SelfInfo where
  sees o i := { i with assignment := sees o i.assignment, policy := sees o i.policy }

instance : Observed Reply where
  sees o
    | .key key => .key (sees o key)
    | .keyInfo info => .keyInfo (sees o info)
    | .policy policy => .policy (sees o policy)
    | .policyInfo info => .policyInfo (sees o info)
    | .assignment info => .assignment (sees o info)
    | .enclave info => .enclave (sees o info)
    | .self info => .self (sees o info)
    | .done => .done
    | .names names => .names names
    | .outcomes outcomes => .outcomes outcomes

instance : Observed AuditEvent where
  sees o e := { e with time := sees o e.time }

instance : Observed Command where
  sees o
    | .createKey name value => .createKey name (seesValue o value)
    | c => c

instance : Observed Service.Call where
  sees o
    | .command enclave c => .command enclave (sees o c)
    | call => call

end Observed

open Observed (sees seesValue)

/-! ### Records -/

/-- Keys that are alike have the same creator, and times and values that are alike. -/
theorem SealedKey.alike_iff {a b : SealedKey} :
    o.Alike a b ↔ seesValue o a.value = seesValue o b.value ∧ o.Alike a.createdAt b.createdAt ∧
      a.createdBy = b.createdBy := by
  simp [Observer.Alike, sees]

/-- Keys that look alike are told alike. -/
theorem SealedKey.alike_info {a b : SealedKey} (h : o.Alike a b) (name : String) :
    o.Alike (a.info name) (b.info name) :=
  congrArg (fun k : SealedKey => k.info name) h

theorem Policy.alike_info {a b : Policy} (h : o.Alike a b) (name : String) :
    o.Alike (a.info name) (b.info name) :=
  congrArg (fun p : Policy => p.info name) h

/-- A policy that looks alike decides alike. -/
theorem Policy.evaluate_of_alike {a b : Policy} (h : o.Alike a b) (path : String) :
    a.evaluate path = b.evaluate path := by
  change (sees o a).evaluate path = (sees o b).evaluate path
  rw [show sees o a = sees o b from h]

theorem Assignment.alike_info {a b : Assignment} (h : o.Alike a b) (i : Identity) :
    o.Alike (a.info i) (b.info i) :=
  congrArg (fun a : Assignment => a.info i) h

theorem Assignment.policy_of_alike {a b : Assignment} (h : o.Alike a b) :
    a.policy = b.policy := by
  change (sees o a).policy = (sees o b).policy
  rw [show sees o a = sees o b from h]

theorem AssignmentInfo.policy_of_alike {a b : AssignmentInfo} (h : o.Alike a b) :
    a.policy = b.policy := by
  change (sees o a).policy = (sees o b).policy
  rw [show sees o a = sees o b from h]

theorem Registration.alike_info {a b : Registration} (h : o.Alike a b) (name : String) :
    o.Alike (a.info name) (b.info name) :=
  congrArg (fun r : Registration => r.info name) h

/-- Diagnostics tell keys apart by what is seen without their values. -/
theorem SealedKey.diagnostic_of_alike {a b : SealedKey} (h : o.Alike a b)
    (htimes : o.times = true) : a.diagnostic = b.diagnostic := by
  obtain ⟨-, hat, hby⟩ := SealedKey.alike_iff.1 h
  have htime (t : Timestamp) : sees o t = t := if_pos htimes
  have hsame : a.createdAt = b.createdAt := by rw [← htime a.createdAt, hat, htime]
  rw [SealedKey.diagnostic, SealedKey.diagnostic, hsame, hby]

/-- Events of one outcome are alike if their times are. -/
theorem AuditEvent.alike_ofOutcome {time time' : Timestamp} (h : o.Alike time time') (id : String)
    (caller : Identity) (enclave : String) (op : Operation) (failure : Option Error) :
    o.Alike (ofOutcome id time caller enclave op failure)
      (ofOutcome id time' caller enclave op failure) := by
  have hsees (t : Timestamp) : sees o (ofOutcome id t caller enclave op failure) =
      ofOutcome id (sees o t) caller enclave op failure := by
    unfold ofOutcome
    split <;> rfl
  unfold Observer.Alike
  rw [hsees, hsees, show sees o time = sees o time' from h]

/-- **Commands that are alike** differ in the value of a new key at most. -/
theorem Command.alike_iff {a b : Command} :
    o.Alike a b ↔ a = b ∨ ∃ name value value', a = .createKey name value ∧
      b = .createKey name value' ∧ seesValue o value = seesValue o value' := by
  constructor
  · intro h
    cases a with
    | createKey name value =>
        cases b with
        | createKey name' value' =>
            obtain ⟨rfl, hvalue⟩ := Command.createKey.inj h
            exact .inr ⟨name, value, value', rfl, rfl, hvalue⟩
        | _ => cases h
    | _ =>
        cases b with
        | createKey => cases h
        | _ => exact .inl h
  · rintro (rfl | ⟨name, value, value', rfl, rfl, hvalue⟩)
    · exact .refl a
    · exact congrArg (Command.createKey name) hvalue

theorem Service.Call.alike_iff {a b : Call} :
    o.Alike a b ↔ a = b ∨ ∃ enclave c c', a = .command enclave c ∧ b = .command enclave c' ∧
      o.Alike c c' := by
  constructor
  · intro h
    cases a with
    | command enclave c =>
        cases b with
        | command enclave' c' =>
            obtain ⟨rfl, hc⟩ := Call.command.inj h
            exact .inr ⟨enclave, c, c', rfl, rfl, hc⟩
        | _ => cases h
    | _ =>
        cases b with
        | command => cases h
        | _ => exact .inl h
  · rintro (rfl | ⟨enclave, c, c', rfl, rfl, hc⟩)
    · exact .refl a
    · exact congrArg (Call.command enclave) hc

/-! ### Values of a store -/

/-- The values are encodings of records that are alike. -/
def Observer.Encodes (o : Observer) (α : Type) [Record α] [Observed α] (v v' : Bytes) : Prop :=
  ∃ a b : α, v = Record.encode a ∧ v' = Record.encode b ∧ o.Alike a b

/-- Encodings of records that are alike decode to them. -/
theorem Observer.Encodes.decodes {α : Type} [Record α] [LawfulRecord α] [Observed α]
    {v v' : Bytes} (h : o.Encodes α v v') :
    Option.Rel o.Alike (Record.decode? v : Option α) (Record.decode? v') := by
  obtain ⟨a, b, rfl, rfl, hab⟩ := h
  rw [Record.decode?_encode, Record.decode?_encode]
  exact .some hab

/-- Names and values that are written for records of an enclave, of one kind and alike. -/
def RecordKind.Written (o : Observer) (name : String) (v v' : Bytes) : RecordKind → Prop
  | .key => ValidName name ∧ o.Encodes SealedKey v v'
  | .policy => ValidName name ∧ o.Encodes Policy v v'
  | .assignment => (∃ i : Identity, i.text = name ∧ i.Valid) ∧ o.Encodes Assignment v v'

/-- The values are written under the full name for records of its kind that are alike. -/
inductive Observer.Written (o : Observer) (l : Layout) : String → Bytes → Bytes → Prop
  | owned {kind : RecordKind} {e name : String} {v v' : Bytes} (valid : ValidEnclaveName e)
      (written : kind.Written o name v v') : Written o l (l.space kind e ++ name) v v'
  | registration {e : String} {v v' : Bytes} (written : o.Encodes Registration v v') :
      Written o l (l.record e) v v'

/-- The values under a name are the same, or they are written for records that are alike. -/
def Observer.Stored (o : Observer) (l : Layout) (name : String) (v v' : Bytes) : Prop :=
  v = v' ∨ o.Written l name v v'

namespace Observer

variable {l : Layout} {e name : String} {kind : RecordKind} {v v' : Bytes}

/-- What is written under the name of a registration are registrations. -/
theorem Written.registration_inv (h : o.Written l (l.record e) v v') :
    o.Encodes Registration v v' := by
  generalize hfull : l.record e = full at h
  cases h with
  | registration hwritten => exact hwritten
  | owned => exact absurd hfull (Layout.record_ne_space_append _ _ _ _ _)

/-- What is written under the name of a record of an enclave has the kind of the record. -/
theorem Written.owned_inv (he : ValidEnclaveName e)
    (h : o.Written l (l.space kind e ++ name) v v') : kind.Written o name v v' := by
  generalize hfull : l.space kind e ++ name = full at h
  cases h with
  | registration => exact absurd hfull.symm (Layout.record_ne_space_append _ _ _ _ _)
  | owned hvalid hwritten =>
      obtain ⟨rfl, -, rfl⟩ :=
        Layout.space_append_inj he.toValidName hvalid.toValidName hfull
      exact hwritten

/-- Nothing is written under an empty name. -/
theorem Written.ne_empty {full : String} (h : o.Written l full v v') : full ≠ "" := by
  intro hempty
  have hchars := congrArg String.toList hempty
  cases h with
  | owned => simp [Layout.toList_space] at hchars
  | registration => simp [Layout.toList_record] at hchars

/-- Values that are related are both there, or neither is. -/
theorem isSome_of_rel {α β : Type} {rel : α → β → Prop} {x : Option α} {y : Option β}
    (h : Option.Rel rel x y) : x.isSome = y.isSome := by
  cases h <;> rfl

theorem Stored.refl (o : Observer) (l : Layout) (name : String) (v : Bytes) :
    o.Stored l name v v := .inl rfl

/-- The values under all names of a namespace are read alike. -/
def Reads (o : Observer) (l : Layout) (space : String) (α : Type) [Record α] [Observed α] :
    Prop :=
  ∀ name v v', o.Stored l (space ++ name) v v' →
    Option.Rel o.Alike (Record.decode? v : Option α) (Record.decode? v')

/-- Values are read alike if all that is written has the kind that is read. -/
theorem reads_of_written {space : String} {α : Type} [Record α] [LawfulRecord α] [Observed α]
    (h : ∀ name v v', o.Written l (space ++ name) v v' → o.Encodes α v v') :
    o.Reads l space α := by
  rintro name v v' (rfl | hwritten)
  · cases (Record.decode? v : Option α) with
    | none => exact .none
    | some a => exact .some (.refl a)
  · exact (h name v v' hwritten).decodes

theorem reads_keys (he : ValidEnclaveName e) : o.Reads l (l.space .key e) SealedKey :=
  reads_of_written fun _ _ _ h => (h.owned_inv he).2

theorem reads_policies (he : ValidEnclaveName e) : o.Reads l (l.space .policy e) Policy :=
  reads_of_written fun _ _ _ h => (h.owned_inv he).2

theorem reads_assignments (he : ValidEnclaveName e) :
    o.Reads l (l.space .assignment e) Assignment :=
  reads_of_written fun _ _ _ h => (h.owned_inv he).2

theorem reads_registry : o.Reads l l.registry Registration :=
  reads_of_written fun _ _ _ h => Written.registration_inv h

end Observer

end KeyCustody
