import KeyCustody.Proofs.Maps

/-!
# Memory beside a database

The same calls are made on a memory and on a database, both fresh, each call at an occasion of
its own: tokens are canceled and time passes between the calls as they may.  Both stores behave
as maps, on terms that differ in one point.  A database refuses the empty name whatever the
call is; a memory refuses to create it, but looks it up and removes it like any other name.
Since nothing is ever stored under the empty name, a memory then answers as a store that is
empty (`StoreCall.inMemory`).

So the replies of the memory are a function of the replies of the database, call by call, and
the maps that both hold go on being the same.  Main statements:

* `Table.answer_memory`: one call on the same map, on the terms of either store;
* `World.memory_beside_database`: any calls, one after the other.
-/

namespace KeyCustody

/-! ### Calls and occasions -/

/-- When a call is made: its context, and what is canceled and what the clock shows then. -/
structure Occasion where
  context : Context
  tokens : Tokens
  now : Instant

/-- The context has ended by then. -/
def Occasion.ended (o : Occasion) : Bool :=
  o.context.ended o.tokens o.now

/-- The call looks up the empty name or removes it, which a memory does not refuse. -/
def StoreCall.unchecked : StoreCall → Bool
  | .get name | .delete name => name.isEmpty
  | _ => false

/-- What a memory gives where a database gives the reply `r`: the same, unless the empty name
is looked up or removed as if nothing were stored. -/
def StoreCall.inMemory (ended : Bool) (k : StoreCall) (r : Except Error StoreReply) :
    Except Error StoreReply :=
  if k.unchecked then (Table.empty.answer (if ended then some .canceled else none) k).1 else r

namespace StoreCall

variable {k : StoreCall}

theorem unchecked_iff : k.unchecked = true ↔ k = .get "" ∨ k = .delete "" := by
  cases k <;> simp [unchecked]

/-- A call that is checked gives the same in memory. -/
theorem inMemory_eq_self (hk : k.unchecked = false) (ended : Bool)
    (r : Except Error StoreReply) : k.inMemory ended r = r := by
  rw [inMemory, hk]
  rfl

/-- A call that is not checked never gives the refusal of a database in memory. -/
theorem inMemory_ne (hk : k.unchecked = true) (ended : Bool) (r : Except Error StoreReply) :
    k.inMemory ended r ≠ .error (.invalid .emptyKey) := by
  rw [inMemory, if_pos hk]
  rcases unchecked_iff.1 hk with rfl | rfl <;> cases ended <;> nofun

end StoreCall

/-- A memory refuses what a database refuses, but for the calls that it does not check. -/
theorem BackendKind.refuses_memory {k : StoreCall} (hk : k.unchecked = false) (ended : Bool) :
    BackendKind.memory.refuses ended k = BackendKind.database.refuses ended k := by
  cases k with
  | get name | delete name =>
      have hname : name ≠ "" := by simpa [StoreCall.unchecked] using hk
      simp [refuses, StoreCall.refusal, StoreCall.name?, hname]
  | create name value | list pattern | status => rfl

namespace Table

variable {t : Table}

/-- No call on a database stores anything under the empty name. -/
theorem get?_answer_database (hnone : t.get? "" = none) (ended : Bool) (k : StoreCall) :
    (t.answer (BackendKind.database.refuses ended k) k).2.get? "" = none := by
  cases hrefused : BackendKind.database.refuses ended k with
  | some e => exact hnone
  | none =>
      cases k with
      | create name value =>
          have hname : "" ≠ name := by
            rintro rfl
            cases hrefused
          simp only [answer, perform]
          split
          · exact hnone
          · rw [get?_insert, if_neg hname]
            exact hnone
      | get name =>
          simp only [answer, perform]
          split <;> exact hnone
      | delete name =>
          simp only [answer, perform, get?_erase]
          split
          · rfl
          · exact hnone
      | list pattern | status => exact hnone

/-- **One call on the same map.**  A memory and a database leave the same map behind, and as
long as nothing is stored under the empty name, what they give differs for this name only. -/
theorem answer_memory (hnone : t.get? "" = none) (ended : Bool) (k : StoreCall) :
    (t.answer (BackendKind.memory.refuses ended k) k).1 =
        k.inMemory ended (t.answer (BackendKind.database.refuses ended k) k).1 ∧
      (t.answer (BackendKind.memory.refuses ended k) k).2 =
        (t.answer (BackendKind.database.refuses ended k) k).2 ∧
      (k.unchecked = true →
        (t.answer (BackendKind.database.refuses ended k) k).1 = .error (.invalid .emptyKey)) := by
  cases hk : k.unchecked with
  | false =>
      rw [BackendKind.refuses_memory hk, StoreCall.inMemory_eq_self hk]
      exact ⟨rfl, rfl, nofun⟩
  | true =>
      -- a database refuses either call, and to a memory there is nothing under the name
      have hgone : t.erase "" = t := by
        refine ext fun name => ?_
        rw [get?_erase]
        split
        · rename_i hname
          rw [hname, hnone]
        · rfl
      rcases StoreCall.unchecked_iff.1 hk with rfl | rfl <;> cases ended
      · simp only [answer, BackendKind.refuses, perform, hnone]
        exact ⟨rfl, rfl, fun _ => rfl⟩
      · exact ⟨rfl, rfl, fun _ => rfl⟩
      · simp only [answer, BackendKind.refuses, perform, hgone]
        exact ⟨rfl, rfl, fun _ => rfl⟩
      · exact ⟨rfl, rfl, fun _ => rfl⟩

end Table

/-! ### Two worlds side by side -/

namespace World

/-- The world at an occasion. -/
def passTo (w : World Unit) (o : Occasion) : World Unit :=
  { w with tokens := o.tokens, now := o.now }

/-- Calls on the store itself, one after the other, each at its occasion. -/
def serveAt : List (Occasion × StoreCall) → World Unit → List (Except Error StoreReply) × World Unit
  | [], w => ([], w)
  | (o, k) :: calls, w =>
    let (r, w) := (World.host Unit).call o.context k (w.passTo o)
    let (rs, w) := serveAt calls w
    (r :: rs, w)

/-- What the calls give and leave behind, one call after the other. -/
theorem serveAt_cons (o : Occasion) (k : StoreCall) (calls : List (Occasion × StoreCall))
    (w : World Unit) :
    let behind : World Unit := { w.passTo o with backend := (w.backend.call o.ended k).2 }
    serveAt ((o, k) :: calls) w =
      ((w.backend.call o.ended k).1 :: (serveAt calls behind).1, (serveAt calls behind).2) := by
  simp only [serveAt, call_eq]
  rfl

/-- The world with another store. -/
def around (w : World Unit) (b : Backend) : World Unit :=
  { w with backend := b }

/-- What a memory and a database give and hold after the same calls. -/
structure Beside (calls : List (Occasion × StoreCall))
    (memory database : List (Except Error StoreReply) × World Unit) : Prop where
  /-- The replies of the memory, each from that of the database. -/
  replies : memory.1 = List.zipWith (fun x r => x.2.inMemory x.1.ended r) calls database.1
  /-- Every call is replied to. -/
  length_eq : database.1.length = calls.length
  /-- The database refuses the empty name where the memory does not. -/
  refused : ∀ x ∈ calls.zip database.1, x.1.2.unchecked = true → x.2 = .error (.invalid .emptyKey)
  /-- Both hold the same. -/
  held : ∃ t, memory.2.backend = .memory t ∧ database.2.backend = .database t

theorem beside_of_none {t : Table} (hnone : t.get? "" = none)
    (calls : List (Occasion × StoreCall)) (w w' : World Unit) :
    Beside calls (serveAt calls (w.around (.memory t)))
      (serveAt calls (w'.around (.database t))) := by
  induction calls generalizing t w w' with
  | nil =>
      simp only [serveAt, around]
      exact ⟨rfl, rfl, List.forall_mem_nil _, t, rfl, rfl⟩
  | cons x calls ih =>
      obtain ⟨o, k⟩ := x
      obtain ⟨hreply, hsame, hrefused⟩ := Table.answer_memory hnone o.ended k
      have hnone' := Table.get?_answer_database hnone o.ended k
      rw [serveAt_cons, serveAt_cons]
      simp only [around, Backend.call_memory, Backend.call_database]
      obtain ⟨hreplies, hlength, hrest, hheld⟩ := ih hnone' (w.passTo o) (w'.passTo o)
      rw [hsame]
      refine ⟨?_, ?_, ?_, hheld⟩
      · rw [List.zipWith_cons_cons, ← hreply]
        exact congrArg _ hreplies
      · exact congrArg (· + 1) hlength
      · intro x hx hk
        rcases List.mem_cons.1 hx with rfl | hx
        · exact hrefused hk
        · exact hrest x hx hk

/-- The replies are the same if and only if every call is checked. -/
theorem Beside.replies_eq_iff {calls : List (Occasion × StoreCall)}
    {memory database : List (Except Error StoreReply) × World Unit}
    (h : Beside calls memory database) :
    memory.1 = database.1 ↔ ∀ x ∈ calls, x.2.unchecked = false := by
  rw [h.replies]
  constructor
  · intro hsame x hx
    by_contra hk
    rw [Bool.not_eq_false] at hk
    obtain ⟨i, hi, rfl⟩ := List.getElem_of_mem hx
    have hi' : i < database.1.length := h.length_eq ▸ hi
    have hzip : (calls[i], database.1[i]) ∈ calls.zip database.1 :=
      List.mem_of_getElem? (i := i) (by simp [hi, hi'])
    have hrefused : database.1[i] = .error (.invalid .emptyKey) := h.refused _ hzip hk
    have hreply : calls[i].2.inMemory calls[i].1.ended database.1[i] = database.1[i] := by
      have hat := congrArg (fun rs => rs[i]?) hsame
      simpa [hi, hi'] using hat
    exact StoreCall.inMemory_ne hk _ _ (hreply.trans hrefused)
  · intro hchecked
    refine List.ext_getElem (by simp [h.length_eq]) fun i hi hi' => ?_
    rw [List.getElem_zipWith]
    exact StoreCall.inMemory_eq_self (hchecked _ (List.getElem_mem _)) _ _

/-- **A memory beside a database**, both fresh, under the same calls at the same occasions.
What the memory gives is what the database gives, call by call, but for the look-ups and
removals of the empty name, which the database refuses and to which the memory answers that
nothing is there.  So all replies are the same if and only if there is no such call.  Both
hold the same afterwards. -/
theorem memory_beside_database (w w' : World Unit) (calls : List (Occasion × StoreCall)) :
    let memory := serveAt calls (w.around (.memory .empty))
    let database := serveAt calls (w'.around (.database .empty))
    Beside calls memory database ∧
      (memory.1 = database.1 ↔ ∀ x ∈ calls, x.2 ≠ .get "" ∧ x.2 ≠ .delete "") := by
  intro memory database
  have hbeside : Beside calls memory database := beside_of_none rfl calls w w'
  refine ⟨hbeside, hbeside.replies_eq_iff.trans ?_⟩
  simp only [← Bool.not_eq_true, StoreCall.unchecked_iff, not_or]

/-- The empty name tells a memory from a database: to the one it is missing, and removing it
succeeds, and the other refuses it. -/
theorem empty_name_tells_memory :
    let o : Occasion := ⟨.ofToken [], .empty, ⟨0, 0⟩⟩
    let calls := [(o, StoreCall.get ""), (o, .delete "")]
    let memory := serveAt calls (.calm (.memory .empty))
    let database := serveAt calls (.calm (.database .empty))
    memory.1 = [.error (.notFound ""), .ok .done] ∧
      database.1 = [.error (.invalid .emptyKey), .error (.invalid .emptyKey)] ∧
      memory.1 ≠ database.1 := by
  decide +kernel

end World

end KeyCustody
