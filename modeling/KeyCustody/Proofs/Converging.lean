import KeyCustody.Proofs.Accesses
import KeyCustody.Proofs.Overwriting
import KeyCustody.Proofs.Turns

/-!
# Writers that overwrite one record

To overwrite a record is to remove it and to create it anew, three times in all if others
create it in between.  When several writers overwrite one name at once, any of their steps
may come between any two others.  What they leave behind is decided by the last removal that
succeeds: from then on the name is free, whoever comes first creates it, and the others, who
find it taken, would have to remove it again.

`Logged` follows an interleaving and keeps its log: who asked for what, and what the answer
was.  `Stage` says how far one writer is, and what the log tells about its attempts so far;
`Converging` is the invariant over all writers.  Its heart is `Converging.held`: there is a
writer about to remove the name, or the name is free and there is a writer about to create
it, or the name holds the record of a writer that is done.  Main statements:

* `Cabinet.Converging.turn`: every turn keeps the invariant;
* `Cabinet.replace_converges`: when all writers are done, one of them has won;
* `Logged.undisturbed`: a map in memory and a database fail no writer whose context lives.
-/

namespace KeyCustody

/-! ### Logs -/

/-- Whose turn it was, and what was asked and answered. -/
abbrev Entry : Type := Nat × Exchange

/-- Turns of the strands lead to a state, and the log lists them. -/
inductive Logged {α σ : Type} [Mishaps σ] (ss₀ : List (Strand α)) (w₀ : World σ) :
    List Entry → List (Strand α) → World σ → Prop
  | start : Logged ss₀ w₀ [] ss₀ w₀
  | turn {log : List Entry} {ss : List (Strand α)} {w : World σ} {i : Nat} {c : Context}
      {r : Request} {next : r.Answer → Program α} (before : Logged ss₀ w₀ log ss w)
      (at_i : ss[i]? = some ⟨c, .ask r next⟩) :
      Logged ss₀ w₀ (log ++ [(i, ⟨r, (w.answer c r).1⟩)])
        (ss.set i ⟨c, next (w.answer c r).1⟩) (w.answer c r).2

section Logs

variable {α σ : Type} [Mishaps σ] {ss₀ ss ss' : List (Strand α)} {w₀ w w' : World σ}
  {log : List Entry}

theorem Logged.reaches (h : Logged ss₀ w₀ log ss w) : Reaches ss₀ w₀ ss w := by
  induction h with
  | start => exact .refl ss₀ w₀
  | turn _ at_i ih => exact ih.trans (.turn at_i (.refl _ _))

/-- The log goes on with the turns. -/
theorem Logged.extend (h : Logged ss₀ w₀ log ss w) (hrun : Reaches ss w ss' w') :
    ∃ log', Logged ss₀ w₀ log' ss' w' := by
  induction hrun generalizing log with
  | refl => exact ⟨log, h⟩
  | @turn ss ss' w w' i s hi _ ih =>
      obtain ⟨c, p⟩ := s
      cases p with
      | ask r next => exact ih (h.turn hi)
      | done a =>
          -- a program at its end leaves everything as it is
          have hstays : Logged ss₀ w₀ log (ss.set i ⟨c, .done a⟩) w := by
            rwa [set_of_getElem? hi]
          exact ih hstays

/-- Every interleaving has a log. -/
theorem reaches_iff_exists_logged : Reaches ss w ss' w' ↔ ∃ log, Logged ss w log ss' w' :=
  ⟨fun hrun => Logged.start.extend hrun, fun ⟨_, h⟩ => h.reaches⟩

end Logs

/-- The value of a strand that has come to its end. -/
def valueAt? {α : Type} (ss : List (Strand α)) (i : Nat) : Option α :=
  ss[i]?.bind Strand.value?

/-- No call of the store fails.  That a creation finds its name taken is no failure. -/
def Undisturbed (log : List Entry) : Prop :=
  ∀ entry ∈ log, ∀ e, entry.2.1.errorIn? entry.2.2 = some e → e.isAlreadyExists = true

/-- Somebody else creates the name. -/
def Forestalled (full : String) (i : Nat) (log : List Entry) : Prop :=
  ∃ j value, j ≠ i ∧ (j, ⟨.create full value, .ok ()⟩) ∈ log

/-- The writer lost so many rounds, one after the other: it removed the name, somebody else
created it, and its own creation found it taken. -/
inductive Lost (full : String) (i : Nat) : Nat → List Entry → Prop
  | none (log : List Entry) : Lost full i 0 log
  | round {n : Nat} {before between after : List Entry} {value : Bytes} {what : String}
      (earlier : Lost full i n before) (forestalled : Forestalled full i between) :
      Lost full i (n + 1) (before ++ (i, ⟨.delete full, .ok ()⟩) :: between ++
        (i, ⟨.create full value, .error (.alreadyExists what)⟩) :: after)

theorem Forestalled.append {full : String} {i : Nat} {log : List Entry}
    (h : Forestalled full i log) (log' : List Entry) : Forestalled full i (log ++ log') := by
  obtain ⟨j, value, hj, hmem⟩ := h
  exact ⟨j, value, hj, List.mem_append_left log' hmem⟩

theorem Lost.append {full : String} {i n : Nat} {log : List Entry} (h : Lost full i n log)
    (log' : List Entry) : Lost full i n (log ++ log') := by
  cases h with
  | none => exact .none _
  | round earlier forestalled =>
      rw [List.append_assoc, List.cons_append]
      exact .round earlier forestalled

/-! ### Names that are free -/

/-- No creation finds the name taken. -/
def Backend.Vacant (b : Backend) (name : String) : Prop :=
  ∀ sig value what, (b.create sig name value).1 ≠ .error (.alreadyExists what)

/-- A name that no entry has is free. -/
theorem DataDir.vacant_of_find {d : DataDir} {name : String}
    (hfree : ∀ entry, d.find (FileName.encode name) ≠ .ok (some entry)) :
    (Backend.files d).Vacant name := by
  have hlooked {file : Bytes} {e : FileError} (hfind : d.find file = .error e) (what : String) :
      e.toError name ≠ .alreadyExists what := by
    have hplain := FileError.isPlain_toError
      (fun he => d.find_ne_exists file (hfind.trans (congrArg _ he))) name
    intro htaken
    rw [htaken] at hplain
    cases hplain
  intro sig value what hcreated
  simp only [Backend.create, DataDir.create_eq] at hcreated
  rcases requireKey_cases name with hkey | hkey <;> simp only [hkey] at hcreated
  · repeat' split at hcreated
    all_goals simp only [Except.error.injEq, reduceCtorEq] at hcreated
    · exact hlooked ‹_› what hcreated
    · exact hlooked ‹_› what hcreated
    · exact hfree _ ‹_›
  · cases hcreated

/-- After a removal no entry has the name. -/
theorem DataDir.find_of_delete {d : DataDir} {sig : Signal} {name : String}
    (hremoved : (d.delete sig name).1 = .ok ()) (entry : DirEntry) :
    (d.delete sig name).2.find (FileName.encode name) ≠ .ok (some entry) := by
  rw [delete_eq] at hremoved ⊢
  rcases requireKey_cases name with hkey | hkey <;> simp only [hkey] at hremoved ⊢
  · cases hend : sig.atStart with
    | true => simp [hend] at hremoved
    | false =>
        simp only [hend, Bool.false_eq_true, if_false] at hremoved ⊢
        cases hfind : d.find (FileName.encode name) with
        | error e => cases e <;> simp [hfind] at hremoved ⊢
        | ok found =>
            rcases found with _ | _ | _
            · simp [hfind]
            · simp [find_drop hfind]
            · simp [hfind] at hremoved
  · cases hremoved

/-- **A removal frees the name.** -/
theorem Backend.vacant_of_delete {b : Backend} {sig : Signal} {name : String}
    (hremoved : (b.delete sig name).1 = .ok ()) : (b.delete sig name).2.Vacant name := by
  have herased (t : Table) : (t.erase name).contains name = false := by
    simp [Table.contains, Table.get?_erase]
  cases b with
  | memory t =>
      rcases sig.whole_cases with hs | hs <;> simp only [delete, hs] at hremoved ⊢
      · intro sig' value what
        rcases requireKey_cases name with hk | hk <;> rcases sig'.whole_cases with hs' | hs' <;>
          simp [create, hk, hs', herased]
      · cases hremoved
  | database t =>
      rcases requireKey_cases name with hk | hk <;> rcases sig.whole_cases with hs | hs <;>
        simp only [delete, hk, hs] at hremoved ⊢ <;> try cases hremoved
      intro sig' value what
      simp only [create, hk, herased]
      cases sig'.atStart <;> cases sig'.atCommit <;> simp
  | files d => exact DataDir.vacant_of_find (DataDir.find_of_delete hremoved)

/-! ### Stores that do not fail -/

/-- The store is no directory, so that nothing stands in the way of a name. -/
def Backend.isTable : Backend → Bool
  | .memory _ | .database _ => true
  | .files _ => false

/-- The request removes or creates the name. -/
def Request.Overwrites (full : String) (r : Request) : Prop :=
  r.Removes full ∨ r.Creates full

namespace World

variable {w : World Unit} {c : Context} {full : String} {r : Request}

/-- Under a context that lives, a table fails no request to overwrite a name. -/
theorem answer_of_isTable (hfull : full ≠ "") (htable : w.backend.isTable = true)
    (hlive : w.ended c = false) (hr : r.Overwrites full) :
    (∀ e, r.errorIn? (w.answer c r).1 = some e → e.isAlreadyExists = true) ∧
      (w.answer c r).2.backend.isTable = true := by
  have hkey := requireKey_of_ne hfull
  cases r with
  | create name value =>
      obtain rfl : name = full := hr.resolve_left id
      simp only [answer, meet_calm, hlive]
      cases hb : w.backend with
      | files d => simp [hb, Backend.isTable] at htable
      | memory t =>
          simp only [Backend.create, hkey]
          cases t.contains name <;> simp [Request.errorIn?, errorOf, Backend.isTable, Signal.whole,
            Signal.steady, Error.isAlreadyExists]
      | database t =>
          simp only [Backend.create, hkey]
          cases t.contains name <;> simp [Request.errorIn?, errorOf, Backend.isTable, Signal.steady,
            Error.isAlreadyExists]
  | delete name =>
      obtain rfl : name = full := hr.resolve_right id
      simp only [answer, meet_calm, hlive]
      cases hb : w.backend with
      | files d => simp [hb, Backend.isTable] at htable
      | memory t => simp [Backend.delete, Request.errorIn?, errorOf, Backend.isTable,
          Signal.whole, Signal.steady]
      | database t => simp [Backend.delete, hkey, Request.errorIn?, errorOf, Backend.isTable,
          Signal.whole, Signal.steady]
  | _ => exact absurd hr (by simp [Request.Overwrites, Request.Removes, Request.Creates])

end World

/-- **Tables do not fail.**  If the store is no directory and all contexts live, nothing fails
while a name is overwritten. -/
theorem Logged.undisturbed {α : Type} {ss₀ ss : List (Strand α)} {w₀ w : World Unit}
    {log : List Entry} {full : String} (hrun : Logged ss₀ w₀ log ss w) (hfull : full ≠ "")
    (htable : w₀.backend.isTable = true)
    (hstrands : ∀ s ∈ ss₀, w₀.ended s.context = false ∧
      s.program.Keeps (.asking (Request.Overwrites full)) fun _ => True) :
    Undisturbed log := by
  suffices hinv : Undisturbed log ∧ w.backend.isTable = true ∧
      ∀ s ∈ ss, w.ended s.context = false ∧
        s.program.Keeps (.asking (Request.Overwrites full)) fun _ => True from hinv.1
  induction hrun with
  | start => exact ⟨fun _ hentry => (List.not_mem_nil hentry).elim, htable, hstrands⟩
  | @turn log ss w i c r next _ hi ih =>
      obtain ⟨hlog, hw, hss⟩ := ih
      obtain ⟨hlive, hkeeps⟩ := hss _ (List.mem_of_getElem? hi)
      obtain ⟨hanswer, hw'⟩ := World.answer_of_isTable hfull hw hlive hkeeps.1
      refine ⟨fun entry hentry => ?_, hw', fun s hs => ?_⟩
      · rcases List.mem_append.1 hentry with hold | hnew
        · exact hlog entry hold
        · obtain rfl := List.mem_singleton.1 hnew
          exact hanswer
      · rw [World.ended_answer]
        rcases List.mem_or_eq_of_mem_set hs with hold | rfl
        · exact hss s hold
        · exact ⟨hlive, hkeeps.2 _ trivial⟩

/-! ### One writer -/

section Writer

variable {v : View} {name : String} {value : Bytes} {i : Nat} {log : List Entry}
  {b b' : Backend}

/-- How far a writer came, and what the log tells about it. -/
inductive Stage (v : View) (name : String) (value : Bytes) (i : Nat) (log : List Entry)
    (b : Backend) (p : Program (Except Error Unit)) : Prop
  /-- It is about to remove the name, and has lost all rounds before. -/
  | removing {lost left : Nat} (count : lost + (left + 1) = Cabinet.attempts)
      (rounds : Lost (v.fullName name) i lost log)
      (program : p = (Cabinet.replaceValue v name value (left + 1)).attempt)
  /-- It has removed the name and is about to create it.  The name is still free, or somebody
  else has created it since. -/
  | creating {lost left : Nat} {before between : List Entry}
      {next : Except Error Unit → Program (Except Error Unit)}
      (count : lost + (left + 1) = Cabinet.attempts)
      (rounds : Lost (v.fullName name) i lost before)
      (split : log = before ++ (i, ⟨.delete (v.fullName name), .ok ()⟩) :: between)
      (state : b.Vacant (v.fullName name) ∨ Forestalled (v.fullName name) i between)
      (program : p = .ask (.create (v.fullName name) value) next)
      (stored : next (.ok ()) = .done (.ok ()))
      (again : ∀ what, next (.error (.alreadyExists what)) =
        (Cabinet.replaceValue v name value left).attempt)
  /-- It has created the name. -/
  | stored (program : p = .done (.ok ()))
  /-- It has lost all its rounds. -/
  | beaten (rounds : Lost (v.fullName name) i Cabinet.attempts log)
      (program : p = .done (.error (.alreadyExists name)))

/-- Turns of others do not change the stage of a writer, as long as a free name stays free or
is created by somebody else. -/
theorem Stage.later {p : Program (Except Error Unit)} {entry : Entry}
    (h : Stage v name value i log b p)
    (hfree : b.Vacant (v.fullName name) → b'.Vacant (v.fullName name) ∨
      Forestalled (v.fullName name) i [entry]) :
    Stage v name value i (log ++ [entry]) b' p := by
  cases h with
  | removing count rounds program => exact .removing count (rounds.append _) program
  | stored program => exact .stored program
  | beaten rounds program => exact .beaten (rounds.append _) program
  | @creating lost left before between next count rounds split state program stored again =>
      have hsplit : log ++ [entry] =
          before ++ (i, ⟨.delete (v.fullName name), .ok ()⟩) :: (between ++ [entry]) := by
        rw [split, List.append_assoc, List.cons_append]
      refine .creating count rounds hsplit ?_ program stored again
      rcases state with hvacant | hforestalled
      · rcases hfree hvacant with hvacant' | ⟨j, created, hj, hmem⟩
        · exact .inl hvacant'
        · exact .inr ⟨j, created, hj, List.mem_append_right _ hmem⟩
      · exact .inr (hforestalled.append _)

/-- What one turn of a writer does to the store and to its own program. -/
inductive Move (full : String) (value : Bytes) (b b' : Backend) (r : Request)
    (x : r.Answer) (p : Program (Except Error Unit)) : Prop
  /-- The name was removed, and the writer is about to create it. -/
  | removed {next : Except Error Unit → Program (Except Error Unit)}
      (program : p = .ask (.create full value) next) (free : b'.Vacant full)
  /-- The name was created, and it holds the writer's record. -/
  | stored (exchange : (⟨r, x⟩ : Exchange) = ⟨.create full value, .ok ()⟩)
      (program : p = .done (.ok ())) (holds : b'.stored? full = some value)
  /-- The name was taken, and nothing has changed. -/
  | taken (asked : r = .create full value) (occupied : ¬ b.Vacant full) (kept : b' = b)

/-- **One turn of a writer.**  Unless the store fails, the writer comes to its next stage, and
no other name changes. -/
theorem Stage.turn (hname : name ≠ "") {w : World Unit} {c : Context} {r : Request}
    {next : r.Answer → Program (Except Error Unit)}
    (h : Stage v name value i log w.backend (.ask r next))
    (hcalm : ∀ e, r.errorIn? (w.answer c r).1 = some e → e.isAlreadyExists = true) :
    Stage v name value i (log ++ [(i, ⟨r, (w.answer c r).1⟩)]) (w.answer c r).2.backend
        (next (w.answer c r).1) ∧
      Move (v.fullName name) value w.backend (w.answer c r).2.backend r (w.answer c r).1
        (next (w.answer c r).1) ∧
      ∀ other, other ≠ v.fullName name →
        (w.answer c r).2.backend.stored? other = w.backend.stored? other := by
  cases h with
  | stored program => cases program
  | beaten rounds program => cases program
  | @removing lost left count rounds program =>
      rw [Cabinet.replaceValue_attempt v hname] at program
      obtain ⟨rfl, hnext⟩ := Program.ask.inj program
      obtain rfl := eq_of_heq hnext
      have hanswer : (w.answer c (.delete (v.fullName name))).1 =
          (w.backend.delete (.steady (w.ended c)) (v.fullName name)).1 := rfl
      rcases w.answer_delete_cases c (v.fullName name) with ⟨e, hfailed, -⟩ | ⟨hok, hheld⟩
      · -- no removal fails because the name is taken
        have htaken := hcalm e (by rw [hfailed]; rfl)
        have hplain := Backend.isPlain_of_delete (hanswer.symm.trans hfailed)
        cases e with
        | alreadyExists what => cases hplain
        | _ => cases htaken
      · have hvacant : (w.answer c (.delete (v.fullName name))).2.backend.Vacant
            (v.fullName name) := Backend.vacant_of_delete (hanswer.symm.trans hok)
        rw [hok]
        refine ⟨?_, .removed rfl hvacant, fun other hother => ?_⟩
        · exact .creating count rounds rfl (.inl hvacant) rfl rfl fun _ => rfl
        · rw [hheld, if_neg hother]
  | @creating lost left before between following count rounds split state program stored again =>
      obtain ⟨rfl, hnext⟩ := Program.ask.inj program
      obtain rfl := eq_of_heq hnext
      rcases w.answer_create_cases c (v.fullName name) value with ⟨e, hfailed, hsame⟩ |
        ⟨hok, -, hheld⟩
      · -- the name was taken, so that it is no longer free and the round is lost
        have htaken := hcalm e (by rw [hfailed]; rfl)
        cases e with
        | alreadyExists what =>
            have hoccupied : ¬ w.backend.Vacant (v.fullName name) :=
              fun hvacant => hvacant (.steady (w.ended c)) value what hfailed
            have hround : Lost (v.fullName name) i (lost + 1)
                (before ++ (i, ⟨.delete (v.fullName name), .ok ()⟩) :: between ++
                  [(i, ⟨.create (v.fullName name) value, .error (.alreadyExists what)⟩)]) :=
              .round rounds (state.resolve_left hoccupied)
            rw [hfailed, hsame, again, split]
            refine ⟨?_, .taken rfl hoccupied rfl, fun _ _ => rfl⟩
            cases left with
            | zero => exact .beaten (count ▸ hround) rfl
            | succ left => exact .removing (by omega) hround rfl
        | _ => cases htaken
      · rw [hok, stored]
        refine ⟨.stored rfl, .stored rfl rfl ?_, fun other hother => ?_⟩
        · rw [hheld, if_pos rfl]
        · rw [hheld, if_neg hother]

end Writer

/-! ### All writers -/

namespace Cabinet

variable {α : Type} [Record α] {cabinet : Cabinet α} {name : String}
  {calls : List (Context × α)} {b₀ b : Backend} {log : List Entry}
  {ss : List (Strand (Except Error Unit))}

/-- Somebody sees to it that the name holds a record in the end. -/
inductive InHand (full : String) (calls : List (Context × α))
    (ss : List (Strand (Except Error Unit))) (b : Backend) : Prop
  /-- A writer is about to remove the name. -/
  | removing {i : Nat} {c : Context} {next : Except Error Unit → Program (Except Error Unit)}
      (at_i : ss[i]? = some ⟨c, .ask (.delete full) next⟩)
  /-- The name is free, and a writer is about to create it. -/
  | creating {i : Nat} {c : Context} {value : Bytes}
      {next : Except Error Unit → Program (Except Error Unit)}
      (at_i : ss[i]? = some ⟨c, .ask (.create full value) next⟩) (free : b.Vacant full)
  /-- A writer is done, and the name holds its record. -/
  | stored {i : Nat} {c : Context} {a : α} (call : calls[i]? = some (c, a))
      (at_i : ss[i]? = some ⟨c, .done (.ok ())⟩)
      (holds : b.stored? full = some (Record.encode a))

/-- What holds at every moment while writers overwrite a name. -/
structure Converging (cabinet : Cabinet α) (name : String) (calls : List (Context × α))
    (b₀ : Backend) (log : List Entry) (ss : List (Strand (Except Error Unit)))
    (b : Backend) : Prop where
  /-- Every writer is at one of its stages. -/
  writers : ∀ i s, ss[i]? = some s → ∃ a, calls[i]? = some (s.context, a) ∧
    Stage cabinet.view name (Record.encode a) i log b s.program
  /-- The name is in somebody's hands. -/
  held : InHand (cabinet.view.fullName name) calls ss b
  /-- No other name has changed. -/
  others : ∀ other, other ≠ cabinet.view.fullName name → b.stored? other = b₀.stored? other

/-- The writers of the calls. -/
def overwriters (cabinet : Cabinet α) (name : String) (calls : List (Context × α)) :
    List (Strand (Except Error Unit)) :=
  calls.map fun call => ⟨call.1, (cabinet.replace name call.2).attempt⟩

/-- A writer removes and creates nothing but its name. -/
theorem keeps_overwriters (hname : name ≠ "") :
    ∀ s ∈ cabinet.overwriters name calls,
      s.program.Keeps (.asking (Request.Overwrites (cabinet.view.fullName name)))
        fun _ => True := by
  have hkeeps (value : Bytes) (n : Nat) : (replaceValue cabinet.view name value n).attempt.Keeps
      (.asking (Request.Overwrites (cabinet.view.fullName name))) fun _ => True := by
    induction n with
    | zero => trivial
    | succ n ih =>
        rw [replaceValue_attempt _ hname]
        refine ⟨.inl rfl, fun removed _ => ?_⟩
        rcases removed with e | _
        · trivial
        · refine ⟨.inr rfl, fun created _ => ?_⟩
          rcases created with e | _
          · cases e <;> first | exact ih | trivial
          · trivial
  intro s hs
  obtain ⟨call, -, rfl⟩ := List.mem_map.1 hs
  exact hkeeps _ _

/-- At the start every writer is about to remove the name. -/
theorem Converging.start (hname : name ≠ "") (hcalls : calls ≠ []) :
    Converging cabinet name calls b [] (cabinet.overwriters name calls) b := by
  refine ⟨fun i s hi => ?_, ?_, fun _ _ => rfl⟩
  · rw [overwriters, List.getElem?_map, Option.map_eq_some_iff] at hi
    obtain ⟨⟨c, a⟩, hcall, rfl⟩ := hi
    exact ⟨a, hcall, .removing (Nat.zero_add _) (.none []) rfl⟩
  · obtain ⟨⟨c, a⟩, rest, rfl⟩ := List.exists_cons_of_ne_nil hcalls
    obtain ⟨next, hfirst⟩ : ∃ next, (cabinet.replace name a).attempt =
        .ask (.delete (cabinet.view.fullName name)) next :=
      ⟨_, replaceValue_attempt cabinet.view hname 2⟩
    have hstrand : (cabinet.overwriters name ((c, a) :: rest))[0]? =
        some ⟨c, .ask (.delete (cabinet.view.fullName name)) next⟩ := by
      rw [← hfirst]
      rfl
    exact .removing hstrand

/-- **Every turn keeps the invariant**, unless the store fails. -/
theorem Converging.turn (hname : name ≠ "") {w : World Unit} {i : Nat} {c : Context}
    {r : Request} {next : r.Answer → Program (Except Error Unit)}
    (h : Converging cabinet name calls b₀ log ss w.backend)
    (hi : ss[i]? = some ⟨c, .ask r next⟩)
    (hcalm : ∀ e, r.errorIn? (w.answer c r).1 = some e → e.isAlreadyExists = true) :
    Converging cabinet name calls b₀ (log ++ [(i, ⟨r, (w.answer c r).1⟩)])
      (ss.set i ⟨c, next (w.answer c r).1⟩) (w.answer c r).2.backend := by
  obtain ⟨a, hcall, hstage⟩ := h.writers i _ hi
  obtain ⟨hnext, hmove, hothers⟩ := hstage.turn hname hcalm
  have hlength : i < ss.length := (List.getElem?_eq_some_iff.1 hi).1
  have hself := List.getElem?_set_self (a := (⟨c, next (w.answer c r).1⟩ : Strand _)) hlength
  have hrest {j : Nat} {s : Strand (Except Error Unit)} (hj : ss[j]? = some s) (hij : i ≠ j) :
      (ss.set i ⟨c, next (w.answer c r).1⟩)[j]? = some s :=
    (List.getElem?_set_ne hij).trans hj
  refine ⟨fun j s hj => ?_, ?_, fun other hother => ?_⟩
  · by_cases hij : i = j
    · subst hij
      rw [hself] at hj
      obtain rfl := Option.some.inj hj
      exact ⟨a, hcall, hnext⟩
    · rw [List.getElem?_set_ne hij] at hj
      obtain ⟨a', hcall', hstage'⟩ := h.writers j s hj
      refine ⟨a', hcall', hstage'.later fun hvacant => ?_⟩
      cases hmove with
      | removed _ free => exact .inl free
      | stored exchange _ _ => exact .inr ⟨i, _, hij, by rw [exchange]; exact List.mem_cons_self⟩
      | taken _ occupied _ => exact absurd hvacant occupied
  · cases hmove with
    | removed program free =>
        rw [program] at hself ⊢
        exact .creating hself free
    | stored _ program holds =>
        rw [program] at hself ⊢
        exact .stored hcall hself holds
    | taken asked occupied kept =>
        subst asked
        -- whoever has the name in hand is another writer
        cases h.held with
        | @removing j c' next' at_j =>
            refine .removing (hrest at_j ?_)
            rintro rfl
            cases hi.symm.trans at_j
        | creating _ free => exact absurd free occupied
        | @stored j c' a' call at_j holds =>
            refine .stored call (hrest at_j ?_) (by rw [kept, holds])
            rintro rfl
            cases hi.symm.trans at_j
  · rw [hothers other hother, h.others other hother]

/-- **What writers that overwrite one name leave behind.** -/
structure Converged (cabinet : Cabinet α) (name : String) (calls : List (Context × α))
    (log : List Entry) (ss : List (Strand (Except Error Unit))) (b b' : Backend) : Prop where
  /-- The name holds the record of a writer that was told of no error. -/
  winner : ∃ i c a, calls[i]? = some (c, a) ∧ valueAt? ss i = some (.ok ()) ∧
    b'.stored? (cabinet.view.fullName name) = some (Record.encode a)
  /-- No other name has changed. -/
  others : ∀ other, other ≠ cabinet.view.fullName name → b'.stored? other = b.stored? other
  /-- Whoever was told of an error has lost three rounds, each to a creation by another writer
  between its own removal and its own creation. -/
  losers : ∀ i e, valueAt? ss i = some (.error e) →
    e = .alreadyExists name ∧ Lost (cabinet.view.fullName name) i 3 log

/-- **Overwriting converges.**  Any number of writers overwrite one name, in any interleaving
of their calls to the store, none of which fails.  Once all are done, the name holds the
record of one of them that was told of no error, and no other name has changed. -/
theorem replace_converges (cabinet : Cabinet α) {name : String} (hname : name ≠ "")
    {calls : List (Context × α)} (hcalls : calls ≠ []) {w w' : World Unit} {log : List Entry}
    {ss : List (Strand (Except Error Unit))}
    (hrun : Logged (cabinet.overwriters name calls) w log ss w') (hcalm : Undisturbed log)
    (hdone : ∀ s ∈ ss, s.value?.isSome) :
    Converged cabinet name calls log ss w.backend w'.backend := by
  have hinv : Converging cabinet name calls w.backend log ss w'.backend := by
    clear hdone
    induction hrun with
    | start => exact .start hname hcalls
    | @turn log ss w' i c r next _ hi ih =>
        refine (ih fun entry hentry => ?_).turn hname hi fun e he => ?_
        · exact hcalm entry (List.mem_append_left _ hentry)
        · exact hcalm _ (List.mem_append_right _ List.mem_cons_self) e he
  have hvalue {i : Nat} {s : Strand (Except Error Unit)} (hi : ss[i]? = some s) :
      ∃ r, s.program = .done r := by
    obtain ⟨r, hr⟩ := Option.isSome_iff_exists.1 (hdone s (List.mem_of_getElem? hi))
    exact ⟨r, Strand.value?_eq_some_iff.1 hr⟩
  refine ⟨?_, hinv.others, fun i e he => ?_⟩
  · cases hinv.held with
    | removing hi =>
        obtain ⟨r, hr⟩ := hvalue hi
        cases hr
    | creating hi _ =>
        obtain ⟨r, hr⟩ := hvalue hi
        cases hr
    | @stored i c a call hi holds => exact ⟨i, c, a, call, by rw [valueAt?, hi]; rfl, holds⟩
  · obtain ⟨s, hi, hs⟩ := Option.bind_eq_some_iff.1 he
    obtain ⟨a, -, hstage⟩ := hinv.writers i s hi
    rw [Strand.value?_eq_some_iff] at hs
    rw [hs] at hstage
    cases hstage with
    | removing _ _ program =>
        rw [replaceValue_attempt _ hname] at program
        cases program
    | creating _ _ _ _ program _ _ => cases program
    | stored program => cases program
    | beaten rounds program =>
        cases program
        exact ⟨rfl, rounds⟩

/-- Four writers overwrite one policy.  The first one always finds that another one came
between its removal and its creation, and gives up; the last one wins. -/
theorem last_of_four_replaces :
    let cabinet : Cabinet Policy := .under "policies/"
    let calls := ["/a", "/b", "/c", "/d"].map fun rule =>
      (Context.ofToken [], Policy.ofRules [rule] [])
    let w := World.calm (.memory (Table.empty.insert "policies/p" [0]))
    let ss := cabinet.overwriters "p" calls
    let ran := takeTurns [0, 1, 1, 0, 0, 2, 2, 0, 0, 3, 3, 0] ss w
    ∃ log, Logged ss w log ran.1 ran.2 ∧ Undisturbed log ∧
      ran.1.map Strand.value? =
        [some (.error (.alreadyExists "p")), some (.ok ()), some (.ok ()), some (.ok ())] ∧
      Converged cabinet "p" calls log ran.1 w.backend ran.2.backend := by
  intro cabinet calls w ss ran
  have hname : "p" ≠ "" := by decide
  obtain ⟨log, hrun⟩ := reaches_iff_exists_logged.1 (Reaches.takeTurns
    [0, 1, 1, 0, 0, 2, 2, 0, 0, 3, 3, 0] ss w)
  have hcalm : Undisturbed log := by
    refine hrun.undisturbed (cabinet.view.fullName_ne hname) rfl fun s hs => ⟨?_, ?_⟩
    · obtain ⟨call, hcall, rfl⟩ := List.mem_map.1 hs
      obtain ⟨rule, -, rfl⟩ := List.mem_map.1 hcall
      rfl
    · exact keeps_overwriters hname s hs
  have hvalues : ran.1.map Strand.value? =
      [some (.error (.alreadyExists "p")), some (.ok ()), some (.ok ()), some (.ok ())] := by
    decide +kernel
  have hsome : ∀ r ∈ ran.1.map Strand.value?, r.isSome = true := by
    rw [hvalues]
    decide
  have hdone : ∀ s ∈ ran.1, s.value?.isSome = true :=
    fun s hs => hsome _ (List.mem_map_of_mem hs)
  exact ⟨log, hrun, hcalm, hvalues,
    replace_converges cabinet hname (List.cons_ne_nil _ _) hrun hcalm hdone⟩

end Cabinet

end KeyCustody
