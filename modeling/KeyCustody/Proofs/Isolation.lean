import KeyCustody.Proofs.Parts
import KeyCustody.Proofs.Serving

/-!
# Isolation of enclaves

The records of an enclave are a part of the store, and a call that is addressed to an
enclave stays in it: it asks only for names in the enclave's namespaces and for its
registration (`Service.inEnclave_of_callAsks`), and it changes only the former.  So what
other enclaves hold neither changes nor matters.  As a name that starts with the namespace
of one enclave starts with that of no other, even if the name of one enclave starts the name
of the other, the parts of different enclaves have nothing in common.  Main statement:

* `Service.enclaves_isolated`: what calls that are addressed to an enclave change, and what
  they depend on; and what creating and deleting an enclave changes.
-/

namespace KeyCustody

/-! ### Parts of enclaves -/

namespace Layout

/-- The name starts with one of the namespaces of the enclave. -/
def owns (l : Layout) (e name : String) : Bool :=
  [RecordKind.key, .policy, .assignment].any fun kind =>
    (l.space kind e).toList.isPrefixOf name.toList

/-- The name is none of the enclave's records. -/
def outside (l : Layout) (e name : String) : Bool :=
  !l.owns e name

/-- The name is one of the enclave's records, or that of its registration. -/
def inside (l : Layout) (e name : String) : Bool :=
  l.owns e name || name == l.record e

/-- The name is none of the enclave's records, nor that of its registration. -/
def apart (l : Layout) (e name : String) : Bool :=
  !l.inside e name

variable {l : Layout} {e e' name : String}

theorem owns_iff : l.owns e name = true ↔ ∃ kind, (l.space kind e).toList <+: name.toList := by
  simp only [owns, List.any_cons, List.any_nil, Bool.or_false, Bool.or_eq_true,
    List.isPrefixOf_iff_prefix]
  constructor
  · rintro (h | h | h)
    · exact ⟨.key, h⟩
    · exact ⟨.policy, h⟩
    · exact ⟨.assignment, h⟩
  · rintro ⟨kind, h⟩
    cases kind with
    | key => exact .inl h
    | policy => exact .inr (.inl h)
    | assignment => exact .inr (.inr h)

theorem owns_space_append (l : Layout) (kind : RecordKind) (e name : String) :
    l.owns e (l.space kind e ++ name) = true := by
  refine owns_iff.2 ⟨kind, ?_⟩
  rw [String.toList_append]
  exact List.prefix_append _ _

/-- No enclave owns a registration. -/
theorem owns_record (l : Layout) (e e' : String) : l.owns e (l.record e') = false := by
  rw [Bool.eq_false_iff]
  intro howns
  obtain ⟨kind, hstart⟩ := owns_iff.1 howns
  obtain ⟨rest, hrest⟩ := toList_prefix_iff.1 hstart
  exact record_ne_space_append l e' e rest kind hrest

/-- **Parts of different enclaves** have nothing in common. -/
theorem apart_of_inside (he : ValidEnclaveName e) (he' : ValidEnclaveName e') (hne : e' ≠ e)
    (hname : l.inside e' name = true) : l.apart e name = true := by
  have hrecord : name = l.record e' → l.inside e name = false := by
    rintro rfl
    have hother : l.record e' ≠ l.record e := fun h => hne (record_inj h)
    simp [inside, owns_record, hother]
  have howned : l.owns e' name = true → l.inside e name = false := by
    intro howns
    obtain ⟨kind, hprefix⟩ := owns_iff.1 howns
    rw [Bool.eq_false_iff]
    intro hinside
    rcases Bool.or_eq_true_iff.1 hinside with howns' | hrecord'
    · obtain ⟨kind', rest, hrest⟩ := owns_iff.1 howns'
      exact hne (space_eq_of_start he'.toValidName he.toValidName (hrest ▸ hprefix)).2
    · have hcontra := owns_record l e' e
      rw [← of_decide_eq_true hrecord', howns] at hcontra
      cases hcontra
  rcases Bool.or_eq_true_iff.1 hname with howns | hrecord'
  · simp [apart, howned howns]
  · simp [apart, hrecord (of_decide_eq_true hrecord')]

/-- What is apart from an enclave is outside it. -/
theorem outside_of_apart (h : l.apart e name = true) : l.outside e name = true := by
  simp only [apart, inside, Bool.not_or, Bool.and_eq_true] at h
  exact h.1

end Layout

/-! ### Footprints -/

/-- The request is about the records of the enclave, or looks at its registration. -/
def Request.InEnclave (l : Layout) (e : String) : Request → Prop
  | .create name _ | .delete name => ∃ kind rest, name = l.space kind e ++ rest
  | .get name => name = l.record e ∨ ∃ kind rest, name = l.space kind e ++ rest
  | .list pattern => ∃ kind rest, pattern = l.space kind e ++ rest
  | _ => True

namespace Request.InEnclave

variable {l : Layout} {e : String} {r : Request}

theorem within (hplain : Glob.hasMeta l.root = false) (he : ValidEnclaveName e)
    (h : r.InEnclave l e) : r.Within (l.inside e) := by
  cases r with
  | create name value =>
      obtain ⟨kind, rest, rfl⟩ := h
      simp [Within, Layout.inside, Layout.owns_space_append]
  | delete name =>
      obtain ⟨kind, rest, rfl⟩ := h
      simp [Within, Layout.inside, Layout.owns_space_append]
  | get name =>
      rcases h with rfl | ⟨kind, rest, rfl⟩
      · simp [Within, Layout.inside]
      · simp [Within, Layout.inside, Layout.owns_space_append]
  | list pattern =>
      obtain ⟨kind, rest, rfl⟩ := h
      intro name haccepts
      have hspace := Layout.hasMeta_space hplain he.toValidName kind
      have howns := Layout.owns_iff.2 ⟨kind, Glob.prefix_of_accepts hspace haccepts⟩
      simp [Layout.inside, howns]
  | _ => trivial

theorem spares (h : r.InEnclave l e) : r.Spares (l.outside e) := by
  cases r with
  | create name value =>
      obtain ⟨kind, rest, rfl⟩ := h
      simp [Spares, Layout.outside, Layout.owns_space_append]
  | delete name =>
      obtain ⟨kind, rest, rfl⟩ := h
      simp [Spares, Layout.outside, Layout.owns_space_append]
  | _ => trivial

end Request.InEnclave

namespace Service

variable {k : Contract} {s : Service} {l : Layout} {caller : Identity} {e : String}

/-- The call works on keys, policies or assignments of the enclave. -/
def Addresses (s : Service) (e : String) : Call → Prop
  | .command enclave c => c.operation.isEnclaveAdmin = false ∧ s.enclaveName enclave = e
  | .deletePolicies enclave _ => s.enclaveName enclave = e
  | .describeSelf enclave => s.enclaveName enclave = e
  | _ => False

/-- The call creates or deletes the enclave. -/
def Manages (e : String) (call : Call) : Prop :=
  ∃ enclave, call = .command enclave (.createEnclave e) ∨
    call = .command enclave (.deleteEnclave e)

/-- A command on keys, policies or assignments stays in its enclave. -/
theorem inEnclave_of_asks {c : Command} {r : Request}
    (hc : c.operation.isEnclaveAdmin = false) (h : Asks k s l caller e c r) :
    r.InEnclave l e := by
  cases h with
  | time => trivial
  | createKey_look | createPolicy_look | assignPolicy_look => exact .inl rfl
  | getKey | describeKey | getPolicy | describePolicy | deletePolicy_look
  | deletePolicy_search | assignPolicy_read | describeIdentity => exact .inr ⟨_, _, rfl⟩
  | createKey_create | deleteKey | listKeys | createPolicy_remove | createPolicy_create
  | deletePolicy_list | deletePolicy_remove | listPolicies | assignPolicy_remove
  | assignPolicy_create | deleteIdentity | listIdentities => exact ⟨_, _, rfl⟩
  | createEnclave_look | createEnclave_list | createEnclave_remove | createEnclave_create
  | describeEnclave | deleteEnclave_look | deleteEnclave_list | deleteEnclave_remove
  | deleteEnclave_unregister | listEnclaves | status => cases hc

/-- **A call that is addressed to an enclave stays in it.** -/
theorem inEnclave_of_callAsks {call : Call} {r : Request} (hcall : s.Addresses e call)
    (h : CallAsks k s l caller call r) : r.InEnclave l e := by
  have hscope {enclave : String} {c : Command}
      (haddressed : s.Addresses e (.command enclave c)) : s.scopeOf enclave c = e := by
    obtain ⟨hc, henclave⟩ := haddressed
    simp [scopeOf, scope, target, hc, henclave]
  induction h with
  | @gate enclave full c valid looks =>
      rw [hscope hcall] at looks
      cases looks with
      | assignment => exact .inr ⟨_, _, rfl⟩
      | policy => exact .inr ⟨_, _, rfl⟩
      | registration => exact .inl rfl
  | body passed asks =>
      rw [hscope hcall] at asks
      exact inEnclave_of_asks hcall.1 asks
  | eventId | time | emit => trivial
  | deletePolicy _ _ ih => exact ih ⟨rfl, hcall⟩
  | describeSelf valid looks =>
      obtain rfl : s.enclaveName _ = e := hcall
      cases looks with
      | registration => exact .inl rfl
      | assignment => exact .inr ⟨_, _, rfl⟩
      | policy => exact .inr ⟨_, _, rfl⟩
  | init => cases hcall
  | health => cases hcall

/-- A call that creates or deletes an enclave changes its records and its registration. -/
theorem spares_of_manages {call : Call} {r : Request} (hcall : Manages e call)
    (h : CallAsks k s l caller call r) : r.Spares (l.apart e) := by
  have howned (kind : RecordKind) (name : String) :
      l.apart e (l.space kind e ++ name) = false := by
    simp [Layout.apart, Layout.inside, Layout.owns_space_append]
  have hrecord : l.apart e (l.record e) = false := by simp [Layout.apart, Layout.inside]
  obtain ⟨enclave, rfl | rfl⟩ := hcall
  · cases h with
    | body passed asks =>
        cases asks with
        | createEnclave_remove => exact howned _ _
        | createEnclave_create => exact hrecord
        | _ => trivial
    | _ => trivial
  · cases h with
    | body passed asks =>
        cases asks with
        | deleteEnclave_remove => exact howned _ _
        | deleteEnclave_unregister => exact hrecord
        | _ => trivial
    | _ => trivial

/-! ### Isolation -/

/-- Worlds over the same part of their stores are the same but for the stores. -/
theorem withBackend_of_only {p : String → Bool} {w v : World Unit} (h : w.only p = v.only p) :
    v = w.withBackend v.backend ∧ v.backend.only p = w.backend.only p := by
  obtain ⟨b, tokens, now, mishaps, clock, readings, eventIds, events, trail⟩ := w
  obtain ⟨b', tokens', now', mishaps', clock', readings', eventIds', events', trail'⟩ := v
  simp only [World.only, World.mk.injEq] at h
  obtain ⟨hb, rfl, rfl, -, rfl, rfl, rfl, rfl, rfl⟩ := h
  exact ⟨rfl, hb.symm⟩

variable {c : Context} {call : Call} {w w' : World Unit} {r : Except Error Reply}

/-- A call that is addressed to an enclave changes nothing outside it. -/
theorem only_outside_of_serve? (hover : s.Over l) (hcall : s.Addresses e call)
    (hserved : s.serve? c caller call w = some (r, w')) :
    w'.backend.only (l.outside e) = w.backend.only (l.outside e) := by
  refine serve?_preserves (fun v => v.backend.only (l.outside e) = w.backend.only (l.outside e))
    (fun _ _ h => h) (fun p hp c v hv => ?_) rfl hserved
  have hkeeps : p.Keeps (.asking (Request.Spares (l.outside e))) fun _ => True :=
    keeps_programs hover (fun r hr => (inEnclave_of_callAsks hcall hr).spares) hp
  exact (hkeeps.run_spares c v).trans hv

/-- A call that is addressed to an enclave depends on nothing but its records and its
registration. -/
theorem only_inside_of_serve? (hover : s.Over l) (he : ValidEnclaveName e)
    (hcall : s.Addresses e call) (hserved : s.serve? c caller call w = some (r, w'))
    {v : World Unit} (hwv : w.only (l.inside e) = v.only (l.inside e)) :
    ∃ v', s.serve? c caller call v = some (r, v') ∧
      w'.only (l.inside e) = v'.only (l.inside e) := by
  refine serve?_simulates (fun w v => w.only (l.inside e) = v.only (l.inside e))
    (fun w v h => ?_) (fun w v tokens h => ?_) (fun p hp c w v h => ?_) hwv hserved
  · exact ⟨(congrArg World.tokens h).symm, (congrArg World.now h).symm⟩
  · exact congrArg (fun u : World Unit => { u with tokens := tokens }) h
  · have hkeeps : p.Keeps (.asking (Request.Within (l.inside e))) fun _ => True :=
      keeps_programs hover
        (fun r hr => (inEnclave_of_callAsks hcall hr).within hover.plain he) hp
    exact hkeeps.run_only c h

/-- **Enclaves are isolated.**  Let nothing go wrong, and let `e` be a valid enclave name.  A
call on keys, policies or assignments of `e` leaves everything outside the namespaces of `e`
as it was, and over any other store that holds the same in these namespaces and the same
registration of `e` it has the same result, puts the same event on the trail and makes the
same changes.  A call that creates or deletes `e` leaves everything as it was outside the
namespaces of `e` but for the registration of `e`.  And what belongs to another enclave is
outside `e`, whatever the names of the two have in common. -/
theorem enclaves_isolated {settings : Settings} {s : Service}
    (hmade : ofSettings settings = .ok s) {e : String} (he : ValidEnclaveName e) {c : Context}
    {caller : Identity} {call : Call} {w w' : World Unit} {r : Except Error Reply}
    (hserved : s.serve? c caller call w = some (r, w')) :
    let l : Layout := ⟨settings.keyPrefix⟩
    (s.Addresses e call →
      w'.backend.only (l.outside e) = w.backend.only (l.outside e) ∧
      ∀ b : Backend, b.only (l.inside e) = w.backend.only (l.inside e) →
        ∃ b', s.serve? c caller call (w.withBackend b) = some (r, w'.withBackend b') ∧
          b'.only (l.inside e) = w'.backend.only (l.inside e) ∧
          b'.only (l.outside e) = b.only (l.outside e)) ∧
    (Manages e call → w'.backend.only (l.apart e) = w.backend.only (l.apart e)) ∧
    (∀ e', ValidEnclaveName e' → e' ≠ e → ∀ name, l.inside e' name = true →
      l.outside e name = true ∧ l.apart e name = true) := by
  intro l
  have hover := over_of_ofSettings hmade
  refine ⟨fun hcall => ⟨only_outside_of_serve? hover hcall hserved, fun b hb => ?_⟩,
    fun hcall => ?_, fun e' he' hne name hname => ?_⟩
  · have hagree : w.only (l.inside e) = (w.withBackend b).only (l.inside e) := by
      simp only [World.only, World.withBackend, hb]
    obtain ⟨v', hserved', hsame⟩ := only_inside_of_serve? hover he hcall hserved hagree
    obtain ⟨hv', hinside⟩ := withBackend_of_only hsame
    refine ⟨v'.backend, ?_, hinside, only_outside_of_serve? hover hcall hserved'⟩
    rw [← hv']
    exact hserved'
  · refine serve?_preserves (fun v => v.backend.only (l.apart e) = w.backend.only (l.apart e))
      (fun _ _ h => h) (fun p hp c v hv => ?_) rfl hserved
    have hkeeps : p.Keeps (.asking (Request.Spares (l.apart e))) fun _ => True :=
      keeps_programs hover (fun r hr => spares_of_manages hcall hr) hp
    exact (hkeeps.run_spares c v).trans hv
  · have hapart := Layout.apart_of_inside he he' hne hname
    exact ⟨Layout.outside_of_apart hapart, hapart⟩

/-- A key is created in the enclave `e` alike, whether or not `e2` has one of the same name. -/
theorem enclaves_isolated_names_alike :
    let s : Service := ⟨Layout.catalog ⟨""⟩, .ofAdmin (some ⟨"root"⟩), "default", 30⟩
    let l : Layout := ⟨""⟩
    let time := (World.calm (.memory .empty)).clock 0
    let registration : Registration := ⟨time, ⟨"root"⟩⟩
    let t := Table.empty.insert "sys/enclaves/e" (Record.encode registration)
    let w := World.calm (.memory t)
    let b : Backend := .memory (t.insert "enclaves/e2/keys/k" [7])
    let call := Call.command "e" (.createKey "k" [1])
    ∃ r w' b', s.serve? (.ofToken []) ⟨"root"⟩ call w = some (r, w') ∧
      s.serve? (.ofToken []) ⟨"root"⟩ call (w.withBackend b) = some (r, w'.withBackend b') ∧
      b'.only (l.inside "e") = w'.backend.only (l.inside "e") ∧
      b'.only (l.outside "e") = b.only (l.outside "e") := by
  intro s l time registration t w b call
  have hmade : ofSettings { Settings.default with admin := some ⟨"root"⟩ } = .ok s := rfl
  have he : ValidEnclaveName "e" := checkEnclaveName_eq_ok_iff.1 rfl
  have hserved : (s.serve? (.ofToken []) ⟨"root"⟩ call w).isSome = true := by decide +kernel
  obtain ⟨⟨r, w'⟩, hserved⟩ := Option.isSome_iff_exists.1 hserved
  have hagree : b.only (l.inside "e") = w.backend.only (l.inside "e") := by
    have hother : l.inside "e" "enclaves/e2/keys/k" = false := by decide
    simp only [b, w, World.calm, Backend.only, Table.only_insert, hother, Bool.false_eq_true,
      if_false]
  obtain ⟨b', hsame, hinside, houtside⟩ :=
    ((enclaves_isolated hmade he hserved).1 ⟨rfl, rfl⟩).2 b hagree
  exact ⟨r, w', b', hserved, hsame, hinside, houtside⟩

end Service

end KeyCustody
