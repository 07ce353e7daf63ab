import KeyCustody.Proofs.Forms
import Mathlib.Data.List.Nodup

/-!
# Record formats

What is written of a record is read back, whatever the record holds.  Besides, documents may
say more or less than a record that was written says.  A member that is no field of the kind
is passed over.  An optional field may be absent, and then it means the same as a field that
holds nothing: no rules, no time, the empty creator.  And no member that is written can be
left out, unless it is `null`: what is not the default is always told.

Two documents that differ in one member are compared by what they have in every field
(`Json.fields?_object`); the fields differ at most where one document is silent and the other
holds what says no more (`Record.Padded`).  Main statement:

* `Record.formats_round_trip`: the formats of all kinds of records.
-/

namespace KeyCustody

namespace Json

/-! ### Members and fields -/

/-- The members with their keys as texts. -/
def keyed? (members : List (Bytes × Json)) : Option (List (String × Json)) :=
  members.mapM fun m => do pure (← rawText? m.1, m.2)

/-- The member of a name, which may be absent but not there twice. -/
def pick? (members : List (String × Json)) (name : String) : Option (Option Json) :=
  match members.filter fun m => m.1 == name with
  | [] => some none
  | [m] => some (some m.2)
  | _ => none

theorem fields?_object (required : Nat) (names : List String) (members : List (Bytes × Json)) :
    fields? required names (.object members) =
      (keyed? members).bind fun keyed => names.mapM (pick? keyed) := rfl

theorem keyed?_append (before behind : List (Bytes × Json)) :
    keyed? (before ++ behind) =
      (keyed? before).bind fun first => (keyed? behind).bind fun second =>
        some (first ++ second) :=
  List.mapM_append

theorem keyed?_cons {m : Bytes × Json} {key : String} (hkey : rawText? m.1 = some key)
    (members : List (Bytes × Json)) :
    keyed? (m :: members) = (keyed? members).bind fun keyed => some ((key, m.2) :: keyed) := by
  unfold keyed?
  rw [List.mapM_cons, hkey]
  rfl

/-- The keys are those of the members. -/
theorem exists_of_mem_keyed? {members : List (Bytes × Json)} {keyed : List (String × Json)}
    (hkeyed : keyed? members = some keyed) {k : String × Json} (hk : k ∈ keyed) :
    ∃ m ∈ members, rawText? m.1 = some k.1 := by
  induction members generalizing keyed with
  | nil =>
      obtain rfl := Option.some.inj hkeyed
      cases hk
  | cons m members ih =>
      cases hkey : rawText? m.1 with
      | none =>
          unfold keyed? at hkeyed
          rw [List.mapM_cons, hkey] at hkeyed
          cases hkeyed
      | some key =>
          rw [keyed?_cons hkey] at hkeyed
          obtain ⟨rest, hrest, hcons⟩ := Option.bind_eq_some_iff.1 hkeyed
          obtain rfl := Option.some.inj hcons
          rcases List.mem_cons.1 hk with rfl | hk
          · exact ⟨m, List.mem_cons_self, hkey⟩
          · obtain ⟨m', hm', hkey'⟩ := ih hrest hk
            exact ⟨m', List.mem_cons_of_mem _ hm', hkey'⟩

/-- A member is not picked for another name. -/
theorem pick?_insert_of_ne {key name : String} (hne : key ≠ name) (v : Json)
    (first second : List (String × Json)) :
    pick? (first ++ (key, v) :: second) name = pick? (first ++ second) name := by
  have hskip : ((key == name) = true) = False := by simp [hne]
  simp only [pick?, List.filter_append, List.filter_cons, hskip, if_false]

/-- A member is picked for its own name if it is the only one. -/
theorem pick?_insert_self {name : String} (v : Json) {first second : List (String × Json)}
    (hmissing : ∀ m ∈ first ++ second, m.1 ≠ name) :
    pick? (first ++ second) name = some none ∧
      pick? (first ++ (name, v) :: second) name = some (some v) := by
  have hnone {members : List (String × Json)} (h : ∀ m ∈ members, m.1 ≠ name) :
      members.filter (fun m => m.1 == name) = [] := by
    refine List.filter_eq_nil_iff.2 fun m hm hsame => h m hm (beq_iff_eq.1 hsame)
  have hfirst := hnone fun m hm => hmissing m (List.mem_append_left _ hm)
  have hsecond := hnone fun m hm => hmissing m (List.mem_append_right _ hm)
  constructor
  · simp only [pick?, hnone hmissing]
  · simp only [pick?, List.filter_append, hfirst, List.filter_cons, beq_self_eq_true, if_true,
      hsecond, List.nil_append]

end Json

namespace Record

/-- Fields that differ at most where one document is silent and the other holds what says no
more make rows that differ so. -/
theorem padded_of_fields {names : List String} {blanks : List (Option Json)}
    (hlength : blanks.length = names.length) {field field' : String → Option (Option Json)}
    (hfields : ∀ p ∈ names.zip blanks, field' p.1 = field p.1 ∨
      (field p.1 = some none ∧ field' p.1 = some p.2)) :
    (names.mapM field = none ∧ names.mapM field' = none) ∨
      ∃ values values', names.mapM field = some values ∧ names.mapM field' = some values' ∧
        Padded blanks values values' := by
  induction names generalizing blanks with
  | nil =>
      obtain rfl := List.length_eq_zero_iff.1 hlength
      exact .inr ⟨[], [], rfl, rfl, .nil⟩
  | cons name names ih =>
      cases blanks with
      | nil => cases hlength
      | cons blank blanks =>
          rw [List.zip_cons_cons] at hfields
          obtain ⟨hfirst, hrest⟩ := List.forall_mem_cons.1 hfields
          simp only [List.mapM_cons]
          rcases ih (Nat.succ.inj hlength) hrest with ⟨hnone, hnone'⟩ |
            ⟨values, values', hvalues, hvalues', hpadded⟩
          · left
            rw [hnone, hnone']
            cases field name <;> cases field' name <;> exact ⟨rfl, rfl⟩
          · rw [hvalues, hvalues']
            rcases hfirst with hsame | ⟨habsent, hblank⟩
            · rw [hsame]
              cases field name with
              | none => exact .inl ⟨rfl, rfl⟩
              | some value => exact .inr ⟨_, _, rfl, rfl, .same blank value hpadded⟩
            · rw [habsent, hblank]
              exact .inr ⟨_, _, rfl, rfl, .filled blank hpadded⟩

/-! ### One member more -/

section Documents

variable {α : Type} [Record α] [h : Formed α] {before behind : List (Bytes × Json)}
  {m : Bytes × Json} {key : String}

/-- **One member more** changes nothing if it is no field of the kind, or if the field was
absent and the member says no more. -/
theorem ofJson?_insert (hkey : Json.rawText? m.1 = some key)
    (hsilent : ∀ p ∈ h.form.names.zip h.form.blanks, p.1 = key →
      p.2 = some m.2 ∧ ∀ m' ∈ before ++ behind, Json.rawText? m'.1 ≠ some key) :
    (ofJson? (.object (before ++ m :: behind)) : Option α) =
      ofJson? (.object (before ++ behind)) := by
  simp only [h.ofJson?_eq, Json.fields?_object, Json.keyed?_append, Json.keyed?_cons hkey]
  cases hbefore : Json.keyed? before with
  | none => rfl
  | some first =>
      cases hbehind : Json.keyed? behind with
      | none => rfl
      | some second =>
          simp only [Option.bind_some]
          have hkeyed : Json.keyed? (before ++ behind) = some (first ++ second) := by
            rw [Json.keyed?_append, hbefore, hbehind]
            rfl
          have hfields : ∀ p ∈ h.form.names.zip h.form.blanks,
              Json.pick? (first ++ (key, m.2) :: second) p.1 = Json.pick? (first ++ second) p.1 ∨
                (Json.pick? (first ++ second) p.1 = some none ∧
                  Json.pick? (first ++ (key, m.2) :: second) p.1 = some p.2) := by
            intro p hp
            by_cases hname : p.1 = key
            · obtain ⟨hblank, hmissing⟩ := hsilent p hp hname
              subst hname
              rw [hblank]
              refine .inr (Json.pick?_insert_self m.2 fun k hk hsame => ?_)
              obtain ⟨m', hm', hkey'⟩ := Json.exists_of_mem_keyed? hkeyed hk
              exact hmissing m' hm' (hsame ▸ hkey')
            · exact .inl (Json.pick?_insert_of_ne (Ne.symm hname) m.2 first second)
          rcases padded_of_fields h.form.length_blanks hfields with ⟨hnone, hnone'⟩ |
            ⟨values, values', hvalues, hvalues', hpadded⟩
          · rw [hnone, hnone']
          · rw [hvalues, hvalues', Option.bind_some, Option.bind_some,
              h.form.read_padded hpadded]

/-! ### One member less -/

/-- The members of the other fields are those with other keys. -/
theorem filter_written {fields : Fields} {name : String} (hname : name ∉ fields.map Prod.fst) :
    (written fields).filter (fun m => m.1 ≠ Bytes.ofText name) = written fields := by
  refine List.filter_eq_self.2 fun m hm => decide_eq_true fun hkey => hname ?_
  obtain ⟨f, hf, hf', -⟩ := exists_of_mem_written hm
  rw [← Bytes.ofText_injective (hf'.symm.trans hkey)]
  exact List.mem_map_of_mem hf

/-- Without its member a field is left out. -/
theorem filter_written_middle {first second : Fields} {name : String} {value : Option Json}
    (hnodup : ((first ++ (name, value) :: second).map Prod.fst).Nodup) :
    (written (first ++ (name, value) :: second)).filter (fun m => m.1 ≠ Bytes.ofText name) =
      written (first ++ (name, none) :: second) := by
  rw [List.map_append, List.map_cons] at hnodup
  obtain ⟨-, hsecond, hacross⟩ := List.nodup_append.1 hnodup
  have hfirst : name ∉ first.map Prod.fst := fun hmem =>
    hacross _ hmem _ List.mem_cons_self rfl
  have hself : (memberIf name value).filter (fun m => m.1 ≠ Bytes.ofText name) = [] := by
    cases value <;> simp [memberIf, member]
  simp only [written, List.flatMap_append, List.flatMap_cons, List.filter_append]
  rw [hself, ← written, ← written, filter_written hfirst,
    filter_written (List.nodup_cons.1 hsecond).1]
  rfl

/-- **No member is written in vain.**  Without one of its members, what is written of a record
is read as the same record only if the member is `null`. -/
theorem exists_members_needed (a : α) :
    ∃ members, toJson a = .object members ∧ ∀ m ∈ members,
      (ofJson? (.object (members.filter fun m' => m'.1 ≠ m.1)) = some a ↔ m.2 = .null) := by
  refine ⟨_, h.toJson_eq a, fun m hm => ?_⟩
  have hlength := h.form.length_write a
  have hnames : (h.form.names.zip (h.form.write a)).map Prod.fst = h.form.names :=
    List.map_fst_zip (le_of_eq hlength.symm)
  have hvalues : (h.form.names.zip (h.form.write a)).map Prod.snd = h.form.write a :=
    List.map_snd_zip (le_of_eq hlength)
  obtain ⟨f, hf, hkey, hvalue⟩ := exists_of_mem_written hm
  obtain ⟨name, value⟩ := f
  obtain rfl : value = some m.2 := hvalue
  obtain ⟨first, second, hsplit⟩ := List.append_of_mem hf
  rw [hsplit] at hnames hvalues ⊢
  have hnames' : (first ++ (name, none) :: second).map Prod.fst = h.form.names := by
    rw [← hnames, List.map_append, List.map_append]
    rfl
  rw [hkey, filter_written_middle (hnames ▸ h.nodup), h.ofJson?_eq,
    Json.fields?_written h.required hnames' h.plainNames h.nodup]
  rw [List.map_append] at hvalues ⊢
  exact h.form.needed a _ _ m.2 hvalues.symm

end Documents

/-! ### All formats -/

/-- **The format of a kind of record** with the given fields and, for its optional fields, what
says no more than an absent one. -/
structure RoundTrips (α : Type) [Record α] (names : List String)
    (optional : List (String × Json)) : Prop where
  /-- What is written of a record is read back. -/
  read_back : ∀ a : α, decode? (encode a) = some a
  /-- What was read is read again once it is written. -/
  again : ∀ (b : Bytes) (a : α), decode? b = some a → decode? (encode a) = some a
  /-- An absent optional field means the same as one that holds nothing. -/
  absent : ∀ (b b' : Bytes) (before behind : List (Bytes × Json)) (m : Bytes × Json)
    (name : String), Json.rawText? m.1 = some name → (name, m.2) ∈ optional →
      (∀ m' ∈ before ++ behind, Json.rawText? m'.1 ≠ some name) →
        Json.read? b = some (.object (before ++ behind)) →
          Json.read? b' = some (.object (before ++ m :: behind)) →
            (decode? b' : Option α) = decode? b
  /-- A member that is no field is passed over. -/
  foreign : ∀ (b b' : Bytes) (before behind : List (Bytes × Json)) (m : Bytes × Json)
    (key : String), Json.rawText? m.1 = some key → key ∉ names →
      Json.read? b = some (.object (before ++ behind)) →
        Json.read? b' = some (.object (before ++ m :: behind)) →
          (decode? b' : Option α) = decode? b
  /-- No member is written in vain, unless it is `null`. -/
  needed : ∀ a : α, ∃ members, toJson a = .object members ∧ ∀ m ∈ members,
    (ofJson? (.object (members.filter fun m' => m'.1 ≠ m.1)) = some a ↔ m.2 = .null)

/-- Kinds of records with a form have its format. -/
theorem roundTrips_of_form {α : Type} [Record α] (h : Formed α) {names : List String}
    {optional : List (String × Json)} (hnames : h.form.names = names)
    (hoptional : present (h.form.names.zip h.form.blanks) = optional) :
    RoundTrips α names optional := by
  subst hnames hoptional
  have hdecode {b : Bytes} {v : Json} (hread : Json.read? b = some v) :
      (decode? b : Option α) = ofJson? v := by
    unfold decode?
    rw [hread]
    rfl
  refine ⟨decode?_encode, fun _ a _ => decode?_encode a, ?_, ?_, exists_members_needed⟩
  · intro b b' before behind m name hkey hmem hmissing hread hread'
    rw [hdecode hread, hdecode hread']
    refine ofJson?_insert hkey fun p hp hname => ⟨?_, hmissing⟩
    -- the names are distinct, so the field that says no more is the one at hand
    obtain ⟨f, hf, hpresent⟩ := List.mem_filterMap.1 hmem
    obtain ⟨v, hv, hsame⟩ := Option.map_eq_some_iff.1 hpresent
    obtain ⟨rfl, rfl⟩ := Prod.mk.inj hsame
    have hnodup : ((h.form.names.zip h.form.blanks).map Prod.fst).Nodup := by
      rw [List.map_fst_zip (le_of_eq h.form.length_blanks.symm)]
      exact h.nodup
    rw [List.inj_on_of_nodup_map hnodup hp hf hname, hv]
  · intro b b' before behind m key hkey hforeign hread hread'
    rw [hdecode hread, hdecode hread']
    refine ofJson?_insert hkey fun p hp hname => absurd ?_ hforeign
    exact hname ▸ (List.of_mem_zip hp).1

/-- **Record formats.**  What is written of a key, a policy, an assignment, a registration, of
what is told of them, or of an event is read back, with every text, every octet and every time;
absent optional fields stand for what holds nothing, and foreign members for nothing. -/
theorem formats_round_trip :
    RoundTrips SealedKey ["value", "created_at", "created_by"] [("created_by", .ofText "")] ∧
    RoundTrips Policy ["allow", "deny", "created_at", "created_by"]
      [("allow", .array []), ("deny", .array []), ("created_at", .null),
        ("created_by", .ofText "")] ∧
    RoundTrips Assignment ["policy", "created_at", "created_by"]
      [("created_by", .ofText "")] ∧
    RoundTrips Registration ["created_at", "created_by"] [("created_by", .ofText "")] ∧
    RoundTrips KeyInfo ["name", "created_at", "created_by"] [("created_by", .ofText "")] ∧
    RoundTrips PolicyInfo ["name", "created_at", "created_by"]
      [("created_at", .null), ("created_by", .ofText "")] ∧
    RoundTrips AssignmentInfo ["identity", "policy", "created_at", "created_by"]
      [("created_by", .ofText "")] ∧
    RoundTrips EnclaveInfo ["name", "created_at", "created_by"] [("created_by", .ofText "")] ∧
    RoundTrips AuditEvent ["event_id", "timestamp", "event_type", "identity", "enclave", "path",
        "success", "error"]
      [("identity", .null), ("enclave", .null), ("path", .null), ("error", .null)] :=
  ⟨roundTrips_of_form inferInstance rfl rfl, roundTrips_of_form inferInstance rfl rfl,
    roundTrips_of_form inferInstance rfl rfl, roundTrips_of_form inferInstance rfl rfl,
    roundTrips_of_form inferInstance rfl rfl, roundTrips_of_form inferInstance rfl rfl,
    roundTrips_of_form inferInstance rfl rfl, roundTrips_of_form inferInstance rfl rfl,
    roundTrips_of_form inferInstance rfl rfl⟩

example : (decode? (Bytes.ofText "\x7b\"allow\":[],\"more\":1\x7d") : Option Policy) =
    some (Policy.ofRules [] []) := by
  decide +kernel

end Record

end KeyCustody
