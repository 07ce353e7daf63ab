import KeyCustody.Proofs.Documents
import KeyCustody.Proofs.Timestamps
import KeyCustody.Record.Kinds

/-!
# Records that are read back

A kind of record is lawful (`LawfulRecord`) if what is stored for a record decodes as that
record.  A record is an object with one member for each field that is written
(`Record.written`); as no two fields have the same name and no name needs an escape, every
field finds its own member again (`Json.fields?_written`).  Main statements:

* `Record.decode?_encode`: records of a lawful kind are read back;
* `Json.fields?_written`: the fields of an object that was written.
-/

namespace KeyCustody

/-- Records of the kind are written as documents that are read back. -/
class LawfulRecord (α : Type) [Record α] : Prop where
  plain (a : α) : (Record.toJson a).Plain
  ofJson?_toJson (a : α) : Record.ofJson? (Record.toJson a) = some a

/-- **A record is read back.** -/
theorem Record.decode?_encode {α : Type} [Record α] [LawfulRecord α] (a : α) :
    Record.decode? (Record.encode a) = some a := by
  unfold decode? encode
  rw [Json.read?_render (LawfulRecord.plain a), Option.bind_eq_bind, Option.bind_some]
  exact LawfulRecord.ofJson?_toJson a

namespace Record

/-! ### Fields -/

/-- Fields that are written or left out. -/
abbrev Fields := List (String × Option Json)

/-- The members for the fields that are written. -/
def written (fields : Fields) : Members :=
  fields.flatMap fun f => memberIf f.1 f.2

/-- The name of a field is written without escapes. -/
def PlainName (name : String) : Prop :=
  ∀ x ∈ Bytes.ofText name, 0x20 ≤ x ∧ x ≠ 0x22 ∧ x ≠ 0x5C

instance (name : String) : Decidable (PlainName name) :=
  inferInstanceAs (Decidable (∀ x ∈ Bytes.ofText name, _))

theorem spells_of_plainName {name : String} (h : PlainName name) :
    Json.Spells (Bytes.ofText name) (Bytes.ofText name) :=
  Json.spells_self h

theorem rawText?_of_plainName {name : String} (h : PlainName name) :
    Json.rawText? (Bytes.ofText name) = some name := by
  rw [Json.rawText?_of_spells (spells_of_plainName h), Bytes.text?_ofText]

/-- The fields that are written, by their names. -/
def present (fields : Fields) : List (String × Json) :=
  fields.filterMap fun f => f.2.map (f.1, ·)

theorem written_cons (f : String × Option Json) (fields : Fields) :
    written (f :: fields) = memberIf f.1 f.2 ++ written fields := rfl

/-- The keys of the members are the names of the fields. -/
theorem mapM_written {fields : Fields} (hnames : ∀ f ∈ fields, PlainName f.1) :
    (written fields).mapM (fun m => do pure (← Json.rawText? m.1, m.2)) =
      some (present fields) := by
  induction fields with
  | nil => rfl
  | cons f fields ih =>
      obtain ⟨name, value⟩ := f
      have hrest := ih fun g hg => hnames g (List.mem_cons_of_mem _ hg)
      have hname := rawText?_of_plainName (hnames _ List.mem_cons_self)
      cases value with
      | none => exact hrest
      | some v =>
          rw [written_cons]
          change List.mapM _ ((Bytes.ofText name, v) :: written fields) = _
          rw [List.mapM_cons, hrest]
          simp [hname, present]

theorem present_cons (f : String × Option Json) (fields : Fields) :
    present (f :: fields) = (f.2.map (f.1, ·)).toList ++ present fields := by
  obtain ⟨name, value⟩ := f
  cases value <;> rfl

theorem name_mem_of_present {fields : Fields} {m : String × Json} (hm : m ∈ present fields) :
    m.1 ∈ fields.map Prod.fst := by
  obtain ⟨f, hf, hwritten⟩ := List.mem_filterMap.1 hm
  obtain ⟨v, -, rfl⟩ := Option.map_eq_some_iff.1 hwritten
  exact List.mem_map_of_mem hf

/-- A field is found once if it is written, and not at all if it is left out. -/
theorem filter_present {fields : Fields} (hnodup : (fields.map Prod.fst).Nodup)
    {f : String × Option Json} (hf : f ∈ fields) :
    (present fields).filter (fun m => m.1 == f.1) = (f.2.map (f.1, ·)).toList := by
  induction fields with
  | nil => cases hf
  | cons g fields ih =>
      obtain ⟨hfresh, hnodup⟩ := List.nodup_cons.1 hnodup
      rw [present_cons, List.filter_append]
      rcases List.mem_cons.1 hf with rfl | hlater
      · have hself : ((f.2.map (f.1, ·)).toList).filter (fun m => m.1 == f.1) =
            (f.2.map (f.1, ·)).toList := by
          cases f.2 <;> simp
        have hnone : (present fields).filter (fun m => m.1 == f.1) = [] := by
          refine List.filter_eq_nil_iff.2 fun m hm hsame => hfresh ?_
          rw [← beq_iff_eq.1 hsame]
          exact name_mem_of_present hm
        rw [hself, hnone, List.append_nil]
      · have hother : g.1 ≠ f.1 := by
          intro hsame
          exact hfresh (hsame ▸ List.mem_map_of_mem hlater)
        have hnone : ((g.2.map (g.1, ·)).toList).filter (fun m => m.1 == f.1) = [] := by
          cases g.2 <;> simp [hother]
        rw [hnone, List.nil_append, ih hnodup hlater]

/-- If each image of the list's elements has a result, then the list of the images has the list
of the results. -/
theorem mapM_map_eq_some {α β γ : Type} {f : β → Option γ} {g : α → β} {h : α → γ}
    {as : List α} (heach : ∀ a ∈ as, f (g a) = some (h a)) :
    (as.map g).mapM f = some (as.map h) := by
  induction as with
  | nil => rfl
  | cons a as ih =>
      have hrest := ih fun b hb => heach b (List.mem_cons_of_mem _ hb)
      rw [List.map_cons, List.mapM_cons, heach a List.mem_cons_self, hrest]
      rfl

end Record

/-- **Every field finds its own member.** -/
theorem Json.fields?_written {names : List String} {fields : Record.Fields} (required : Nat)
    (hfields : fields.map Prod.fst = names) (hnames : ∀ name ∈ names, Record.PlainName name)
    (hnodup : names.Nodup) :
    Json.fields? required names (.object (Record.written fields)) =
      some (fields.map Prod.snd) := by
  subst hfields
  have hplain (f : String × Option Json) (hf : f ∈ fields) : Record.PlainName f.1 :=
    hnames _ (List.mem_map_of_mem hf)
  refine Option.bind_eq_some_iff.2 ⟨_, Record.mapM_written hplain, ?_⟩
  refine Record.mapM_map_eq_some fun f hf => ?_
  rw [Record.filter_present hnodup hf]
  obtain ⟨name, value⟩ := f
  cases value <;> rfl

namespace Record

/-- The members that are written are those of fields that are not left out. -/
theorem exists_of_mem_written {fields : Fields} {m : Bytes × Json} (hm : m ∈ written fields) :
    ∃ f ∈ fields, m.1 = Bytes.ofText f.1 ∧ f.2 = some m.2 := by
  obtain ⟨f, hf, hmem⟩ := List.mem_flatMap.1 hm
  obtain ⟨name, value⟩ := f
  cases value with
  | none => cases hmem
  | some v =>
      obtain rfl := List.mem_singleton.1 hmem
      exact ⟨_, hf, rfl, rfl⟩

/-- An object of fields is plain if the values of its fields are. -/
theorem plain_written {names : List String} {fields : Fields}
    (hfields : fields.map Prod.fst = names) (hnames : ∀ name ∈ names, PlainName name)
    (hvalues : ∀ value ∈ fields.map Prod.snd, ∀ v ∈ value, v.Plain) :
    (Json.object (written fields)).Plain := by
  subst hfields
  refine .object (fun m hm => ?_) fun m hm => ?_
  · obtain ⟨f, hf, hkey, -⟩ := exists_of_mem_written hm
    exact ⟨_, hkey ▸ spells_of_plainName (hnames _ (List.mem_map_of_mem hf))⟩
  · obtain ⟨f, hf, -, hvalue⟩ := exists_of_mem_written hm
    exact hvalues _ (List.mem_map_of_mem hf) m.2 hvalue

/-! ### Values of fields -/

theorem time?_timeJson (t : Timestamp) : time? (timeJson t) = some t := by
  simp [time?, timeJson, Json.text?_ofText, Timestamp.ofText?_toText]

theorem texts?_textsJson (texts : List String) : texts? (textsJson texts) = some texts := by
  unfold texts? textsJson
  induction texts with
  | nil => rfl
  | cons text texts ih =>
      simp only at ih ⊢
      rw [List.map_cons, List.mapM_cons, Json.text?_ofText, ih]
      rfl

theorem plain_textsJson (texts : List String) : (textsJson texts).Plain := by
  refine .array fun v hv => ?_
  obtain ⟨text, -, rfl⟩ := List.mem_map.1 hv
  exact Json.plain_ofText text

/-- Rules are left out if there are none. -/
def rulesJson (rules : List String) : Option Json :=
  if rules.isEmpty then none else some (textsJson rules)

theorem plain_rulesJson {rules : List String} {v : Json} (hv : v ∈ rulesJson rules) :
    v.Plain := by
  unfold rulesJson at hv
  split at hv
  · cases hv
  · exact Option.some.inj hv ▸ plain_textsJson rules

theorem orDefault?_rulesJson (rules : List String) :
    orDefault? [] texts? (rulesJson rules) = some rules := by
  cases rules with
  | nil => rfl
  | cons rule rules => exact texts?_textsJson (rule :: rules)

/-- The creator is left out if it is unknown. -/
def creatorJson (i : Identity) : Option Json :=
  if i.isUnknown then none else some (.ofText i.text)

theorem orDefault?_creatorJson (i : Identity) :
    orDefault? .unknown identity? (creatorJson i) = some i := by
  unfold creatorJson
  split
  · rename_i hunknown
    rw [Identity.isUnknown_iff.1 hunknown]
    rfl
  · simp [orDefault?, identity?, Json.text?_ofText]

theorem plain_creatorJson {i : Identity} {v : Json} (hv : v ∈ creatorJson i) : v.Plain := by
  unfold creatorJson at hv
  split at hv
  · cases hv
  · obtain rfl := Option.some.inj hv
    exact Json.plain_ofText i.text

/-! ### Digits of base 64 -/

/-- An octet that stands for a character that needs no escape. -/
def IsPlainDigit (x : UInt8) : Prop :=
  0x20 ≤ x ∧ x ≠ 0x22 ∧ x ≠ 0x5C ∧
    Bytes.ofText (String.singleton (Char.ofNat x.toNat)) = [x]

instance (x : UInt8) : Decidable (IsPlainDigit x) :=
  inferInstanceAs (Decidable (_ ∧ _))

theorem isPlainDigit_digit {n : Nat} (hn : n < 64) : IsPlainDigit (Base64.digit n) := by
  have hall : ∀ n : Fin 64, IsPlainDigit (Base64.digit n.val) := by decide +kernel
  exact hall ⟨n, hn⟩

theorem isPlainDigit_padding : IsPlainDigit Base64.padding := by
  decide +kernel

theorem isPlainDigit_encode (b : Bytes) : ∀ x ∈ Base64.encode b, IsPlainDigit x := by
  fun_induction Base64.encode b with
  | case1 => simp
  | case2 x =>
      have hx := x.toNat_lt
      simp only [List.forall_mem_cons, List.not_mem_nil, IsEmpty.forall_iff, implies_true,
        and_true, isPlainDigit_padding]
      exact ⟨isPlainDigit_digit (by omega), isPlainDigit_digit (by omega)⟩
  | case3 x y =>
      have hx := x.toNat_lt
      have hy := y.toNat_lt
      simp only [List.forall_mem_cons, List.not_mem_nil, IsEmpty.forall_iff, implies_true,
        and_true, isPlainDigit_padding]
      exact ⟨isPlainDigit_digit (by omega), isPlainDigit_digit (by omega),
        isPlainDigit_digit (by omega)⟩
  | case4 x y z rest ih =>
      have hx := x.toNat_lt
      have hy := y.toNat_lt
      have hz := z.toNat_lt
      simp only [List.forall_mem_cons]
      exact ⟨isPlainDigit_digit (by omega), isPlainDigit_digit (by omega),
        isPlainDigit_digit (by omega), isPlainDigit_digit (by omega), ih⟩

/-- Plain digits are the octets of a text. -/
theorem exists_ofText {b : Bytes} (h : ∀ x ∈ b, IsPlainDigit x) :
    ∃ text, Bytes.ofText text = b := by
  induction b with
  | nil => exact ⟨"", rfl⟩
  | cons x b ih =>
      obtain ⟨hx, hb⟩ := List.forall_mem_cons.1 h
      obtain ⟨text, rfl⟩ := ih hb
      refine ⟨String.singleton (Char.ofNat x.toNat) ++ text, ?_⟩
      rw [Bytes.ofText_append, hx.2.2.2]
      rfl

theorem spells_encode (b : Bytes) : Json.Spells (Base64.encode b) (Base64.encode b) :=
  Json.spells_self fun x hx =>
    have hplain := isPlainDigit_encode b x hx
    ⟨hplain.1, hplain.2.1, hplain.2.2.1⟩

/-- Octets written in base 64 are read back. -/
theorem exists_text?_encode (b : Bytes) :
    ∃ digits, (Json.string (Base64.encode b)).text? = some digits ∧
      Base64.decode? (Bytes.ofText digits) = some b := by
  obtain ⟨digits, hdigits⟩ := exists_ofText (isPlainDigit_encode b)
  refine ⟨digits, ?_, ?_⟩
  · change Json.rawText? (Base64.encode b) = some digits
    rw [Json.rawText?_of_spells (spells_encode b), ← hdigits, Bytes.text?_ofText]
  · rw [hdigits, Base64.decode?_encode]

theorem nullable?_ofText {α : Type} (read : Json → Option α) (text : String) :
    nullable? read (.ofText text) = (read (.ofText text)).map some := rfl

/-- A time that is left out if it is not known. -/
theorem orDefault?_time (time : Option Timestamp) :
    orDefault? none (nullable? time?) (time.map timeJson) = some time := by
  cases time with
  | none => rfl
  | some t =>
      have hread := time?_timeJson t
      unfold timeJson at hread
      rw [Option.map_some, orDefault?, timeJson, nullable?_ofText, hread, Option.map_some]

end Record

end KeyCustody
