import KeyCustody.Layout
import KeyCustody.Service

/-!
# Namespaces of storage names

All records of all enclaves live in one flat space of names, and only the slashes in a name
tell to whom a record belongs.  As the name of an enclave holds no slash, the namespaces of
different enclaves and of different kinds of records have no name in common.  Main
statements:

* `Layout.space_append_inj`: the full name of a record tells kind, enclave and name;
* `Layout.record_ne_space_append`: no registration has the name of a record of an enclave;
* `Service.Over.handle_eq_ok_iff`: a handle is given for exactly the valid enclave names,
  and it reaches exactly the namespaces of its enclave.
-/

namespace KeyCustody

/-- What an enclave owns. -/
inductive RecordKind where
  | key
  | policy
  | assignment
deriving DecidableEq, Repr

/-- The last part of a namespace. -/
def RecordKind.folder : RecordKind → String
  | .key => "keys/"
  | .policy => "policies/"
  | .assignment => "identities/"

/-- The namespace of an enclave's records of one kind. -/
def Layout.space (l : Layout) (kind : RecordKind) (enclave : String) : String :=
  l.enclave enclave ++ kind.folder

theorem Layout.keys_eq_space (l : Layout) (e : String) : l.keys e = l.space .key e := rfl

theorem Layout.policies_eq_space (l : Layout) (e : String) :
    l.policies e = l.space .policy e := rfl

theorem Layout.identities_eq_space (l : Layout) (e : String) :
    l.identities e = l.space .assignment e := rfl

/-! ### Slashes keep names apart -/

/-- A text starts with another one if the other makes it with something put behind. -/
theorem toList_prefix_iff {s t : String} : s.toList <+: t.toList ↔ ∃ rest, t = s ++ rest := by
  constructor
  · rintro ⟨cs, hcs⟩
    exact ⟨String.ofList cs, String.toList_inj.1 (by simp [hcs])⟩
  · rintro ⟨rest, rfl⟩
    rw [String.toList_append]
    exact List.prefix_append _ _

/-- A slash ends what stands before it. -/
theorem eq_of_slash_start {a b s t : List Char} (ha : '/' ∉ a) (hb : '/' ∉ b)
    (h : a ++ '/' :: s <+: b ++ '/' :: t) : a = b ∧ s <+: t := by
  induction a generalizing b with
  | nil =>
      cases b with
      | nil => exact ⟨rfl, (List.cons_prefix_cons.1 h).2⟩
      | cons d b =>
          have hd := (List.cons_prefix_cons.1 h).1
          exact absurd (hd ▸ List.mem_cons_self) hb
  | cons c a ih =>
      cases b with
      | nil =>
          have hc := (List.cons_prefix_cons.1 h).1
          exact absurd (hc ▸ List.mem_cons_self) ha
      | cons d b =>
          obtain ⟨hcd, rest⟩ := List.cons_prefix_cons.1 h
          obtain ⟨hab, hst⟩ := ih (fun m => ha (List.mem_cons_of_mem _ m))
            (fun m => hb (List.mem_cons_of_mem _ m)) rest
          exact ⟨by rw [hcd, hab], hst⟩

/-- The folders of two kinds are told apart by their first letters. -/
theorem RecordKind.eq_of_folder_start {k k' : RecordKind} {t : List Char}
    (h : k.folder.toList <+: k'.folder.toList ++ t) : k = k' := by
  cases k <;> cases k' <;> first
    | rfl
    | exact absurd (List.cons_prefix_cons.1 h).1 (by decide)

/-- A valid name holds no slash. -/
theorem ValidName.noSlash {name : String} (h : ValidName name) : '/' ∉ name.toList := by
  intro slash
  have := h.legal _ slash
  simp [isIllegal] at this

namespace Layout

variable {l : Layout} {e e' : String} {k k' : RecordKind}

/-- A namespace as characters. -/
theorem toList_space (l : Layout) (k : RecordKind) (e : String) :
    (l.space k e).toList =
      l.root.toList ++ ("enclaves/".toList ++ (e.toList ++ '/' :: k.folder.toList)) := by
  simp [space, enclave]

/-- A storage name as characters. -/
theorem toList_record (l : Layout) (e : String) :
    (l.record e).toList = l.root.toList ++ ("sys/enclaves/".toList ++ e.toList) := by
  simp [record, registry]

/-- **Namespaces do not nest.**  A name that starts with the namespaces of two enclaves and
kinds shows that they are the same. -/
theorem space_eq_of_start {t : List Char} (he : ValidName e) (he' : ValidName e')
    (h : (l.space k e).toList <+: (l.space k' e').toList ++ t) : k = k' ∧ e = e' := by
  simp only [toList_space, List.append_assoc, List.prefix_append_right_inj,
    List.cons_append] at h
  obtain ⟨names, folders⟩ := eq_of_slash_start he.noSlash he'.noSlash h
  exact ⟨RecordKind.eq_of_folder_start folders, String.toList_inj.1 names⟩

/-- **A full name tells its record.**  Two records of enclaves have the same storage name
only if kind, enclave and name are the same. -/
theorem space_append_inj {n n' : String} (he : ValidName e) (he' : ValidName e')
    (h : l.space k e ++ n = l.space k' e' ++ n') : k = k' ∧ e = e' ∧ n = n' := by
  have chars := congrArg String.toList h
  simp only [String.toList_append] at chars
  obtain ⟨rfl, rfl⟩ := space_eq_of_start he he' ⟨n.toList, chars⟩
  exact ⟨rfl, rfl, String.toList_inj.1 (List.append_cancel_left chars)⟩

/-- Records of different kinds have different names. -/
theorem space_append_ne {n n' : String} (he : ValidName e) (he' : ValidName e') (hkind : k ≠ k') :
    l.space k e ++ n ≠ l.space k' e' ++ n' :=
  fun h => hkind (space_append_inj he he' h).1

/-- The registry and the enclaves are told apart by their first letters. -/
theorem registry_append_ne (l : Layout) (e r t : String) :
    l.registry ++ r ≠ l.enclave e ++ t := by
  intro h
  have chars : "sys/enclaves/".toList ++ r.toList =
      "enclaves/".toList ++ (e.toList ++ '/' :: t.toList) := by
    simpa [registry, enclave] using congrArg String.toList h
  exact absurd (List.cons.inj chars).1 (by decide)

/-- No registration has the name of a record of an enclave. -/
theorem record_ne_space_append (l : Layout) (e e' n : String) (k : RecordKind) :
    l.record e ≠ l.space k e' ++ n := by
  rw [record, space, String.append_assoc]
  exact registry_append_ne l e' e (k.folder ++ n)

/-- Registrations of different enclaves have different names. -/
theorem record_inj (h : l.record e = l.record e') : e = e' := by
  have chars := congrArg String.toList h
  rw [toList_record, toList_record] at chars
  exact String.toList_inj.1 (List.append_cancel_left (List.append_cancel_left chars))

end Layout

/-! ### Handles -/

theorem Glob.hasMeta_append (a b : String) :
    Glob.hasMeta (a ++ b) = (Glob.hasMeta a || Glob.hasMeta b) := by
  simp [Glob.hasMeta]

/-- A valid name holds no pattern characters. -/
theorem ValidName.hasMeta {name : String} (h : ValidName name) :
    Glob.hasMeta name = false := by
  simpa [Glob.hasMeta] using h.noMeta

namespace Layout

/-- What a handle to an enclave under the layout reaches. -/
def handle (l : Layout) (enclave : String) : Enclave :=
  ⟨enclave, ⟨.under l.registry .whole⟩, ⟨.under (l.space .key enclave) .whole⟩,
    ⟨.under (l.space .policy enclave) .whole⟩, ⟨.under (l.space .assignment enclave) .whole⟩⟩

/-- A deployment's prefix without pattern characters makes namespaces without them. -/
theorem hasMeta_space {l : Layout} (plain : Glob.hasMeta l.root = false) {enclave : String}
    (valid : ValidName enclave) (k : RecordKind) : Glob.hasMeta (l.space k enclave) = false := by
  have folder : Glob.hasMeta k.folder = false := by cases k <;> decide
  have fixed : Glob.hasMeta "enclaves/" = false ∧ Glob.hasMeta "/" = false := by decide
  simp [space, Layout.enclave, Glob.hasMeta_append, plain, valid.hasMeta, folder, fixed]

theorem hasMeta_registry {l : Layout} :
    Glob.hasMeta l.registry = Glob.hasMeta l.root := by
  have fixed : Glob.hasMeta "sys/enclaves/" = false := by decide
  simp [registry, Glob.hasMeta_append, fixed]

end Layout

/-- The registry of the enclaves under a layout. -/
def Layout.catalog (l : Layout) : Registry :=
  ⟨l, ⟨.under l.registry .whole⟩⟩

/-- The service keeps its records under the layout. -/
structure Service.Over (s : Service) (l : Layout) : Prop where
  registry_eq : s.registry = l.catalog
  plain : Glob.hasMeta l.root = false
  validDefault : ValidEnclaveName s.defaultEnclave

namespace Service

/-- The service of some settings, which have a prefix without pattern characters and a valid
default enclave. -/
theorem eq_of_ofSettings {settings : Settings} {s : Service}
    (h : ofSettings settings = .ok s) :
    s = ⟨Layout.catalog ⟨settings.keyPrefix⟩, .ofAdmin settings.admin,
        settings.defaultEnclave, settings.timeout⟩ ∧
      Glob.hasMeta settings.keyPrefix = false ∧ ValidEnclaveName settings.defaultEnclave := by
  unfold ofSettings Registry.ofLayout at h
  cases hd : checkEnclaveName settings.defaultEnclave with
  | error e => simp [hd, bind, Except.bind] at h
  | ok _ =>
      cases hv : View.whole.enter (Layout.registry ⟨settings.keyPrefix⟩) with
      | error e => simp [hd, hv, bind, Except.bind] at h
      | ok view =>
          simp only [hd, hv, bind, Except.bind, pure, Except.pure, Except.ok.injEq] at h
          obtain ⟨plain, rfl⟩ := View.enter_eq_ok_iff.1 hv
          subst h
          exact ⟨rfl, Layout.hasMeta_registry.symm.trans plain, checkEnclaveName_eq_ok_iff.1 hd⟩

/-- A service keeps its records under the prefix of its settings. -/
theorem over_of_ofSettings {settings : Settings} {s : Service}
    (h : ofSettings settings = .ok s) : s.Over ⟨settings.keyPrefix⟩ := by
  obtain ⟨rfl, plain, valid⟩ := eq_of_ofSettings h
  exact ⟨rfl, plain, valid⟩

/-- **Handles.**  A handle is given for exactly the valid enclave names. -/
theorem Over.handle_eq_ok_iff {s : Service} {l : Layout} (hover : s.Over l) {name : String}
    {e : Enclave} :
    s.registry.handle name = .ok e ↔ ValidEnclaveName name ∧ e = l.handle name := by
  rw [hover.registry_eq]
  unfold Registry.handle Layout.catalog
  cases hn : checkEnclaveName name with
  | error err =>
      have invalid : ¬ ValidEnclaveName name := fun valid => by
        rw [checkEnclaveName_eq_ok_iff.2 valid] at hn
        cases hn
      simp [bind, Except.bind, invalid]
  | ok _ =>
      have valid := checkEnclaveName_eq_ok_iff.1 hn
      have enter (k : RecordKind) :
          View.whole.enter (l.space k name) = .ok (.under (l.space k name) .whole) :=
        View.enter_eq_ok_iff.2 ⟨Layout.hasMeta_space hover.plain valid.toValidName k, rfl⟩
      simp only [Layout.keys_eq_space, Layout.policies_eq_space, Layout.identities_eq_space,
        enter, bind, Except.bind, pure, Except.pure, Except.ok.injEq, valid, true_and]
      exact eq_comm

end Service

end KeyCustody
