import KeyCustody.Proofs.Namespaces

/-!
# Storage names

A record stands in a namespace under a name of its own, and its storage name is that name
behind the text of the namespace.  These texts are a deployment's prefix, the name of an
enclave and a few words, and nothing is escaped: the prefix and the names of records may hold
anything, slashes and the words of the layout included.  A storage name is read in one way
all the same, because the namespaces are a prefix code: behind the text of one namespace
nothing can stand that makes it start with the text of another one.  Main statements:

* `Layout.text_append_inj`: the namespaces are a prefix code;
* `Layout.enclave_append_inj`: so are the parts of the store that enclaves own;
* `Layout.full_eq_append_iff`: what stands behind a namespace is the name of a record there;
* `Layout.storage_names_unambiguous`: a storage name is that of one record, and it starts with
  the namespace of this record and with no other one.
-/

namespace KeyCustody

/-- A namespace of the layout: the registry, or an enclave's records of one kind. -/
inductive Space where
  | registry
  | owned (kind : RecordKind) (enclave : String)
deriving DecidableEq, Repr

/-- The enclave of the namespace has a valid name.  The registry is that of no enclave. -/
def Space.Valid : Space → Prop
  | .registry => True
  | .owned _ enclave => ValidEnclaveName enclave

/-- Where a record stands: in a namespace, under a name of its own.  In the registry this is
the name of the enclave that is registered. -/
structure Place where
  space : Space
  name : String
deriving DecidableEq, Repr

namespace Layout

/-- The text of a namespace. -/
def text (l : Layout) : Space → String
  | .registry => l.registry
  | .owned .key enclave => l.keys enclave
  | .owned .policy enclave => l.policies enclave
  | .owned .assignment enclave => l.identities enclave

/-- The storage name of the record at a place.  For a registration it is `Layout.record`. -/
def full (l : Layout) (p : Place) : String :=
  l.text p.space ++ p.name

/-- What holds of the storage name of the record at a place. -/
structure Unambiguous (l : Layout) (p : Place) : Prop where
  /-- No other record has the storage name. -/
  unique : ∀ q : Place, q.space.Valid → (l.full q = l.full p ↔ q = p)
  /-- It starts with the namespace in which the record stands, and with no other namespace. -/
  starts : ∀ x : Space, x.Valid → ((l.text x).toList <+: (l.full p).toList ↔ x = p.space)
  /-- It starts with the part of the store of the enclave that owns the record, if there is one,
  and with that of no other enclave. -/
  owner : ∀ e, ValidEnclaveName e →
    ((l.enclave e).toList <+: (l.full p).toList ↔ ∃ kind, p.space = .owned kind e)
  /-- A view of a namespace shows the record if it stands there, under its own name, which must
  not be empty. -/
  shown : ∀ (x : Space) (n : String), x.Valid →
    ((View.under (l.text x) .whole).show? (l.full p) = some n ↔ p = ⟨x, n⟩ ∧ n ≠ "")

variable {l : Layout} {e e' n r t : String} {x y : Space} {p : Place}

theorem text_owned (l : Layout) (kind : RecordKind) (e : String) :
    l.text (.owned kind e) = l.space kind e := by
  cases kind <;> rfl

/-! ### Texts that start with namespaces -/

/-- The parts of enclaves are a prefix code: the slash behind the name of an enclave ends it,
even if the name starts another one. -/
theorem enclave_append_inj (he : ValidEnclaveName e) (he' : ValidEnclaveName e')
    (h : l.enclave e ++ r = l.enclave e' ++ t) : e = e' ∧ r = t := by
  have hchars : e.toList ++ '/' :: r.toList = e'.toList ++ '/' :: t.toList := by
    simpa [enclave] using congrArg String.toList h
  have hstart : e.toList ++ '/' :: r.toList <+: e'.toList ++ '/' :: t.toList :=
    hchars ▸ List.prefix_rfl
  obtain rfl : e = e' := String.toList_inj.1
    (eq_of_slash_start he.toValidName.noSlash he'.toValidName.noSlash hstart).1
  exact ⟨rfl, (String.append_right_inj _).1 h⟩

/-- **Namespaces are a prefix code.**  What starts with the texts of two namespaces shows that
they are the same. -/
theorem text_append_inj (hx : x.Valid) (hy : y.Valid) (h : l.text x ++ r = l.text y ++ t) :
    x = y ∧ r = t := by
  have hspaces : x = y := by
    cases x with
    | registry =>
        cases y with
        | registry => rfl
        | owned kind e =>
            rw [text_owned] at h
            exact absurd h (record_ne_space_append l r e t kind)
    | owned kind e =>
        rw [text_owned] at h
        cases y with
        | registry => exact absurd h.symm (record_ne_space_append l t e r kind)
        | owned kind' e' =>
            rw [text_owned] at h
            obtain ⟨rfl, rfl, -⟩ := space_append_inj hx.toValidName hy.toValidName h
            rfl
  subst hspaces
  exact ⟨rfl, (String.append_right_inj _).1 h⟩

/-! ### Storage names -/

/-- **A storage name is read in one way.**  What stands behind a namespace in it is the name of
the record, and the record stands in this namespace. -/
theorem full_eq_append_iff (hp : p.space.Valid) (hx : x.Valid) :
    l.full p = l.text x ++ n ↔ p = ⟨x, n⟩ := by
  constructor
  · intro h
    obtain ⟨y, m⟩ := p
    obtain ⟨rfl, rfl⟩ : y = x ∧ m = n := text_append_inj hp hx h
    rfl
  · rintro rfl
    rfl

/-- The storage name starts with the part of the store of the enclave that owns the record. -/
theorem full_eq_enclave_append_iff (hp : p.space.Valid) (he : ValidEnclaveName e) :
    (∃ r, l.full p = l.enclave e ++ r) ↔ ∃ kind, p.space = .owned kind e := by
  obtain ⟨y, n⟩ := p
  cases y with
  | registry =>
      refine iff_of_false ?_ nofun
      rintro ⟨r, hr⟩
      exact registry_append_ne l e n r hr
  | owned kind e' =>
      have hfull : l.full ⟨.owned kind e', n⟩ = l.enclave e' ++ (kind.folder ++ n) := by
        rw [full, text_owned, space, String.append_assoc]
      rw [hfull]
      constructor
      · rintro ⟨r, hr⟩
        obtain ⟨rfl, -⟩ := enclave_append_inj hp he hr
        exact ⟨kind, rfl⟩
      · rintro ⟨_, howned⟩
        obtain ⟨-, rfl⟩ := Space.owned.inj howned
        exact ⟨_, rfl⟩

/-- **Storage names neither collide nor nest.**  Let the prefix of the layout be any text, and
take any record of the registry or of an enclave with a valid name, under whatever name it
stands: the name may be empty, and it may hold slashes.  No other record has its storage name;
the storage name starts with the namespace in which the record stands and with no other one;
and so a view of a namespace shows exactly the records that stand there, each under its own
name. -/
theorem storage_names_unambiguous (l : Layout) (p : Place) (hp : p.space.Valid) :
    l.Unambiguous p where
  unique _ hq := full_eq_append_iff hq hp
  starts x hx := by
    rw [toList_prefix_iff]
    constructor
    · rintro ⟨r, hr⟩
      rw [(full_eq_append_iff hp hx).1 hr]
    · rintro rfl
      exact ⟨p.name, rfl⟩
  owner e he := toList_prefix_iff.trans (full_eq_enclave_append_iff hp he)
  shown x n hx := by
    have hstrip : (View.under (l.text x) .whole).show? (l.full p) = strip (l.text x) (l.full p) :=
      rfl
    rw [hstrip, strip_eq_some_iff, full_eq_append_iff hp hx]

/-- A key of an enclave whose name is a word of the layout, under a prefix that is another one.
It is no registration, it belongs neither to an enclave whose name its enclave's name starts nor
to one whose name starts its enclave's name, and it is shown as it is named. -/
theorem storage_names_unambiguous_words :
    let l : Layout := ⟨"sys/"⟩
    let p : Place := ⟨.owned .key "keys", "keys/k"⟩
    let q : Place := ⟨.registry, "keys/keys/keys/k"⟩
    p.space.Valid ∧ l.full q ≠ l.full p ∧
      ¬ (l.text (.owned .key "keys.keys")).toList <+: (l.full p).toList ∧
      ¬ (l.enclave "key").toList <+: (l.full p).toList ∧
      (View.under (l.text (.owned .key "keys")) .whole).show? (l.full p) = some "keys/k" := by
  intro l p q
  have hp : p.space.Valid := checkEnclaveName_eq_ok_iff.1 rfl
  have hlonger : (Space.owned .key "keys.keys").Valid := checkEnclaveName_eq_ok_iff.1 rfl
  have hshorter : ValidEnclaveName "key" := checkEnclaveName_eq_ok_iff.1 rfl
  have hname := storage_names_unambiguous l p hp
  refine ⟨hp, fun h => ?_, fun h => ?_, fun h => ?_, (hname.shown _ _ hp).2 ⟨rfl, by decide⟩⟩
  · exact absurd ((hname.unique q trivial).1 h) (by decide)
  · exact absurd ((hname.starts _ hlonger).1 h) (by decide)
  · obtain ⟨_, howned⟩ := (hname.owner "key" hshorter).1 h
    exact absurd (Space.owned.inj howned).2 (by decide)

-- With a slash in the name of an enclave two keys would share a storage name.
example : Layout.full ⟨""⟩ ⟨.owned .key "a/keys", "k"⟩ =
    Layout.full ⟨""⟩ ⟨.owned .key "a", "keys/k"⟩ := by
  decide

end Layout

end KeyCustody
