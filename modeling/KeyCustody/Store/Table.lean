import KeyCustody.Bytes

/-!
# Tables

A table holds one value per name and keeps its names in the order of their octets, which
is the order of their code points.  Two tables that answer every look-up alike are equal.
Main statements:

* `get?_insert`, `get?_erase` — what a look-up finds after a change;
* `ext` — a table is its look-ups;
* `mem_names_iff` — the names of a table are those that a look-up finds.
-/

namespace KeyCustody

/-- One value per name, in the order of the names. -/
structure Table where
  entries : List (String × Bytes)
  sorted : entries.Pairwise fun a b => a.1 < b.1

namespace Table

/-- The entries with the value put under the name. -/
def insertEntry (name : String) (value : Bytes) :
    List (String × Bytes) → List (String × Bytes)
  | [] => [(name, value)]
  | e :: es =>
    if name < e.1 then (name, value) :: e :: es
    else if name = e.1 then (name, value) :: es
    else e :: insertEntry name value es

theorem mem_insertEntry {name : String} {value : Bytes} {es : List (String × Bytes)}
    {e : String × Bytes} (h : e ∈ insertEntry name value es) :
    e = (name, value) ∨ e ∈ es := by
  induction es with
  | nil =>
    left
    simpa [insertEntry] using h
  | cons d es ih =>
    rw [insertEntry] at h
    split at h
    · simpa using h
    split at h
    · rcases List.mem_cons.1 h with h | h
      · exact .inl h
      · exact .inr (by simp [h])
    · rcases List.mem_cons.1 h with h | h
      · exact .inr (by simp [h])
      · exact (ih h).imp id fun h => by simp [h]

theorem sorted_insertEntry (name : String) (value : Bytes) {es : List (String × Bytes)}
    (hs : es.Pairwise fun a b => a.1 < b.1) :
    (insertEntry name value es).Pairwise fun a b => a.1 < b.1 := by
  induction es with
  | nil => simp [insertEntry]
  | cons d es ih =>
    obtain ⟨hd, hes⟩ := List.pairwise_cons.1 hs
    rw [insertEntry]
    split
    · rename_i hlt
      refine List.pairwise_cons.2 ⟨fun b hb => ?_, hs⟩
      rcases List.mem_cons.1 hb with rfl | hb
      · exact hlt
      · exact String.lt_trans hlt (hd b hb)
    split
    · rename_i heq
      exact List.pairwise_cons.2 ⟨fun b hb => by simpa [heq] using hd b hb, hes⟩
    · rename_i hlt heq
      refine List.pairwise_cons.2 ⟨fun b hb => ?_, ih hes⟩
      rcases mem_insertEntry hb with rfl | hb
      · exact String.not_le.1 fun hle =>
          heq (String.le_antisymm hle (String.not_lt.1 hlt))
      · exact hd b hb

/-- The table without entries. -/
def empty : Table := ⟨[], .nil⟩

/-- The value under the name. -/
def get? (t : Table) (name : String) : Option Bytes :=
  t.entries.lookup name

/-- The name has a value. -/
def contains (t : Table) (name : String) : Bool :=
  (t.get? name).isSome

/-- The table with the value under the name, whatever was there. -/
def insert (t : Table) (name : String) (value : Bytes) : Table :=
  ⟨insertEntry name value t.entries, sorted_insertEntry name value t.sorted⟩

/-- The table without the name. -/
def erase (t : Table) (name : String) : Table :=
  ⟨t.entries.filter fun e => e.1 != name, t.sorted.filter _⟩

/-- The names in order. -/
def names (t : Table) : List String :=
  t.entries.map Prod.fst

theorem sorted_names (t : Table) : t.names.Pairwise (· < ·) :=
  List.pairwise_map.2 t.sorted

@[simp] theorem get?_empty (name : String) : empty.get? name = none := rfl

theorem lookup_entry (name : String) (e : String × Bytes) (es : List (String × Bytes)) :
    (e :: es).lookup name = if name = e.1 then some e.2 else es.lookup name := by
  rw [List.lookup_cons]
  by_cases h : name = e.1
  · simp [h]
  · simp [h, beq_false_of_ne h]

theorem lookup_eq_none_of_lt {name : String} {es : List (String × Bytes)}
    (h : ∀ e ∈ es, name < e.1) : es.lookup name = none := by
  induction es with
  | nil => rfl
  | cons e es ih =>
    have hne : name ≠ e.1 := fun heq => String.lt_irrefl e.1 (heq ▸ h e (by simp))
    rw [lookup_entry, if_neg hne]
    exact ih fun b hb => h b (by simp [hb])

/-- A look-up after an insertion. -/
theorem get?_insert (t : Table) (name other : String) (value : Bytes) :
    (t.insert name value).get? other = if other = name then some value else t.get? other := by
  obtain ⟨es, hs⟩ := t
  simp only [insert, get?]
  clear hs
  induction es with
  | nil => simp [insertEntry, lookup_entry]
  | cons e es ih =>
    rw [insertEntry]
    split
    · rw [lookup_entry]
    split
    · rename_i heq
      rw [lookup_entry, lookup_entry, ← heq]
      by_cases h : other = name
      · simp [h]
      · simp [h]
    · rename_i hlt heq
      rw [lookup_entry, lookup_entry, ih]
      by_cases h : other = e.1
      · subst h
        simp [Ne.symm heq]
      · simp [h]

/-- A look-up after a removal. -/
theorem get?_erase (t : Table) (name other : String) :
    (t.erase name).get? other = if other = name then none else t.get? other := by
  obtain ⟨es, hs⟩ := t
  simp only [erase, get?]
  clear hs
  induction es with
  | nil => simp
  | cons e es ih =>
    rw [List.filter_cons, lookup_entry]
    by_cases he : e.1 = name
    · have hb : (e.1 != name) = false := by simp [he]
      rw [hb, if_neg Bool.false_ne_true, ih]
      by_cases h : other = name
      · simp [h]
      · simp [h, he]
    · have hb : (e.1 != name) = true := by simp [he]
      rw [hb, if_pos rfl, lookup_entry, ih]
      by_cases h : other = e.1
      · subst h
        simp [he]
      · simp [h]

theorem lookup_isSome_iff {name : String} {es : List (String × Bytes)} :
    (es.lookup name).isSome = true ↔ name ∈ es.map Prod.fst := by
  induction es with
  | nil => simp
  | cons e es ih =>
    rw [lookup_entry, List.map_cons, List.mem_cons]
    by_cases h : name = e.1
    · simp [h]
    · simp [h]

/-- The names of a table are those that a look-up finds. -/
theorem mem_names_iff {t : Table} {name : String} :
    name ∈ t.names ↔ (t.get? name).isSome = true :=
  lookup_isSome_iff.symm

theorem le_of_lookup {name : String} {value : Bytes} {e : String × Bytes}
    {es : List (String × Bytes)} (he : ∀ z ∈ es, e.1 < z.1)
    (h : (e :: es).lookup name = some value) : e.1 ≤ name := by
  rw [lookup_entry] at h
  by_cases hn : name = e.1
  · exact hn ▸ String.le_refl _
  · rw [if_neg hn] at h
    refine String.not_lt.1 fun hlt => ?_
    rw [lookup_eq_none_of_lt fun z hz => String.lt_trans hlt (he z hz)] at h
    cases h

theorem entries_ext {as bs : List (String × Bytes)}
    (ha : as.Pairwise fun a b => a.1 < b.1) (hb : bs.Pairwise fun a b => a.1 < b.1)
    (h : ∀ name, as.lookup name = bs.lookup name) : as = bs := by
  induction as generalizing bs with
  | nil =>
    cases bs with
    | nil => rfl
    | cons b bs =>
      have := h b.1
      simp [lookup_entry] at this
  | cons a as ih =>
    cases bs with
    | nil =>
      have := h a.1
      simp [lookup_entry] at this
    | cons b bs =>
      obtain ⟨ha1, ha2⟩ := List.pairwise_cons.1 ha
      obtain ⟨hb1, hb2⟩ := List.pairwise_cons.1 hb
      have hba : b.1 ≤ a.1 := le_of_lookup hb1 (by rw [← h, lookup_entry, if_pos rfl])
      have hab : a.1 ≤ b.1 := le_of_lookup ha1 (by rw [h, lookup_entry, if_pos rfl])
      have hkey : a.1 = b.1 := String.le_antisymm hab hba
      have hval : a.2 = b.2 := by
        have := h a.1
        rw [lookup_entry, lookup_entry, if_pos rfl, if_pos hkey] at this
        exact Option.some.inj this
      have hhead : a = b := Prod.ext hkey hval
      subst hhead
      congr 1
      refine ih ha2 hb2 fun name => ?_
      have := h name
      rw [lookup_entry, lookup_entry] at this
      by_cases hn : name = a.1
      · subst hn
        rw [lookup_eq_none_of_lt ha1, lookup_eq_none_of_lt hb1]
      · rwa [if_neg hn, if_neg hn] at this

/-- A table is its look-ups. -/
theorem ext {s t : Table} (h : ∀ name, s.get? name = t.get? name) : s = t := by
  obtain ⟨as, ha⟩ := s
  obtain ⟨bs, hb⟩ := t
  have : as = bs := entries_ext ha hb h
  subst this
  rfl

end Table

end KeyCustody
