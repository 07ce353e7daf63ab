import KeyCustody.Format.Json

/-!
# Documents that are read back

What is written as a document is read as the same document.  This rests on two facts.
The octets of a string, escaped one by one, can stand between quotes and mean the text
again (`Spells`).  And every part of a document without blanks is told by its first octet,
so the reader takes the branch that the writer took (`Json.head_render`).

The reader counts its steps down from twice the number of octets.  Each step down stands
for a value or for an item, and both have at least one octet, so the count lasts
(`Json.value?_render` carries it along).  Main statements:

* `Json.text?_ofText`: the text of a string is the text that was written;
* `Json.read?_render`: a document of spelled strings is read back.
-/

namespace KeyCustody

namespace Json

/-! ### Strings -/

/-- The octets can stand between quotes, and they mean the others. -/
structure Spells (raw meant : Bytes) : Prop where
  ends : ∀ rest, string? (raw ++ 0x22 :: rest) = some (raw, rest)
  means : unescape? raw = some meant

/-- How an octet is written: behind a backslash, as a code point, or as it is. -/
inductive Escapes : UInt8 → Bytes → Prop
  | letter {x y : UInt8} (plain : y ≠ 0x75) (stands : unescapeByte? y = some x) :
      Escapes x [0x5C, y]
  | control {x hi lo : UInt8} (stands : hex4? 0x30 0x30 hi lo = some x.toNat)
      (low : x.toNat < 0x20) : Escapes x [0x5C, 0x75, 0x30, 0x30, hi, lo]
  | plain {x : UInt8} (high : 0x20 ≤ x) (quote : x ≠ 0x22) (backslash : x ≠ 0x5C) :
      Escapes x [x]

/-- The octet of a hexadecimal digit. -/
def hexOctet (n : Nat) : UInt8 :=
  UInt8.ofNat (Bytes.hexDigit n).toNat

/-- A control is written as a code point of four digits. -/
theorem escapeByte_control : ∀ n : Fin 32,
    Bytes.ofText "\\u00" ++ Bytes.ofText (Bytes.toHex [UInt8.ofNat n]) =
        [0x5C, 0x75, 0x30, 0x30, hexOctet (n / 16), hexOctet (n % 16)] ∧
      hex4? 0x30 0x30 (hexOctet (n / 16)) (hexOctet (n % 16)) = some n ∧
      codePoint n = [UInt8.ofNat n] := by
  decide

/-- Every octet is written in one of the three ways. -/
theorem escapes_escapeByte (x : UInt8) : Escapes x (escapeByte x) := by
  unfold escapeByte
  split
  · subst x
    exact .letter (by decide) (by decide)
  split
  · subst x
    exact .letter (by decide) (by decide)
  split
  · subst x
    exact .letter (by decide) (by decide)
  split
  · subst x
    exact .letter (by decide) (by decide)
  split
  · subst x
    exact .letter (by decide) (by decide)
  split
  · subst x
    exact .letter (by decide) (by decide)
  split
  · subst x
    exact .letter (by decide) (by decide)
  split
  · rename_i hlow
    have hlt : x.toNat < 32 := hlow
    obtain ⟨hwritten, hstands, -⟩ := escapeByte_control ⟨x.toNat, hlt⟩
    simp only [UInt8.ofNat_toNat] at hwritten
    rw [hwritten]
    exact .control hstands hlt
  · rename_i hquote hbackslash _ _ _ _ _ hlow
    exact .plain (UInt8.not_lt.1 hlow) hquote hbackslash

/-- A spelled string with one more octet in front. -/
theorem Spells.cons {x : UInt8} {written raw meant : Bytes} (h : Escapes x written)
    (hraw : Spells raw meant) : Spells (written ++ raw) (x :: meant) := by
  cases h with
  | @letter y hplain hstands =>
      constructor
      · intro rest
        simp [string?, hplain, hstands, hraw.ends]
      · simp [unescape?, hplain, hstands, hraw.means]
  | @control hi lo hstands hlow =>
      obtain ⟨-, -, hmeans⟩ := escapeByte_control ⟨x.toNat, hlow⟩
      simp only [UInt8.ofNat_toNat] at hmeans
      constructor
      · intro rest
        simp [string?, hstands, hraw.ends]
      · have hsurrogate : ¬ (0xDC00 ≤ x.toNat ∧ x.toNat ≤ 0xDFFF) := by omega
        have hpair : ¬ (0xD800 ≤ x.toNat ∧ x.toNat ≤ 0xDBFF) := by omega
        simp [unescape?, hstands, hsurrogate, hpair, hmeans, hraw.means]
  | plain hhigh hquote hbackslash =>
      constructor
      · intro rest
        simp [string?, UInt8.not_lt.2 hhigh, hbackslash, hraw.ends]
      · simp [unescape?, hbackslash, hraw.means]

theorem Spells.nil : Spells [] [] :=
  ⟨fun _ => rfl, rfl⟩

/-- The octets of a text, escaped, spell the text. -/
theorem spells_escaped (meant : Bytes) : Spells (meant.flatMap escapeByte) meant := by
  induction meant with
  | nil => exact .nil
  | cons x meant ih => exact .cons (escapes_escapeByte x) ih

/-- Octets of no control, quote or backslash spell themselves. -/
theorem spells_self {raw : Bytes} (h : ∀ x ∈ raw, 0x20 ≤ x ∧ x ≠ 0x22 ∧ x ≠ 0x5C) :
    Spells raw raw := by
  induction raw with
  | nil => exact .nil
  | cons x raw ih =>
      obtain ⟨hhigh, hquote, hbackslash⟩ := h x List.mem_cons_self
      have hrest := ih fun y hy => h y (List.mem_cons_of_mem x hy)
      exact .cons (.plain hhigh hquote hbackslash) hrest

/-- The text that a spelled string means. -/
theorem rawText?_of_spells {raw meant : Bytes} (h : Spells raw meant) :
    rawText? raw = Bytes.text? meant := by
  simp [rawText?, h.means]

/-- The text of a string is the text that was written. -/
theorem text?_ofText (s : String) : (ofText s).text? = some s := by
  rw [ofText, text?, rawText?_of_spells (spells_escaped _), Bytes.text?_ofText]

/-! ### Documents -/

/-- A document in which every string and every key can stand between quotes, and without
numbers. -/
inductive Plain : Json → Prop
  | null : Plain .null
  | bool (b : Bool) : Plain (.bool b)
  | string {raw meant : Bytes} (spelled : Spells raw meant) : Plain (.string raw)
  | array {items : List Json} (plain : ∀ v ∈ items, Plain v) : Plain (.array items)
  | object {members : List (Bytes × Json)}
      (spelled : ∀ m ∈ members, ∃ meant, Spells m.1 meant)
      (plain : ∀ m ∈ members, Plain m.2) : Plain (.object members)

theorem plain_ofText (s : String) : Plain (ofText s) :=
  .string (spells_escaped _)

/-- Neither a blank nor the end of an array or object. -/
def Starts (x : UInt8) : Prop :=
  isBlank x = false ∧ x ≠ 0x5D ∧ x ≠ 0x7D

instance (x : UInt8) : Decidable (Starts x) :=
  inferInstanceAs (Decidable (_ ∧ _))

/-- A document starts with an octet that tells what it is. -/
theorem head_render {v : Json} (h : Plain v) : ∃ x rest, render v = x :: rest ∧ Starts x := by
  cases h with
  | null => exact ⟨0x6E, _, rfl, by decide⟩
  | bool b => cases b <;> exact ⟨_, _, rfl, by decide⟩
  | string => exact ⟨0x22, _, rfl, by decide⟩
  | @array items => cases items <;> exact ⟨0x5B, _, by simp [render]; rfl, by decide⟩
  | @object members => cases members <;> exact ⟨0x7B, _, by simp [render]; rfl, by decide⟩

/-- No blanks stand in front of what starts a document. -/
theorem skip_of_starts {x : UInt8} (h : Starts x) (rest : Bytes) :
    skip (x :: rest) = x :: rest := by
  simp [skip, h.1]

/-- The value is read from what was written, whatever follows, if the count lasts. -/
def Reads (v : Json) : Prop :=
  ∀ fuel rest, 2 * (render v).length ≤ fuel → value? fuel (render v ++ rest) = some (v, rest)

/-- The items of an array, the first one without its comma. -/
theorem items?_render {v : Json} {vs : List Json} (hfirst : Reads v) (hvs : ∀ u ∈ vs, Reads u)
    (fuel : Nat) (rest : Bytes)
    (hfuel : 2 * (render v ++ renderItems vs).length ≤ fuel) :
    items? fuel (render v ++ renderItems vs ++ rest) = some (v :: vs, rest) := by
  induction vs generalizing v fuel with
  | nil =>
      simp only [renderItems, List.length_append, List.length_cons, List.length_nil] at hfuel
      obtain ⟨fuel, rfl⟩ : ∃ n, fuel = n + 1 := ⟨fuel - 1, by omega⟩
      have hread := hfirst fuel (0x5D :: rest) (by omega)
      simp [items?, renderItems, hread, skip, isBlank]
  | cons u us ih =>
      simp only [renderItems, List.length_append, List.length_cons] at hfuel
      obtain ⟨fuel, rfl⟩ : ∃ n, fuel = n + 1 := ⟨fuel - 1, by omega⟩
      have hread := hfirst fuel (0x2C :: (render u ++ (renderItems us ++ rest))) (by omega)
      have hmore := ih (hvs u List.mem_cons_self) (fun t ht => hvs t (List.mem_cons_of_mem u ht))
        fuel (by rw [List.length_append]; omega)
      rw [List.append_assoc] at hmore
      simp [items?, renderItems, hread, skip, isBlank, hmore]

/-- The members of an object, the first one without its comma. -/
theorem members?_render {k meant : Bytes} {v : Json} {ms : List (Bytes × Json)}
    (hkey : Spells k meant) (hfirst : Reads v)
    (hkeys : ∀ m ∈ ms, ∃ meant, Spells m.1 meant) (hms : ∀ m ∈ ms, Reads m.2)
    (fuel : Nat) (rest : Bytes)
    (hfuel : 2 * (0x22 :: k ++ 0x22 :: 0x3A :: render v ++ renderMembers ms).length ≤ fuel) :
    members? fuel (0x22 :: k ++ 0x22 :: 0x3A :: render v ++ renderMembers ms ++ rest) =
      some ((k, v) :: ms, rest) := by
  induction ms generalizing k v meant fuel with
  | nil =>
      simp only [renderMembers, List.length_append, List.length_cons, List.length_nil] at hfuel
      obtain ⟨fuel, rfl⟩ : ∃ n, fuel = n + 1 := ⟨fuel - 1, by omega⟩
      have hread := hfirst fuel (0x7D :: rest) (by omega)
      have hkey := hkey.ends (0x3A :: (render v ++ 0x7D :: rest))
      simp [members?, renderMembers, hkey, hread, skip, isBlank]
  | cons m ms ih =>
      obtain ⟨k', u⟩ := m
      obtain ⟨meant', hkey'⟩ := hkeys _ List.mem_cons_self
      simp only [renderMembers, List.length_append, List.length_cons] at hfuel
      obtain ⟨fuel, rfl⟩ : ∃ n, fuel = n + 1 := ⟨fuel - 1, by omega⟩
      have hmore := ih hkey' (hms _ List.mem_cons_self)
        (fun m hm => hkeys m (List.mem_cons_of_mem _ hm))
        (fun m hm => hms m (List.mem_cons_of_mem _ hm)) fuel
        (by simp only [List.length_append, List.length_cons]; omega)
      have hread := hfirst fuel (0x2C :: (0x22 :: k' ++ 0x22 :: 0x3A :: render u ++
        renderMembers ms ++ rest)) (by omega)
      have hkey := hkey.ends (0x3A :: (render v ++ (0x2C :: (0x22 :: k' ++ 0x22 :: 0x3A ::
        render u ++ renderMembers ms ++ rest))))
      simp only [List.cons_append, List.append_assoc] at hkey hread hmore ⊢
      simp [members?, renderMembers, hkey, hread, skip, isBlank, hmore]

/-- **A plain document is read back**, whatever follows it. -/
theorem reads_of_plain {v : Json} (h : Plain v) : Reads v := by
  induction h with
  | null =>
      intro fuel rest hfuel
      have hlength : 2 * 4 ≤ fuel := hfuel
      obtain ⟨fuel, rfl⟩ : ∃ n, fuel = n + 1 := ⟨fuel - 1, by omega⟩
      rfl
  | bool b =>
      intro fuel rest hfuel
      have hlength : 2 * 4 ≤ fuel := by
        refine Nat.le_trans ?_ hfuel
        cases b <;> decide
      obtain ⟨fuel, rfl⟩ : ∃ n, fuel = n + 1 := ⟨fuel - 1, by omega⟩
      cases b <;> rfl
  | @string raw meant hspelled =>
      intro fuel rest hfuel
      simp only [render, List.length_append, List.length_cons, List.length_nil] at hfuel
      obtain ⟨fuel, rfl⟩ : ∃ n, fuel = n + 1 := ⟨fuel - 1, by omega⟩
      simp [value?, render, skip, isBlank, hspelled.ends]
  | @array items hplain ih =>
      intro fuel rest hfuel
      cases items with
      | nil =>
          have hlength : 2 * 2 ≤ fuel := hfuel
          obtain ⟨fuel, rfl⟩ : ∃ n, fuel = n + 1 := ⟨fuel - 1, by omega⟩
          rfl
      | cons v vs =>
          simp only [render, List.length_append, List.length_cons] at hfuel
          obtain ⟨fuel, rfl⟩ : ∃ n, fuel = n + 1 := ⟨fuel - 1, by omega⟩
          have hitems := items?_render (ih v List.mem_cons_self)
            (fun u hu => ih u (List.mem_cons_of_mem v hu)) fuel rest
            (by rw [List.length_append]; omega)
          -- the first item is not the closing bracket
          obtain ⟨x, more, hx, hstarts⟩ := head_render (hplain v List.mem_cons_self)
          rw [hx] at hitems
          rw [render, hx]
          simp only [List.cons_append] at hitems ⊢
          rw [value?, skip_of_starts (by decide)]
          simp only [skip_of_starts hstarts]
          split
          · rename_i hclosed
            exact absurd (List.cons.inj hclosed).1 hstarts.2.1
          · rw [hitems]
            rfl
  | @object members hspelled hplain ih =>
      intro fuel rest hfuel
      cases members with
      | nil =>
          have hlength : 2 * 2 ≤ fuel := hfuel
          obtain ⟨fuel, rfl⟩ : ∃ n, fuel = n + 1 := ⟨fuel - 1, by omega⟩
          rfl
      | cons m ms =>
          obtain ⟨k, v⟩ := m
          obtain ⟨meant, hkey⟩ := hspelled _ List.mem_cons_self
          simp only [render, List.length_append, List.length_cons] at hfuel
          obtain ⟨fuel, rfl⟩ : ∃ n, fuel = n + 1 := ⟨fuel - 1, by omega⟩
          have hmembers := members?_render hkey (ih _ List.mem_cons_self)
            (fun m hm => hspelled m (List.mem_cons_of_mem _ hm))
            (fun m hm => ih m (List.mem_cons_of_mem _ hm)) fuel rest
            (by simp only [List.length_append, List.length_cons]; omega)
          simp only [render, List.cons_append, List.append_assoc] at hmembers ⊢
          simp [value?, skip, isBlank, hmembers]

/-- **A plain document is read back.** -/
theorem read?_render {v : Json} (h : Plain v) : read? (render v) = some v := by
  have hread := reads_of_plain h (2 * (render v).length + 2) [] (by omega)
  rw [List.append_nil] at hread
  simp [read?, hread]

end Json

end KeyCustody
