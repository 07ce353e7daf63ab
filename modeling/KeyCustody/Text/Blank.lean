/-!
# Blanks and control characters

Identities and settings are trimmed of the characters with the Unicode property
White_Space, and names may hold no character of the general category Cc.  Main
statements:

* `isBlank_of_isWhitespace` — every blank of ASCII is a blank here;
* `trim_trim` — trimming twice is trimming once.
-/

namespace KeyCustody.Text

/-- Whether the character has the Unicode property White_Space. -/
def isBlank (c : Char) : Bool :=
  let n := c.toNat
  (9 ≤ n && n ≤ 13) || n == 0x20 || n == 0x85 || n == 0xA0 || n == 0x1680 ||
    (0x2000 ≤ n && n ≤ 0x200A) || n == 0x2028 || n == 0x2029 || n == 0x202F ||
    n == 0x205F || n == 0x3000

/-- Whether the character is of the general category Cc. -/
def isControl (c : Char) : Bool :=
  let n := c.toNat
  n < 0x20 || (0x7F ≤ n && n < 0xA0)

theorem isBlank_of_isWhitespace {c : Char} (h : c.isWhitespace = true) : isBlank c = true := by
  simp only [Char.isWhitespace, Bool.or_eq_true, decide_eq_true_eq] at h
  rcases h with ((h | h) | h) | h <;> subst h <;> decide

/-- Drops the blanks in front. -/
def trimStart (cs : List Char) : List Char :=
  cs.dropWhile isBlank

/-- Drops the blanks at the end. -/
def trimEnd : List Char → List Char
  | [] => []
  | c :: cs =>
    match trimEnd cs with
    | [] => if isBlank c then [] else [c]
    | d :: ds => c :: d :: ds

/-- Drops the blanks at both ends. -/
def trimChars (cs : List Char) : List Char :=
  trimEnd (trimStart cs)

/-- The text without the blanks at its two ends. -/
def trim (s : String) : String :=
  String.ofList (trimChars s.toList)

/-- Nothing is left to drop at the end of what `trimEnd` gives. -/
theorem trimEnd_trimEnd (cs : List Char) : trimEnd (trimEnd cs) = trimEnd cs := by
  induction cs with
  | nil => rfl
  | cons c cs ih =>
    rw [trimEnd]
    cases h : trimEnd cs with
    | nil =>
      by_cases hc : isBlank c = true
      · simp [hc, trimEnd]
      · simp [hc, trimEnd]
    | cons d ds =>
      rw [h] at ih
      simp only
      rw [trimEnd, ih]

/-- A text that starts with no blank still starts with none once its end is trimmed. -/
theorem trimStart_trimEnd_of_head {cs : List Char} (h : trimStart cs = cs) :
    trimStart (trimEnd cs) = trimEnd cs := by
  cases cs with
  | nil => rfl
  | cons c cs =>
    have hc : isBlank c = false := by
      cases hb : isBlank c with
      | false => rfl
      | true =>
        have hlen : (cs.dropWhile isBlank).length ≤ cs.length :=
          (List.dropWhile_sublist _).length_le
        have h' : cs.dropWhile isBlank = c :: cs := by
          simpa [trimStart, List.dropWhile_cons, hb] using h
        rw [h', List.length_cons] at hlen
        omega
    rw [trimEnd]
    cases trimEnd cs with
    | nil => simp [hc, trimStart]
    | cons d ds => simp [hc, trimStart]

/-- Dropping the blanks in front once drops them all. -/
theorem trimStart_trimStart (cs : List Char) : trimStart (trimStart cs) = trimStart cs := by
  induction cs with
  | nil => rfl
  | cons c cs ih =>
    by_cases hc : isBlank c = true
    · simpa [trimStart, List.dropWhile_cons, hc] using ih
    · simp [trimStart, hc]

/-- Trimming twice is trimming once. -/
theorem trim_trim (s : String) : trim (trim s) = trim s := by
  simp only [trim, trimChars, String.toList_ofList]
  rw [trimStart_trimEnd_of_head (trimStart_trimStart _), trimEnd_trimEnd]

theorem exists_eq_trimEnd_append (cs : List Char) : ∃ rest, cs = trimEnd cs ++ rest := by
  induction cs with
  | nil => exact ⟨[], rfl⟩
  | cons c cs ih =>
    obtain ⟨rest, hrest⟩ := ih
    rw [trimEnd]
    cases h : trimEnd cs with
    | nil =>
      by_cases hc : isBlank c = true
      · exact ⟨c :: cs, by simp [hc]⟩
      · exact ⟨cs, by simp [hc]⟩
    | cons d ds =>
      rw [h] at hrest
      exact ⟨rest, congrArg (c :: ·) hrest⟩

/-- Trimming takes something away at the two ends. -/
theorem exists_eq_append_trim (s : String) : ∃ front back, s = front ++ trim s ++ back := by
  obtain ⟨front, hfront⟩ := List.dropWhile_suffix (l := s.toList) isBlank
  obtain ⟨back, hback⟩ := exists_eq_trimEnd_append (trimStart s.toList)
  refine ⟨String.ofList front, String.ofList back, String.toList_inj.1 ?_⟩
  simp only [trim, trimChars, String.toList_append, String.toList_ofList]
  rw [List.append_assoc, ← hback]
  exact hfront.symm

end KeyCustody.Text
