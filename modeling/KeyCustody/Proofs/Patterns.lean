import KeyCustody.Glob.Engine

/-!
# What a pattern means

Three readings of a pattern agree: the language of its characters as they are written
(`Accepts`, one token for each character), the matcher that decides rules and listings
(`Glob.accepts`), and a glob engine that is given the pattern with its stars collapsed
and its brackets escaped (`Pattern.ofText`).  Of the engine nothing is known but what it
promises (`Engine.Documented`).

The two rewriting passes are followed one after the other.  Collapsing stars keeps the
language, since a star behind a star adds nothing (`accepts_collapse`).  What is left
reads as one element for each character (`reads_escapeBrackets`): no two stars stand
side by side, and every bracket has become a class of its own.  Those elements match
what the tokens accept (`language_elements_iff`).  Main statements:

* `accepts_iff_written` — the matcher decides the language of the pattern as written;
* `Pattern.meaning` — every pattern compiles, and matches that language.
-/

namespace KeyCustody.Glob

/-! ## Runs of stars -/

/-- A star takes any run of characters. -/
theorem accepts_star_iff {ts : List Token} {cs : List Char} :
    Accepts (.star :: ts) cs ↔ ∃ run rest, cs = run ++ rest ∧ Accepts ts rest := by
  constructor
  · intro h
    induction cs with
    | nil =>
      cases h with
      | star_skip h => exact ⟨[], [], rfl, h⟩
    | cons c cs ih =>
      cases h with
      | star_skip h => exact ⟨[], c :: cs, rfl, h⟩
      | star_take h =>
        obtain ⟨run, rest, rfl, hrest⟩ := ih h
        exact ⟨c :: run, rest, rfl, hrest⟩
  · rintro ⟨run, rest, rfl, hrest⟩
    induction run with
    | nil => exact .star_skip hrest
    | cons c run ih => exact .star_take ih

theorem accepts_star_star_iff {ts : List Token} {cs : List Char} :
    Accepts (.star :: .star :: ts) cs ↔ Accepts (.star :: ts) cs := by
  refine ⟨fun h => ?_, .star_skip⟩
  obtain ⟨run, behind, rfl, hbehind⟩ := accepts_star_iff.1 h
  obtain ⟨run', rest, rfl, hrest⟩ := accepts_star_iff.1 hbehind
  exact accepts_star_iff.2
    ⟨run ++ run', rest, (List.append_assoc run run' rest).symm, hrest⟩

/-- Rests of the same language have the same language behind one more token. -/
theorem accepts_cons_congr {ts us : List Token} (h : ∀ cs, Accepts ts cs ↔ Accepts us cs)
    (t : Token) (cs : List Char) : Accepts (t :: ts) cs ↔ Accepts (t :: us) cs := by
  cases t with
  | star => simp only [accepts_star_iff, h]
  | one =>
    constructor <;> rintro (_ | _ | hrest)
    · exact .one ((h _).1 hrest)
    · exact .one ((h _).2 hrest)
  | char d =>
    constructor <;> rintro (_ | hrest)
    · exact .char ((h _).1 hrest)
    · exact .char ((h _).2 hrest)

/-- Collapsing stars keeps the language. -/
theorem accepts_collapse (ts : List Token) (cs : List Char) :
    Accepts (collapse ts) cs ↔ Accepts ts cs := by
  induction ts using collapse.induct generalizing cs with
  | case1 ts ih =>
    rw [collapse, ih]
    exact accepts_star_star_iff.symm
  | case2 t ts hsingle ih =>
    rw [collapse.eq_2 t ts hsingle]
    exact accepts_cons_congr ih t cs
  | case3 => rfl

/-- **The matcher reads a pattern as it is written**: a star for any run of characters,
a question mark for one character, every other character for itself. -/
theorem accepts_iff_written {pattern name : String} :
    accepts pattern name = true ↔
      Accepts ((orAll pattern).toList.map Token.ofChar) name.toList := by
  rw [accepts_iff, tokens, accepts_collapse]

/-- Collapsing the characters or the tokens comes to the same, behind a star and
elsewhere. -/
theorem map_collapseFrom (cs : List Char) :
    (.star :: (collapseFrom true cs).map Token.ofChar =
        collapse (.star :: cs.map Token.ofChar)) ∧
      (collapseFrom false cs).map Token.ofChar = collapse (cs.map Token.ofChar) := by
  induction cs with
  | nil => exact ⟨rfl, rfl⟩
  | cons c cs ih =>
    obtain ⟨behind, elsewhere⟩ := ih
    by_cases hc : c = '*'
    · subst hc
      exact ⟨behind, behind⟩
    · have token : Token.ofChar c ≠ .star := by
        unfold Token.ofChar
        grind
      have unstarred : (c == '*') = false := by simp [hc]
      have kept (starred : Bool) :
          collapseFrom starred (c :: cs) = c :: collapseFrom false cs := by
        simp [collapseFrom, hc, unstarred]
      have passed (ts : List Token) :
          collapse (Token.ofChar c :: ts) = Token.ofChar c :: collapse ts :=
        collapse.eq_2 _ _ fun _ h _ => token h
      have single (ts : List Token) :
          collapse (.star :: Token.ofChar c :: ts) = .star :: collapse (Token.ofChar c :: ts) :=
        collapse.eq_2 _ _ fun _ _ h => token (List.cons.inj h).1
      simp only [kept, List.map_cons, single, passed, elsewhere, and_self]

/-- A run of stars collapses to a star, in front of any text. -/
theorem collapseFrom_run (starred : Bool) (more : Nat) (cs : List Char) :
    collapseFrom starred (List.replicate (more + 1) '*' ++ cs) =
      collapseFrom starred ('*' :: cs) := by
  have swallowed : collapseFrom true (List.replicate more '*' ++ cs) = collapseFrom true cs := by
    induction more with
    | zero => rfl
    | succ more ih => simpa [List.replicate_succ, collapseFrom] using ih
  cases starred <;> simp [List.replicate_succ, collapseFrom, swallowed]

/-- What collapsing does behind a text depends on the text alone. -/
theorem collapseFrom_append (starred : Bool) (cs : List Char) :
    ∃ starred', ∀ ds, collapseFrom starred (cs ++ ds) =
      collapseFrom starred cs ++ collapseFrom starred' ds := by
  induction cs generalizing starred with
  | nil => exact ⟨starred, fun _ => rfl⟩
  | cons c cs ih =>
    by_cases hc : c = '*' ∧ starred = true
    · obtain ⟨starred', h⟩ := ih true
      exact ⟨starred', fun ds => by simp [collapseFrom, hc, h]⟩
    · obtain ⟨starred', h⟩ := ih (c == '*')
      exact ⟨starred', fun ds => by simp [collapseFrom, hc, h]⟩

/-! ## Escaped brackets -/

/-- The element that a character becomes once brackets are escaped. -/
def Element.ofChar (c : Char) : Element :=
  if c = '*' then .star
  else if c = '?' then .one
  else if c = '[' then .set false [('[', '[')]
  else if c = ']' then .set false [(']', ']')]
  else .char c

/-- No star comes first behind a star that was kept. -/
theorem head?_escapeBrackets_collapseFrom (cs : List Char) :
    (escapeBrackets (collapseFrom true cs)).head? ≠ some '*' := by
  induction cs with
  | nil => exact nofun
  | cons c cs ih =>
    by_cases hc : c = '*'
    · simpa [collapseFrom, hc] using ih
    · have first : (escapeBracket c).head? ≠ some '*' := by
        unfold escapeBracket
        grind
      have nonempty : escapeBracket c ≠ [] := by
        unfold escapeBracket
        grind
      obtain ⟨d, ds, hd⟩ := List.exists_cons_of_ne_nil nonempty
      simpa [collapseFrom, hc, escapeBrackets, hd] using first

/-- A collapsed pattern with its brackets escaped reads as one element for each of its
characters. -/
theorem reads_escapeBrackets (starred : Bool) (cs : List Char) :
    Reads (escapeBrackets (collapseFrom starred cs))
      ((collapseFrom starred cs).map Element.ofChar) := by
  induction cs generalizing starred with
  | nil => exact .nil
  | cons c cs ih =>
    by_cases swallowed : c = '*' ∧ starred = true
    · simpa [collapseFrom, swallowed] using ih true
    have kept : collapseFrom starred (c :: cs) = c :: collapseFrom (c == '*') cs := by
      simp [collapseFrom, swallowed]
    rw [kept, escapeBrackets, List.flatMap_cons, List.map_cons, ← escapeBrackets]
    have rest := ih (c == '*')
    -- one case for each kind of character the grammar tells apart
    by_cases star : c = '*'
    · subst star
      exact .star (head?_escapeBrackets_collapseFrom cs) rest
    by_cases one : c = '?'
    · subst one
      exact .one rest
    by_cases opening : c = '['
    · subst opening
      have read : Reads ('[' :: '[' :: ([] ++ ']' :: _)) _ :=
        .set (by decide) List.not_mem_nil rest
      exact read
    by_cases closing : c = ']'
    · subst closing
      have read : Reads ('[' :: ']' :: ([] ++ ']' :: _)) _ :=
        .set (by decide) List.not_mem_nil rest
      exact read
    · have literal : isMeta c = false := by simp [isMeta, star, one, opening, closing]
      have read := Reads.char literal rest
      simpa [escapeBracket, Element.ofChar, star, one, opening, closing] using read

theorem inSpans_self_iff {c d : Char} : inSpans [(d, d)] c = true ↔ c = d := by
  simp only [inSpans, List.any_cons, List.any_nil, Bool.or_false, Bool.and_eq_true,
    decide_eq_true_eq]
  refine ⟨fun h => Char.le_antisymm h.2 h.1, ?_⟩
  rintro rfl
  exact ⟨Char.le_refl c, Char.le_refl c⟩

/-- A class of one character matches that character. -/
theorem language_set_self_iff {d : Char} {es : List Element} {cs : List Char} :
    Language (.set false [(d, d)] :: es) cs ↔ ∃ rest, cs = d :: rest ∧ Language es rest := by
  constructor
  · rintro (_ | _ | _ | _ | ⟨member, h⟩)
    obtain rfl := inSpans_self_iff.1 member
    exact ⟨_, rfl, h⟩
  · rintro ⟨rest, rfl, h⟩
    exact .set (inSpans_self_iff.2 rfl) h

theorem accepts_char_iff {d : Char} {ts : List Token} {cs : List Char} :
    Accepts (.char d :: ts) cs ↔ ∃ rest, cs = d :: rest ∧ Accepts ts rest := by
  constructor
  · rintro (_ | h)
    exact ⟨_, rfl, h⟩
  · rintro ⟨rest, rfl, h⟩
    exact .char h

/-- The elements match what the tokens of the same characters accept. -/
theorem language_elements_iff (ds cs : List Char) :
    Language (ds.map Element.ofChar) cs ↔ Accepts (ds.map Token.ofChar) cs := by
  induction ds generalizing cs with
  | nil => exact ⟨fun h => by cases h; exact .nil, fun h => by cases h; exact .nil⟩
  | cons d ds ih =>
    rw [List.map_cons, List.map_cons]
    by_cases star : d = '*'
    · subst star
      refine Iff.trans ⟨?_, ?_⟩ accepts_star_iff.symm
      · rintro (_ | ⟨run, h⟩)
        exact ⟨run, _, rfl, (ih _).1 h⟩
      · rintro ⟨run, rest, rfl, h⟩
        exact .star run ((ih _).2 h)
    by_cases one : d = '?'
    · subst one
      constructor
      · rintro (_ | _ | h)
        exact .one ((ih _).1 h)
      · rintro (_ | _ | h)
        exact .one ((ih _).2 h)
    have token : Token.ofChar d = .char d := by simp [Token.ofChar, star, one]
    rw [token, accepts_char_iff]
    simp only [← ih]
    by_cases bracket : d = '[' ∨ d = ']'
    · have element : Element.ofChar d = .set false [(d, d)] := by
        obtain rfl | rfl := bracket <;> rfl
      rw [element]
      exact language_set_self_iff
    · have element : Element.ofChar d = .char d := by
        rw [not_or] at bracket
        simp [Element.ofChar, star, one, bracket]
      rw [element]
      constructor
      · rintro (_ | _ | _ | h)
        exact ⟨_, rfl, h⟩
      · rintro ⟨rest, rfl, h⟩
        exact .char h

/-! ## Compiled patterns -/

namespace Pattern

variable {E : Engine}

/-- Every pattern compiles, and the compiled pattern decides as the matcher does. -/
theorem exists_ofText (documented : E.Documented) (pattern : String) :
    ∃ q, ofText E pattern = .ok q ∧ ∀ name, q.accepts name = Glob.accepts pattern name := by
  have read := reads_escapeBrackets false (orAll pattern).toList
  obtain ⟨compiled, compiles, matching⟩ :=
    documented (String.ofList (escapeBrackets (collapseStars (orAll pattern).toList))) _
      (by rw [String.toList_ofList]; exact read)
  refine ⟨⟨String.ofList (collapseStars (orAll pattern).toList), compiled⟩, ?_, fun name => ?_⟩
  · simp [ofText, compiles]
  · rw [Bool.eq_iff_iff, Pattern.accepts, matching, language_elements_iff,
      (map_collapseFrom _).2, accepts_collapse, accepts_iff_written]

/-- A run of stars and a single star make the same pattern, whatever stands around
them. -/
theorem ofText_run (before behind : String) (more : Nat) :
    ofText E (before ++ String.ofList (List.replicate (more + 1) '*') ++ behind) =
      ofText E (before ++ "*" ++ behind) := by
  have nonempty (stars : String) (h : stars ≠ "") :
      orAll (before ++ stars ++ behind) = before ++ stars ++ behind := by
    have : ¬ (before ++ stars ++ behind).isEmpty = true := by simp [h]
    rw [orAll, if_neg this]
  have collapsed : collapseStars (before ++ String.ofList (List.replicate (more + 1) '*')
      ++ behind).toList = collapseStars (before ++ "*" ++ behind).toList := by
    obtain ⟨starred, h⟩ := collapseFrom_append false before.toList
    simp only [collapseStars, String.toList_append, String.toList_ofList, List.append_assoc, h,
      collapseFrom_run]
    rfl
  have stars : String.ofList (List.replicate (more + 1) '*') ≠ "" := by
    intro h
    simpa using congrArg String.toList h
  simp only [ofText, nonempty _ stars, nonempty "*" (by decide), collapsed]

/-- The text in front of the first wildcard is not changed by the rewriting. -/
theorem literalStart_of_ofText {pattern : String} {q : Pattern E} (h : ofText E pattern = .ok q) :
    q.literalStart = Glob.literalStart pattern := by
  have untouched (cs : List Char) :
      (collapseStars cs).takeWhile (fun c => c != '*' && c != '?') =
        cs.takeWhile fun c => c != '*' && c != '?' := by
    unfold collapseStars
    induction cs with
    | nil => rfl
    | cons c cs ih =>
      by_cases star : c = '*'
      · simp [collapseFrom, star]
      · have unstarred : (c == '*') = false := by simp [star]
        simp [collapseFrom, unstarred, List.takeWhile_cons, ih]
  have raw : q.raw = String.ofList (collapseStars (orAll pattern).toList) := by
    simp only [ofText] at h
    split at h
    · obtain rfl := Except.ok.inj h
      rfl
    · cases h
  rw [Pattern.literalStart, raw, String.toList_ofList, untouched, Glob.literalStart]

/-- **What a pattern means.**  Whatever the engine is, as long as it keeps its promises:
no pattern is refused as malformed; the compiled pattern matches exactly the language of
the pattern as it is written, as the matcher of rules and listings does; and a run of
stars anywhere makes the very same pattern as one star. -/
theorem meaning (documented : E.Documented) :
    (∀ pattern : String, ∃ q, ofText E pattern = .ok q ∧ ∀ name : String,
      (q.accepts name = true ↔
        Accepts ((orAll pattern).toList.map Token.ofChar) name.toList) ∧
      q.accepts name = Glob.accepts pattern name) ∧
    ∀ (before behind : String) (more : Nat),
      ofText E (before ++ String.ofList (List.replicate (more + 1) '*') ++ behind) =
        ofText E (before ++ "*" ++ behind) := by
  refine ⟨fun pattern => ?_, ofText_run⟩
  obtain ⟨q, compiles, matching⟩ := exists_ofText documented pattern
  refine ⟨q, compiles, fun name => ⟨?_, matching name⟩⟩
  rw [matching name]
  exact accepts_iff_written

/-- The simple engine keeps its promises, so stars, brackets and the exclamation mark of
a class mean what they say. -/
theorem meaning_simple :
    Engine.simple.Documented ∧
    (∃ q, ofText Engine.simple "a**[!b]/?" = .ok q ∧
      q.accepts "a/x[!b]/é" = true ∧ q.accepts "ax/é" = false) ∧
    ofText Engine.simple "a***b" = ofText Engine.simple "a*b" := by
  refine ⟨Engine.documented_simple, ?_, (meaning Engine.documented_simple).2 "a" "b" 2⟩
  obtain ⟨q, compiles, matching⟩ := (meaning Engine.documented_simple).1 "a**[!b]/?"
  refine ⟨q, compiles, ?_, ?_⟩
  · rw [(matching _).2]
    decide
  · rw [(matching _).2]
    decide

end Pattern

end KeyCustody.Glob
