import Mathlib.Data.List.Infix
import KeyCustody.Error
import KeyCustody.Glob

/-!
# Glob engines

A pattern can also be handed to an engine for file name globs, which gives a meaning of
its own to more than the star and the question mark: brackets enclose a class of
characters, and a run of stars stands for directories or is refused.  So the pattern is
rewritten first.  A run of stars becomes one star (`collapseStars`), and a bracket
becomes the class that holds just that bracket (`escapeBrackets`).

What such an engine promises is its grammar, `Reads`, and what the elements of a pattern
match, `Language`.  The grammar says nothing about a run of stars or a stray bracket: an
engine may read them in any way or refuse them.  Main statement:

* `Engine.documented_simple` — the engine `Engine.simple` keeps these promises.
-/

namespace KeyCustody.Glob

/-- The text with runs of stars collapsed, if the character in front of it is a star or
is none. -/
def collapseFrom (starred : Bool) : List Char → List Char
  | [] => []
  | c :: cs =>
    if c = '*' ∧ starred = true then collapseFrom true cs
    else c :: collapseFrom (c == '*') cs

/-- Keeps one star of every run of stars. -/
def collapseStars (cs : List Char) : List Char :=
  collapseFrom false cs

/-- A bracket as the class of just that bracket. -/
def escapeBracket (c : Char) : List Char :=
  if c = '[' then ['[', '[', ']']
  else if c = ']' then ['[', ']', ']']
  else [c]

/-- Writes every bracket as a class. -/
def escapeBrackets (cs : List Char) : List Char :=
  cs.flatMap escapeBracket

/-- One element of an engine's pattern. -/
inductive Element where
  /-- Any run of characters. -/
  | star
  /-- Exactly one character. -/
  | one
  /-- The character itself. -/
  | char (c : Char)
  /-- One character that is in a span of the class, or in none if the class is negated. -/
  | set (negated : Bool) (spans : List (Char × Char))
deriving DecidableEq, Repr

/-- The spans of a class.  A dash between two characters makes them the ends of a span. -/
def spans : List Char → List (Char × Char)
  | a :: '-' :: b :: cs => (a, b) :: spans cs
  | a :: cs => (a, a) :: spans cs
  | [] => []

/-- Whether the character is in one of the spans. -/
def inSpans (spans : List (Char × Char)) (c : Char) : Bool :=
  spans.any fun span => span.1 ≤ c && c ≤ span.2

/-- The grammar of an engine's patterns.  A closing bracket that is the first character
of a class belongs to it; the next one ends the class. -/
inductive Reads : List Char → List Element → Prop where
  | nil : Reads [] []
  | star {cs : List Char} {es : List Element} (single : cs.head? ≠ some '*') :
      Reads cs es → Reads ('*' :: cs) (.star :: es)
  | one {cs : List Char} {es : List Element} :
      Reads cs es → Reads ('?' :: cs) (.one :: es)
  | char {c : Char} {cs : List Char} {es : List Element} (literal : isMeta c = false) :
      Reads cs es → Reads (c :: cs) (.char c :: es)
  | set {c : Char} {body cs : List Char} {es : List Element}
      (plain : c ≠ '!') (inside : ']' ∉ body) :
      Reads cs es →
      Reads ('[' :: c :: (body ++ ']' :: cs)) (.set false (spans (c :: body)) :: es)
  | negated {c : Char} {body cs : List Char} {es : List Element} (inside : ']' ∉ body) :
      Reads cs es →
      Reads ('[' :: '!' :: c :: (body ++ ']' :: cs)) (.set true (spans (c :: body)) :: es)

/-- The texts that the elements of a pattern match. -/
inductive Language : List Element → List Char → Prop where
  | nil : Language [] []
  | star {es : List Element} (run : List Char) {cs : List Char} :
      Language es cs → Language (.star :: es) (run ++ cs)
  | one {c : Char} {es : List Element} {cs : List Char} :
      Language es cs → Language (.one :: es) (c :: cs)
  | char {c : Char} {es : List Element} {cs : List Char} :
      Language es cs → Language (.char c :: es) (c :: cs)
  | set {c : Char} {negated : Bool} {spans : List (Char × Char)} {es : List Element}
      {cs : List Char} (member : inSpans spans c = !negated) :
      Language es cs → Language (.set negated spans :: es) (c :: cs)

/-- An engine compiles patterns, or says what is wrong with them, and matches names. -/
structure Engine where
  Compiled : Type
  compile : String → Except String Compiled
  accepts : Compiled → String → Bool

/-- What an engine promises: whatever the grammar reads it compiles, and then it matches
the language of what was read. -/
def Engine.Documented (E : Engine) : Prop :=
  ∀ (text : String) (es : List Element), Reads text.toList es →
    ∃ compiled, E.compile text = .ok compiled ∧
      ∀ name : String, E.accepts compiled name = true ↔ Language es name.toList

/-- A pattern that an engine compiled, with the text it was given, runs of stars
collapsed. -/
structure Pattern (E : Engine) where
  raw : String
  compiled : E.Compiled

namespace Pattern

variable {E : Engine}

/-- Compiles a pattern. -/
def ofText (E : Engine) (pattern : String) : Except Error (Pattern E) :=
  let raw := String.ofList (collapseStars (orAll pattern).toList)
  match E.compile (String.ofList (escapeBrackets raw.toList)) with
  | .ok compiled => .ok ⟨raw, compiled⟩
  | .error why =>
    .error (.invalid (.other (String.join ["malformed pattern ", Text.quoted raw, ": ", why])))

def accepts (p : Pattern E) (name : String) : Bool :=
  E.accepts p.compiled name

/-- The text in front of the first star or question mark, with which every matching name
starts. -/
def literalStart (p : Pattern E) : String :=
  String.ofList (p.raw.toList.takeWhile fun c => c != '*' && c != '?')

end Pattern

/-! ## A simple engine -/

/-- Where the reading of a pattern stands. -/
inductive Scan where
  /-- Outside of a class, behind a star or not. -/
  | outside (starred : Bool)
  /-- Behind an opening bracket. -/
  | opened
  /-- In a class, with its characters so far, the last one first. -/
  | inside (negated : Bool) (body : List Char)

/-- Reads a pattern; nothing if the grammar does not read it. -/
def scan? : Scan → List Char → Option (List Element)
  | .outside _, [] => some []
  | .outside starred, c :: cs =>
    if c = '*' then
      if starred then none else (Element.star :: ·) <$> scan? (.outside true) cs
    else if c = '?' then (Element.one :: ·) <$> scan? (.outside false) cs
    else if c = '[' then scan? .opened cs
    else if c = ']' then none
    else (Element.char c :: ·) <$> scan? (.outside false) cs
  | .opened, c :: cs =>
    if c = '!' then scan? (.inside true []) cs else scan? (.inside false [c]) cs
  | .inside negated body, c :: cs =>
    if c = ']' ∧ body ≠ [] then
      (Element.set negated (spans body.reverse) :: ·) <$> scan? (.outside false) cs
    else scan? (.inside negated (c :: body)) cs
  | .opened, [] => none
  | .inside _ _, [] => none

/-- Whether the elements match the text. -/
def acceptsElements : List Element → List Char → Bool
  | [], cs => cs.isEmpty
  | .star :: es, cs => cs.tails.any (acceptsElements es)
  | .one :: es, _ :: cs => acceptsElements es cs
  | .char d :: es, c :: cs => d == c && acceptsElements es cs
  | .set negated spans :: es, c :: cs => inSpans spans c == !negated && acceptsElements es cs
  | _ :: _, [] => false

/-- The engine that compiles what the grammar reads and nothing else. -/
def Engine.simple : Engine where
  Compiled := List Element
  compile text :=
    match scan? (.outside false) text.toList with
    | some es => .ok es
    | none => .error "the pattern cannot be read"
  accepts es name := acceptsElements es name.toList

theorem acceptsElements_iff {es : List Element} {cs : List Char} :
    acceptsElements es cs = true ↔ Language es cs := by
  induction es generalizing cs with
  | nil =>
    rw [acceptsElements, List.isEmpty_iff]
    refine ⟨fun h => h ▸ .nil, fun h => ?_⟩
    cases h
    rfl
  | cons e es ih =>
    cases e with
    | star =>
      simp only [acceptsElements, List.any_eq_true, List.mem_tails]
      constructor
      · rintro ⟨rest, ⟨run, rfl⟩, hrest⟩
        exact .star run (ih.1 hrest)
      · intro h
        cases h with
        | @star _ run rest hrest => exact ⟨rest, List.suffix_append run rest, ih.2 hrest⟩
    | one =>
      cases cs with
      | nil => exact ⟨fun h => by simp [acceptsElements] at h, fun h => by cases h⟩
      | cons c cs =>
        refine ⟨fun h => .one (ih.1 h), fun h => ?_⟩
        cases h with
        | one h => exact ih.2 h
    | char d =>
      cases cs with
      | nil => exact ⟨fun h => by simp [acceptsElements] at h, fun h => by cases h⟩
      | cons c cs =>
        simp only [acceptsElements, Bool.and_eq_true, beq_iff_eq, ih]
        refine ⟨fun h => h.1 ▸ .char h.2, fun h => ?_⟩
        cases h with
        | char h => exact ⟨rfl, h⟩
    | set negated spans =>
      cases cs with
      | nil => exact ⟨fun h => by simp [acceptsElements] at h, fun h => by cases h⟩
      | cons c cs =>
        simp only [acceptsElements, Bool.and_eq_true, beq_iff_eq, ih]
        refine ⟨fun h => .set h.1 h.2, fun h => ?_⟩
        cases h with
        | set member h => exact ⟨member, h⟩

/-- In a class, the scan takes in everything up to the next closing bracket. -/
theorem scan?_inside {negated : Bool} {seen body cs : List Char} (nonempty : seen ≠ [])
    (inside : ']' ∉ body) :
    scan? (.inside negated seen) (body ++ ']' :: cs) =
      (Element.set negated (spans (seen.reverse ++ body)) :: ·) <$>
        scan? (.outside false) cs := by
  induction body generalizing seen with
  | nil => simp [scan?, nonempty]
  | cons c body ih =>
    simp only [List.mem_cons, not_or] at inside
    obtain ⟨hc, hbody⟩ := inside
    have taken : scan? (.inside negated seen) (c :: (body ++ ']' :: cs)) =
        scan? (.inside negated (c :: seen)) (body ++ ']' :: cs) := by
      simp [scan?, Ne.symm hc]
    rw [List.cons_append, taken, ih (List.cons_ne_nil c seen) hbody]
    simp

/-- What the grammar reads, the scan reads.  Behind a star it needs to know that no
second star follows. -/
theorem scan?_of_reads {cs : List Char} {es : List Element} (h : Reads cs es)
    {starred : Bool} (single : starred = true → cs.head? ≠ some '*') :
    scan? (.outside starred) cs = some es := by
  induction h generalizing starred with
  | nil => rfl
  | star next _ ih =>
    have fresh : starred = false := by
      cases starred with
      | true => exact absurd rfl (single rfl)
      | false => rfl
    simp [scan?, fresh, ih fun _ => next]
  | one _ ih =>
    have rest := @ih false nofun
    simp [scan?, rest]
  | @char c _ _ literal _ ih =>
    have ne : c ≠ '*' ∧ c ≠ '?' ∧ c ≠ '[' ∧ c ≠ ']' := by
      simpa [isMeta, not_or, and_assoc] using literal
    have rest := @ih false nofun
    simp [scan?, ne, rest]
  | set plain inside _ ih =>
    have rest := @ih false nofun
    simp [scan?, plain, scan?_inside _ inside, rest]
  | negated inside _ ih =>
    have rest := @ih false nofun
    simp [scan?, scan?_inside _ inside, rest]

/-- The simple engine keeps the promises of an engine. -/
theorem Engine.documented_simple : Engine.simple.Documented := by
  intro text es read
  refine ⟨es, ?_, fun name => acceptsElements_iff⟩
  simp [Engine.simple, scan?_of_reads read]

end KeyCustody.Glob
