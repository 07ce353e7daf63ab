/-!
# Globs

Policy rules and listing patterns are globs over whole texts.  A star stands for any
run of characters, the slash included, and a question mark for exactly one character.
Every other character, brackets included, stands for itself.  The empty pattern means
the same as a single star, and so does a run of stars.

A text is matched from its end.  For every rest of the text the matcher knows which
rests of the pattern match it (`Glob.row`), so that the work is the length of the
pattern times the length of the text, however many stars there are.  Main statements:

* `acceptsTokens_iff` — the matcher decides the language `Accepts`, which has a rule for
  each kind of element;
* `accepts_iff` — the same for a pattern and a name as texts.
-/

namespace KeyCustody

namespace Glob

/-- One element of a pattern. -/
inductive Token where
  /-- Any run of characters. -/
  | star
  /-- Exactly one character. -/
  | one
  /-- The character itself. -/
  | char (c : Char)
deriving DecidableEq, Repr

/-- The text a pattern stands for: the empty pattern is a single star. -/
def orAll (pattern : String) : String :=
  if pattern.isEmpty then "*" else pattern

/-- Reads one character of a pattern. -/
def Token.ofChar (c : Char) : Token :=
  if c = '*' then .star else if c = '?' then .one else .char c

/-- A star behind a star adds nothing and is left out. -/
def collapse : List Token → List Token
  | .star :: .star :: ts => collapse (.star :: ts)
  | t :: ts => t :: collapse ts
  | [] => []

/-- The pattern's elements, with runs of stars collapsed. -/
def tokens (pattern : String) : List Token :=
  collapse ((orAll pattern).toList.map Token.ofChar)

/-- The language of a pattern. -/
inductive Accepts : List Token → List Char → Prop where
  | nil : Accepts [] []
  | char {c : Char} {ts : List Token} {cs : List Char} :
      Accepts ts cs → Accepts (.char c :: ts) (c :: cs)
  | one {c : Char} {ts : List Token} {cs : List Char} :
      Accepts ts cs → Accepts (.one :: ts) (c :: cs)
  | star_skip {ts : List Token} {cs : List Char} :
      Accepts ts cs → Accepts (.star :: ts) cs
  | star_take {c : Char} {ts : List Token} {cs : List Char} :
      Accepts (.star :: ts) cs → Accepts (.star :: ts) (c :: cs)

/-- Which rests of the pattern match the empty text. -/
def emptyRow : List Token → List Bool
  | [] => [true]
  | t :: ts =>
    let below := emptyRow ts
    (match t with
      | .star => below.headD false
      | _ => false) :: below

/-- Which rests of the pattern match `c :: cs`, from which of them match `cs`. -/
def consRow (c : Char) : List Token → List Bool → List Bool
  | [], _ => [false]
  | t :: ts, above =>
    let below := consRow c ts above.tail
    (match t with
      | .star => below.headD false || above.headD false
      | .one => above.tail.headD false
      | .char d => d == c && above.tail.headD false) :: below

/-- Which rests of the pattern match the text, the whole pattern first. -/
def row (ts : List Token) : List Char → List Bool
  | [] => emptyRow ts
  | c :: cs => consRow c ts (row ts cs)

/-- Whether the text is in the language of the pattern. -/
def acceptsTokens (ts : List Token) (cs : List Char) : Bool :=
  (row ts cs).headD false

/-- Whether the pattern matches the whole name. -/
def accepts (pattern name : String) : Bool :=
  acceptsTokens (tokens pattern) name.toList

/-- The text in front of the first star or question mark, with which every matching name
starts. -/
def literalStart (pattern : String) : String :=
  String.ofList ((orAll pattern).toList.takeWhile fun c => c != '*' && c != '?')

/-- The characters no name or namespace may hold: those of patterns, and the brackets. -/
def isMeta (c : Char) : Bool :=
  c == '*' || c == '?' || c == '[' || c == ']'

/-- Whether the text holds a pattern character. -/
def hasMeta (s : String) : Bool :=
  s.toList.any isMeta

theorem tail_row_cons (t : Token) (ts : List Token) (cs : List Char) :
    (row (t :: ts) cs).tail = row ts cs := by
  induction cs with
  | nil => rfl
  | cons c cs ih => simp [row, consRow, ih]

/-- The row of a longer text, one rule for each kind of element. -/
theorem row_cons (t : Token) (ts : List Token) (c : Char) (cs : List Char) :
    row (t :: ts) (c :: cs) =
      (match t with
        | .star => (row ts (c :: cs)).headD false || (row (.star :: ts) cs).headD false
        | .one => (row ts cs).headD false
        | .char d => d == c && (row ts cs).headD false) :: row ts (c :: cs) := by
  have h : (row (t :: ts) cs).tail = row ts cs := tail_row_cons t ts cs
  have step : row (t :: ts) (c :: cs) = consRow c (t :: ts) (row (t :: ts) cs) := rfl
  rw [step, consRow.eq_def]
  simp only [h]
  cases t <;> rfl

theorem head_emptyRow_iff {ts : List Token} :
    (emptyRow ts).headD false = true ↔ Accepts ts [] := by
  induction ts with
  | nil => exact ⟨fun _ => .nil, fun _ => rfl⟩
  | cons t ts ih =>
    cases t with
    | star =>
      refine ⟨fun h => .star_skip (ih.1 h), fun h => ?_⟩
      cases h with
      | star_skip h => exact ih.2 h
    | one => exact ⟨fun h => by simp [emptyRow] at h, fun h => by cases h⟩
    | char d => exact ⟨fun h => by simp [emptyRow] at h, fun h => by cases h⟩

/-- The matcher decides the language of the pattern. -/
theorem acceptsTokens_iff {ts : List Token} {cs : List Char} :
    acceptsTokens ts cs = true ↔ Accepts ts cs := by
  unfold acceptsTokens
  induction cs generalizing ts with
  | nil => exact head_emptyRow_iff
  | cons c cs ih =>
    induction ts with
    | nil => exact ⟨fun h => by simp [row, consRow] at h, fun h => by cases h⟩
    | cons t ts iht =>
      rw [row_cons]
      cases t with
      | star =>
        simp only [List.headD_cons, Bool.or_eq_true, iht, ih]
        refine ⟨fun h => h.elim .star_skip .star_take, fun h => ?_⟩
        cases h with
        | star_skip h => exact .inl h
        | star_take h => exact .inr h
      | one =>
        simp only [List.headD_cons, ih]
        refine ⟨.one, fun h => ?_⟩
        cases h with
        | one h => exact h
      | char d =>
        simp only [List.headD_cons, Bool.and_eq_true, beq_iff_eq, ih]
        refine ⟨fun h => h.1 ▸ .char h.2, fun h => ?_⟩
        cases h with
        | char h => exact ⟨rfl, h⟩

/-- A name matches a pattern if and only if it is in the pattern's language. -/
theorem accepts_iff {pattern name : String} :
    accepts pattern name = true ↔ Accepts (tokens pattern) name.toList :=
  acceptsTokens_iff

end Glob

end KeyCustody
