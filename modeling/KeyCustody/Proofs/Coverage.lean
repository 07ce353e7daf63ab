import KeyCustody.Proofs.Patterns
import KeyCustody.Proofs.Reading
import KeyCustody.Proofs.Reports
import Mathlib.Data.List.Forall2

/-!
# What listings reveal

The rules of a policy are matched against the text of a request, and the request for a
listing holds a pattern, of which the text has the wildcards.  So whether the rules that
allowed a listing also match the names listed is a question of two languages: the rules read
the requested pattern as a text, and the store reads it as a pattern.

A rule's star and its plain characters read a wildcard of the request as safely as any name
that it stands for.  A rule's question mark does not: it may read a star of the request as one
character, and the star stands for names of every length.  The *spellings* of the request,
with each star written as a run of stars of any length, tell how far the rules reach.  A rule
cannot tell a name from the spelling that stands for it (`accepts_of_blurs`).  Main statements:

* `Glob.covers_listed_iff`: rules match all that a pattern matches if and only if they match
  every spelling of it;
* `Service.perform_list_reveals`: what a listing reveals to a caller with a policy.
-/

namespace KeyCustody

namespace Glob

/-! ### Spellings of a pattern -/

/-- A spelling of a pattern: every star is written as a run of stars of any length, none
included, and everything else stays as it is. -/
inductive Respells : List Char → List Char → Prop
  | nil : Respells [] []
  | star (more : Nat) {cs ds : List Char} (rest : Respells cs ds) :
      Respells ('*' :: cs) (List.replicate more '*' ++ ds)
  | other {c : Char} {cs ds : List Char} (hc : c ≠ '*') (rest : Respells cs ds) :
      Respells (c :: cs) (c :: ds)

/-- The second character may stand where a rule met the first: they are the same, or the first
is a wildcard, which a rule meets only with a wildcard of its own. -/
def Blurs (c d : Char) : Prop :=
  c = d ∨ c = '*' ∨ c = '?'

theorem Token.ofChar_of_plain {c : Char} (hstar : c ≠ '*') (hone : c ≠ '?') :
    Token.ofChar c = .char c := by
  simp [Token.ofChar, hstar, hone]

/-- The elements of a pattern that stand for themselves are no wildcards. -/
theorem plain_of_char_mem {cs : List Char} {c : Char}
    (hc : Token.char c ∈ cs.map Token.ofChar) : c ≠ '*' ∧ c ≠ '?' := by
  obtain ⟨d, -, hd⟩ := List.mem_map.1 hc
  unfold Token.ofChar at hd
  split at hd
  · cases hd
  split at hd
  · cases hd
  · rename_i hstar hone
    cases hd
    exact ⟨hstar, hone⟩

/-- A pattern matches its spellings. -/
theorem Respells.accepts {cs ds : List Char} (h : Respells cs ds) :
    Accepts (cs.map Token.ofChar) ds := by
  induction h with
  | nil => exact .nil
  | star more rest ih => exact accepts_star_iff.2 ⟨_, _, rfl, ih⟩
  | @other c cs ds hc rest ih =>
      by_cases hone : c = '?'
      · subst hone
        exact .one ih
      · rw [List.map_cons, Token.ofChar_of_plain hc hone]
        exact .char ih

/-- A run of stars stands for any text of its length. -/
theorem blurs_replicate (run : List Char) :
    List.Forall₂ Blurs (List.replicate run.length '*') run := by
  induction run with
  | nil => exact .nil
  | cons c run ih => exact .cons (.inr (.inl rfl)) ih

/-- **Names have spellings.**  For every name that a pattern matches some spelling of the
pattern stands, one character for each of the name. -/
theorem exists_respells {cs name : List Char} (h : Accepts (cs.map Token.ofChar) name) :
    ∃ ds, Respells cs ds ∧ List.Forall₂ Blurs ds name := by
  induction cs generalizing name with
  | nil =>
      cases h
      exact ⟨[], .nil, .nil⟩
  | cons c cs ih =>
      rw [List.map_cons] at h
      by_cases hstar : c = '*'
      · subst hstar
        obtain ⟨run, rest, rfl, hrest⟩ := accepts_star_iff.1 h
        obtain ⟨ds, hspelled, hblurred⟩ := ih hrest
        exact ⟨_, .star run.length hspelled, List.rel_append (blurs_replicate run) hblurred⟩
      by_cases hone : c = '?'
      · subst hone
        cases h with
        | one hrest =>
            obtain ⟨ds, hspelled, hblurred⟩ := ih hrest
            exact ⟨_, .other (by decide) hspelled, .cons (.inr (.inr rfl)) hblurred⟩
      · rw [Token.ofChar_of_plain hstar hone] at h
        cases h with
        | char hrest =>
            obtain ⟨ds, hspelled, hblurred⟩ := ih hrest
            exact ⟨_, .other hstar hspelled, .cons (.inl rfl) hblurred⟩

/-- **Rules are blind to blurring.**  What matches a text matches every text for which its
wildcards may stand one by one. -/
theorem accepts_of_blurs {ts : List Token} {cs ds : List Char} (h : Accepts ts cs)
    (hplain : ∀ c, Token.char c ∈ ts → c ≠ '*' ∧ c ≠ '?') (hblurred : List.Forall₂ Blurs cs ds) :
    Accepts ts ds := by
  induction h generalizing ds with
  | nil =>
      cases hblurred
      exact .nil
  | @char c ts cs _ ih =>
      obtain ⟨hstar, hone⟩ := hplain c List.mem_cons_self
      have hrest (d : Char) (hd : Token.char d ∈ ts) := hplain d (List.mem_cons_of_mem _ hd)
      cases hblurred with
      | cons hcd hblurred =>
          obtain rfl | hwild | hwild := hcd
          · exact .char (ih hrest hblurred)
          · exact absurd hwild hstar
          · exact absurd hwild hone
  | @one c ts cs _ ih =>
      cases hblurred with
      | cons _ hblurred =>
          exact .one (ih (fun d hd => hplain d (List.mem_cons_of_mem _ hd)) hblurred)
  | @star_skip ts cs _ ih =>
      exact .star_skip (ih (fun d hd => hplain d (List.mem_cons_of_mem _ hd)) hblurred)
  | @star_take c ts cs _ ih =>
      cases hblurred with
      | cons _ hblurred => exact .star_take (ih hplain hblurred)

/-- A rule that matches a spelling behind a fixed start matches the names it stands for. -/
theorem accepts_of_spelling {rule start name : String} {ds : List Char}
    (h : Accepts ((orAll rule).toList.map Token.ofChar) (start.toList ++ ds))
    (hblurred : List.Forall₂ Blurs ds name.toList) : accepts rule (start ++ name) = true := by
  have hstart : List.Forall₂ Blurs start.toList start.toList :=
    List.forall₂_same.2 fun _ _ => .inl rfl
  rw [accepts_iff_written, String.toList_append]
  exact accepts_of_blurs h (fun _ => plain_of_char_mem) (List.rel_append hstart hblurred)

/-- **The law of listings.**  Behind a fixed start, rules match every name that the pattern
matches if and only if they match every spelling of the pattern.  The empty name is nobody's,
and the empty spelling does not count. -/
theorem covers_listed_iff {rules : List String} {start pattern : String} :
    (∀ name : String, name ≠ "" → accepts pattern name = true →
        Policy.covers rules (start ++ name) = true) ↔
      ∀ spelling : String, spelling ≠ "" →
        Respells (orAll pattern).toList spelling.toList →
          Policy.covers rules (start ++ spelling) = true := by
  constructor
  · intro hnames spelling hne hspelled
    exact hnames spelling hne (accepts_iff_written.2 hspelled.accepts)
  · intro hspellings name hne hmatched
    obtain ⟨ds, hspelled, hblurred⟩ := exists_respells (accepts_iff_written.1 hmatched)
    have hds : ds ≠ [] := by
      rintro rfl
      exact hne (String.toList_eq_nil_iff.1 (List.forall₂_nil_left_iff.1 hblurred))
    have hcovered := hspellings (String.ofList ds)
      (fun hempty => hds (by simpa using congrArg String.toList hempty))
      (by rwa [String.toList_ofList])
    obtain ⟨rule, hrule, haccepts⟩ := Policy.covers_iff.1 hcovered
    have hwritten := accepts_iff_written.1 haccepts
    rw [String.toList_append, String.toList_ofList] at hwritten
    exact Policy.covers_iff.2 ⟨rule, hrule, accepts_of_spelling hwritten hblurred⟩

/-! ### Rules that spend no question mark on a star -/

/-- The elements match the text, and none of their question marks stands for a star. -/
inductive AcceptsPlainly : List Token → List Char → Prop
  | nil : AcceptsPlainly [] []
  | char {c : Char} {ts : List Token} {cs : List Char} :
      AcceptsPlainly ts cs → AcceptsPlainly (.char c :: ts) (c :: cs)
  | one {c : Char} {ts : List Token} {cs : List Char} (hc : c ≠ '*') :
      AcceptsPlainly ts cs → AcceptsPlainly (.one :: ts) (c :: cs)
  | star_skip {ts : List Token} {cs : List Char} :
      AcceptsPlainly ts cs → AcceptsPlainly (.star :: ts) cs
  | star_take {c : Char} {ts : List Token} {cs : List Char} :
      AcceptsPlainly (.star :: ts) cs → AcceptsPlainly (.star :: ts) (c :: cs)

/-- The rule matches the text of a request, and none of its question marks stands for a star
of the text. -/
def MatchesPlainly (rule text : String) : Prop :=
  AcceptsPlainly ((orAll rule).toList.map Token.ofChar) text.toList

/-- Only a question mark and a star that meet make a difference. -/
theorem acceptsPlainly_of_apart {ts : List Token} {cs : List Char} (h : Accepts ts cs)
    (hapart : Token.one ∉ ts ∨ '*' ∉ cs) : AcceptsPlainly ts cs := by
  induction h with
  | nil => exact .nil
  | char _ ih =>
      exact .char (ih (hapart.imp (mt (List.mem_cons_of_mem _)) (mt (List.mem_cons_of_mem _))))
  | @one c ts cs _ ih =>
      have hstar : '*' ∉ c :: cs := hapart.resolve_left fun h => h List.mem_cons_self
      have hc : c ≠ '*' := (List.ne_of_not_mem_cons hstar).symm
      exact .one hc (ih (.inr (List.not_mem_of_not_mem_cons hstar)))
  | star_skip _ ih => exact .star_skip (ih (hapart.imp_left (mt (List.mem_cons_of_mem _))))
  | star_take _ ih => exact .star_take (ih (hapart.imp_right (mt (List.mem_cons_of_mem _))))

/-- A rule without question marks, and any rule on a text without stars, matches plainly. -/
theorem matchesPlainly_of_apart {rule text : String} (h : accepts rule text = true)
    (hapart : '?' ∉ rule.toList ∨ '*' ∉ text.toList) : MatchesPlainly rule text := by
  refine acceptsPlainly_of_apart (accepts_iff_written.1 h) (hapart.imp_left ?_)
  intro hrule hone
  obtain ⟨c, hc, htoken⟩ := List.mem_map.1 hone
  obtain rfl : c = '?' := by
    unfold Token.ofChar at htoken
    grind
  unfold orAll at hc
  split at hc
  · simp at hc
  · exact hrule hc

/-- What matches a pattern's text plainly matches all its spellings. -/
theorem AcceptsPlainly.accepts_respells {ts : List Token} {cs ds : List Char}
    (h : AcceptsPlainly ts cs) (hplain : ∀ c, Token.char c ∈ ts → c ≠ '*' ∧ c ≠ '?')
    (hspelled : Respells cs ds) : Accepts ts ds := by
  induction h generalizing ds with
  | nil =>
      cases hspelled
      exact .nil
  | @char c ts cs _ ih =>
      cases hspelled with
      | star => exact absurd rfl (hplain '*' List.mem_cons_self).1
      | other _ hspelled =>
          exact .char (ih (fun d hd => hplain d (List.mem_cons_of_mem _ hd)) hspelled)
  | @one c ts cs hc _ ih =>
      cases hspelled with
      | star => exact absurd rfl hc
      | other _ hspelled =>
          exact .one (ih (fun d hd => hplain d (List.mem_cons_of_mem _ hd)) hspelled)
  | @star_skip ts cs _ ih =>
      exact .star_skip (ih (fun d hd => hplain d (List.mem_cons_of_mem _ hd)) hspelled)
  | @star_take c ts cs _ ih =>
      cases hspelled with
      | star more hspelled =>
          obtain ⟨run, rest, rfl, hrest⟩ := accepts_star_iff.1 (ih hplain hspelled)
          exact accepts_star_iff.2
            ⟨List.replicate more '*' ++ run, rest, (List.append_assoc _ _ _).symm, hrest⟩
      | other _ hspelled => exact .star_take (ih hplain hspelled)

/-- Spelling a part of a pattern behind a text without stars. -/
theorem Respells.behind {plain cs ds : List Char} (hplain : '*' ∉ plain)
    (h : Respells cs ds) : Respells (plain ++ cs) (plain ++ ds) := by
  induction plain with
  | nil => exact h
  | cons c plain ih =>
      have hc : c ≠ '*' := (List.ne_of_not_mem_cons hplain).symm
      exact .other hc (ih (List.not_mem_of_not_mem_cons hplain))

/-- **A rule that matches a listing plainly** matches every name that the pattern matches. -/
theorem accepts_of_matchesPlainly {rule start pattern name : String}
    (hstart : '*' ∉ start.toList) (h : MatchesPlainly rule (start ++ orAll pattern))
    (hname : accepts pattern name = true) : accepts rule (start ++ name) = true := by
  obtain ⟨ds, hspelled, hblurred⟩ := exists_respells (accepts_iff_written.1 hname)
  unfold MatchesPlainly at h
  rw [String.toList_append] at h
  have hspelling := h.accepts_respells (fun _ => plain_of_char_mem) (hspelled.behind hstart)
  exact accepts_of_spelling hspelling hblurred

end Glob

/-! ### Listings of the service -/

/-- The contract of listings: a listing gives only names that its pattern matches. -/
def Contract.matching : Contract where
  allows _ := True
  assumes
    | .list pattern, .ok names => ∀ n ∈ names, Glob.accepts pattern n = true
    | _, _ => True

/-- Every world meets the contract of listings. -/
theorem World.matching_answer {σ : Type} [Mishaps σ] (w : World σ) (c : Context) (r : Request) :
    Contract.matching.assumes r (w.answer c r).1 := by
  cases r with
  | list pattern =>
      cases hlisted : (w.answer c (.list pattern)).1 with
      | ok names => exact accepts_of_mem_list hlisted
      | error e => trivial
  | _ => trivial

theorem Glob.orAll_ne_empty (pattern : String) : orAll pattern ≠ "" := by
  unfold orAll
  split
  · decide
  · rename_i hsome
    simpa using hsome

/-- A pattern in a namespace matches behind it what the pattern matches. -/
theorem Glob.accepts_in_space {space pattern name : String} (hspace : hasMeta space = false)
    (h : accepts (space ++ orAll pattern) (space ++ name) = true) :
    accepts pattern name = true := by
  have hpeel (plain : List Char) {ts : List Token} {cs : List Char}
      (h : Accepts (plain.map Token.char ++ ts) (plain ++ cs)) : Accepts ts cs := by
    induction plain with
    | nil => exact h
    | cons c plain ih =>
        cases h with
        | char h => exact ih h
  have hsome : ¬ (space ++ orAll pattern).isEmpty = true := by simp [orAll_ne_empty]
  have hplain : space.toList.map Token.ofChar = space.toList.map Token.char := by
    refine List.map_congr_left fun c hc => ?_
    obtain ⟨hstar, hone⟩ := plain_of_hasMeta hspace hc
    exact Token.ofChar_of_plain hstar hone
  have hwritten := accepts_iff_written.1 h
  rw [orAll, if_neg hsome, String.toList_append, String.toList_append, List.map_append,
    hplain] at hwritten
  exact accepts_iff_written.2 (hpeel _ hwritten)

/-- What a view shows of a listing are names that the pattern matches. -/
theorem View.keeps_list_matching {space : String} (hspace : Glob.hasMeta space = false)
    (pattern : String) :
    ((View.under space .whole).list pattern).Keeps .matching
      (fun names => ∀ n ∈ names, n ≠ "" ∧ Glob.accepts pattern n = true) fun _ => True := by
  refine (View.keeps_list trivial).weaken (fun shown hshown n hn => ?_) fun _ => id
  obtain ⟨names, hmatched, rfl⟩ := hshown
  obtain ⟨full, hfull, hstrip⟩ := List.mem_filterMap.1 hn
  obtain ⟨rfl, hne⟩ := strip_eq_some_iff.1 hstrip
  exact ⟨hne, Glob.accepts_in_space hspace (hmatched _ hfull)⟩

/-- What callers can list. -/
inductive Listing where
  | keys
  | policies
  | identities
  | enclaves
deriving DecidableEq, Repr

namespace Listing

/-- The command that lists what a pattern matches. -/
def command : Listing → String → Command
  | .keys => .listKeys
  | .policies => .listPolicies
  | .identities => .listIdentities
  | .enclaves => .listEnclaves

/-- What stands in front of the pattern in the request path. -/
def start : Listing → String
  | .keys => "/v1/key/list/"
  | .policies => "/v1/policy/list/"
  | .identities => "/v1/identity/list/"
  | .enclaves => "/v1/enclave/list/"

theorem path_command (kind : Listing) (pattern : String) :
    (kind.command pattern).operation.path = kind.start ++ Glob.orAll pattern := by
  cases kind <;> simp [command, start, Command.operation, Operation.path, String.join]

theorem star_not_mem_start (kind : Listing) : '*' ∉ kind.start.toList := by
  cases kind <;> decide

end Listing

namespace Service

variable {s : Service} {l : Layout} {caller : Identity} {e : String}

/-- **A listing replies with names that the pattern matches.** -/
theorem keeps_body_listing (hover : s.Over l) (hvalid : ValidEnclaveName e)
    (caller : Identity) (kind : Listing) (pattern : String) :
    (s.body caller (l.handle e) (kind.command pattern)).Keeps .matching
      (fun reply => ∀ names, reply = .names names →
        ∀ n ∈ names, n ≠ "" ∧ Glob.accepts pattern n = true) fun _ => True := by
  have hsorted {a : Routine (List String)}
      (h : a.Keeps .matching (fun names => ∀ n ∈ names, n ≠ "" ∧ Glob.accepts pattern n = true)
        fun _ => True) :
      (a >>= fun names => pure (Reply.names (sortNames names)) : Routine Reply).Keeps .matching
        (fun reply => ∀ names, reply = .names names →
          ∀ n ∈ names, n ≠ "" ∧ Glob.accepts pattern n = true) fun _ => True := by
    refine h.bind fun listed hlisted => Routine.Keeps.pure ?_
    intro names hnames n hn
    obtain rfl := Reply.names.inj hnames
    exact hlisted n (List.mem_mergeSort.1 hn)
  have hspace := Layout.hasMeta_space hover.plain hvalid.toValidName
  cases kind with
  | keys => exact hsorted (View.keeps_list_matching (hspace .key) pattern)
  | policies => exact hsorted (View.keeps_list_matching (hspace .policy) pattern)
  | identities => exact hsorted (View.keeps_list_matching (hspace .assignment) pattern)
  | enclaves =>
      unfold Listing.command body
      rw [hover.registry_eq]
      exact hsorted (View.keeps_list_matching
        (Layout.hasMeta_registry.trans hover.plain) pattern)

/-- **What a listing reveals.**  If a caller other than the admin lists something, whatever
mishaps there are, then it has a policy in the scope enclave that allows the request path, and
the names listed are names that the pattern matches.  An allow rule that matches the path
plainly matches every name listed, behind the start of the path; every matching rule without
question marks does so plainly, and every matching rule if the pattern has no star.  In general
the rules match all that the pattern matches if and only if they match all its spellings. -/
theorem perform_list_reveals {settings : Settings} (hmade : ofSettings settings = .ok s)
    {σ : Type} [Mishaps σ] (c : Context) (w : World σ) (enclave : String) (kind : Listing)
    (pattern : String) (hadmin : s.authorizer.isAdmin caller = false) {names : List String}
    (hlisted : ((s.perform caller enclave (kind.command pattern)).attempt.run c w).1 =
      .ok (.names names)) :
    ∃ (a : Assignment) (p : Policy),
      w.backend.record? (Layout.space ⟨settings.keyPrefix⟩ .assignment
        (s.scopeOf enclave (kind.command pattern)) ++ caller.text) = some a ∧
      w.backend.record? (Layout.space ⟨settings.keyPrefix⟩ .policy
        (s.scopeOf enclave (kind.command pattern)) ++ a.policy) = some p ∧
      Policy.covers p.deny (kind.start ++ Glob.orAll pattern) = false ∧
      Policy.covers p.allow (kind.start ++ Glob.orAll pattern) = true ∧
      (∀ name ∈ names, name ≠ "" ∧ Glob.accepts pattern name = true) ∧
      (∀ rule ∈ p.allow, Glob.MatchesPlainly rule (kind.start ++ Glob.orAll pattern) →
        ∀ name ∈ names, Glob.accepts rule (kind.start ++ name) = true) ∧
      (∀ rule ∈ p.allow, Glob.accepts rule (kind.start ++ Glob.orAll pattern) = true →
        '?' ∉ rule.toList ∨ '*' ∉ (Glob.orAll pattern).toList →
          Glob.MatchesPlainly rule (kind.start ++ Glob.orAll pattern)) ∧
      ((∀ name : String, name ≠ "" → Glob.accepts pattern name = true →
          Policy.covers p.allow (kind.start ++ name) = true) ↔
        ∀ spelling : String, spelling ≠ "" →
          Glob.Respells (Glob.orAll pattern).toList spelling.toList →
            Policy.covers p.allow (kind.start ++ spelling) = true) := by
  have hover := over_of_ofSettings hmade
  rcases perform_passed hover c w caller rfl with ⟨err, hfails, -⟩ | ⟨w₁, -, hpassed, hends, -⟩
  · rw [hfails] at hlisted
    cases hlisted
  rw [hends] at hlisted
  obtain ⟨hreply, -⟩ := Program.Keeps.run
    (keeps_body_listing hover hpassed.valid caller kind pattern) c (fun _ => True)
    (fun r v _ _ => ⟨v.matching_answer c r, trivial⟩) (w := w₁) trivial
  rw [hlisted] at hreply
  have hnames := hreply names rfl
  obtain ⟨-, a, p, hassigned, -, hpolicy, hdeny, hallow⟩ := Contract.grants_looking.1
    (hpassed.permitted.resolve_left (by simp [hadmin]))
  rw [kind.path_command] at hdeny hallow
  refine ⟨a, p, hassigned, hpolicy, hdeny, hallow, hnames, ?_, ?_, Glob.covers_listed_iff⟩
  · intro rule _ hplainly name hname
    exact Glob.accepts_of_matchesPlainly kind.star_not_mem_start hplainly (hnames name hname).2
  · intro rule _ hmatched hapart
    refine Glob.matchesPlainly_of_apart hmatched (hapart.imp_right fun hpattern hstar => ?_)
    rw [String.toList_append] at hstar
    rcases List.mem_append.1 hstar with hstart | hstar
    · exact kind.star_not_mem_start hstart
    · exact hpattern hstar

/-- A rule whose question mark meets no star of the request covers the key that is listed. -/
theorem perform_list_reveals_plainly :
    let s : Service := ⟨Layout.catalog ⟨""⟩, .ofAdmin none, "default", 30⟩
    let time := (World.calm (.memory .empty)).clock 0
    let policy : Policy := ⟨["/v1/key/list/?*"], [], some time, ⟨"root"⟩⟩
    let b : Backend := .memory ((((Table.empty.insert "sys/enclaves/default"
      (Record.encode (⟨time, ⟨"root"⟩⟩ : Registration))).insert "enclaves/default/identities/ann"
      (Record.encode (⟨"p", time, ⟨"root"⟩⟩ : Assignment))).insert "enclaves/default/policies/p"
      (Record.encode policy)).insert "enclaves/default/keys/ab" [7])
    let listing := (s.perform ⟨"ann"⟩ "" (.listKeys "a*")).attempt.run (.ofToken []) (.calm b)
    ofSettings .default = .ok s ∧ s.authorizer.isAdmin ⟨"ann"⟩ = false ∧
      listing.1 = .ok (.names ["ab"]) ∧
      b.record? "enclaves/default/policies/p" = some policy ∧
      Policy.covers policy.allow "/v1/key/list/ab" = true := by
  intro s time policy b listing
  have hmade : ofSettings .default = .ok s := rfl
  have hlisted : listing.1 = .ok (.names ["ab"]) := by decide +kernel
  have hassignment : b.record? "enclaves/default/identities/ann" =
      some (⟨"p", time, ⟨"root"⟩⟩ : Assignment) := by decide +kernel
  have hpolicy : b.record? "enclaves/default/policies/p" = some policy := by decide +kernel
  obtain ⟨a, p, ha, hp, -, -, -, hplainly, -⟩ :=
    perform_list_reveals hmade (.ofToken []) (.calm b) "" .keys "a*" rfl hlisted
  obtain rfl := Option.some.inj (hassignment.symm.trans ha)
  obtain rfl := Option.some.inj (hpolicy.symm.trans hp)
  have hrule : "/v1/key/list/?*" ∈ policy.allow := List.mem_singleton_self _
  have hmatched : Glob.MatchesPlainly "/v1/key/list/?*" "/v1/key/list/a*" := by
    have hbehind : Glob.AcceptsPlainly [.one, .star] ['a', '*'] :=
      .one (by decide) (.star_take (.star_skip .nil))
    iterate 13 refine .char ?_
    exact hbehind
  exact ⟨hmade, rfl, hlisted, hpolicy,
    Policy.covers_iff.2 ⟨_, hrule, hplainly _ hrule hmatched "ab" (List.mem_singleton_self _)⟩⟩

/-- **Listings beyond the rules.**  A rule allows listings of one character, and the star of the
request is one: the caller is told of a key whose name has two. -/
theorem list_reveals_uncovered :
    let s : Service := ⟨Layout.catalog ⟨""⟩, .ofAdmin none, "default", 30⟩
    let time := (World.calm (.memory .empty)).clock 0
    let policy : Policy := ⟨["/v1/key/list/?"], [], some time, ⟨"root"⟩⟩
    let b : Backend := .memory ((((Table.empty.insert "sys/enclaves/default"
      (Record.encode (⟨time, ⟨"root"⟩⟩ : Registration))).insert "enclaves/default/identities/ann"
      (Record.encode (⟨"p", time, ⟨"root"⟩⟩ : Assignment))).insert "enclaves/default/policies/p"
      (Record.encode policy)).insert "enclaves/default/keys/ab" [7])
    ofSettings .default = .ok s ∧ s.authorizer.isAdmin ⟨"ann"⟩ = false ∧
      b.record? "enclaves/default/identities/ann" =
        some (⟨"p", time, ⟨"root"⟩⟩ : Assignment) ∧
      b.record? "enclaves/default/policies/p" = some policy ∧
      ((s.perform ⟨"ann"⟩ "" (.listKeys "*")).attempt.run (.ofToken []) (.calm b)).1 =
        .ok (.names ["ab"]) ∧
      Policy.covers policy.allow "/v1/key/list/ab" = false := by
  intro s time policy b
  refine ⟨rfl, rfl, ?_, ?_, ?_, ?_⟩
  all_goals decide +kernel

end Service

end KeyCustody
