import KeyCustody.Proofs.Ancestry
import KeyCustody.Proofs.Timestamps
import KeyCustody.Proofs.Trail

/-!
# Deadlines that the clock can show

The settings count the time of a call in words of 64 bits, and the clock counts in signed words
of 64 bits.  So settings are accepted whose timeouts take the deadline of a call beyond the last
moment of the clock, and then no call comes to its end, whatever it asks for: the deadline is
computed before anything else.  Whether that happens is settled by the timeout and the moment
alone.  Main statements:

* `Settings.timeout_accepted_iff`: the timeouts that settings may have;
* `Service.inTime_iff`: when a call finds its deadline, whatever it asks for and whatever it meets;
* `Service.exists_serveAll?_iff`: which runs are served to their end.
-/

namespace KeyCustody

/-! ### Moments of the clock -/

namespace Instant

variable {t d : Instant} {seconds : Nat}

/-- The clock counts seconds in signed words of 64 bits. -/
def minSeconds : Int := -9223372036854775808

/-- **The clock can show the moment.** -/
structure Shown (t : Instant) : Prop where
  least : minSeconds ≤ t.seconds
  most : t.seconds ≤ maxSeconds
  nanos_lt : t.nanos < 1000000000

theorem after?_eq_some_iff :
    t.after? seconds = some d ↔
      t.seconds + seconds ≤ maxSeconds ∧ d = ⟨t.seconds + seconds, t.nanos⟩ := by
  unfold after?
  split
  case isTrue hfits => exact ⟨fun h => ⟨hfits, (Option.some.inj h).symm⟩, fun h => h.2 ▸ rfl⟩
  case isFalse hover => exact ⟨nofun, fun h => absurd h.1 hover⟩

theorem isSome_after?_iff :
    (t.after? seconds).isSome = true ↔ t.seconds + seconds ≤ maxSeconds := by
  simp [Option.isSome_iff_exists, after?_eq_some_iff]

/-- A later moment is shown if there is one. -/
theorem Shown.after (h : t.Shown) (hd : t.after? seconds = some d) : d.Shown := by
  obtain ⟨hfits, hlater⟩ := after?_eq_some_iff.1 hd
  subst hlater
  have hleast := h.least
  exact ⟨by dsimp only; omega, hfits, h.nanos_lt⟩

end Instant

/-! ### The timeouts that settings may have -/

namespace Text

/-- A text without blanks has nothing to trim. -/
theorem trim_eq_self {text : String} (h : ∀ c ∈ text.toList, isBlank c = false) :
    trim text = text := by
  have hend (cs : List Char) (hcs : ∀ c ∈ cs, isBlank c = false) : trimEnd cs = cs := by
    induction cs with
    | nil => rfl
    | cons c cs ih =>
        have hrest := ih fun d hd => hcs d (List.mem_cons_of_mem _ hd)
        rw [trimEnd, hrest]
        cases cs with
        | nil => simp [hcs c List.mem_cons_self]
        | cons d ds => rfl
  have hstart : trimStart text.toList = text.toList := by
    cases hchars : text.toList with
    | nil => rfl
    | cons c cs => simp [trimStart, h c (hchars ▸ List.mem_cons_self)]
  rw [trim, trimChars, hstart, hend _ h, String.ofList_toList]

end Text

/-- The decimal digits of a word are read as the word. -/
theorem word64?_toString {n : Nat} (hword : n < UInt64.size) : word64? (toString n) = some n := by
  have hdigits : ∀ c ∈ Nat.toDigits 10 n, c.isDigit = true := fun c hc =>
    Nat.isDigit_of_mem_toDigits (by decide) (by decide) hc
  have hsome : Nat.toDigits 10 n ≠ [] := Nat.toDigits_ne_nil
  have hvalue : Nat.ofDigitChars 10 (Nat.toDigits 10 n) 0 = n := Nat.ofDigitChars_ten_toDigits
  unfold word64?
  rw [Timestamp.toList_toString]
  split
  case h_1 ds hsigned =>
    exact absurd (hdigits '+' (hsigned ▸ List.mem_cons_self)) (by decide)
  case h_2 =>
    have hread :
        ((Nat.toDigits 10 n).isEmpty || !(Nat.toDigits 10 n).all Char.isDigit) = false := by
      simpa [hsome] using hdigits
    change (if _ then none else if Nat.ofDigitChars 10 (Nat.toDigits 10 n) 0 < _ then
      some (Nat.ofDigitChars 10 (Nat.toDigits 10 n) 0) else none) = some n
    rw [hread, hvalue, if_neg Bool.false_ne_true, if_pos hword]

/-- Whatever is read is a word. -/
theorem lt_of_word64? {text : String} {n : Nat} (h : word64? text = some n) :
    n < UInt64.size := by
  unfold word64? at h
  grind

/-- Two steps succeed one after the other. -/
theorem exists_of_bind_eq_ok {ε α β : Type} {first : Except ε α} {next : α → Except ε β} {b : β}
    (h : first >>= next = .ok b) : ∃ a, first = .ok a ∧ next a = .ok b := by
  cases first with
  | error e => cases h
  | ok a => exact ⟨a, rfl, h⟩

namespace Settings

variable {lookup : String → Option String} {settings : Settings}

/-- The values of a variable that are accepted keep a property of settings. -/
def Keeps (good : Settings → Prop) (set : String → Settings → Except Error Settings) : Prop :=
  ∀ value s s', good s → set value s = .ok s' → good s'

/-- A variable that is read and put into one place. -/
theorem Keeps.of_reads {α : Type} {good : Settings → Prop} {read : String → Except Error α}
    {put : String → α → Settings → Settings}
    (hput : ∀ value a s, read value = .ok a → good s → good (put value a s)) :
    Keeps good fun value s => read value >>= fun a => pure (put value a s) := by
  intro value s s' hs h
  obtain ⟨a, hread, hdone⟩ := exists_of_bind_eq_ok h
  exact Except.ok.inj hdone ▸ hput value a s hread hs

/-- A variable that is unset or blank changes nothing. -/
theorem Keeps.apply {good : Settings → Prop} {set : String → Settings → Except Error Settings}
    (hset : Keeps good set) {name : String} {s s' : Settings} (hs : good s)
    (h : apply lookup name set s = .ok s') : good s' := by
  unfold Settings.apply at h
  split at h
  · split at h
    · exact Except.ok.inj h ▸ hs
    · exact hset _ s s' hs h
  · exact Except.ok.inj h ▸ hs

/-- **What every variable keeps**, loaded settings have, if the settings without any variable
have it. -/
theorem good_of_load {good : Settings → Prop} (hdefault : good default)
    (hbackend : Keeps good setBackend) (hdata : Keeps good setDataDir)
    (hspace : Keeps good setKeyPrefix) (hadmin : Keeps good setAdmin)
    (henclave : Keeps good setDefaultEnclave) (htimeout : Keeps good setTimeout)
    (hformat : Keeps good setLogFormat) (hfilter : Keeps good setLogFilter)
    (h : load lookup = .ok settings) : good settings := by
  unfold load at h
  obtain ⟨s₁, h₁, h⟩ := exists_of_bind_eq_ok h
  obtain ⟨s₂, h₂, h⟩ := exists_of_bind_eq_ok h
  obtain ⟨s₃, h₃, h⟩ := exists_of_bind_eq_ok h
  obtain ⟨s₄, h₄, h⟩ := exists_of_bind_eq_ok h
  obtain ⟨s₅, h₅, h⟩ := exists_of_bind_eq_ok h
  obtain ⟨s₆, h₆, h⟩ := exists_of_bind_eq_ok h
  obtain ⟨s₇, h₇, h₈⟩ := exists_of_bind_eq_ok h
  have hearly : good s₄ :=
    hadmin.apply (hspace.apply (hdata.apply (hbackend.apply hdefault h₁) h₂) h₃) h₄
  exact hfilter.apply (hformat.apply (htimeout.apply (henclave.apply hearly h₅) h₆) h₇) h₈

/-- The time that a call may take is positive and fits into a word. -/
def Timed (s : Settings) : Prop :=
  0 < s.timeout ∧ s.timeout < UInt64.size

/-- The values of a variable that are accepted leave a time that fits. -/
def KeepsTimed (set : String → Settings → Except Error Settings) : Prop :=
  ∀ value s s', s.Timed → set value s = .ok s' → s'.Timed

/-- A variable that does not count time leaves the timeout as it is. -/
theorem keepsTimed_of_reads {α : Type} {read : String → Except Error α}
    {put : String → α → Settings → Settings}
    (hput : ∀ value a s, (put value a s).timeout = s.timeout) :
    KeepsTimed fun value s => read value >>= fun a => pure (put value a s) := by
  apply Keeps.of_reads
  intro value a s _ hs
  rw [Timed, hput]
  exact hs

theorem keepsTimed_setDataDir : KeepsTimed setDataDir := by
  intro value s s' hs h
  exact Except.ok.inj h ▸ hs

theorem keepsTimed_setLogFilter : KeepsTimed setLogFilter := by
  intro value s s' hs h
  exact Except.ok.inj h ▸ hs

theorem keepsTimed_setKeyPrefix : KeepsTimed setKeyPrefix := by
  intro value s s' hs h
  unfold setKeyPrefix at h
  split at h
  · cases h
  · exact Except.ok.inj h ▸ hs

theorem keepsTimed_setTimeout : KeepsTimed setTimeout := by
  intro value s s' _ h
  unfold setTimeout at h
  split at h
  case h_1 => cases h
  case h_2 => cases h
  case h_3 n hpos hread =>
    obtain rfl := Except.ok.inj h
    exact ⟨Nat.pos_of_ne_zero hpos, lt_of_word64? hread⟩

/-- Settings that are accepted have a positive word as their timeout. -/
theorem timed_of_load (h : load lookup = .ok settings) : settings.Timed :=
  good_of_load ⟨by decide, by decide⟩ (keepsTimed_of_reads fun _ _ _ => rfl)
    keepsTimed_setDataDir keepsTimed_setKeyPrefix (keepsTimed_of_reads fun _ _ _ => rfl)
    (keepsTimed_of_reads fun _ _ _ => rfl) keepsTimed_setTimeout
    (keepsTimed_of_reads fun _ _ _ => rfl) keepsTimed_setLogFilter h

/-- A number of seconds and nothing else. -/
def onlyTimeout (n : Nat) (name : String) : Option String :=
  if name = "KMS_OP_TIMEOUT_SECS" then some (toString n) else none

/-- A positive word is accepted as timeout. -/
theorem load_onlyTimeout {n : Nat} (hpos : 0 < n) (hword : n < UInt64.size) :
    load (onlyTimeout n) = .ok { default with timeout := n } := by
  have hunblank : Text.trim (toString n) = toString n := by
    refine Text.trim_eq_self fun c hc => ?_
    rw [Timestamp.toList_toString] at hc
    exact Timestamp.not_isBlank_of_isDigit (Nat.isDigit_of_mem_toDigits (by decide) (by decide) hc)
  have hsome : (toString n).isEmpty = false := by
    refine Bool.eq_false_iff.2 fun hempty => Nat.toDigits_ne_nil (n := n) (b := 10) ?_
    rw [← Timestamp.toList_toString, String.isEmpty_iff.1 hempty]
    rfl
  have htimeout : setTimeout (toString n) default = .ok { default with timeout := n } := by
    rw [setTimeout, hunblank, word64?_toString hword]
    split
    case h_1 h => cases h
    case h_2 h => exact absurd (Option.some.inj h) hpos.ne'
    case h_3 h => rw [Option.some.inj h]
  have happly : apply (onlyTimeout n) "KMS_OP_TIMEOUT_SECS" setTimeout default =
      .ok { default with timeout := n } := by
    have hset : onlyTimeout n "KMS_OP_TIMEOUT_SECS" = some (toString n) := if_pos rfl
    unfold apply
    rw [hset]
    dsimp only
    rw [hunblank, hsome, if_neg Bool.false_ne_true, htimeout]
  have hother (name : String) (set : String → Settings → Except Error Settings) (s : Settings)
      (hname : name ≠ "KMS_OP_TIMEOUT_SECS") : apply (onlyTimeout n) name set s = .ok s := by
    simp [apply, onlyTimeout, hname]
  simp [load, hother, happly, bind, Except.bind]

/-- **The timeouts that settings may have** are the positive words. -/
theorem timeout_accepted_iff (n : Nat) :
    (∃ lookup settings, load lookup = .ok settings ∧ settings.timeout = n) ↔
      0 < n ∧ n < UInt64.size := by
  constructor
  · intro ⟨lookup, settings, hload, htimeout⟩
    exact htimeout ▸ timed_of_load hload
  · intro ⟨hpos, hword⟩
    exact ⟨onlyTimeout n, _, load_onlyTimeout hpos hword, rfl⟩

end Settings

/-! ### Calls and their deadlines -/

/-- The earlier one of a moment and the deadline of the context. -/
def Context.earlier (c : Context) (d : Instant) : Instant :=
  match c.deadline with
  | some own => if own.before d then own else d
  | none => d

/-- The clock can show the earlier one of two moments that it can show. -/
theorem Context.shown_earlier {c : Context} {d : Instant} (hd : d.Shown)
    (hown : ∀ own, c.deadline = some own → own.Shown) : (c.earlier d).Shown := by
  unfold earlier
  split
  case h_1 own hdeadline =>
    split
    · exact hown own hdeadline
    · exact hd
  case h_2 => exact hd

namespace Service

variable {s : Service} {now : Instant}

/-- A deletion of no policies, which consists of no call at all. -/
def Call.Empty : Call → Prop
  | .deletePolicies _ names => names = []
  | _ => False

/-- **Calls find their deadlines** at the moment. -/
structure InTime (s : Service) (now : Instant) : Prop where
  /-- A call ends when its time is up, or with the context of its caller if that ends earlier,
  and the clock can show when. -/
  deadlines : ∀ (c : Context) (tokens : Tokens), ∃ c' tokens',
    s.callContext? c tokens now = some (c', tokens') ∧
      c'.deadline = some (c.earlier ⟨now.seconds + s.timeout, now.nanos⟩) ∧
      ((∀ own, c.deadline = some own → own.Shown) →
        (c.earlier ⟨now.seconds + s.timeout, now.nanos⟩).Shown)
  /-- Every call comes to its end, whatever goes wrong on the way. -/
  calls : ∀ {σ : Type} [Mishaps σ] (c : Context) (caller : Identity) (call : Call) (w : World σ),
    w.now = now → ∃ r w', s.serve? c caller call w = some (r, w')

/-- **No call finds its deadline** at the moment. -/
structure OutOfTime (s : Service) (now : Instant) : Prop where
  deadlines : ∀ (c : Context) (tokens : Tokens), s.callContext? c tokens now = none
  /-- No call comes to its end, whoever asks and whatever it asks for. -/
  calls : ∀ {σ : Type} [Mishaps σ] (c : Context) (caller : Identity) (call : Call) (w : World σ),
    w.now = now → ¬ call.Empty → s.serve? c caller call w = none

/-- The context of a call, told by the moment when its time is up. -/
theorem callContext?_eq (s : Service) (c : Context) (tokens : Tokens) (now : Instant) :
    s.callContext? c tokens now = (now.after? s.timeout).map fun d =>
      ((c.child tokens).1.withDeadline d, (c.child tokens).2) := by
  unfold callContext? Context.withTimeout?
  cases now.after? s.timeout <;> rfl

theorem inTime_of_fits {l : Layout} (hover : s.Over l) (hnow : now.Shown)
    (hfits : now.seconds + s.timeout ≤ Instant.maxSeconds) : s.InTime now where
  deadlines c tokens := by
    have hup := Instant.after?_eq_some_iff.2 ⟨hfits, rfl⟩
    have hcontext := callContext?_eq s c tokens now
    rw [hup] at hcontext
    exact ⟨_, _, hcontext, Context.deadline_withDeadline _ _,
      Context.shown_earlier (hnow.after hup)⟩
  calls c caller call w hw := by
    subst hw
    exact exists_serve? hover (Instant.isSome_after?_iff.2 hfits) c caller call

theorem callContext?_of_late (hlate : Instant.maxSeconds < now.seconds + s.timeout) (c : Context)
    (tokens : Tokens) : s.callContext? c tokens now = none := by
  have hnone : now.after? s.timeout = none :=
    Option.eq_none_iff_forall_ne_some.2 fun d hd => by
      have := (Instant.after?_eq_some_iff.1 hd).1
      omega
  rw [callContext?_eq, hnone]
  rfl

/-- Every call but an empty one starts with the computation of its deadline. -/
theorem outOfTime_of_late (hlate : Instant.maxSeconds < now.seconds + s.timeout) :
    s.OutOfTime now where
  deadlines := callContext?_of_late hlate
  calls {σ} _ c caller call w hw hcall := by
    subst hw
    have hrun {α : Type} (p : Program α) : s.run? c p w = none := by
      unfold run?
      rw [callContext?_of_late hlate]
      rfl
    cases call with
    | deletePolicies enclave names =>
        cases names with
        | nil => exact absurd rfl hcall
        | cons name names => simp [serve?, deletePolicies?, hrun]
    | command enclave command => exact hrun _
    | describeSelf enclave => simp [serve?, hrun]
    | init => simp [serve?, hrun]
    | health => simp [serve?, hrun]

/-- At no moment calls both find their deadlines and do not. -/
theorem InTime.not_outOfTime (h : s.InTime now) : ¬ s.OutOfTime now := by
  intro hout
  obtain ⟨c', tokens', hcontext, -⟩ := h.deadlines (.ofToken []) .empty
  rw [hout.deadlines] at hcontext
  cases hcontext

/-- **When calls find their deadlines.**  Settings that are accepted have a positive word of 64
bits as their timeout.  At a moment that the clock can show, either every call finds its deadline,
or none does.  Which of the two is settled by the timeout: the moment when the time of a call is
up must not lie behind the last second of the clock. -/
theorem inTime_iff {lookup : String → Option String} {settings : Settings}
    (hload : Settings.load lookup = .ok settings) (hmade : ofSettings settings = .ok s)
    (hnow : now.Shown) :
    settings.Timed ∧
      (s.InTime now ↔ now.seconds + settings.timeout ≤ Instant.maxSeconds) ∧
      (s.OutOfTime now ↔ Instant.maxSeconds < now.seconds + settings.timeout) := by
  have hover := over_of_ofSettings hmade
  have htimeout : s.timeout = settings.timeout := by rw [(eq_of_ofSettings hmade).1]
  rw [← htimeout]
  refine ⟨Settings.timed_of_load hload, ⟨fun hin => ?_, inTime_of_fits hover hnow⟩,
    ⟨fun hout => ?_, outOfTime_of_late⟩⟩
  · by_contra hlate
    exact hin.not_outOfTime (outOfTime_of_late (by omega))
  · by_contra hearly
    exact (inTime_of_fits hover hnow (by omega)).not_outOfTime hout

/-- With half a minute for each call, a service finds its deadlines as soon as the clock runs. -/
theorem inTime_half_minute :
    let s : Service := ⟨Layout.catalog ⟨""⟩, .ofAdmin none, "default", 30⟩
    Settings.load (Settings.onlyTimeout 30) = .ok { Settings.default with timeout := 30 } ∧
      ofSettings { Settings.default with timeout := 30 } = .ok s ∧
      (⟨1, 0⟩ : Instant).Shown ∧ s.InTime ⟨1, 0⟩ := by
  intro s
  have hload := Settings.load_onlyTimeout (n := 30) (by decide) (by decide)
  have hmade : ofSettings { Settings.default with timeout := 30 } = .ok s := rfl
  have hnow : (⟨1, 0⟩ : Instant).Shown := ⟨by decide, by decide, by decide⟩
  exact ⟨hload, hmade, hnow, (inTime_iff hload hmade hnow).2.1.2 (by decide)⟩

/-- The longest timeout is accepted.  Already in the first second of the clock, no call finds its
deadline, not even the one that prepares the default enclave. -/
theorem longest_timeout_never_in_time :
    let longest : String → Option String := fun name =>
      if name = "KMS_OP_TIMEOUT_SECS" then some "18446744073709551615" else none
    let s : Service := ⟨Layout.catalog ⟨""⟩, .ofAdmin none, "default", 18446744073709551615⟩
    let now : Instant := ⟨1, 0⟩
    Settings.load longest = .ok { Settings.default with timeout := 18446744073709551615 } ∧
      ofSettings { Settings.default with timeout := 18446744073709551615 } = .ok s ∧ now.Shown ∧
      s.callContext? (.ofToken []) .empty now = none ∧
      (s.serve? (.ofToken []) ⟨"root"⟩ .init
        ({ World.calm (.memory .empty) with now := now })).isNone = true ∧
      ¬ s.InTime now := by
  intro longest s now
  have hload : Settings.load longest =
      .ok { Settings.default with timeout := 18446744073709551615 } := by decide +kernel
  have hmade : ofSettings { Settings.default with timeout := 18446744073709551615 } = .ok s := rfl
  have hnow : now.Shown := ⟨by decide, by decide, by decide⟩
  have hnone : s.callContext? (.ofToken []) .empty now = none := by decide +kernel
  refine ⟨hload, hmade, hnow, hnone, by decide +kernel, fun hin => ?_⟩
  obtain ⟨c', tokens', hcontext, -⟩ := hin.deadlines (.ofToken []) .empty
  rw [hnone] at hcontext
  cases hcontext

/-! ### Runs of calls -/

/-- A call that is served finds its deadline, unless it is empty. -/
theorem fits_of_serve? {σ : Type} [Mishaps σ] {c : Context} {caller : Identity} {call : Call}
    {w w' : World σ} {r : Except Error Reply} (hcall : ¬ call.Empty)
    (hserved : s.serve? c caller call w = some (r, w')) :
    (w.now.after? s.timeout).isSome = true := by
  rw [Instant.isSome_after?_iff]
  by_contra hlate
  rw [(outOfTime_of_late (by omega)).calls c caller call w rfl hcall] at hserved
  cases hserved

/-- **Which runs are served to their end.**  A run of calls, none of them empty, comes to its end
exactly if the clock can show the deadline of each call when it comes. -/
theorem exists_serveAll?_iff {l : Layout} (hover : s.Over l) {σ : Type} [Mishaps σ]
    {steps : List Step} {w : World σ}
    (hsteps : ∀ c caller call, Step.call c caller call ∈ steps → ¬ call.Empty) :
    (∃ transcript w', s.serveAll? steps w = some (transcript, w')) ↔ s.Timely w.now steps := by
  refine ⟨fun hended => ?_, exists_serveAll? hover⟩
  obtain ⟨transcript, w', hserved⟩ := hended
  induction steps generalizing w transcript w' with
  | nil => trivial
  | cons step steps ih =>
      have hlater := fun c caller call h => hsteps c caller call (List.mem_cons_of_mem _ h)
      cases step with
      | call c caller call =>
          obtain ⟨⟨r, w₁⟩, hone, hserved⟩ := Option.bind_eq_some_iff.1 hserved
          obtain ⟨⟨more, w₂⟩, hrest, -⟩ := Option.bind_eq_some_iff.1 hserved
          obtain ⟨events, -, hlogs⟩ := serve?_logs hover hone
          have hshown := fits_of_serve? (hsteps c caller call List.mem_cons_self) hone
          exact ⟨hshown, hlogs.now ▸ ih hlater more w₂ hrest⟩
      | pause tokens now => exact ih hlater transcript w' hserved

end Service

end KeyCustody
