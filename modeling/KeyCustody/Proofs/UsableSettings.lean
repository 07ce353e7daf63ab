import KeyCustody.Proofs.Deadlines
import KeyCustody.Proofs.Quiet

/-!
# Accepted settings are usable

Settings are looked at when they are loaded, and namespaces are made of them much later.  A
prefix that was loaded holds no character of patterns, and a default enclave that was loaded
has a valid name.  This is all that a service needs to be set up, and all that its calls need
so that no namespace is refused.  Main statements:

* `Settings.accepted_of_load`: what all loaded settings have in common;
* `Service.usable_of_over`: what the calls of a service make of it, over any store;
* `Service.accepted_settings_usable`: accepted settings make a service that can be used.
-/

namespace KeyCustody

namespace Service

/-- **A usable service**: handles are refused for their names only, and no call is refused for
its namespaces, whatever the store is. -/
structure Usable (s : Service) : Prop where
  handle : ∀ name e, s.registry.handle name = .error e ↔ checkEnclaveName name = .error e
  create : ∀ name creator, (s.registry.create name creator).NeverBlames fun _ => True
  ensure : ∀ name creator, (s.registry.ensure name creator).NeverBlames fun _ => True
  delete : ∀ name, (s.registry.delete name).NeverBlames fun _ => True
  perform : ∀ caller enclave command, (s.perform caller enclave command).NeverBlames QuietReply
  describeSelf : ∀ caller enclave, (s.describeSelf caller enclave).NeverBlames fun _ => True
  init : s.init.NeverBlames fun _ => True

theorem usable_of_over {s : Service} {l : Layout} (hover : s.Over l) : s.Usable where
  handle _ _ := hover.handle_eq_error_iff
  create _ creator := by
    rw [hover.registry_eq]
    exact (Registry.quiet_create hover.plain creator).neverBlames
  ensure _ creator := by
    rw [hover.registry_eq]
    exact (Registry.quiet_ensure hover.plain creator).neverBlames
  delete _ := by
    rw [hover.registry_eq]
    exact (Registry.quiet_delete hover.plain).neverBlames
  perform caller enclave command := (quiet_perform hover caller enclave command).neverBlames
  describeSelf caller enclave := (quiet_describeSelf hover caller enclave).neverBlames
  init := (quiet_init hover).neverBlames

end Service

/-! ### What is loaded -/

namespace Settings

variable {lookup : String → Option String} {settings : Settings}

/-- The prefix holds no pattern characters, and the default enclave has a valid name. -/
def Accepted (s : Settings) : Prop :=
  Glob.hasMeta s.keyPrefix = false ∧ checkEnclaveName s.defaultEnclave = .ok ()

/-- A variable that is neither the prefix nor the default enclave leaves both as they are. -/
theorem keepsAccepted_of_reads {α : Type} {read : String → Except Error α}
    {put : String → α → Settings → Settings}
    (hput : ∀ value a s, (put value a s).keyPrefix = s.keyPrefix ∧
      (put value a s).defaultEnclave = s.defaultEnclave) :
    Keeps Accepted fun value s => read value >>= fun a => pure (put value a s) := by
  apply Keeps.of_reads
  intro value a s _ hs
  rw [Accepted, (hput value a s).1, (hput value a s).2]
  exact hs

theorem keepsAccepted_setKeyPrefix : Keeps Accepted setKeyPrefix := by
  intro value s s' hs h
  unfold setKeyPrefix at h
  split at h
  · cases h
  · rename_i hplain
    exact Except.ok.inj h ▸ ⟨Bool.eq_false_iff.2 hplain, hs.2⟩

theorem keepsAccepted_setDefaultEnclave : Keeps Accepted setDefaultEnclave :=
  Keeps.of_reads fun _ _ _ hchecked hs => ⟨hs.1, hchecked⟩

theorem keepsAccepted_setTimeout : Keeps Accepted setTimeout := by
  intro value s s' hs h
  unfold setTimeout at h
  split at h
  case h_1 => cases h
  case h_2 => cases h
  case h_3 => exact Except.ok.inj h ▸ hs

/-- **What is loaded** has a prefix and a default enclave that can be used. -/
theorem accepted_of_load (h : load lookup = .ok settings) : settings.Accepted := by
  have hput {set : String → Settings → Settings}
      (hset : ∀ value s, (set value s).keyPrefix = s.keyPrefix ∧
        (set value s).defaultEnclave = s.defaultEnclave) :
      Keeps Accepted fun value s => .ok (set value s) := by
    intro value s s' hs hdone
    rw [← Except.ok.inj hdone, Accepted, (hset value s).1, (hset value s).2]
    exact hs
  exact good_of_load ⟨by decide, by decide⟩
    (keepsAccepted_of_reads fun _ _ _ => ⟨rfl, rfl⟩) (hput fun _ _ => ⟨rfl, rfl⟩)
    keepsAccepted_setKeyPrefix (keepsAccepted_of_reads fun _ _ _ => ⟨rfl, rfl⟩)
    keepsAccepted_setDefaultEnclave keepsAccepted_setTimeout
    (keepsAccepted_of_reads fun _ _ _ => ⟨rfl, rfl⟩) (hput fun _ _ => ⟨rfl, rfl⟩) h

end Settings

namespace Service

/-- Accepted settings make a service. -/
theorem exists_ofSettings {settings : Settings} (h : settings.Accepted) :
    ∃ s, ofSettings settings = .ok s := by
  have henter : View.whole.enter (Layout.registry ⟨settings.keyPrefix⟩) =
      .ok (.under (Layout.registry ⟨settings.keyPrefix⟩) .whole) :=
    View.enter_eq_ok_iff.2 ⟨Layout.hasMeta_registry.trans h.1, rfl⟩
  refine ⟨⟨Layout.catalog ⟨settings.keyPrefix⟩, .ofAdmin settings.admin, settings.defaultEnclave,
    settings.timeout⟩, ?_⟩
  unfold ofSettings Registry.ofLayout
  rw [h.2, henter]
  rfl

/-- **Accepted settings are usable.**  Settings that were loaded make a service, whatever the
variables are.  A handle of it is refused for exactly the names that are no enclave names.  No
call of it ends in an error that blames a namespace, over any store that never answers with such
an error itself; nor does any item of a call on several identities. -/
theorem accepted_settings_usable {lookup : String → Option String} {settings : Settings}
    (hload : Settings.load lookup = .ok settings) :
    ∃ s, ofSettings settings = .ok s ∧ s.Usable := by
  obtain ⟨s, hmade⟩ := exists_ofSettings (Settings.accepted_of_load hload)
  exact ⟨s, hmade, usable_of_over (over_of_ofSettings hmade)⟩

/-- A deployment under a prefix: its enclaves can be deleted over every connector. -/
theorem accepted_settings_usable_deployed :
    let lookup (name : String) : Option String :=
      if name = "KMS_KEY_PREFIX" then some "prod/"
      else if name = "KMS_DEFAULT_ENCLAVE" then some "vault"
      else none
    let settings : Settings :=
      { Settings.default with keyPrefix := "prod/", defaultEnclave := "vault" }
    Settings.load lookup = .ok settings ∧
      ∃ s, ofSettings settings = .ok s ∧ s.Usable ∧
        ∀ (c : Context) (w : World Unit) (space : String),
          ((s.registry.delete "vault").attempt.run c w).1 ≠
            .error (.invalid (.patternNamespace space)) := by
  intro lookup settings
  have hload : Settings.load lookup = .ok settings := by decide +kernel
  obtain ⟨s, hmade, husable⟩ := accepted_settings_usable hload
  refine ⟨hload, s, hmade, husable, fun c w space hblamed => ?_⟩
  have hends := (husable.delete "vault").run_calm c w
  rw [hblamed] at hends
  cases hends

end Service

end KeyCustody
