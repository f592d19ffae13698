import CorexManager.Gateway.ConfigLoad

/-!
# Reloads that fail

`watch_config` writes what `load_config` returns over the live bundle, whatever became of the
file; `ConfigStore::reload` writes only what it could load.

* `LoadFailure` — the ways in which a file is no bundle, one for each step of loading it.
* `loadConfig_eq` — `load_config` in terms of the bundle it reads: the default where there is
  none, and no signature.
* `reload_keeps_iff` — a reload of such a file leaves the live bundle as it was when the live
  bundle was already the one that is put in its place.
-/

namespace CorexManager.Gateway

open Data (Text)

section Reload

variable (C : BundleCodec)

/-- The bundle in a file, with its signatures. -/
def readBundle (encryptionKey : Option Text) (raw : Option Bytes) : Option SignedBundle := do
  let plaintext ← decryptBundle C encryptionKey (← raw)
  C.bundle plaintext

/-- The file cannot be read, decrypted, parsed or verified. -/
inductive LoadFailure (encryptionKey signingKey : Option Text) : Option Bytes → Prop where
  | unread : LoadFailure encryptionKey signingKey none
  | undecrypted {content : Bytes} (h : decryptBundle C encryptionKey content = none) :
      LoadFailure encryptionKey signingKey (some content)
  | unparsed {content plaintext : Bytes} (h : decryptBundle C encryptionKey content = some plaintext)
      (hparse : C.bundle plaintext = none) : LoadFailure encryptionKey signingKey (some content)
  | unverified {content plaintext sig : Bytes} {signed : SignedBundle} {sk : Text}
      (h : decryptBundle C encryptionKey content = some plaintext)
      (hparse : C.bundle plaintext = some signed) (hkey : signingKey = some sk)
      (hsig : signed.sig.or signed.legacySig = some sig)
      (hverify : verifyBundleSig C sk (canonicalJsonWithoutSig C plaintext) sig = false) :
      LoadFailure encryptionKey signingKey (some content)

variable {C} {encryptionKey signingKey : Option Text} {raw : Option Bytes} {secretsKey : Text}

theorem readBundle_some {content : Bytes} :
    readBundle C encryptionKey (some content) =
      (decryptBundle C encryptionKey content).bind C.bundle := rfl

/-- The store fails to load a file exactly where one of the steps fails. -/
theorem loadFromDisk_eq_none_iff :
    ConfigStore.loadFromDisk C ⟨encryptionKey, signingKey⟩ raw = none ↔
      LoadFailure C encryptionKey signingKey raw := by
  cases raw with
  | none => exact ⟨fun _ => .unread, fun _ => rfl⟩
  | some content =>
      cases hplaintext : decryptBundle C encryptionKey content with
      | none =>
          refine ⟨fun _ => .undecrypted hplaintext, fun _ => ?_⟩
          simp only [ConfigStore.loadFromDisk, Option.bind_eq_bind, Option.bind_some, hplaintext,
            Option.bind_none]
      | some plaintext =>
          cases hsigned : C.bundle plaintext with
          | none =>
              refine ⟨fun _ => .unparsed hplaintext hsigned, fun _ => ?_⟩
              simp only [ConfigStore.loadFromDisk, Option.bind_eq_bind, Option.bind_some, hplaintext,
                hsigned, Option.bind_none]
          | some signed =>
              simp only [ConfigStore.loadFromDisk, Option.bind_eq_bind, Option.bind_some, hplaintext,
                hsigned]
              constructor
              · intro h
                split at h
                · next sk sig hsig =>
                    split at h
                    · cases h
                    · next hverify =>
                        exact .unverified hplaintext hsigned rfl hsig (Bool.eq_false_iff.mpr hverify)
                · cases h
              · intro h
                cases h with
                | undecrypted h => cases hplaintext.symm.trans h
                | unparsed h hparse =>
                    cases hplaintext.symm.trans h
                    cases hsigned.symm.trans hparse
                | unverified h hparse hkey hsig hverify =>
                    cases hplaintext.symm.trans h
                    cases hsigned.symm.trans hparse
                    subst hkey
                    simp only [hsig, hverify, Bool.false_eq_true, if_false]

/-- **`load_config`** is the bundle in the file, whatever its signature, and the default where
there is none. -/
theorem loadConfig_eq (hempty : C.bundle [] = none) :
    loadConfig C secretsKey raw =
      ((readBundle C (some secretsKey) raw).map SignedBundle.bundle).getD .default := by
  cases raw with
  | none => rfl
  | some content =>
      rw [readBundle_some]
      cases content with
      | nil =>
          show ((C.bundle []).map SignedBundle.bundle).getD .default = _
          rw [hempty]
          rfl
      | cons version rest =>
          rw [loadConfig, List.head?_cons]
          by_cases henvelope : version = 0x01
          · rw [if_pos (congrArg some henvelope)]
            cases decryptBundle C (some secretsKey) (version :: rest) <;> rfl
          · rw [if_neg fun h => henvelope (Option.some.inj h), decryptBundle, if_pos henvelope]
            by_cases hfernet : version = 0x80
            · rw [if_pos (congrArg some hfernet), if_pos hfernet]
              rfl
            · rw [if_neg fun h => hfernet (Option.some.inj h), if_neg hfernet]
              rfl

variable {p p' : Process}

/-- Only a reload changes the live bundle: the watcher passes over a file that is gone. -/
theorem processStep_config {a : ProcessAct} (h : processStep C secretsKey p a = some p')
    (ha : a ≠ .reload) : p'.gateway.config = p.gateway.config := by
  cases a with
  | write mtime content => rw [← Option.some.inj h]
  | remove => rw [← Option.some.inj h]
  | watch =>
      simp only [processStep] at h
      split at h
      · rw [← Option.some.inj h]
      · cases h
  | poll =>
      simp only [processStep] at h
      split at h
      · split at h <;> rw [← Option.some.inj h]
      · rw [← Option.some.inj h]
      · cases h
  | reload => exact absurd rfl ha

theorem boot_config (P : Platform) (C : BundleCodec) (secretsKey : Text)
    (file : Option (Nat × Bytes)) :
    (boot P C secretsKey file).gateway.config = loadConfig C secretsKey (file.map Prod.snd) := rfl

theorem processStep_reload (h : processStep C secretsKey p .reload = some p') :
    p'.gateway.config = loadConfig C secretsKey (p.file.map Prod.snd) := by
  simp only [processStep] at h
  split at h
  · rw [← Option.some.inj h]
  · cases h

/-- **A failed reload keeps the live bundle** when the live bundle is the default already, where
there is no bundle in the file, or the bundle of the file itself, where its signature is wrong;
and only then.  The store keeps its bundle whenever it fails, and so does every other step. -/
theorem reload_keeps_iff (hempty : C.bundle [] = none) (signingKey : Option Text)
    (hreload : processStep C secretsKey p .reload = some p') :
    ((LoadFailure C (some secretsKey) signingKey (p.file.map Prod.snd) →
        p'.gateway.config = p.gateway.config) ↔
      (readBundle C (some secretsKey) (p.file.map Prod.snd) = none → p.gateway.config = .default) ∧
      ∀ signed, readBundle C (some secretsKey) (p.file.map Prod.snd) = some signed →
        LoadFailure C (some secretsKey) signingKey (p.file.map Prod.snd) →
        p.gateway.config = signed.bundle) ∧
    (∀ a q, a ≠ .reload → processStep C secretsKey p a = some q →
      q.gateway.config = p.gateway.config) ∧
    ∀ (store : ConfigStore) (previous : ConfigBundle) (raw : Option Bytes),
      LoadFailure C store.encryptionKey store.signingKey raw →
        store.reload C previous raw = previous := by
  refine ⟨?_, fun a q ha hstep => processStep_config hstep ha, ?_⟩
  · rw [processStep_reload hreload, loadConfig_eq hempty]
    generalize p.file.map Prod.snd = raw
    cases hread : readBundle C (some secretsKey) raw with
    | none =>
        -- a file without a bundle always fails
        have hfailure : LoadFailure C (some secretsKey) signingKey raw := by
          cases raw with
          | none => exact .unread
          | some content =>
              rw [readBundle_some] at hread
              cases hplaintext : decryptBundle C (some secretsKey) content with
              | none => exact .undecrypted hplaintext
              | some plaintext =>
                  rw [hplaintext] at hread
                  exact .unparsed hplaintext hread
        constructor
        · exact fun h => ⟨fun _ => (h hfailure).symm, nofun⟩
        · exact fun h _ => (h.1 rfl).symm
    | some signed =>
        constructor
        · intro h
          refine ⟨nofun, fun signed' hsigned hfailure => ?_⟩
          rw [← Option.some.inj hsigned]
          exact (h hfailure).symm
        · exact fun h hfailure => (h.2 signed rfl hfailure).symm
  · intro store previous raw hfailure
    rw [ConfigStore.reload, loadFromDisk_eq_none_iff.mpr hfailure]
    rfl

end Reload

/-! ### A file that is about to be written -/

/-- The file is emptied before it is written again, and the watcher comes in between. -/
def truncation : List ProcessAct := [.watch, .write 2 [], .poll, .reload]

/-- What the codec makes of the file, and of nothing else. -/
def closedCodec : BundleCodec := codecOf unsignedFile none

/-- **The live bundle is lost**: the default takes the place of the bundle that denies every
call. -/
theorem truncation_unconfigures :
    (boot .plain closedCodec ['k'] (some (1, unsignedFile))).gateway.config = closedBundle ∧
    LoadFailure closedCodec (some ['k']) none (some []) ∧
    ∃ p, Transition.run (processStep closedCodec ['k'])
        (boot .plain closedCodec ['k'] (some (1, unsignedFile))) truncation = some p ∧
      p.gateway.config = .default ∧ p.gateway.config ≠ closedBundle := by
  have hload : (boot .plain closedCodec ['k'] (some (1, unsignedFile))).gateway.config =
      closedBundle := by
    rw [boot_config, Option.map_some, closedCodec, unsignedFile]
    exact loadConfig_codecOf
  refine ⟨hload, .undecrypted rfl, _, rfl, rfl, fun h => ?_⟩
  have hpolicies := congrArg (fun b => b.policies.length) h
  cases hpolicies

/-- A process without a bundle whose file is empty. -/
def unconfigured (watcher : Watcher) (loads : List (Option Bytes × ConfigBundle)) : Process :=
  { boot .plain closedCodec ['k'] none with
    file := some (2, []), watcher := watcher, loads := loads }

/-- It stays without one. -/
theorem reload_unconfigured :
    processStep closedCodec ['k'] (unconfigured .reloading []) .reload =
        some (unconfigured .sleeping [(some [], .default)]) ∧
      (LoadFailure closedCodec (some ['k']) none (some []) →
        (unconfigured .sleeping [(some [], .default)]).gateway.config =
          (unconfigured .reloading []).gateway.config) := by
  have hreload : processStep closedCodec ['k'] (unconfigured .reloading []) .reload =
      some (unconfigured .sleeping [(some [], .default)]) := rfl
  have hempty : closedCodec.bundle [] = none := rfl
  exact ⟨hreload, (reload_keeps_iff hempty none hreload).1.mpr ⟨fun _ => rfl, nofun⟩⟩

end CorexManager.Gateway
