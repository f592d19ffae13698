import CorexManager.Data.JsonPrint
import CorexManager.Gateway.Listing
import CorexManager.Logic.Transition

/-!
# Loading the configuration

The bundle file reaches the gateway in two ways: `load_config` and `watch_config` of
`gateway/main.rs`, which the process runs, and `ConfigStore` of `core/config.rs`.  What they
use of the other crates is a `BundleCodec`.

* `step` — the process: the file changes, the watcher looks at it and reloads.
* `inSync_iff` — the engines are those of the live bundle as long as no reload changes what
  they are compiled from.
* `live_verified_iff` — the process takes every file it reads for verified; the store does so
  with unsigned files.
-/

namespace CorexManager.Gateway

open Data (Json Text)

/-! ### Bundle files -/

/-- The bytes of a file. -/
abbrev Bytes := List UInt8

/-- The bytes of a text in UTF-8. -/
def utf8 (t : Text) : Bytes := (String.ofList t).toByteArray.data.toList

theorem utf8_injective : Function.Injective utf8 := by
  intro a b h
  have hbytes : (String.ofList a).toByteArray = (String.ofList b).toByteArray :=
    ByteArray.ext (Array.toList_inj.mp h)
  exact String.ofList_injective (String.toByteArray_inj.mp hbytes)

/-- A bundle with its signatures, `_sig` and `_signature`. -/
structure SignedBundle where
  bundle : ConfigBundle
  sig : Option Bytes
  legacySig : Option Bytes

/-- What loading a bundle uses of other crates. -/
structure BundleCodec where
  /-- The plaintext of nonce and ciphertext, under the encryption key of a secret. -/
  decrypt : Text → Bytes → Option Bytes
  /-- HMAC-SHA256 in hexadecimal, under the signing key of a secret. -/
  hmacHex : Text → Bytes → Bytes
  /-- `serde_json::from_slice` of a bundle. -/
  bundle : Bytes → Option SignedBundle
  /-- `serde_json::from_slice` of a value. -/
  value : Bytes → Option Json
  /-- The text of a floating-point number. -/
  floatText : UInt64 → Text

/-- `ConfigBundle::default`. -/
def ConfigBundle.default : ConfigBundle where
  servers := []
  teams := []
  policies := []
  dlpRules := []
  guardrails := []
  skills := []
  defaultRpm := 0
  concurrentLimit := 0
  teamRpmOverrides := .null

section Files

variable (C : BundleCodec)

/-- `decrypt_bundle`. -/
def decryptBundle (secret : Option Text) : Bytes → Option Bytes
  | [] => none
  | version :: rest =>
      if version ≠ 0x01 then if version = 0x80 then none else some (version :: rest)
      else secret.bind fun secret =>
        if (version :: rest).length < 1 + 12 + 16 then none else C.decrypt secret rest

/-- `load_config`. -/
def loadConfig (secretsKey : Text) : Option Bytes → ConfigBundle
  | none => .default
  | some raw =>
      if raw.head? = some 0x01 then
        match decryptBundle C (some secretsKey) raw with
        | some plaintext => ((C.bundle plaintext).map SignedBundle.bundle).getD .default
        | none => .default
      else if raw.head? = some 0x80 then .default
      else ((C.bundle raw).map SignedBundle.bundle).getD .default

/-! ### Signatures -/

/-- `serde_json` prints a value. -/
def serdeStyle : Json.Style := ⟨[','], [':'], Json.escapeControl, C.floatText⟩

/-- A document without its signatures. -/
def withoutSig : Json → Json
  | .obj fields => .obj (fields.filter fun f =>
      f.1 != "_sig".toList && f.1 != "_signature".toList)
  | j => j

/-- `canonical_json_without_sig`; what is no JSON is taken as it is. -/
def canonicalJsonWithoutSig (plaintext : Bytes) : Bytes :=
  match C.value plaintext with
  | some value => utf8 ((withoutSig value).sortKeys.print (serdeStyle C))
  | none => plaintext

/-- `verify_bundle_sig`: the bytes are compared to the last. -/
def verifyBundleSig (secret : Text) (canonical expected : Bytes) : Bool :=
  let computed := C.hmacHex secret canonical
  computed.length == expected.length &&
    (computed.zip expected).foldl (fun diff p => diff ||| (p.1 ^^^ p.2)) 0 == 0

/-- `ConfigStore`: its keys. -/
structure ConfigStore where
  encryptionKey : Option Text
  signingKey : Option Text

/-- `load_from_disk`. -/
def ConfigStore.loadFromDisk (store : ConfigStore) (raw : Option Bytes) : Option ConfigBundle := do
  let plaintext ← decryptBundle C store.encryptionKey (← raw)
  let signed ← C.bundle plaintext
  match store.signingKey, signed.sig.or signed.legacySig with
  | some sk, some sig =>
      if verifyBundleSig C sk (canonicalJsonWithoutSig C plaintext) sig then some signed.bundle
      else none
  -- a bundle without a signature is accepted with a warning
  | _, _ => some signed.bundle

/-- `reload`: on a failure the previous bundle stays. -/
def ConfigStore.reload (store : ConfigStore) (previous : ConfigBundle) (raw : Option Bytes) :
    ConfigBundle := (store.loadFromDisk C raw).getD previous

end Files

/-! ### The process -/

/-- What `watch_config` is about to do. -/
inductive Watcher where
  /-- It has not looked at the file yet. -/
  | starting
  | sleeping
  /-- It has seen a change. -/
  | reloading

/-- The file with the time of its last change, the watcher, the gateway, and what was loaded,
the last first, with what became live. -/
structure Process where
  file : Option (Nat × Bytes)
  lastMtime : Option Nat
  watcher : Watcher
  gateway : GatewayState
  loads : List (Option Bytes × ConfigBundle)

/-- A step of the process, or a change of the file. -/
inductive ProcessAct where
  | write (mtime : Nat) (content : Bytes)
  | remove
  /-- The watcher looks at the file for the first time. -/
  | watch
  | poll
  | reload

section Runs

variable (P : Platform) (C : BundleCodec) (secretsKey : Text)

/-- `main`, up to the start of the watcher. -/
def boot (file : Option (Nat × Bytes)) : Process :=
  let config := loadConfig C secretsKey (file.map Prod.snd)
  ⟨file, none, .starting, .ofBundle P config, [(file.map Prod.snd, config)]⟩

/-- One step. -/
def processStep (p : Process) : ProcessAct → Option Process
  | .write mtime content => some { p with file := some (mtime, content) }
  | .remove => some { p with file := none }
  | .watch =>
      match p.watcher with
      | .starting => some { p with lastMtime := p.file.map Prod.fst, watcher := .sleeping }
      | _ => none
  | .poll =>
      match p.watcher, p.file with
      | .sleeping, some (mtime, _) =>
          if some mtime ≠ p.lastMtime then
            some { p with lastMtime := some mtime, watcher := .reloading }
          else some p
      | .sleeping, none => some p
      | _, _ => none
  | .reload =>
      match p.watcher with
      | .reloading =>
          let content := p.file.map Prod.snd
          let config := loadConfig C secretsKey content
          some { p with
            watcher := .sleeping
            gateway := { p.gateway with config := config }
            loads := (content, config) :: p.loads }
      | _ => none

/-- What the reloads leave of the gateway that was started: the engines, and the bundle that
was loaded last. -/
structure Started (config : ConfigBundle) (p : Process) : Prop where
  gateway : p.gateway = { GatewayState.ofBundle P config with config := p.gateway.config }
  live : p.loads.head?.map Prod.snd = some p.gateway.config
  loaded : ∀ load ∈ p.loads, load.2 = loadConfig C secretsKey load.1

variable {P C secretsKey} {file : Option (Nat × Bytes)} {p : Process} {as : List ProcessAct}

theorem started_boot :
    Started P C secretsKey (loadConfig C secretsKey (file.map Prod.snd))
      (boot P C secretsKey file) where
  gateway := rfl
  live := rfl
  loaded := fun load hload => by rw [List.mem_singleton.mp hload]

theorem step_started {config : ConfigBundle} (p : Process) (a : ProcessAct) (p' : Process)
    (h : Started P C secretsKey config p) (hstep : processStep C secretsKey p a = some p') :
    Started P C secretsKey config p' := by
  cases a <;> simp only [processStep] at hstep
  case reload =>
    split at hstep
    · rw [← Option.some.inj hstep]
      refine ⟨?_, rfl, ?_⟩
      · rw [h.gateway]
      · exact List.forall_mem_cons.mpr ⟨rfl, h.loaded⟩
    · cases hstep
  -- the other steps leave the gateway alone
  all_goals
    repeat' split at hstep
    all_goals
      cases hstep
      try exact ⟨h.gateway, h.live, h.loaded⟩

theorem run_started
    (hs : Transition.run (processStep C secretsKey) (boot P C secretsKey file) as = some p) :
    Started P C secretsKey (loadConfig C secretsKey (file.map Prod.snd)) p :=
  Transition.run_preserves step_started started_boot hs

/-! ### The engines -/

/-- Everything the gateway decides with is compiled from the live bundle. -/
def InSync (P : Platform) (st : GatewayState) : Prop := st = .ofBundle P st.config

/-- Two bundles from which the same engines are compiled. -/
structure SameEngines (P : Platform) (b b' : ConfigBundle) : Prop where
  policies : PolicyEngine.loadSorted P b.policies = .loadSorted P b'.policies
  dlpRules : compileDlpRules P b.dlpRules = compileDlpRules P b'.dlpRules
  guardrails : compileGuardrailRules P b.guardrails = compileGuardrailRules P b'.guardrails
  skills : SkillsRegistry.load P b.skills = .load P b'.skills

/-- **The engines are in step with the live bundle** when it asks for the same engines as the
bundle of the start, and only then; the live bundle is the one that was loaded last. -/
theorem inSync_iff
    (hs : Transition.run (processStep C secretsKey) (boot P C secretsKey file) as = some p) :
    p.loads.head?.map Prod.snd = some p.gateway.config ∧
      (InSync P p.gateway ↔
        SameEngines P (loadConfig C secretsKey (file.map Prod.snd)) p.gateway.config) := by
  have hstarted := run_started hs
  refine ⟨hstarted.live, ?_⟩
  rw [InSync, hstarted.gateway]
  constructor
  · intro h
    obtain ⟨-, hpolicies, hdlp, hguardrails, hskills⟩ := GatewayState.mk.inj h
    exact ⟨hpolicies, hdlp, hguardrails, hskills⟩
  · rintro ⟨hpolicies, hdlp, hguardrails, hskills⟩
    rw [GatewayState.ofBundle, GatewayState.ofBundle]
    dsimp only
    rw [hpolicies, hdlp, hguardrails, hskills]

/-! ### Verified files -/

variable (C)

/-- The file holds the bundle, with a signature that verifies over the rest of the document. -/
def Verified (sk : Text) (encryptionKey : Option Text) (raw : Option Bytes) (b : ConfigBundle) :
    Prop :=
  ∃ content plaintext signed sig, raw = some content ∧
    decryptBundle C encryptionKey content = some plaintext ∧ C.bundle plaintext = some signed ∧
    signed.sig.or signed.legacySig = some sig ∧
    C.hmacHex sk (canonicalJsonWithoutSig C plaintext) = sig ∧ signed.bundle = b

/-- The file holds the bundle, without a signature. -/
def Unsigned (encryptionKey : Option Text) (raw : Option Bytes) (b : ConfigBundle) : Prop :=
  ∃ content plaintext signed, raw = some content ∧
    decryptBundle C encryptionKey content = some plaintext ∧ C.bundle plaintext = some signed ∧
    signed.sig.or signed.legacySig = none ∧ signed.bundle = b

variable {C}

theorem foldl_or_eq_zero {ps : List (UInt8 × UInt8)} {diff : UInt8} :
    ps.foldl (fun diff p => diff ||| (p.1 ^^^ p.2)) diff = 0 ↔
      diff = 0 ∧ ∀ p ∈ ps, p.1 = p.2 := by
  induction ps generalizing diff with
  | nil => simp
  | cons p ps ih =>
      rw [List.foldl_cons, ih, List.forall_mem_cons, ← and_assoc]
      refine and_congr_left fun _ => ?_
      rw [UInt8.or_eq_zero_iff, UInt8.xor_eq_zero_iff]

/-- The bytes are compared to the last. -/
theorem verifyBundleSig_iff {secret : Text} {canonical expected : Bytes} :
    verifyBundleSig C secret canonical expected = true ↔ C.hmacHex secret canonical = expected := by
  rw [verifyBundleSig, Bool.and_eq_true, beq_iff_eq, beq_iff_eq, foldl_or_eq_zero]
  generalize C.hmacHex secret canonical = computed
  constructor
  · rintro ⟨hlength, -, hzip⟩
    refine List.ext_getElem hlength fun i hi hi' => ?_
    have hmem : (computed[i], expected[i]) ∈ computed.zip expected :=
      List.mem_iff_getElem.mpr ⟨i, by simp [hi, hi'], List.getElem_zip⟩
    exact hzip _ hmem
  · rintro rfl
    refine ⟨rfl, rfl, fun p hp => ?_⟩
    obtain ⟨i, hi, rfl⟩ := List.mem_iff_getElem.mp hp
    rw [List.getElem_zip]

/-- What the store takes: a bundle whose signature verifies, or one without a signature. -/
theorem loadFromDisk_iff {encryptionKey : Option Text} {sk : Text} {raw : Option Bytes}
    {b : ConfigBundle} :
    ConfigStore.loadFromDisk C ⟨encryptionKey, some sk⟩ raw = some b ↔
      Verified C sk encryptionKey raw b ∨ Unsigned C encryptionKey raw b := by
  constructor
  · intro h
    obtain ⟨content, rfl, h⟩ := Option.bind_eq_some_iff.mp h
    obtain ⟨plaintext, hplaintext, h⟩ := Option.bind_eq_some_iff.mp h
    obtain ⟨signed, hsigned, h⟩ := Option.bind_eq_some_iff.mp h
    cases hsig : signed.sig.or signed.legacySig with
    | none =>
        simp only [hsig] at h
        exact .inr ⟨content, plaintext, signed, rfl, hplaintext, hsigned, hsig, Option.some.inj h⟩
    | some sig =>
        simp only [hsig] at h
        split at h
        · next hverify =>
            exact .inl ⟨content, plaintext, signed, sig, rfl, hplaintext, hsigned, hsig,
              verifyBundleSig_iff.mp hverify, Option.some.inj h⟩
        · cases h
  · rintro (⟨content, plaintext, signed, sig, rfl, hplaintext, hsigned, hsig, hverify, rfl⟩ |
      ⟨content, plaintext, signed, rfl, hplaintext, hsigned, hsig, rfl⟩)
    · simp only [ConfigStore.loadFromDisk, Option.bind_eq_bind, Option.bind_some, hplaintext,
        hsigned, hsig, verifyBundleSig_iff.mpr hverify, if_pos]
    · simp only [ConfigStore.loadFromDisk, Option.bind_eq_bind, Option.bind_some, hplaintext,
        hsigned, hsig]

/-- A file with a verified bundle is loaded as that bundle. -/
theorem loadConfig_verified {sk : Text} {raw : Option Bytes} {b : ConfigBundle}
    (h : Verified C sk (some secretsKey) raw b) : loadConfig C secretsKey raw = b := by
  obtain ⟨content, plaintext, signed, -, rfl, hplaintext, hsigned, -, -, rfl⟩ := h
  rw [loadConfig]
  by_cases henvelope : content.head? = some 0x01
  · rw [if_pos henvelope, hplaintext]
    dsimp only
    rw [hsigned]
    rfl
  · -- the plaintext is the file
    have hplain : content.head? ≠ some 0x80 ∧ content = plaintext := by
      cases content with
      | nil => cases hplaintext
      | cons version rest =>
          have hversion : version ≠ 0x01 := fun heq => henvelope (heq ▸ rfl)
          rw [decryptBundle, if_pos hversion] at hplaintext
          split at hplaintext
          · cases hplaintext
          · next hfernet =>
              exact ⟨fun heq => hfernet (Option.some.inj heq), Option.some.inj hplaintext⟩
    rw [if_neg henvelope, if_neg hplain.1, hplain.2, hsigned]
    rfl

/-- **What becomes live comes from verified files** as long as every file the process reads has
a signature that verifies, and only then.  The store keeps its bundle for every other file but
the unsigned. -/
theorem live_verified_iff
    (hs : Transition.run (processStep C secretsKey) (boot P C secretsKey file) as = some p)
    (sk : Text) :
    ((∀ load ∈ p.loads, Verified C sk (some secretsKey) load.1 load.2) ↔
      ∀ load ∈ p.loads, ∃ b, Verified C sk (some secretsKey) load.1 b) ∧
    ∀ (encryptionKey : Option Text) (previous : ConfigBundle) (raw : Option Bytes),
      (ConfigStore.reload C ⟨encryptionKey, some sk⟩ previous raw = previous ∨
        Verified C sk encryptionKey raw
          (ConfigStore.reload C ⟨encryptionKey, some sk⟩ previous raw)) ↔
      ∀ b, Unsigned C encryptionKey raw b → b = previous := by
  constructor
  · constructor
    · exact fun h load hload => ⟨load.2, h load hload⟩
    · intro h load hload
      obtain ⟨b, hb⟩ := h load hload
      rw [(run_started hs).loaded load hload, loadConfig_verified hb]
      exact hb
  · intro encryptionKey previous raw
    constructor
    · intro h b hunsigned
      have hload := loadFromDisk_iff.mpr (.inr hunsigned : Verified C sk encryptionKey raw b ∨ _)
      rw [ConfigStore.reload, hload] at h
      refine h.resolve_right ?_
      -- a file is not both
      obtain ⟨content, plaintext, signed, rfl, hplaintext, hsigned, hsig, -⟩ := hunsigned
      rintro ⟨content', plaintext', signed', sig, heq, hplaintext', hsigned', hsig', -⟩
      cases heq
      cases hplaintext.symm.trans hplaintext'
      cases hsigned.symm.trans hsigned'
      cases hsig.symm.trans hsig'
    · intro h
      rw [ConfigStore.reload]
      cases hload : ConfigStore.loadFromDisk C ⟨encryptionKey, some sk⟩ raw with
      | none => exact .inl rfl
      | some b => exact (loadFromDisk_iff.mp hload).symm.imp (h b) id

end Runs

/-! ### A process that starts without a bundle -/

/-- The bytes of an ASCII file. -/
def asciiFile (content : String) : Bytes := content.toList.map fun c => .ofNat c.toNat

/-- A policy that denies everything, as the only section of a bundle and its end. -/
def closedPolicies : String :=
  "\"policies\":[\x7b\"action\":\"deny\",\"enabled\":true,\"expression\":\"true\",\"id\":1," ++
    "\"name\":\"closed\",\"priority\":0,\"team_id\":1\x7d]\x7d"

/-- The HMAC of that bundle in canonical JSON, under the signing key derived from `k`. -/
def closedMac : String := "2b8f04b0d433536eb52d053fc8a06d030a239b0bd92529bcb29f46538078a1d1"

/-- The file of the bundle, from its opening brace on: without a signature, with a wrong one and
with the right one. -/
def unsignedFile : Bytes := 0x7b :: asciiFile closedPolicies
def forgedFile : Bytes := 0x7b :: asciiFile ("\"_signature\":\"00\"," ++ closedPolicies)
def signedFile : Bytes :=
  0x7b :: asciiFile ("\"_signature\":\"" ++ closedMac ++ "\"," ++ closedPolicies)

/-- The bundle. -/
def closedBundle : ConfigBundle := { ConfigBundle.default with policies := [denyingPolicy] }

/-- What the codec makes of one of the files, with its signature. -/
def codecOf (file : Bytes) (sig : Option String) : BundleCodec where
  decrypt _ _ := none
  hmacHex _ _ := asciiFile closedMac
  bundle raw :=
    if raw = file then some ⟨closedBundle, none, sig.map asciiFile⟩ else none
  value raw :=
    if raw = file then
      some (.obj ((sig.map fun t => ("_signature".toList, Json.str t.toList)).toList ++
        [("policies".toList, .arr [.obj [("action".toList, .str "deny".toList),
          ("enabled".toList, .bool true), ("expression".toList, .str "true".toList),
          ("id".toList, .num (.int 1)), ("name".toList, .str "closed".toList),
          ("priority".toList, .num (.int 0)), ("team_id".toList, .num (.int 1))]])]))
    else none
  floatText _ := []

/-- The watcher starts, and a bundle arrives. -/
def arrival (content : Bytes) : List ProcessAct := [.watch, .poll, .write 1 content, .poll, .reload]

/-- The process after that. -/
def arrived (content : Bytes) : Process where
  file := some (1, content)
  lastMtime := some 1
  watcher := .sleeping
  gateway := { GatewayState.ofBundle .plain .default with config := closedBundle }
  loads := [(some content, closedBundle), (none, .default)]

/-- A call of a tool. -/
def createContext : EvalContext :=
  buildMcpContext .plain "tools/call".toList "jira".toList "jira__create".toList [] [] "ci".toList
    "pat".toList "1".toList none none []

section Codec

variable {rest : Bytes} {sig : Option String}

/-- The codec reads its file. -/
theorem codecOf_reads :
    decryptBundle (codecOf (0x7b :: rest) sig) (some ['k']) (0x7b :: rest) = some (0x7b :: rest) ∧
      (codecOf (0x7b :: rest) sig).bundle (0x7b :: rest) =
        some ⟨closedBundle, none, sig.map asciiFile⟩ := ⟨rfl, if_pos rfl⟩

theorem loadConfig_codecOf :
    loadConfig (codecOf (0x7b :: rest) sig) ['k'] (some (0x7b :: rest)) = closedBundle := by
  show (((codecOf (0x7b :: rest) sig).bundle (0x7b :: rest)).map SignedBundle.bundle).getD .default = _
  rw [codecOf_reads.2]
  rfl

/-- The bundle that arrives becomes live. -/
theorem run_arrival :
    Transition.run (processStep (codecOf (0x7b :: rest) sig) ['k'])
      (boot .plain (codecOf (0x7b :: rest) sig) ['k'] none) (arrival (0x7b :: rest)) =
      some (arrived (0x7b :: rest)) := by
  rw [arrived, ← loadConfig_codecOf]
  rfl

end Codec

/-- Without a change of what the engines are compiled from they are in step. -/
theorem inSync_unconfigured :
    InSync .plain (boot .plain (codecOf unsignedFile none) ['k'] none).gateway :=
  have hs : Transition.run (processStep (codecOf unsignedFile none) ['k'])
      (boot .plain (codecOf unsignedFile none) ['k'] none) [] =
      some (boot .plain (codecOf unsignedFile none) ['k'] none) := rfl
  (inSync_iff hs).2.mpr ⟨rfl, rfl, rfl, rfl⟩

/-- **The engine that allows everything is kept**: the bundle that arrives denies the call, and
the gateway allows it. -/
theorem allow_all_kept :
    Transition.run (processStep (codecOf unsignedFile none) ['k'])
        (boot .plain (codecOf unsignedFile none) ['k'] none) (arrival unsignedFile) =
        some (arrived unsignedFile) ∧
      ¬ InSync .plain (arrived unsignedFile).gateway ∧
      (arrived unsignedFile).gateway.policyEngine.evaluate .plain createContext = some noPolicies ∧
      ((PolicyEngine.loadSorted .plain (arrived unsignedFile).gateway.config.policies).evaluate .plain
        createContext).map PolicyResult.action = some .deny := by
  refine ⟨run_arrival, fun h => ?_, rfl, rfl⟩
  have hconfigured := congrArg (fun st => st.policyEngine.hasPoliciesConfigured) h
  cases hconfigured

/-- A file whose signature verifies is taken, by the process and by the store. -/
theorem signedFile_live :
    (∀ load ∈ (boot .plain (codecOf signedFile (some closedMac)) ['k'] (some (0, signedFile))).loads,
      Verified (codecOf signedFile (some closedMac)) ['k'] (some ['k']) load.1 load.2) ∧
    (ConfigStore.reload (codecOf signedFile (some closedMac)) ⟨some ['k'], some ['k']⟩ .default
        (some signedFile) = .default ∨
      Verified (codecOf signedFile (some closedMac)) ['k'] (some ['k']) (some signedFile)
        (ConfigStore.reload (codecOf signedFile (some closedMac)) ⟨some ['k'], some ['k']⟩ .default
          (some signedFile))) := by
  have hverified : Verified (codecOf signedFile (some closedMac)) ['k'] (some ['k'])
      (some signedFile) closedBundle :=
    ⟨_, _, _, _, rfl, codecOf_reads.1, codecOf_reads.2, rfl, rfl, rfl⟩
  have hs : Transition.run (processStep (codecOf signedFile (some closedMac)) ['k'])
      (boot .plain (codecOf signedFile (some closedMac)) ['k'] (some (0, signedFile))) [] =
      some (boot .plain (codecOf signedFile (some closedMac)) ['k'] (some (0, signedFile))) := rfl
  have hiff := live_verified_iff hs ['k']
  constructor
  · refine hiff.1.mpr ?_
    intro load hload
    rw [List.mem_singleton.mp hload]
    exact ⟨_, hverified⟩
  · refine (hiff.2 (some ['k']) .default (some signedFile)).mpr ?_
    rintro b ⟨content, plaintext, signed, hcontent, hplaintext, hsigned, hsig, -⟩
    cases hcontent
    cases codecOf_reads.1.symm.trans hplaintext
    cases codecOf_reads.2.symm.trans hsigned
    cases hsig

/-- **A forged bundle becomes live** when the process reloads. -/
theorem forged_live :
    Transition.run (processStep (codecOf forgedFile (some "00")) ['k'])
        (boot .plain (codecOf forgedFile (some "00")) ['k'] none) (arrival forgedFile) =
        some (arrived forgedFile) ∧
      (arrived forgedFile).gateway.config = closedBundle ∧
      ¬ ∀ load ∈ (arrived forgedFile).loads,
        Verified (codecOf forgedFile (some "00")) ['k'] (some ['k']) load.1 load.2 := by
  refine ⟨run_arrival, rfl, fun h => ?_⟩
  obtain ⟨content, plaintext, signed, sig, hcontent, hplaintext, hsigned, hsig, hverify, -⟩ :=
    h _ (.head _)
  cases hcontent
  cases codecOf_reads.1.symm.trans hplaintext
  cases codecOf_reads.2.symm.trans hsigned
  cases hsig
  exact absurd hverify (by decide)

end CorexManager.Gateway
