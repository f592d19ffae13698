import CorexManager.Crypto.Gcm
import CorexManager.Gateway.ConfigLoad

/-!
# The envelope of a bundle

An encrypted bundle is the version byte, a nonce and the ciphertext with its tag; the backend writes
it (`mcp_secrets.py`) and the gateway reads it (`crypto.rs`).  HMAC and the libraries for AES-GCM are
left open.  The gateway takes every file with another first byte for a plaintext bundle, so that it
is by the version byte alone that a tampered envelope is no envelope any more.

* `decryptBundle` — the gateway's reader; an index out of range is a panic.
* `decryptBundle_codec` — it is the reader of the configuration.
* `Envelopes` — what the two sides do with envelopes and with plaintext bundles.
* `tampered_passes` — an envelope whose version byte is changed is taken for a plaintext bundle.
-/

namespace CorexManager.Gateway.Envelope

open Crypto (Cipher Library Sized Tagged hkdf nonceFromSlice nonceFromSlice_val)
open Data (Text)

/-! ### Keys -/

/-- `ENVELOPE_VERSION`. -/
def envelopeVersion : UInt8 := 0x01

/-- `FERNET_VERSION_BYTE`. -/
def fernetVersionByte : UInt8 := 0x80

/-- `NONCE_LEN`. -/
def nonceLen : Nat := 12

/-- `GCM_TAG_LEN`. -/
def gcmTagLen : Nat := 16

/-- `SALT`. -/
def salt : Bytes := utf8 "mcp-gateway-secrets".toList

/-- `ENC_INFO`. -/
def encInfo : Bytes := utf8 "mcp-gateway-bundle".toList

section Sides

variable (hmac : (key message : Bytes) → Sized 32) (L M : Library)

/-- `hkdf_sha256`: one block of it is enough. -/
def hkdfSha256 (salt ikm info : Bytes) : Sized 32 :=
  let prk := hmac salt ikm
  hmac prk.1 (info ++ [0x01])

/-- `derive_encryption_key`. -/
def deriveEncryptionKey (secret : Text) : Sized 32 := hkdfSha256 hmac salt (utf8 secret) encInfo

/-- `_derive_bundle_key`, with the `HKDF` of the library. -/
def deriveBundleKey (secret : Text) (info : Bytes) : Sized 32 :=
  ⟨hkdf hmac salt (utf8 secret) info 32, Crypto.length_hkdf_block hmac salt (utf8 secret) info⟩

/-- **Both sides derive the same key.** -/
theorem deriveBundleKey_eq (secret : Text) :
    deriveBundleKey hmac secret encInfo = deriveEncryptionKey hmac secret :=
  Subtype.ext (Crypto.hkdf_block hmac salt (utf8 secret) encInfo)

/-! ### The gateway -/

/-- A range of the bytes; it panics unless it is within them. -/
def slice (a b : Nat) (data : Bytes) : Option Bytes :=
  if a ≤ b ∧ b ≤ data.length then some ((data.take b).drop a) else none

/-- `encrypt_bundle`, with the nonce that is drawn. -/
def encryptBundle (secret : Text) (nonce : Sized 12) (plaintext : Bytes) : Except Text Bytes :=
  match L.encrypt (deriveEncryptionKey hmac secret) nonce plaintext with
  | some ciphertext => .ok (envelopeVersion :: (nonce.1 ++ ciphertext))
  | none => .error "AES-GCM encrypt: aead::Error".toList

/-- `is_fernet`. -/
def isFernet (data : Bytes) : Bool := data.head? == some fernetVersionByte

/-- `decrypt_bundle`: the plaintext, and whether it was encrypted. -/
def decryptBundle (secret : Option Text) (data : Bytes) : Option (Except Text (Bytes × Bool)) :=
  if data.isEmpty then some (.error "empty bundle".toList)
  else do
    let version ← data[0]?
    if version ≠ envelopeVersion then
      if isFernet data then
        some (.error "legacy Fernet bundle detected; Fernet dual-read not yet enabled".toList)
      else some (.ok (data, false))
    else
      match secret with
      | none => some (.error "encrypted bundle but MCP_SECRETS_KEY is unset".toList)
      | some secret =>
          if data.length < 1 + nonceLen + gcmTagLen then some (.error "truncated envelope".toList)
          else do
            -- `Nonce::from_slice` panics at another length
            let nonce ← nonceFromSlice (← slice 1 (1 + nonceLen) data)
            let ciphertext ← slice (1 + nonceLen) data.length data
            match L.decrypt (deriveEncryptionKey hmac secret) nonce ciphertext with
            | some plaintext => some (.ok (plaintext, true))
            | none => some (.error "AES-GCM decrypt failed (wrong key or corrupted)".toList)

/-! ### The backend -/

/-- `encrypt_bundle_aesgcm`. -/
def encryptBundleAesgcm (secret : Text) (nonce : Sized 12) (plaintext : Bytes) : Option Bytes :=
  (M.encrypt (deriveBundleKey hmac secret encInfo) nonce plaintext).map fun ciphertext =>
    envelopeVersion :: (nonce.1 ++ ciphertext)

/-- `is_aesgcm_envelope`. -/
def isAesgcmEnvelope (data : Bytes) : Bool := data.head? == some envelopeVersion

/-- `decrypt_bundle_aesgcm`; any error of `AESGCM.decrypt` is a `ValueError` with the last
message. -/
def decryptBundleAesgcm (secret : Text) (data : Bytes) : Except Text Bytes :=
  if !isAesgcmEnvelope data then .error "not an AES-GCM envelope".toList
  else if data.length < 1 + 12 + 16 then .error "truncated envelope".toList
  else
    let nonce := (data.take 13).drop 1
    let ciphertext := data.drop 13
    match (nonceFromSlice nonce).bind fun nonce =>
      M.decrypt (deriveBundleKey hmac secret encInfo) nonce ciphertext with
    | some plaintext => .ok plaintext
    | none => .error "AES-GCM decrypt failed (wrong key or corrupted)".toList

/-! ### What they promise -/

/-- A plaintext bundle: a JSON object, with blanks before it. -/
def IsDocument (data : Bytes) : Prop :=
  ∃ blanks rest, data = blanks ++ 0x7b :: rest ∧
    ∀ b ∈ blanks, b = 0x20 ∨ b = 0x09 ∨ b = 0x0a ∨ b = 0x0d

/-- **What the two sides do with envelopes and plaintext bundles.** -/
structure Envelopes (secret : Text) : Prop where
  /-- Decryption does not panic. -/
  total s data : (decryptBundle hmac L s data).isSome
  roundTrip nonce p e : encryptBundle hmac L secret nonce p = .ok e →
    decryptBundle hmac L (some secret) e = some (.ok (p, true))
  /-- Bytes with the version byte that are not the envelope of a plaintext are rejected. -/
  rejected data : data.head? = some envelopeVersion →
    (∀ nonce p, encryptBundle hmac L secret nonce p ≠ .ok data) →
    ∃ error, decryptBundle hmac L (some secret) data = some (.error error)
  /-- An envelope is no plaintext bundle, whatever the secret. -/
  notPlain nonce p e s d : encryptBundle hmac L secret nonce p = .ok e →
    decryptBundle hmac L s e ≠ some (.ok (d, false))
  /-- A plaintext bundle is no envelope. -/
  plain s data : IsDocument data → decryptBundle hmac L s data = some (.ok (data, false))
  /-- Bytes with another first byte are passed on as they are, unless they are of Fernet. -/
  passed s b rest : b ≠ envelopeVersion → b ≠ fernetVersionByte →
    decryptBundle hmac L s (b :: rest) = some (.ok (b :: rest, false))
  /-- The backend opens exactly the envelopes that it makes. -/
  backend data p : decryptBundleAesgcm hmac M secret data = .ok p ↔
    ∃ nonce, encryptBundleAesgcm hmac M secret nonce p = some data
  gatewayReads nonce p e : encryptBundleAesgcm hmac M secret nonce p = some e →
    p.length ≤ L.maxLength → decryptBundle hmac L (some secret) e = some (.ok (p, true))
  backendReads nonce p e : encryptBundle hmac L secret nonce p = .ok e →
    p.length ≤ M.maxLength → decryptBundleAesgcm hmac M secret e = .ok p

variable {hmac L M}

/-! ### The readers on envelopes -/

/-- Bytes that are not too short are a nonce and a ciphertext with its tag. -/
theorem exists_nonce {rest : Bytes} (h : ¬ rest.length < 28) :
    ∃ (nonce : Sized 12) (c : Bytes), 16 ≤ c.length ∧ rest = nonce.1 ++ c := by
  refine ⟨⟨rest.take 12, List.length_take_of_le (by omega)⟩, rest.drop 12, ?_,
    (List.take_append_drop 12 rest).symm⟩
  rw [List.length_drop]
  omega

theorem slice_nonce (b : UInt8) (nonce : Sized 12) (c : Bytes) :
    slice 1 (1 + nonceLen) (b :: (nonce.1 ++ c)) = some nonce.1 := by
  have hlength : nonce.1.length = 12 := nonce.2
  rw [slice, if_pos (by simp [nonceLen, hlength])]
  show some (((nonce.1 ++ c).take 12)) = _
  rw [List.take_left' hlength]

theorem slice_rest (b : UInt8) (nonce : Sized 12) (c : Bytes) :
    slice (1 + nonceLen) (b :: (nonce.1 ++ c)).length (b :: (nonce.1 ++ c)) = some c := by
  have hlength : nonce.1.length = 12 := nonce.2
  rw [slice, if_pos (by simp [nonceLen, hlength]), List.take_length]
  show some ((nonce.1 ++ c).drop 12) = _
  rw [List.drop_left' hlength]

/-- The gateway, on bytes of which there is a first. -/
theorem decryptBundle_cons (secret : Option Text) (b : UInt8) (rest : Bytes) :
    decryptBundle hmac L secret (b :: rest) =
      (if b ≠ envelopeVersion then
        if isFernet (b :: rest) then
          some (.error "legacy Fernet bundle detected; Fernet dual-read not yet enabled".toList)
        else some (.ok (b :: rest, false))
      else
        match secret with
        | none => some (.error "encrypted bundle but MCP_SECRETS_KEY is unset".toList)
        | some secret =>
            if (b :: rest).length < 1 + nonceLen + gcmTagLen then
              some (.error "truncated envelope".toList)
            else do
              let nonce ← nonceFromSlice (← slice 1 (1 + nonceLen) (b :: rest))
              let ciphertext ← slice (1 + nonceLen) (b :: rest).length (b :: rest)
              match L.decrypt (deriveEncryptionKey hmac secret) nonce ciphertext with
              | some plaintext => some (.ok (plaintext, true))
              | none => some (.error "AES-GCM decrypt failed (wrong key or corrupted)".toList)) :=
  rfl

/-- The gateway, on bytes with the version byte. -/
theorem decryptBundle_version (secret : Text) (nonce : Sized 12) {c : Bytes} (h : 16 ≤ c.length) :
    decryptBundle hmac L (some secret) (envelopeVersion :: (nonce.1 ++ c)) = some
      (match L.decrypt (deriveEncryptionKey hmac secret) nonce c with
        | some p => .ok (p, true)
        | none => .error "AES-GCM decrypt failed (wrong key or corrupted)".toList) := by
  have hlong : ¬ (envelopeVersion :: (nonce.1 ++ c)).length < 1 + nonceLen + gcmTagLen := by
    have hlength : nonce.1.length = 12 := nonce.2
    simp [nonceLen, gcmTagLen, hlength]
    omega
  rw [decryptBundle_cons, if_neg (not_not_intro rfl)]
  dsimp only
  rw [if_neg hlong, slice_nonce, slice_rest, Option.bind_eq_bind,
    Option.bind_some, nonceFromSlice_val]
  show (match L.decrypt _ nonce c with | some p => _ | none => _) = _
  cases L.decrypt (deriveEncryptionKey hmac secret) nonce c <;> rfl

/-- The backend, on the same bytes. -/
theorem decryptBundleAesgcm_version (secret : Text) (nonce : Sized 12) {c : Bytes}
    (h : 16 ≤ c.length) :
    decryptBundleAesgcm hmac M secret (envelopeVersion :: (nonce.1 ++ c)) =
      match M.decrypt (deriveEncryptionKey hmac secret) nonce c with
        | some p => .ok p
        | none => .error "AES-GCM decrypt failed (wrong key or corrupted)".toList := by
  have hlength : nonce.1.length = 12 := nonce.2
  have hlong : ¬ (envelopeVersion :: (nonce.1 ++ c)).length < 1 + 12 + 16 := by
    simp [hlength]
    omega
  have hnonce : ((envelopeVersion :: (nonce.1 ++ c)).take 13).drop 1 = nonce.1 := by
    show (nonce.1 ++ c).take 12 = _
    rw [List.take_left' hlength]
  have hrest : (envelopeVersion :: (nonce.1 ++ c)).drop 13 = c := by
    show (nonce.1 ++ c).drop 12 = _
    rw [List.drop_left' hlength]
  unfold decryptBundleAesgcm
  rw [if_neg (by simp [isAesgcmEnvelope]), if_neg hlong]
  dsimp only
  rw [hnonce, hrest, nonceFromSlice_val, deriveBundleKey_eq]
  rfl

/-- Bytes with another first byte. -/
theorem decryptBundle_other {b : UInt8} (hversion : b ≠ envelopeVersion) (secret : Option Text)
    (rest : Bytes) : decryptBundle hmac L secret (b :: rest) =
      if b = fernetVersionByte then
        some (.error "legacy Fernet bundle detected; Fernet dual-read not yet enabled".toList)
      else some (.ok (b :: rest, false)) := by
  rw [decryptBundle_cons, if_pos hversion]
  by_cases hfernet : b = fernetVersionByte
  · rw [if_pos hfernet, if_pos (by simp [isFernet, hfernet])]
  · rw [if_neg hfernet, if_neg (by simp [isFernet, hfernet])]

/-- Bytes with the version byte that are too short for an envelope. -/
theorem decryptBundle_short (secret : Text) {rest : Bytes} (h : rest.length < 28) :
    decryptBundle hmac L (some secret) (envelopeVersion :: rest) =
      some (.error "truncated envelope".toList) := by
  have hshort : (envelopeVersion :: rest).length < 1 + nonceLen + gcmTagLen := by
    show rest.length + 1 < 29
    omega
  rw [decryptBundle_cons, if_neg (not_not_intro rfl)]
  exact if_pos hshort

/-- Without a secret no bytes with the version byte are read. -/
theorem decryptBundle_unset (rest : Bytes) :
    decryptBundle hmac L none (envelopeVersion :: rest) =
      some (.error "encrypted bundle but MCP_SECRETS_KEY is unset".toList) := rfl

/-- The gateway reads every bytes: they are empty, have another first byte, cannot be opened, or are
an envelope. -/
theorem decryptBundle_isSome (secret : Option Text) (data : Bytes) :
    (decryptBundle hmac L secret data).isSome := by
  cases data with
  | nil => rfl
  | cons b rest =>
      by_cases hversion : b = envelopeVersion
      · subst hversion
        cases secret with
        | none => rfl
        | some secret =>
            by_cases hshort : rest.length < 28
            · rw [decryptBundle_short secret hshort]
              rfl
            · obtain ⟨nonce, c, hc, rfl⟩ := exists_nonce hshort
              rw [decryptBundle_version secret nonce hc]
              rfl
      · rw [decryptBundle_other hversion]
        split <;> rfl

/-- What is read of bytes with the version byte was encrypted. -/
theorem decryptBundle_flag {secret : Option Text} {rest d : Bytes} {encrypted : Bool}
    (h : decryptBundle hmac L secret (envelopeVersion :: rest) = some (.ok (d, encrypted))) :
    encrypted = true := by
  cases secret with
  | none => cases h
  | some secret =>
      by_cases hshort : rest.length < 28
      · rw [decryptBundle_short secret hshort] at h
        cases h
      · obtain ⟨nonce, c, hc, rfl⟩ := exists_nonce hshort
        rw [decryptBundle_version secret nonce hc] at h
        split at h
        · cases h
          rfl
        · cases h

/-! ### The writers -/

theorem encryptBundle_eq_ok {secret : Text} {nonce : Sized 12} {p e : Bytes} :
    encryptBundle hmac L secret nonce p = .ok e ↔
      ∃ c, L.encrypt (deriveEncryptionKey hmac secret) nonce p = some c ∧
        e = envelopeVersion :: (nonce.1 ++ c) := by
  unfold encryptBundle
  cases L.encrypt (deriveEncryptionKey hmac secret) nonce p with
  | none => simp
  | some c => simp [eq_comm]

theorem encryptBundleAesgcm_eq_some {secret : Text} {nonce : Sized 12} {p e : Bytes} :
    encryptBundleAesgcm hmac M secret nonce p = some e ↔
      ∃ c, M.encrypt (deriveEncryptionKey hmac secret) nonce p = some c ∧
        e = envelopeVersion :: (nonce.1 ++ c) := by
  rw [encryptBundleAesgcm, deriveBundleKey_eq, Option.map_eq_some_iff]
  simp only [eq_comm]

section Readers

variable {cipher : Cipher}

/-- A ciphertext has its tag. -/
theorem tag_le (htag : Tagged cipher gcmTagLen) (hL : L.Implements cipher) {k : Sized 32} {nonce : Sized 12} {p c : Bytes}
    (h : L.encrypt k nonce p = some c) : 16 ≤ c.length := by
  rw [htag.length_encrypt hL h]
  exact Nat.le_add_left ..

/-- **The gateway decrypts exactly the envelopes that it makes.** -/
theorem decryptBundle_eq_encrypted (htag : Tagged cipher gcmTagLen) (hL : L.Implements cipher)
    (secret : Text) (data p : Bytes) :
    decryptBundle hmac L (some secret) data = some (.ok (p, true)) ↔
      ∃ nonce, encryptBundle hmac L secret nonce p = .ok data := by
  constructor
  · intro h
    cases data with
    | nil => cases h
    | cons b rest =>
        by_cases hversion : b = envelopeVersion
        · subst hversion
          by_cases hshort : rest.length < 28
          · rw [decryptBundle_short secret hshort] at h
            cases h
          · obtain ⟨nonce, c, hc, rfl⟩ := exists_nonce hshort
            rw [decryptBundle_version secret nonce hc] at h
            refine ⟨nonce, encryptBundle_eq_ok.mpr ⟨c, hL.encrypt_iff_decrypt.mpr ?_, rfl⟩⟩
            cases hopen : L.decrypt (deriveEncryptionKey hmac secret) nonce c with
            | none =>
                rw [hopen] at h
                cases h
            | some q =>
                rw [hopen] at h
                cases h
                rfl
        · rw [decryptBundle_other hversion] at h
          split at h <;> cases h
  · rintro ⟨nonce, h⟩
    obtain ⟨c, hc, rfl⟩ := encryptBundle_eq_ok.mp h
    rw [decryptBundle_version secret nonce (tag_le htag hL hc), hL.encrypt_iff_decrypt.mp hc]

/-- **The backend opens exactly the envelopes that it makes.** -/
theorem decryptBundleAesgcm_eq_ok (htag : Tagged cipher gcmTagLen) (hM : M.Implements cipher)
    (secret : Text) (data p : Bytes) :
    decryptBundleAesgcm hmac M secret data = .ok p ↔
      ∃ nonce, encryptBundleAesgcm hmac M secret nonce p = some data := by
  constructor
  · intro h
    by_cases hversion : isAesgcmEnvelope data = true
    · obtain ⟨rest, rfl⟩ := List.head?_eq_some_iff.mp (beq_iff_eq.mp hversion)
      by_cases hshort : rest.length < 28
      · unfold decryptBundleAesgcm at h
        rw [if_neg (by simp [isAesgcmEnvelope]), if_pos (by simp; omega)] at h
        cases h
      · obtain ⟨nonce, c, hc, rfl⟩ := exists_nonce hshort
        rw [decryptBundleAesgcm_version secret nonce hc] at h
        refine ⟨nonce, encryptBundleAesgcm_eq_some.mpr ⟨c, hM.encrypt_iff_decrypt.mpr ?_, rfl⟩⟩
        cases hopen : M.decrypt (deriveEncryptionKey hmac secret) nonce c with
        | none =>
            rw [hopen] at h
            cases h
        | some q =>
            rw [hopen] at h
            cases h
            rfl
    · unfold decryptBundleAesgcm at h
      rw [if_pos (by simpa using hversion)] at h
      cases h
  · rintro ⟨nonce, h⟩
    obtain ⟨c, hc, rfl⟩ := encryptBundleAesgcm_eq_some.mp h
    rw [decryptBundleAesgcm_version secret nonce (tag_le htag hM hc), hM.encrypt_iff_decrypt.mp hc]

end Readers

/-- **Envelopes are read by those who have the key**, on both sides, and only they. -/
theorem envelopes {cipher : Cipher} (htag : Tagged cipher gcmTagLen) (hL : L.Implements cipher)
    (hM : M.Implements cipher) (secret : Text) : Envelopes hmac L M secret where
  total := decryptBundle_isSome
  roundTrip nonce p e h := (decryptBundle_eq_encrypted htag hL secret e p).mpr ⟨nonce, h⟩
  rejected data hversion hno := by
    obtain ⟨rest, rfl⟩ := List.head?_eq_some_iff.mp hversion
    obtain ⟨result, hresult⟩ := Option.isSome_iff_exists.mp
      (@decryptBundle_isSome hmac L (some secret) (envelopeVersion :: rest))
    cases result with
    | error error => exact ⟨error, hresult⟩
    | ok r =>
        obtain ⟨p, encrypted⟩ := r
        obtain rfl : encrypted = true := decryptBundle_flag hresult
        obtain ⟨nonce, henvelope⟩ := (decryptBundle_eq_encrypted htag hL secret _ p).mp hresult
        exact absurd henvelope (hno nonce p)
  notPlain nonce p e s d h hplain := by
    obtain ⟨c, hc, rfl⟩ := encryptBundle_eq_ok.mp h
    exact Bool.false_ne_true (decryptBundle_flag hplain)
  plain s data h := by
    obtain ⟨blanks, rest, rfl, hblanks⟩ := h
    have hfirst : ∃ b tail, blanks ++ 0x7b :: rest = b :: tail ∧ b ≠ envelopeVersion ∧
        b ≠ fernetVersionByte := by
      cases blanks with
      | nil => exact ⟨0x7b, rest, rfl, by decide, by decide⟩
      | cons b blanks =>
          refine ⟨b, _, rfl, ?_⟩
          rcases hblanks b List.mem_cons_self with rfl | rfl | rfl | rfl <;> decide
    obtain ⟨b, tail, hdata, hversion, hfernet⟩ := hfirst
    rw [hdata, decryptBundle_other hversion, if_neg hfernet]
  passed s b rest hversion hfernet := by rw [decryptBundle_other hversion, if_neg hfernet]
  backend := decryptBundleAesgcm_eq_ok htag hM secret
  gatewayReads nonce p e h hle := by
    obtain ⟨c, hc, rfl⟩ := encryptBundleAesgcm_eq_some.mp h
    rw [decryptBundle_version secret nonce (tag_le htag hM hc), hM.decrypt_of_encrypt hL hle hc]
  backendReads nonce p e h hle := by
    obtain ⟨c, hc, rfl⟩ := encryptBundle_eq_ok.mp h
    rw [decryptBundleAesgcm_version secret nonce (tag_le htag hL hc),
      hL.decrypt_of_encrypt hM hle hc]

/-! ### The reader of the configuration -/

variable (hmac L)

/-- Nonce and ciphertext, opened. -/
def openRest (secret : Text) (rest : Bytes) : Option Bytes :=
  (nonceFromSlice (rest.take 12)).bind fun nonce =>
    L.decrypt (deriveEncryptionKey hmac secret) nonce (rest.drop 12)

/-- The configuration is read by this reader. -/
theorem decryptBundle_codec (C : BundleCodec) (secret : Option Text) (data : Bytes) :
    Gateway.decryptBundle { C with decrypt := openRest hmac L } secret data =
      (decryptBundle hmac L secret data).bind fun r => r.toOption.map Prod.fst := by
  cases data with
  | nil => rfl
  | cons b rest =>
      rw [Gateway.decryptBundle]
      by_cases hversion : b = envelopeVersion
      · subst hversion
        rw [if_neg (not_not_intro (show envelopeVersion = 0x01 from rfl))]
        cases secret with
        | none => rfl
        | some secret =>
            rw [Option.bind_some]
            by_cases hshort : rest.length < 28
            · rw [decryptBundle_short secret hshort, if_pos (by simp; omega)]
              rfl
            · obtain ⟨nonce, c, hc, rfl⟩ := exists_nonce hshort
              rw [decryptBundle_version secret nonce hc,
                if_neg (by rw [List.length_cons, List.length_append]; omega)]
              show openRest hmac L secret (nonce.1 ++ c) = _
              have hlength : nonce.1.length = 12 := nonce.2
              rw [openRest, List.take_left' hlength, List.drop_left' hlength, nonceFromSlice_val,
                Option.bind_some, Option.bind_some]
              cases L.decrypt (deriveEncryptionKey hmac secret) nonce c <;> rfl
      · rw [decryptBundle_other hversion, if_pos (show b ≠ 0x01 from hversion)]
        by_cases hfernet : b = fernetVersionByte
        · rw [if_pos hfernet, if_pos (show b = 0x80 from hfernet)]
          rfl
        · rw [if_neg hfernet, if_neg (show b ≠ 0x80 from hfernet)]
          rfl

end Sides

/-! ### An envelope -/

/-- The secret. -/
def testSecret : Text := "test-secret-key".toList

/-- HMAC-SHA256 of the secret under the salt. -/
def testPrk : Sized 32 :=
  ⟨[119, 9, 11, 141, 89, 100, 105, 48, 173, 204, 22, 159, 49, 90, 164, 107, 41, 48, 150, 86, 155,
    49, 165, 233, 177, 144, 244, 168, 171, 161, 222, 181], rfl⟩

/-- The encryption key of the secret. -/
def testKey : Sized 32 :=
  ⟨[180, 37, 197, 213, 185, 64, 200, 93, 93, 46, 238, 222, 76, 166, 79, 60, 229, 125, 4, 107, 17,
    216, 27, 140, 243, 76, 165, 98, 175, 149, 75, 219], rfl⟩

/-- HMAC-SHA256, where it is needed for the key. -/
def testHmac (key message : Bytes) : Sized 32 :=
  if key = salt ∧ message = utf8 testSecret then testPrk
  else if key = testPrk.1 ∧ message = encInfo ++ [0x01] then testKey
  else ⟨List.replicate 32 0, rfl⟩

/-- A nonce of zeros. -/
def testNonce : Sized 12 := ⟨List.replicate 12 0, rfl⟩

/-- An empty object. -/
def testPlaintext : Bytes := [0x7b, 0x7d]

/-- AES-256-GCM of it, under the key and the nonce. -/
def testCiphertext : Bytes :=
  [82, 54, 78, 9, 147, 93, 243, 209, 167, 81, 130, 147, 125, 151, 24, 57, 118, 171]

/-- A library that seals it so, up to a length. -/
def testLibrary (maxLength : Nat) : Library :=
  Crypto.knownLibrary testKey testNonce testPlaintext testCiphertext 16 maxLength

/-- The cipher of these libraries. -/
def testCipher : Cipher := Crypto.knownCipher testKey testNonce testPlaintext testCiphertext 16

theorem testCipher_tagged : Tagged testCipher gcmTagLen := Crypto.knownCipher_tagged (by decide)

theorem testLibrary_implements (maxLength : Nat) :
    (testLibrary maxLength).Implements testCipher := by
  refine Crypto.knownLibrary_implements (fun p h => ?_) maxLength
  have hlast : (p ++ List.replicate 16 0).getLast? = some 171 := by
    rw [h]
    rfl
  rw [List.getLast?_append] at hlast
  cases hlast

/-- Both sides on the libraries' own limits. -/
theorem envelopes_test :
    Envelopes testHmac (testLibrary 68719476736) (testLibrary 2147483647) testSecret :=
  envelopes testCipher_tagged (testLibrary_implements _) (testLibrary_implements _) testSecret

/-- **A tampered envelope passes**: with another version byte it is taken for a plaintext bundle. -/
theorem tampered_passes :
    encryptBundle testHmac (testLibrary 68719476736) testSecret testNonce testPlaintext =
        .ok (0x01 :: (testNonce.1 ++ testCiphertext)) ∧
      decryptBundle testHmac (testLibrary 68719476736) (some testSecret)
          (0x00 :: (testNonce.1 ++ testCiphertext)) =
        some (.ok (0x00 :: (testNonce.1 ++ testCiphertext), false)) := by
  refine ⟨encryptBundle_eq_ok.mpr ⟨testCiphertext, ?_, rfl⟩, rfl⟩
  decide +kernel

end CorexManager.Gateway.Envelope
