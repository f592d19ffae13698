import CorexManager.Crypto.Gcm
import CorexManager.Data.Base64
import CorexManager.Rust.Utf8

/-!
# Tokens

What a match is masked by, and how a token is resolved.  While the store is out of reach a match is
encrypted, and the token is the prefix and the encoding; both ways of resolving a token decrypt all
of it, with its prefix, and the pattern of tokens ends them after 512 characters.

* `maskToken` — the token of a match.
* `resolveToken`, `detokenize` — what tokens are resolved to.
* `fallback_eq_some` — the fallback resolves exactly what was encrypted without a prefix.
* `recovers_iff` — tokens are recovered, whatever the cipher, exactly when they have no prefix and
  the original is of at most 356 bytes.
-/

namespace CorexManager.RespTransform

open Crypto (Bytes Cipher Library Sized Tagged nonceFromSlice)
open Data (Text)
open Rust (asBytes fromUtf8)

/-! ### Random tokens -/

/-- `B62_CHARS`. -/
def b62Chars : List Char := "0123456789ABCDEFGHIJKLMNOPQRSTUVWXYZabcdefghijklmnopqrstuvwxyz".toList

/-- The number that bytes stand for, behind those of another. -/
def numberFrom (v : Nat) (n : Bytes) : Nat := n.foldl (fun v b => 256 * v + b.toNat) v

/-- The number that bytes stand for. -/
def number (n : Bytes) : Nat := numberFrom 0 n

/-- One turn of the division by 62: the remainder, and the quotient without zeros at its head. -/
def divideByte (acc : Nat × Bytes) (byte : UInt8) : Nat × Bytes :=
  let val := acc.1 * 256 + byte.toNat
  let q := val / 62
  (val % 62, if 0 < q ∨ acc.2 ≠ [] then acc.2 ++ [UInt8.ofNat q] else acc.2)

/-- The division of bytes by 62. -/
def divide (n : Bytes) : Nat × Bytes := n.foldl divideByte (0, [])

theorem numberFrom_append (v : Nat) (n : Bytes) (b : UInt8) :
    numberFrom v (n ++ [b]) = 256 * numberFrom v n + b.toNat := by
  simp [numberFrom]

/-- The division keeps the number of the bytes that it has gone through. -/
theorem foldl_divideByte (n : Bytes) {acc : Nat × Bytes} (h : acc.1 < 62) :
    62 * number (n.foldl divideByte acc).2 + (n.foldl divideByte acc).1 =
        numberFrom (62 * number acc.2 + acc.1) n ∧ (n.foldl divideByte acc).1 < 62 := by
  induction n generalizing acc with
  | nil => exact ⟨rfl, h⟩
  | cons b n ih =>
      have hb := b.toNat_lt
      have hq : (acc.1 * 256 + b.toNat) / 62 < 256 := by omega
      have hstep : 62 * number (divideByte acc b).2 + (divideByte acc b).1 =
          256 * (62 * number acc.2 + acc.1) + b.toNat := by
        unfold divideByte
        dsimp only
        split
        · rw [number, numberFrom_append, UInt8.toNat_ofNat', Nat.mod_eq_of_lt hq]
          show 62 * (256 * number acc.2 + _) + _ = _
          omega
        · next hnone =>
            obtain ⟨hzero, hnil⟩ := not_or.mp hnone
            rw [not_not.mp hnil]
            show 62 * 0 + _ = 256 * (62 * 0 + _) + _
            omega
      obtain ⟨hvalue, hrest⟩ := @ih (divideByte acc b) (Nat.mod_lt _ (by decide))
      refine ⟨?_, hrest⟩
      rw [List.foldl_cons, hvalue, hstep]
      rfl

/-- **Bytes are divided by 62.** -/
theorem divide_eq (n : Bytes) :
    62 * number (divide n).2 + (divide n).1 = number n ∧ (divide n).1 < 62 :=
  @foldl_divideByte n (0, []) (by decide)

theorem numberFrom_eq_zero (v : Nat) (n : Bytes) :
    numberFrom v n = 0 ↔ v = 0 ∧ ∀ b ∈ n, b = 0 := by
  induction n generalizing v with
  | nil => simp [numberFrom]
  | cons b n ih =>
      show numberFrom (256 * v + b.toNat) n = 0 ↔ _
      rw [ih, List.forall_mem_cons, ← and_assoc]
      refine and_congr_left fun _ => ?_
      rw [← UInt8.toNat_inj, UInt8.toNat_zero]
      omega

theorem number_eq_zero {n : Bytes} : number n = 0 ↔ ∀ b ∈ n, b = 0 := by
  simp [number, numberFrom_eq_zero]

/-- The loop of `random_token`. -/
def tokenLoop (n : Bytes) (out : Text) : Text :=
  if ∀ b ∈ n, b = 0 then out
  else tokenLoop (divide n).2 (b62Chars.getD (divide n).1 '0' :: out)
termination_by number n
decreasing_by
  rename_i hzero
  have hdivide := (divide_eq n).1
  have hpos : number n ≠ 0 := number_eq_zero.not.mpr hzero
  omega

/-- `random_token`, of 16 bytes. -/
def randomToken (bytes : Bytes) : Text :=
  let out := tokenLoop bytes []
  if out = [] then ['0'] else out

theorem length_tokenLoop (k : Nat) {n : Bytes} {out : Text} (h : number n < Nat.pow 62 k) :
    (tokenLoop n out).length ≤ k + out.length := by
  induction k generalizing n out with
  | zero =>
      have hzero : ∀ b ∈ n, b = 0 := number_eq_zero.mp (Nat.lt_one_iff.mp h)
      rw [tokenLoop, if_pos hzero]
      exact Nat.le_add_left ..
  | succ k ih =>
      have hpow : Nat.pow 62 (k + 1) = Nat.pow 62 k * 62 := rfl
      rw [hpow] at h
      rw [tokenLoop]
      split
      · exact Nat.le_add_left ..
      · have hdivide := divide_eq n
        have hlength := @ih (divide n).2 (b62Chars.getD (divide n).1 '0' :: out)
          (by omega)
        rw [List.length_cons] at hlength
        omega

theorem number_lt (n : Bytes) : number n < Nat.pow 256 n.length := by
  have hfrom : ∀ (n : Bytes) (v : Nat), numberFrom v n < (v + 1) * Nat.pow 256 n.length := by
    intro n
    induction n with
    | nil => exact fun v => by simp [numberFrom]
    | cons b n ih =>
        intro v
        have hb := b.toNat_lt
        have hpow : Nat.pow 256 (b :: n).length = Nat.pow 256 n.length * 256 := rfl
        have hle : (256 * v + b.toNat + 1) * Nat.pow 256 n.length ≤
            (v + 1) * 256 * Nat.pow 256 n.length := Nat.mul_le_mul_right _ (by omega)
        have hstep := ih (256 * v + b.toNat)
        rw [hpow, Nat.mul_comm (Nat.pow 256 n.length), ← Nat.mul_assoc]
        exact hstep.trans_le hle
  have hzero := hfrom n 0
  rwa [Nat.zero_add, Nat.one_mul] at hzero

/-- A random token is short. -/
theorem length_randomToken {bytes : Bytes} (h : bytes.length = 16) :
    (randomToken bytes).length ≤ 22 := by
  have hlt : number bytes < Nat.pow 62 22 := by
    have hnumber := number_lt bytes
    rw [h] at hnumber
    exact hnumber.trans (by decide)
  have hlength := @length_tokenLoop 22 _ [] hlt
  unfold randomToken
  dsimp only
  split
  · exact Nat.le_of_ble_eq_true rfl
  · exact hlength

/-! ### Encryption -/

section Encryption

variable (L : Library) (key : Sized 32)

/-- `aes_encrypt`, with the nonce that is drawn. -/
def aesEncrypt (nonce : Sized 12) (plaintext : Bytes) : Option Text :=
  (L.encrypt key nonce plaintext).map fun ciphertext => Data.Base64.encode (nonce.1 ++ ciphertext)

/-- `aes_decrypt`. -/
def aesDecrypt (encoded : Text) : Option Bytes :=
  (Data.Base64.decode encoded).bind fun combined =>
    if combined.length < 13 then none
    else (nonceFromSlice (combined.take 12)).bind fun nonce => L.decrypt key nonce (combined.drop 12)

/-- What a token is resolved to if neither the cache nor the store has it. -/
def fallback (token : Text) : Option Text := (aesDecrypt L key token).bind fromUtf8

variable {L key} {cipher : Cipher}

theorem aesEncrypt_eq_some {nonce : Sized 12} {p : Bytes} {s : Text} :
    aesEncrypt L key nonce p = some s ↔
      ∃ c, L.encrypt key nonce p = some c ∧ Data.Base64.encode (nonce.1 ++ c) = s :=
  Option.map_eq_some_iff

/-- A text is decrypted exactly when it is an encryption. -/
theorem aesDecrypt_eq_some (htag : Tagged cipher 16) (hL : L.Implements cipher) {s : Text}
    {p : Bytes} : aesDecrypt L key s = some p ↔ ∃ nonce, aesEncrypt L key nonce p = some s := by
  constructor
  · intro h
    obtain ⟨combined, hdecode, h⟩ := Option.bind_eq_some_iff.mp h
    split at h
    · cases h
    · obtain ⟨nonce, hnonce, hopen⟩ := Option.bind_eq_some_iff.mp h
      refine ⟨nonce, aesEncrypt_eq_some.mpr ⟨_, hL.encrypt_iff_decrypt.mpr hopen, ?_⟩⟩
      rw [Crypto.nonceFromSlice_eq_some hnonce, List.take_append_drop]
      exact Data.Base64.decode_eq_some.mp hdecode
  · rintro ⟨nonce, h⟩
    obtain ⟨c, hc, rfl⟩ := aesEncrypt_eq_some.mp h
    have hnonce : nonce.1.length = 12 := nonce.2
    have hlength : c.length = p.length + 16 := htag.length_encrypt hL hc
    rw [aesDecrypt, Data.Base64.decode_encode, Option.bind_some,
      if_neg (by rw [List.length_append]; omega), List.take_left' hnonce, List.drop_left' hnonce,
      Crypto.nonceFromSlice_val, Option.bind_some]
    exact hL.encrypt_iff_decrypt.mp hc

theorem length_aesEncrypt (htag : Tagged cipher 16) (hL : L.Implements cipher) {nonce : Sized 12}
    {p : Bytes} {s : Text} (h : aesEncrypt L key nonce p = some s) :
    s.length = (p.length + 30) / 3 * 4 := by
  obtain ⟨c, hc, rfl⟩ := aesEncrypt_eq_some.mp h
  have hnonce : nonce.1.length = 12 := nonce.2
  have hlength : c.length = p.length + 16 := htag.length_encrypt hL hc
  rw [Data.Base64.length_encode, List.length_append, hnonce, hlength]
  omega

/-- **The fallback resolves exactly what was encrypted**, without a prefix. -/
theorem fallback_eq_some (htag : Tagged cipher 16) (hL : L.Implements cipher) {token t : Text} :
    fallback L key token = some t ↔ ∃ nonce, aesEncrypt L key nonce (asBytes t) = some token := by
  rw [fallback, Option.bind_eq_some_iff]
  constructor
  · rintro ⟨p, hp, ht⟩
    rw [Rust.fromUtf8_eq_some.mp ht]
    exact (aesDecrypt_eq_some htag hL).mp hp
  · intro h
    exact ⟨asBytes t, (aesDecrypt_eq_some htag hL).mpr h, Rust.fromUtf8_asBytes t⟩

/-- What the fallback resolves is long. -/
theorem length_of_fallback (htag : Tagged cipher 16) (hL : L.Implements cipher) {token t : Text}
    (h : fallback L key token = some t) : token.length = ((asBytes t).length + 30) / 3 * 4 := by
  obtain ⟨nonce, hencrypt⟩ := (fallback_eq_some htag hL).mp h
  exact length_aesEncrypt htag hL hencrypt

end Encryption

/-! ### Masking and resolving -/

/-- What is drawn for a match: whether `valkey_set` succeeds, the random bytes of a token, and the
nonce of an encryption. -/
structure Draw where
  stored : Bool
  random : Sized 16
  nonce : Sized 12

section Tokens

variable (L : Library)

/-- `tokenize_mask`, for one match: its token, unless it is left in place. -/
def maskToken (fallbackKey : Option (Sized 32)) (tokenPrefix : Text) (d : Draw) (original : Text) :
    Option Text :=
  if d.stored then some (tokenPrefix ++ randomToken d.random.1)
  else fallbackKey.bind fun key =>
    (aesEncrypt L key d.nonce (asBytes original)).map fun enc => tokenPrefix ++ enc

/-- `resolve_token_tokenize`; `lookup` is the cache and the store behind it. -/
def resolveToken (lookup : Text → Option Text) (fallbackKey : Option (Sized 32)) (token : Text) :
    Option Text :=
  (lookup token).or (fallbackKey.bind fun key => fallback L key token)

/-- The length of the token that a text starts with: the prefix and 8 to 512 characters that are no
blanks. -/
def tokenLength (tokenPrefix t : Text) : Option Nat :=
  let run := ((t.drop tokenPrefix.length).takeWhile fun c => !Rust.isWhitespace c).take 512
  if tokenPrefix <+: t ∧ 8 ≤ run.length then some (tokenPrefix.length + run.length) else none

/-- A text with the tokens in it resolved, from left to right; what is not resolved stays.  `skip`
characters are still those of the last token. -/
def replaceTokens (tokenPrefix : Text) (resolve : Text → Option Text) : (skip : Nat) → Text → Text
  | _, [] => []
  | skip + 1, _ :: t => replaceTokens tokenPrefix resolve skip t
  | 0, c :: t =>
      match tokenLength tokenPrefix (c :: t) with
      | some n =>
          (resolve ((c :: t).take n)).getD ((c :: t).take n) ++
            replaceTokens tokenPrefix resolve (n - 1) t
      | none => c :: replaceTokens tokenPrefix resolve 0 t

/-- `detokenize`. -/
def detokenize (lookup : Text → Option Text) (fallbackKey : Option (Sized 32)) (tokenPrefix : Text)
    (body : Bytes) : Bytes :=
  match fromUtf8 body with
  | some t => asBytes (replaceTokens tokenPrefix (resolveToken L lookup fallbackKey) 0 t)
  | none => body

/-- **Tokens are recovered**: that of a match that was encrypted is resolved to the original, by both
functions, and that of a match that was stored is not changed by the fallback. -/
structure Recovers (tokenPrefix original : Text) (key : Sized 32) : Prop where
  encrypted d token : d.stored = false →
    maskToken L (some key) tokenPrefix d original = some token →
      ∀ lookup, lookup token = none →
        resolveToken L lookup (some key) token = some original ∧
          detokenize L lookup (some key) tokenPrefix (asBytes token) = asBytes original
  stored d token : d.stored = true →
    maskToken L (some key) tokenPrefix d original = some token → fallback L key token = none

/-! ### Texts without blanks -/

variable {L}

theorem replaceTokens_skip (tokenPrefix : Text) (resolve : Text → Option Text) (n : Nat) (t : Text) :
    replaceTokens tokenPrefix resolve n t = replaceTokens tokenPrefix resolve 0 (t.drop n) := by
  induction n generalizing t with
  | zero => rfl
  | succ n ih =>
      cases t with
      | nil => rfl
      | cons c t => exact ih t

/-- A token ends after 512 characters. -/
theorem tokenLength_nil {t : Text} (hblank : ∀ c ∈ t, Rust.isWhitespace c = false)
    (hlong : 8 ≤ t.length) : tokenLength [] t = some (min 512 t.length) := by
  have hrun : t.takeWhile (fun c => !Rust.isWhitespace c) = t :=
    List.takeWhile_eq_self_iff.mpr fun c hc => by simp [hblank c hc]
  unfold tokenLength
  rw [List.length_nil, List.drop_zero, hrun]
  dsimp only
  rw [List.length_take, if_pos ⟨List.nil_prefix, by omega⟩, Nat.zero_add]

/-- The first token of a text without blanks, and what follows it. -/
theorem replaceTokens_nil (resolve : Text → Option Text) {t : Text}
    (hblank : ∀ c ∈ t, Rust.isWhitespace c = false) (hlong : 8 ≤ t.length) :
    replaceTokens [] resolve 0 t =
      (resolve (t.take 512)).getD (t.take 512) ++ replaceTokens [] resolve 0 (t.drop 512) := by
  have htake : t.take (min 512 t.length) = t.take 512 :=
    List.take_eq_take_iff.mpr (by omega)
  have hdrop : t.drop (min 512 t.length) = t.drop 512 :=
    List.drop_eq_drop_iff.mpr (by omega)
  cases t with
  | nil => exact absurd hlong (by decide)
  | cons c t =>
      have htoken := tokenLength_nil hblank hlong
      rw [replaceTokens, htoken]
      dsimp only
      rw [htake, replaceTokens_skip]
      congr 1
      rw [← hdrop]
      have hpos : 0 < min 512 (c :: t).length := by
        rw [List.length_cons]
        omega
      obtain ⟨n, hn⟩ := Nat.exists_eq_add_one.mpr hpos
      rw [hn]
      rfl

/-- An encoding has no blanks. -/
theorem encode_blank {bytes : Bytes} :
    ∀ c ∈ Data.Base64.encode bytes, Rust.isWhitespace c = false := by
  have halphabet : ∀ c ∈ Data.Base64.alphabet, Rust.isWhitespace c = false := by decide +kernel
  intro c hc
  rcases Data.Base64.mem_encode hc with hmem | rfl
  · exact halphabet c hmem
  · rfl

theorem detokenize_asBytes (lookup : Text → Option Text) (fallbackKey : Option (Sized 32))
    (tokenPrefix t : Text) : detokenize L lookup fallbackKey tokenPrefix (asBytes t) =
      asBytes (replaceTokens tokenPrefix (resolveToken L lookup fallbackKey) 0 t) := by
  rw [detokenize, Rust.fromUtf8_asBytes]

theorem maskToken_encrypted {key : Sized 32} {tokenPrefix original token : Text} {d : Draw}
    (hd : d.stored = false) : maskToken L (some key) tokenPrefix d original = some token ↔
      ∃ enc, aesEncrypt L key d.nonce (asBytes original) = some enc ∧ tokenPrefix ++ enc = token := by
  rw [maskToken, hd]
  exact Option.map_eq_some_iff

/-! ### When tokens are recovered -/

variable {cipher : Cipher}

/-- Tokens without a prefix that are not too long are recovered. -/
theorem recovers_of_short (htag : Tagged cipher 16) (hL : L.Implements cipher) {original : Text}
    (hshort : (asBytes original).length ≤ 356) (key : Sized 32) : Recovers L [] original key where
  encrypted d token hd hmask lookup hlookup := by
    obtain ⟨enc, hencrypt, htoken⟩ := (maskToken_encrypted hd).mp hmask
    obtain rfl : enc = token := htoken
    have hresolve : resolveToken L lookup (some key) enc = some original := by
      rw [resolveToken, hlookup, Option.none_or, Option.bind_some]
      exact (fallback_eq_some htag hL).mpr ⟨d.nonce, hencrypt⟩
    refine ⟨hresolve, ?_⟩
    have hlength := length_aesEncrypt htag hL hencrypt
    obtain ⟨c, -, henc⟩ := aesEncrypt_eq_some.mp hencrypt
    have hblank : ∀ c ∈ enc, Rust.isWhitespace c = false := henc ▸ encode_blank
    rw [detokenize_asBytes, replaceTokens_nil _ hblank (by omega),
      List.take_of_length_le (by omega), List.drop_of_length_le (by omega), hresolve]
    exact congrArg asBytes (List.append_nil original)
  stored d token hd hmask := by
    rw [maskToken, hd] at hmask
    obtain rfl := Option.some.inj hmask
    have hrandom : (randomToken d.random.1).length ≤ 22 := length_randomToken d.random.2
    cases hfallback : fallback L key ([] ++ randomToken d.random.1) with
    | none => rfl
    | some t =>
        have hlength := length_of_fallback htag hL hfallback
        rw [List.nil_append] at hlength
        omega

/-- A token with a prefix is not what was encrypted: it is too long. -/
theorem prefix_eq_nil (htag : Tagged cipher 16) (hL : L.Implements cipher)
    {tokenPrefix original : Text} {key : Sized 32} (h : Recovers L tokenPrefix original key)
    (hle : (asBytes original).length ≤ L.maxLength) : tokenPrefix = [] := by
  let d : Draw := ⟨false, ⟨List.replicate 16 0, rfl⟩, ⟨List.replicate 12 0, rfl⟩⟩
  obtain ⟨c, hc⟩ : ∃ c, L.encrypt key d.nonce (asBytes original) = some c :=
    ⟨_, hL.encrypt_eq_some.mpr ⟨hle, rfl⟩⟩
  have hencrypt := aesEncrypt_eq_some.mpr ⟨c, hc, rfl⟩
  have hresolve := (h.encrypted d _ rfl ((maskToken_encrypted rfl).mpr ⟨_, hencrypt, rfl⟩)
    (fun _ => none) rfl).1
  have hlength := length_of_fallback htag hL hresolve
  rw [List.length_append, length_aesEncrypt htag hL hencrypt] at hlength
  exact List.length_eq_zero_iff.mp (by omega)

/-- The byte that would be the last of a tag of the beginning of a long encryption. -/
def tailByte (original : Text) : UInt8 := (asBytes original ++ List.replicate 16 0).getD 371 0

theorem getElem?_tail {original : Text} (hlong : 356 < (asBytes original).length) :
    (asBytes original ++ List.replicate 16 0)[371]? = some (tailByte original) := by
  have hlt : 371 < (asBytes original ++ List.replicate 16 0).length := by
    rw [List.length_append, List.length_replicate]
    omega
  rw [tailByte, List.getD_eq_getElem _ _ hlt]
  exact List.getElem?_eq_getElem hlt

/-- A tag by which no such beginning is an encryption itself. -/
def separatingTag (original : Text) (n : Nat) : UInt8 :=
  if n = 356 then tailByte original + 1 else 0

/-- With this tag the beginning of a long token is not decrypted. -/
theorem fallback_beginning {original : Text} (hlong : 356 < (asBytes original).length)
    {maxLength : Nat} {key : Sized 32} {nonce : Sized 12} {enc : Text}
    (henc : aesEncrypt (Crypto.lengthLibrary (separatingTag original) 16 maxLength) key nonce
      (asBytes original) = some enc) :
    fallback (Crypto.lengthLibrary (separatingTag original) 16 maxLength) key (enc.take 512) =
      none := by
  have hL := Crypto.lengthLibrary_implements (separatingTag original) 16 maxLength
  have htag := Crypto.lengthCipher_tagged (separatingTag original) 16
  cases hfallback :
    fallback (Crypto.lengthLibrary (separatingTag original) 16 maxLength) key (enc.take 512) with
  | none => rfl
  | some t =>
      exfalso
      obtain ⟨nonce', henc'⟩ := (fallback_eq_some htag hL).mp hfallback
      obtain ⟨c, hc, rfl⟩ := aesEncrypt_eq_some.mp henc
      obtain ⟨c', hc', hbytes⟩ := aesEncrypt_eq_some.mp henc'
      obtain rfl := (hL.encrypt_eq_some.mp hc).2
      obtain rfl := (hL.encrypt_eq_some.mp hc').2
      rw [Data.Base64.take_encode 128] at hbytes
      have heq := congrArg Data.Base64.decode hbytes
      rw [Data.Base64.decode_encode, Data.Base64.decode_encode] at heq
      have heq := Option.some.inj heq
      have hnonce : nonce.1.length = 12 := nonce.2
      have hnonce' : nonce'.1.length = 12 := nonce'.2
      have hlength : (asBytes t).length = 356 := by
        have hlengths := congrArg List.length heq
        simp only [Crypto.lengthCipher, List.length_append, List.length_take, List.length_replicate,
          hnonce, hnonce'] at hlengths
        omega
      have hne : (asBytes original).length ≠ 356 := by omega
      -- the last byte of the one is in a tag, that of the other is not
      have hlast := congrArg (fun b => b[383]?) heq
      simp only [Crypto.lengthCipher, separatingTag, hlength, hne, if_true, if_false] at hlast
      rw [List.getElem?_append_right (by omega), List.getElem?_append_right (by omega),
        List.getElem?_take_of_lt (by omega), List.getElem?_append_right (by omega), hnonce, hnonce',
        hlength, List.getElem?_replicate] at hlast
      rw [getElem?_tail hlong, if_pos (by omega)] at hlast
      have hvalue := congrArg UInt8.toNat (Option.some.inj hlast)
      rw [UInt8.toNat_add, UInt8.toNat_one] at hvalue
      have hbyte := (tailByte original).toNat_lt
      omega

theorem head_encode (b : UInt8) (bytes : Bytes) :
    (Data.Base64.encode (b :: bytes)).head? = some (Data.Base64.digit (b.toNat / 4)) := by
  rcases bytes with _ | ⟨b', _ | ⟨b'', rest⟩⟩
  · rfl
  · rfl
  · rfl

/-- A token that is not decrypted stays at the head of the text: with this tag, whatever the nonce,
a long original would start with the first digit of the nonce. -/
theorem head_of_recovers {original : Text} (hlong : 356 < (asBytes original).length)
    {maxLength : Nat} (hle : (asBytes original).length ≤ maxLength) {key : Sized 32}
    (h : Recovers (Crypto.lengthLibrary (separatingTag original) 16 maxLength) [] original key)
    (b : UInt8) : original.head? = some (Data.Base64.digit (b.toNat / 4)) := by
  have hL := Crypto.lengthLibrary_implements (separatingTag original) 16 maxLength
  have htag := Crypto.lengthCipher_tagged (separatingTag original) 16
  let d : Draw := ⟨false, ⟨List.replicate 16 0, rfl⟩, ⟨List.replicate 12 b, rfl⟩⟩
  obtain ⟨c, hc⟩ : ∃ c, (Crypto.lengthLibrary (separatingTag original) 16 maxLength).encrypt key
      d.nonce (asBytes original) = some c := ⟨_, hL.encrypt_eq_some.mpr ⟨hle, rfl⟩⟩
  have hencrypt := aesEncrypt_eq_some.mpr ⟨c, hc, rfl⟩
  have hlength := length_aesEncrypt htag hL hencrypt
  have hbytes := (h.encrypted d _ rfl ((maskToken_encrypted rfl).mpr ⟨_, hencrypt, rfl⟩)
    (fun _ => none) rfl).2
  rw [detokenize_asBytes] at hbytes
  have horiginal := Rust.asBytes_injective hbytes
  rw [List.nil_append, replaceTokens_nil _ encode_blank (by omega), resolveToken, Option.none_or,
    Option.bind_some, fallback_beginning hlong hencrypt] at horiginal
  have htake : (Data.Base64.encode (d.nonce.1 ++ c)).take 512 ≠ [] := by
    refine List.ne_nil_of_length_pos ?_
    rw [List.length_take]
    omega
  rw [← horiginal, Option.getD_none, List.head?_append_of_ne_nil _ htake, List.head?_take,
    if_neg (by decide)]
  exact head_encode b _

/-- **When tokens are recovered**: whatever the cipher, exactly when they have no prefix and the
original is of at most 356 bytes. -/
theorem recovers_iff (tokenPrefix original : Text) (key : Sized 32) :
    (∀ (L : Library) (cipher : Cipher), Tagged cipher 16 → L.Implements cipher →
      Recovers L tokenPrefix original key) ↔
        tokenPrefix = [] ∧ (asBytes original).length ≤ 356 := by
  constructor
  · intro h
    have hrecovers (tag : Nat → UInt8) :=
      h _ _ (Crypto.lengthCipher_tagged tag 16)
        (Crypto.lengthLibrary_implements tag 16 (asBytes original).length)
    obtain rfl : tokenPrefix = [] :=
      prefix_eq_nil (Crypto.lengthCipher_tagged (fun _ => 0) 16)
        (Crypto.lengthLibrary_implements (fun _ => 0) 16 _) (hrecovers _) le_rfl
    refine ⟨rfl, ?_⟩
    by_contra hshort
    have hlong : 356 < (asBytes original).length := Nat.lt_of_not_le hshort
    have hhead := head_of_recovers hlong le_rfl (hrecovers (separatingTag original))
    exact absurd ((hhead 0).symm.trans (hhead 255)) (by decide)
  · rintro ⟨rfl, hshort⟩ L cipher htag hL
    exact recovers_of_short htag hL hshort key

end Tokens

/-! ### A token that is not resolved -/

def testKey : Sized 32 := ⟨"0123456789abcdef0123456789abcdef".toUTF8.data.toList, by decide⟩

theorem length_zeros : (List.replicate 16 (0 : UInt8)).length = 16 := rfl

theorem length_testNonce : (List.replicate 12 (0 : UInt8)).length = 12 := rfl

def testNonce : Sized 12 := ⟨List.replicate 12 0, length_testNonce⟩

/-- What `alice` is encrypted to. -/
def testCiphertext : Bytes :=
  [175, 31, 200, 98, 119, 5, 22, 5, 59, 187, 183, 139, 126, 85, 173, 239, 241, 101, 12, 117, 22]

def testLibrary : Library :=
  Crypto.knownLibrary testKey testNonce (asBytes "alice".toList) testCiphertext 16 68719476736

/-- With the prefix of the defaults the token stays where it is. -/
theorem prefixed_unresolved :
    maskToken testLibrary (some testKey) "TOK_".toList ⟨false, ⟨List.replicate 16 0, rfl⟩, testNonce⟩
        "alice".toList = some "TOK_AAAAAAAAAAAAAAAArx/IYncFFgU7u7eLflWt7/FlDHUW".toList ∧
      ¬ Recovers testLibrary "TOK_".toList "alice".toList testKey := by
  have hmask : maskToken testLibrary (some testKey) "TOK_".toList
      ⟨false, ⟨List.replicate 16 0, rfl⟩, testNonce⟩ "alice".toList =
        some "TOK_AAAAAAAAAAAAAAAArx/IYncFFgU7u7eLflWt7/FlDHUW".toList := by
    decide +kernel
  refine ⟨hmask, fun h => ?_⟩
  have hresolve := (h.encrypted _ _ rfl hmask (fun _ => none) rfl).1
  have hnone : resolveToken testLibrary (fun _ => none) (some testKey)
      "TOK_AAAAAAAAAAAAAAAArx/IYncFFgU7u7eLflWt7/FlDHUW".toList = none := by
    decide +kernel
  rw [hnone] at hresolve
  cases hresolve

end CorexManager.RespTransform
