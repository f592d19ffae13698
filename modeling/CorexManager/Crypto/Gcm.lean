import Mathlib.Logic.Basic

/-!
# Keys and sealed texts

HKDF over a hash that is left open, and libraries for one authenticated cipher: what a library
seals it opens again, and it opens nothing else.

* `hkdf` — extract and expand to any length; `hkdf_block` is its first block.
* `Library.Implements` — a library seals and opens as the cipher does, up to a length of its own.
* `Library.Implements.decrypt_of_encrypt` — what one library seals another opens.
-/

namespace Crypto

abbrev Bytes := List UInt8

/-- Bytes of a length. -/
abbrev Sized (n : Nat) := { b : Bytes // b.length = n }

/-! ### HKDF -/

section Hkdf

variable (hmac : (key message : Bytes) → Sized 32)

/-- The blocks from a counter on; each is over the block before it. -/
def expandFrom (prk info : Bytes) : (blocks counter : Nat) → (previous : Bytes) → Bytes
  | 0, _, _ => []
  | n + 1, i, previous =>
      let block := hmac prk (previous ++ info ++ [UInt8.ofNat i])
      block.1 ++ expandFrom prk info n (i + 1) block.1

/-- HKDF, to a length. -/
def hkdf (salt ikm info : Bytes) (length : Nat) : Bytes :=
  (expandFrom hmac (hmac salt ikm).1 info ((length + 31) / 32) 1 []).take length

/-- A key of the length of the hash is its first block. -/
theorem hkdf_block (salt ikm info : Bytes) :
    hkdf hmac salt ikm info 32 = (hmac (hmac salt ikm).1 (info ++ [1])).1 := by
  have hblock : (hmac (hmac salt ikm).1 (info ++ [1])).1.length = 32 := (hmac _ _).2
  show ((hmac (hmac salt ikm).1 ([] ++ info ++ [UInt8.ofNat 1])).1 ++ []).take 32 = _
  rw [List.append_nil, List.nil_append]
  exact List.take_of_length_le (Nat.le_of_eq hblock)

theorem length_hkdf_block (salt ikm info : Bytes) : (hkdf hmac salt ikm info 32).length = 32 := by
  rw [hkdf_block]
  exact (hmac _ _).2

end Hkdf

/-! ### Libraries -/

/-- What a cipher makes of a plaintext, under a key and a nonce. -/
abbrev Cipher := Sized 32 → Sized 12 → Bytes → Bytes

/-- A library for a cipher: it refuses a plaintext that is too long for it. -/
structure Library where
  maxLength : Nat
  encrypt : Sized 32 → Sized 12 → Bytes → Option Bytes
  decrypt : Sized 32 → Sized 12 → Bytes → Option Bytes

/-- A library seals as the cipher does, and opens exactly what is sealed. -/
structure Library.Implements (L : Library) (cipher : Cipher) : Prop where
  encrypt k n p : L.encrypt k n p = if p.length ≤ L.maxLength then some (cipher k n p) else none
  decrypt k n c p : L.decrypt k n c = some p ↔ p.length ≤ L.maxLength ∧ cipher k n p = c

namespace Library.Implements

variable {L M : Library} {cipher : Cipher} {k : Sized 32} {n : Sized 12} {c p : Bytes}

theorem encrypt_eq_some (h : L.Implements cipher) :
    L.encrypt k n p = some c ↔ p.length ≤ L.maxLength ∧ cipher k n p = c := by
  rw [h.encrypt]
  split
  · next hle => simp [hle]
  · next hlt => simp [hlt]

/-- What is sealed is opened, and what is opened was sealed. -/
theorem encrypt_iff_decrypt (h : L.Implements cipher) :
    L.encrypt k n p = some c ↔ L.decrypt k n c = some p :=
  h.encrypt_eq_some.trans (h.decrypt k n c p).symm

/-- What one library seals another opens, unless it is too long for it. -/
theorem decrypt_of_encrypt (h : L.Implements cipher) (h' : M.Implements cipher)
    (hle : p.length ≤ M.maxLength) (hc : L.encrypt k n p = some c) : M.decrypt k n c = some p :=
  (h'.decrypt k n c p).mpr ⟨hle, (h.encrypt_eq_some.mp hc).2⟩

end Library.Implements

/-- A cipher appends a tag. -/
def Tagged (cipher : Cipher) (tag : Nat) : Prop := ∀ k n p, (cipher k n p).length = p.length + tag

/-- A ciphertext has its tag. -/
theorem Tagged.length_encrypt {L : Library} {cipher : Cipher} {tag : Nat} {k : Sized 32}
    {n : Sized 12} {p c : Bytes} (h : Tagged cipher tag) (hL : L.Implements cipher)
    (hc : L.encrypt k n p = some c) : c.length = p.length + tag := by
  rw [← (hL.encrypt_eq_some.mp hc).2, h k n p]

/-! ### Nonces -/

/-- Bytes as a nonce, if they have its length. -/
def nonceFromSlice (b : Bytes) : Option (Sized 12) := if h : b.length = 12 then some ⟨b, h⟩ else none

theorem nonceFromSlice_val (n : Sized 12) : nonceFromSlice n.1 = some n := dif_pos n.2

theorem nonceFromSlice_eq_some {b : Bytes} {n : Sized 12} (h : nonceFromSlice b = some n) :
    n.1 = b := by
  unfold nonceFromSlice at h
  split at h
  · obtain rfl := Option.some.inj h
    rfl
  · cases h

/-! ### One known text -/

section Known

variable (k₀ : Sized 32) (n₀ : Sized 12) (p₀ c₀ : Bytes) (tag : Nat)

/-- A cipher that is known at one text, and appends zeros to the others. -/
def knownCipher : Cipher := fun k n p =>
  if k = k₀ ∧ n = n₀ ∧ p = p₀ then c₀ else p ++ List.replicate tag 0

/-- The text that is sealed as another, if any is. -/
def knownText (k : Sized 32) (n : Sized 12) (c : Bytes) : Bytes :=
  if k = k₀ ∧ n = n₀ ∧ c = c₀ then p₀ else c.take (c.length - tag)

/-- A library for this cipher. -/
def knownLibrary (maxLength : Nat) : Library where
  maxLength := maxLength
  encrypt k n p :=
    if p.length ≤ maxLength then some (knownCipher k₀ n₀ p₀ c₀ tag k n p) else none
  decrypt k n c :=
    if (knownText k₀ n₀ p₀ c₀ tag k n c).length ≤ maxLength ∧
        knownCipher k₀ n₀ p₀ c₀ tag k n (knownText k₀ n₀ p₀ c₀ tag k n c) = c then
      some (knownText k₀ n₀ p₀ c₀ tag k n c)
    else none

variable {k₀ n₀ p₀ c₀ tag}

theorem knownCipher_tagged (h : c₀.length = p₀.length + tag) :
    Tagged (knownCipher k₀ n₀ p₀ c₀ tag) tag := by
  intro k n p
  rw [knownCipher]
  split
  · next heq => rw [h, heq.2.2]
  · rw [List.length_append, List.length_replicate]

theorem knownText_knownCipher (h : ∀ p, p ++ List.replicate tag 0 ≠ c₀) (k : Sized 32)
    (n : Sized 12) (p : Bytes) :
    knownText k₀ n₀ p₀ c₀ tag k n (knownCipher k₀ n₀ p₀ c₀ tag k n p) = p := by
  by_cases hknown : k = k₀ ∧ n = n₀ ∧ p = p₀
  · rw [knownCipher, if_pos hknown, knownText, if_pos ⟨hknown.1, hknown.2.1, rfl⟩, hknown.2.2]
  · rw [knownCipher, if_neg hknown, knownText, if_neg fun heq => h p heq.2.2]
    simp

theorem knownLibrary_implements (h : ∀ p, p ++ List.replicate tag 0 ≠ c₀) (maxLength : Nat) :
    (knownLibrary k₀ n₀ p₀ c₀ tag maxLength).Implements (knownCipher k₀ n₀ p₀ c₀ tag) where
  encrypt _ _ _ := rfl
  decrypt k n c p := by
    refine Option.ite_none_right_eq_some.trans ?_
    constructor
    · rintro ⟨hopen, hp⟩
      exact Option.some.inj hp ▸ hopen
    · rintro ⟨hle, rfl⟩
      rw [knownText_knownCipher h]
      exact ⟨⟨hle, rfl⟩, rfl⟩

end Known

/-! ### Tags by length -/

section Lengths

variable (tagByte : Nat → UInt8) (tag : Nat)

/-- A cipher that leaves a plaintext as it is, with a tag that only depends on its length. -/
def lengthCipher : Cipher := fun _ _ p => p ++ List.replicate tag (tagByte p.length)

/-- A library for this cipher. -/
def lengthLibrary (maxLength : Nat) : Library where
  maxLength := maxLength
  encrypt k n p := if p.length ≤ maxLength then some (lengthCipher tagByte tag k n p) else none
  decrypt k n c :=
    if (c.take (c.length - tag)).length ≤ maxLength ∧
        lengthCipher tagByte tag k n (c.take (c.length - tag)) = c then
      some (c.take (c.length - tag))
    else none

theorem lengthCipher_tagged : Tagged (lengthCipher tagByte tag) tag := by
  intro k n p
  rw [lengthCipher, List.length_append, List.length_replicate]

theorem lengthLibrary_implements (maxLength : Nat) :
    (lengthLibrary tagByte tag maxLength).Implements (lengthCipher tagByte tag) where
  encrypt _ _ _ := rfl
  decrypt k n c p := by
    refine Option.ite_none_right_eq_some.trans ?_
    constructor
    · rintro ⟨hopen, hp⟩
      exact Option.some.inj hp ▸ hopen
    · rintro ⟨hle, rfl⟩
      have hp : (lengthCipher tagByte tag k n p).take
          ((lengthCipher tagByte tag k n p).length - tag) = p := by
        simp [lengthCipher]
      rw [hp]
      exact ⟨⟨hle, rfl⟩, rfl⟩

end Lengths

end Crypto
