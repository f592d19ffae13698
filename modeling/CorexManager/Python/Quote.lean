import CorexManager.Data.Text
import Mathlib.Data.List.SplitBy

/-!
# Percent encoding

`urllib.parse.quote` without safe characters, and `unquote`, which decodes the bytes of every run
of ASCII characters as UTF-8 and replaces what is ill-formed.

`unquote_quote` — every text comes back.
-/

namespace Python

open Data (Text)

/-! ### UTF-8 -/

/-- `encode`. -/
def encodeUtf8 (s : Text) : List UInt8 := s.flatMap String.utf8EncodeChar

/-- The second bytes that may follow the first byte of three or four. -/
def secondRange (b : UInt8) : Option (UInt8 × UInt8) :=
  if b = 0xE0 then some (0xA0, 0xBF)
  else if b = 0xED then some (0x80, 0x9F)
  else if b = 0xF0 then some (0x90, 0xBF)
  else if b = 0xF4 then some (0x80, 0x8F)
  else if 0xE1 ≤ b ∧ b ≤ 0xF3 then some (0x80, 0xBF)
  else none

/-- How many bytes are replaced together with the first of an ill-formed sequence. -/
def illFormed (b : UInt8) (rest : List UInt8) : Nat :=
  match secondRange b, rest with
  | some (low, high), b₂ :: rest =>
      if low ≤ b₂ ∧ b₂ ≤ high then
        if 0xF0 ≤ b ∧ rest.head?.any (fun b₃ => 0x80 ≤ b₃ && b₃ ≤ 0xBF) then 2 else 1
      else 0
  | _, _ => 0

/-- `decode`, with the errors replaced. -/
def decodeUtf8 : List UInt8 → Text
  | [] => []
  | b :: rest =>
      match (b :: rest).toByteArray.utf8DecodeChar? 0 with
      | some c => c :: decodeUtf8 (rest.drop (c.utf8Size - 1))
      | none => '\uFFFD' :: decodeUtf8 (rest.drop (illFormed b rest))
termination_by bytes => bytes.length
decreasing_by all_goals (simp only [List.length_drop, List.length_cons]; omega)

theorem decodeUtf8_encodeUtf8 (s : Text) : decodeUtf8 (encodeUtf8 s) = s := by
  induction s with
  | nil => rw [encodeUtf8, List.flatMap_nil, decodeUtf8]
  | cons c s ih =>
      have hlength := String.length_utf8EncodeChar c
      have hpos := Char.utf8Size_pos c
      have hdecode : (encodeUtf8 (c :: s)).toByteArray.utf8DecodeChar? 0 = some c :=
        List.utf8DecodeChar?_utf8Encode_cons
      rw [encodeUtf8, List.flatMap_cons] at hdecode ⊢
      cases hbytes : String.utf8EncodeChar c with
      | nil =>
          rw [hbytes, List.length_nil] at hlength
          omega
      | cons b rest =>
          rw [hbytes, List.length_cons] at hlength
          rw [hbytes, List.cons_append] at hdecode
          rw [List.cons_append, decodeUtf8, hdecode]
          dsimp only
          rw [List.drop_left' (by omega)]
          exact congrArg (c :: ·) ih

/-! ### Quoting -/

/-- `_ALWAYS_SAFE`. -/
def alwaysSafe (c : Char) : Bool :=
  c.isAlphanum || c == '_' || c == '.' || c == '-' || c == '~'

/-- A hexadecimal digit, in upper case. -/
def hexUpper (n : Nat) : Char := (Nat.digitChar n).toUpper

/-- `_Quoter`. -/
def quoter (byte : UInt8) : Text :=
  if alwaysSafe (Char.ofNat byte.toNat) then [Char.ofNat byte.toNat]
  else ['%', hexUpper (byte.toNat / 16), hexUpper (byte.toNat % 16)]

/-- `quote`, with no other safe characters. -/
def quote (s : Text) : Text := (encodeUtf8 s).flatMap quoter

/-- The value of a hexadecimal digit. -/
def hexValue (c : Char) : Option Nat :=
  if '0' ≤ c ∧ c ≤ '9' then some (c.toNat - 48)
  else if 'A' ≤ c ∧ c ≤ 'F' then some (c.toNat - 55)
  else if 'a' ≤ c ∧ c ≤ 'f' then some (c.toNat - 87)
  else none

/-- `_hextobyte`. -/
def hexByte (h₁ h₂ : Char) : Option UInt8 := do
  let a ← hexValue h₁
  let b ← hexValue h₂
  some (.ofNat (a * 16 + b))

/-- `unquote_to_bytes`, of ASCII characters. -/
def unquoteToBytes : Text → List UInt8
  | '%' :: h₁ :: h₂ :: t =>
      match hexByte h₁ h₂ with
      | some byte => byte :: unquoteToBytes t
      | none => .ofNat '%'.toNat :: unquoteToBytes (h₁ :: h₂ :: t)
  | c :: t => .ofNat c.toNat :: unquoteToBytes t
  | [] => []

/-- The character is of one byte. -/
def isAscii (c : Char) : Bool := c.toNat < 128

/-- A run of characters that are all ASCII, or all not. -/
def unquoteRun (run : Text) : Text :=
  if run.all isAscii then decodeUtf8 (unquoteToBytes run) else run

/-- `unquote`. -/
def unquote (s : Text) : Text :=
  (s.splitBy fun a b => isAscii a == isAscii b).flatMap unquoteRun

theorem unquote_ascii {s : Text} (h : ∀ c ∈ s, isAscii c = true) :
    unquote s = decodeUtf8 (unquoteToBytes s) := by
  cases s with
  | nil => rw [unquote, List.splitBy_nil, List.flatMap_nil, unquoteToBytes, decodeUtf8]
  | cons c s =>
      have hchain : (c :: s).IsChain fun a b => (isAscii a == isAscii b) = true := by
        refine List.Pairwise.isChain (List.pairwise_of_forall_mem_list fun a ha b hb => ?_)
        rw [h a ha, h b hb]
        rfl
      rw [unquote, List.splitBy_of_isChain (List.cons_ne_nil c s) hchain, List.flatMap_singleton,
        unquoteRun, if_pos (List.all_eq_true.mpr h)]

theorem hexByte_hexUpper (byte : UInt8) :
    hexByte (hexUpper (byte.toNat / 16)) (hexUpper (byte.toNat % 16)) = some byte := by
  have hall : ∀ n : Fin 16, hexValue (hexUpper n.val) = some n.val := by decide
  have hlt := byte.toNat_lt
  have hvalue : ∀ n, n < 16 → hexValue (hexUpper n) = some n := fun n hn => hall ⟨n, hn⟩
  rw [hexByte, hvalue _ (by omega), hvalue _ (by omega)]
  show some (UInt8.ofNat (byte.toNat / 16 * 16 + byte.toNat % 16)) = some byte
  rw [show byte.toNat / 16 * 16 + byte.toNat % 16 = byte.toNat from by omega, UInt8.ofNat_toNat]

theorem unquoteToBytes_cons {c : Char} (h : c ≠ '%') (t : Text) :
    unquoteToBytes (c :: t) = .ofNat c.toNat :: unquoteToBytes t := by
  rw [unquoteToBytes.eq_def]
  split
  · next heq => exact absurd (List.cons.inj heq).1 h
  · next heq =>
      obtain ⟨rfl, rfl⟩ := List.cons.inj heq
      rfl
  · next heq => cases heq

theorem unquoteToBytes_quoter (bytes : List UInt8) :
    unquoteToBytes (bytes.flatMap quoter) = bytes := by
  induction bytes with
  | nil => rfl
  | cons byte bytes ih =>
      have hlt := byte.toNat_lt
      rw [List.flatMap_cons, quoter]
      split
      case isTrue hsafe =>
        have hpercent : Char.ofNat byte.toNat ≠ '%' := by
          intro heq
          rw [heq] at hsafe
          exact absurd hsafe (by decide)
        have hofNat : (Char.ofNat byte.toNat).toNat = byte.toNat := by
          rw [Char.toNat_ofNat, if_pos (.inl (by omega))]
        rw [List.singleton_append, unquoteToBytes_cons hpercent, ih, hofNat, UInt8.ofNat_toNat]
      · rw [List.cons_append, List.cons_append, List.singleton_append, unquoteToBytes,
          hexByte_hexUpper]
        dsimp only
        rw [ih]

theorem isAscii_quoter (byte : UInt8) : ∀ c ∈ quoter byte, isAscii c = true := by
  have hall : ∀ n : Fin 256, (quoter (.ofNat n.val)).all isAscii = true := by decide +kernel
  have hbyte := hall ⟨byte.toNat, byte.toNat_lt⟩
  rw [UInt8.ofNat_toNat] at hbyte
  exact List.all_eq_true.mp hbyte

/-- **What was quoted comes back**, whatever characters it has. -/
theorem unquote_quote (s : Text) : unquote (quote s) = s := by
  have hascii : ∀ c ∈ quote s, isAscii c = true := by
    intro c hc
    obtain ⟨byte, -, hbyte⟩ := List.mem_flatMap.mp hc
    exact isAscii_quoter byte c hbyte
  rw [unquote_ascii hascii, quote, unquoteToBytes_quoter, decodeUtf8_encodeUtf8]

end Python
