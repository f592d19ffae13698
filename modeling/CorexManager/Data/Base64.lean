import CorexManager.Data.Text
import Mathlib.Data.List.Basic

/-!
# Base64

The standard alphabet, with padding and without trailing bits: a text is decoded exactly when it is
the encoding of the bytes (`decode_eq_some`).
-/

namespace Data.Base64

/-- The characters of the 64 digits. -/
def alphabet : List Char :=
  "ABCDEFGHIJKLMNOPQRSTUVWXYZabcdefghijklmnopqrstuvwxyz0123456789+/".toList

/-- The character of a digit. -/
def digit (n : Nat) : Char := alphabet.getD n '='

/-- The digit of a character. -/
def value (c : Char) : Option Nat := if c ∈ alphabet then some (alphabet.idxOf c) else none

theorem value_digit : ∀ n < 64, value (digit n) = some n := by decide +kernel

theorem value_eq_some {c : Char} {n : Nat} (h : value c = some n) : n < 64 ∧ digit n = c := by
  unfold value at h
  split at h
  · next hmem =>
      obtain rfl := Option.some.inj h
      have hlt : alphabet.idxOf c < alphabet.length := List.idxOf_lt_length_iff.mpr hmem
      refine ⟨hlt, ?_⟩
      rw [digit, List.getD_eq_getElem _ _ hlt, List.getElem_idxOf]
  · cases h

/-- Three bytes are four digits; one or two are padded. -/
def encode : List UInt8 → Text
  | [] => []
  | [a] => [digit (a.toNat / 4), digit (a.toNat % 4 * 16), '=', '=']
  | [a, b] => [digit (a.toNat / 4), digit (a.toNat % 4 * 16 + b.toNat / 16),
      digit (b.toNat % 16 * 4), '=']
  | a :: b :: c :: rest =>
      digit (a.toNat / 4) :: digit (a.toNat % 4 * 16 + b.toNat / 16) ::
        digit (b.toNat % 16 * 4 + c.toNat / 64) :: digit (c.toNat % 64) :: encode rest

/-- Two digits and padding, whose last four bits are zero. -/
def decodeOne (w x : Nat) : Option (List UInt8) :=
  if x % 16 = 0 then some [UInt8.ofNat (w * 4 + x / 16)] else none

/-- Three digits and padding, whose last two bits are zero. -/
def decodeTwo (w x y : Nat) : Option (List UInt8) :=
  if y % 4 = 0 then some [UInt8.ofNat (w * 4 + x / 16), UInt8.ofNat (x % 16 * 16 + y / 4)] else none

/-- The bytes that are encoded, if any are. -/
def decode : Text → Option (List UInt8)
  | [] => some []
  | c₁ :: c₂ :: c₃ :: c₄ :: rest =>
      (value c₁).bind fun w => (value c₂).bind fun x =>
        if c₃ = '=' ∧ c₄ = '=' ∧ rest = [] then decodeOne w x
        else (value c₃).bind fun y =>
          if c₄ = '=' ∧ rest = [] then decodeTwo w x y
          else (value c₄).bind fun z => (decode rest).map fun bytes =>
            UInt8.ofNat (w * 4 + x / 16) :: UInt8.ofNat (x % 16 * 16 + y / 4) ::
              UInt8.ofNat (y % 4 * 64 + z) :: bytes
  | _ => none

theorem value_pad : value '=' = none := by decide

theorem digit_ne_pad {n : Nat} (h : n < 64) : digit n ≠ '=' := by
  intro heq
  have hvalue := value_digit n h
  rw [heq, value_pad] at hvalue
  cases hvalue

theorem ofNat_toNat (a : UInt8) : UInt8.ofNat a.toNat = a := by simp

theorem decode_encode (bytes : List UInt8) : decode (encode bytes) = some bytes := by
  fun_induction encode bytes with
  | case1 => rfl
  | case2 a =>
      have ha := a.toNat_lt
      rw [decode, value_digit _ (by omega), value_digit _ (by omega), Option.bind_some,
        Option.bind_some, if_pos ⟨rfl, rfl, rfl⟩, decodeOne, if_pos (by omega)]
      have hbyte : a.toNat / 4 * 4 + a.toNat % 4 * 16 / 16 = a.toNat := by omega
      rw [hbyte, ofNat_toNat]
  | case3 a b =>
      have ha := a.toNat_lt
      have hb := b.toNat_lt
      have hdigit : digit (b.toNat % 16 * 4) ≠ '=' := digit_ne_pad (by omega)
      rw [decode, value_digit _ (by omega), value_digit _ (by omega), value_digit _ (by omega),
        Option.bind_some, Option.bind_some, if_neg fun h => hdigit h.1, Option.bind_some,
        if_pos ⟨rfl, rfl⟩, decodeTwo, if_pos (by omega)]
      have hfirst : a.toNat / 4 * 4 + (a.toNat % 4 * 16 + b.toNat / 16) / 16 = a.toNat := by omega
      have hsecond : (a.toNat % 4 * 16 + b.toNat / 16) % 16 * 16 + b.toNat % 16 * 4 / 4 = b.toNat := by
        omega
      rw [hfirst, hsecond, ofNat_toNat, ofNat_toNat]
  | case4 a b c rest ih =>
      have ha := a.toNat_lt
      have hb := b.toNat_lt
      have hc := c.toNat_lt
      have hthird : digit (b.toNat % 16 * 4 + c.toNat / 64) ≠ '=' := digit_ne_pad (by omega)
      have hfourth : digit (c.toNat % 64) ≠ '=' := digit_ne_pad (by omega)
      rw [decode, value_digit _ (by omega), value_digit _ (by omega), value_digit _ (by omega),
        value_digit _ (by omega), Option.bind_some, Option.bind_some, if_neg fun h => hthird h.1,
        Option.bind_some, if_neg fun h => hfourth h.1, Option.bind_some, ih]
      have h₁ : a.toNat / 4 * 4 + (a.toNat % 4 * 16 + b.toNat / 16) / 16 = a.toNat := by omega
      have h₂ : (a.toNat % 4 * 16 + b.toNat / 16) % 16 * 16 +
          (b.toNat % 16 * 4 + c.toNat / 64) / 4 = b.toNat := by omega
      have h₃ : (b.toNat % 16 * 4 + c.toNat / 64) % 4 * 64 + c.toNat % 64 = c.toNat := by omega
      rw [h₁, h₂, h₃, ofNat_toNat, ofNat_toNat, ofNat_toNat]
      rfl

theorem toNat_ofNat {n : Nat} (h : n < 256) : (UInt8.ofNat n).toNat = n := by
  rw [UInt8.toNat_ofNat']
  exact Nat.mod_eq_of_lt h

theorem encode_of_decodeOne {w x : Nat} (hw : w < 64) (hx : x < 64) {bytes : List UInt8}
    (h : decodeOne w x = some bytes) : encode bytes = [digit w, digit x, '=', '='] := by
  unfold decodeOne at h
  split at h
  · next hzero =>
      obtain rfl := Option.some.inj h
      rw [encode, toNat_ofNat (by omega)]
      have h₁ : (w * 4 + x / 16) / 4 = w := by omega
      have h₂ : (w * 4 + x / 16) % 4 * 16 = x := by omega
      rw [h₁, h₂]
  · cases h

theorem encode_of_decodeTwo {w x y : Nat} (hw : w < 64) (hx : x < 64) (hy : y < 64)
    {bytes : List UInt8} (h : decodeTwo w x y = some bytes) :
    encode bytes = [digit w, digit x, digit y, '='] := by
  unfold decodeTwo at h
  split at h
  · next hzero =>
      obtain rfl := Option.some.inj h
      rw [encode, toNat_ofNat (by omega), toNat_ofNat (by omega)]
      have h₁ : (w * 4 + x / 16) / 4 = w := by omega
      have h₂ : (w * 4 + x / 16) % 4 * 16 + (x % 16 * 16 + y / 4) / 16 = x := by omega
      have h₃ : (x % 16 * 16 + y / 4) % 16 * 4 = y := by omega
      rw [h₁, h₂, h₃]
  · cases h

/-- A text that is decoded is the encoding of the bytes. -/
theorem encode_of_decode (t : Text) (bytes : List UInt8) (h : decode t = some bytes) :
    encode bytes = t := by
  induction t using decode.induct generalizing bytes with
  | case1 =>
      obtain rfl := Option.some.inj h
      rfl
  | case2 c₁ c₂ c₃ c₄ rest ih =>
      rw [decode] at h
      obtain ⟨w, hvaluew, h₁⟩ := Option.bind_eq_some_iff.mp h
      obtain ⟨x, hvaluex, h₂⟩ := Option.bind_eq_some_iff.mp h₁
      clear h h₁
      obtain ⟨hw, rfl⟩ := value_eq_some hvaluew
      obtain ⟨hx, rfl⟩ := value_eq_some hvaluex
      split at h₂
      · next hpad =>
          obtain ⟨rfl, rfl, rfl⟩ := hpad
          exact encode_of_decodeOne hw hx h₂
      · obtain ⟨y, hvaluey, h₃⟩ := Option.bind_eq_some_iff.mp h₂
        obtain ⟨hy, rfl⟩ := value_eq_some hvaluey
        split at h₃
        · next hpad =>
            obtain ⟨rfl, rfl⟩ := hpad
            exact encode_of_decodeTwo hw hx hy h₃
        · obtain ⟨z, hvaluez, h₄⟩ := Option.bind_eq_some_iff.mp h₃
          obtain ⟨hz, rfl⟩ := value_eq_some hvaluez
          obtain ⟨tail, htail, rfl⟩ := Option.map_eq_some_iff.mp h₄
          rw [encode, ih tail htail, toNat_ofNat (by omega), toNat_ofNat (by omega),
            toNat_ofNat (by omega)]
          have h₁ : (w * 4 + x / 16) / 4 = w := by omega
          have h₂ : (w * 4 + x / 16) % 4 * 16 + (x % 16 * 16 + y / 4) / 16 = x := by omega
          have h₃ : (x % 16 * 16 + y / 4) % 16 * 4 + (y % 4 * 64 + z) / 64 = y := by omega
          have h₄ : (y % 4 * 64 + z) % 64 = z := by omega
          rw [h₁, h₂, h₃, h₄]
  | case3 t hnil hfour =>
      unfold decode at h
      split at h
      · exact absurd rfl hnil
      · exact absurd rfl (hfour _ _ _ _ _)
      · cases h

/-- **A text is decoded exactly when it is the encoding of the bytes.** -/
theorem decode_eq_some {t : Text} {bytes : List UInt8} :
    decode t = some bytes ↔ encode bytes = t := by
  constructor
  · exact encode_of_decode t bytes
  · rintro rfl
    exact decode_encode bytes

theorem length_encode (bytes : List UInt8) : (encode bytes).length = (bytes.length + 2) / 3 * 4 := by
  fun_induction encode bytes with
  | case1 => rfl
  | case2 => simp
  | case3 => simp
  | case4 a b c rest ih =>
      simp only [List.length_cons, ih]
      omega

/-- Whole groups at the beginning of an encoding are the encoding of the bytes there. -/
theorem take_encode (k : Nat) (bytes : List UInt8) :
    (encode bytes).take (4 * k) = encode (bytes.take (3 * k)) := by
  induction k generalizing bytes with
  | zero => rfl
  | succ k ih =>
      rw [Nat.mul_succ, Nat.mul_succ]
      match bytes with
      | [] => rfl
      | [a] => simp [encode]
      | [a, b] => simp [encode]
      | a :: b :: c :: rest =>
          simp only [encode, List.take_succ_cons, ih]

theorem digit_mem {n : Nat} (h : n < 64) : digit n ∈ alphabet := by
  have hlt : n < alphabet.length := h
  rw [digit, List.getD_eq_getElem _ _ hlt]
  exact List.getElem_mem hlt

/-- An encoding has only the characters of the alphabet, and padding. -/
theorem mem_encode {bytes : List UInt8} {c : Char} (h : c ∈ encode bytes) :
    c ∈ alphabet ∨ c = '=' := by
  fun_induction encode bytes with
  | case1 => exact absurd h List.not_mem_nil
  | case2 a =>
      have ha := a.toNat_lt
      simp only [List.mem_cons, List.not_mem_nil, or_false] at h
      rcases h with rfl | rfl | rfl | rfl
      · exact .inl (digit_mem (by omega))
      · exact .inl (digit_mem (by omega))
      · exact .inr rfl
      · exact .inr rfl
  | case3 a b =>
      have ha := a.toNat_lt
      have hb := b.toNat_lt
      simp only [List.mem_cons, List.not_mem_nil, or_false] at h
      rcases h with rfl | rfl | rfl | rfl
      · exact .inl (digit_mem (by omega))
      · exact .inl (digit_mem (by omega))
      · exact .inl (digit_mem (by omega))
      · exact .inr rfl
  | case4 a b c' rest ih =>
      have ha := a.toNat_lt
      have hb := b.toNat_lt
      have hc := c'.toNat_lt
      simp only [List.mem_cons] at h
      rcases h with rfl | rfl | rfl | rfl | h
      · exact .inl (digit_mem (by omega))
      · exact .inl (digit_mem (by omega))
      · exact .inl (digit_mem (by omega))
      · exact .inl (digit_mem (by omega))
      · exact ih h

end Data.Base64
