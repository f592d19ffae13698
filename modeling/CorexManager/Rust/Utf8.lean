import CorexManager.Rust.Text

/-!
# UTF-8

`str::as_bytes` and `str::from_utf8`, which is its inverse.
-/

namespace Rust

open Data (Text)

/-- `str::as_bytes`. -/
def asBytes (t : Text) : List UInt8 := t.flatMap String.utf8EncodeChar

/-- `str::from_utf8`. -/
def fromUtf8 (b : List UInt8) : Option Text := b.toByteArray.utf8Decode?.map Array.toList

theorem utf8Encode_eq (t : Text) : t.utf8Encode = (asBytes t).toByteArray := by
  rw [List.utf8Encode, asBytes]

theorem fromUtf8_asBytes (t : Text) : fromUtf8 (asBytes t) = some t := by
  rw [fromUtf8, ← utf8Encode_eq, List.utf8Decode?_utf8Encode]
  rfl

theorem asBytes_injective {s t : Text} (h : asBytes s = asBytes t) : s = t := by
  have hsome : some s = some t := by rw [← fromUtf8_asBytes s, h, fromUtf8_asBytes]
  exact Option.some.inj hsome

theorem toByteArray_injective {a b : List UInt8} (h : a.toByteArray = b.toByteArray) : a = b := by
  have hdata : a.toByteArray.data.toList = b.toByteArray.data.toList := by rw [h]
  simpa using hdata

/-- Bytes are read as a text exactly when they are its bytes. -/
theorem fromUtf8_eq_some {b : List UInt8} {t : Text} : fromUtf8 b = some t ↔ asBytes t = b := by
  constructor
  · intro h
    obtain ⟨chars, hchars, rfl⟩ := Option.map_eq_some_iff.mp h
    have hsome : b.toByteArray.utf8Decode?.isSome := by rw [hchars]; rfl
    have hencode : (b.toByteArray.utf8Decode?.get hsome).toList.utf8Encode = b.toByteArray :=
      ByteArray.utf8Encode_get_utf8Decode?
    simp only [hchars, Option.get_some] at hencode
    exact toByteArray_injective ((utf8Encode_eq _).symm.trans hencode)
  · rintro rfl
    exact fromUtf8_asBytes t

theorem length_asBytes (t : Text) : (asBytes t).length = len t := by
  rw [asBytes, List.length_flatMap, len]
  exact congrArg List.sum (List.map_congr_left fun c _ => String.length_utf8EncodeChar c)

/-- A character of ASCII is one byte. -/
theorem utf8EncodeChar_ascii {c : Char} (h : c.toNat < 128) :
    String.utf8EncodeChar c = [UInt8.ofNat c.toNat] := by
  have hval : c.val.toNat ≤ 127 := Nat.le_of_lt_succ h
  unfold String.utf8EncodeChar
  exact if_pos hval

/-- The bytes of the other characters are no ASCII. -/
theorem le_of_mem_utf8EncodeChar {c : Char} (h : 128 ≤ c.toNat) {byte : UInt8}
    (hbyte : byte ∈ String.utf8EncodeChar c) : 128 ≤ byte.toNat := by
  have hval : ¬ c.val.toNat ≤ 127 := Nat.not_le_of_lt h
  have hofNat : ∀ n, 128 ≤ n → n < 256 → 128 ≤ (UInt8.ofNat n).toNat := fun n h₁ h₂ => by
    rw [UInt8.toNat_ofNat', Nat.mod_eq_of_lt h₂]
    exact h₁
  unfold String.utf8EncodeChar at hbyte
  dsimp only at hbyte
  rw [if_neg hval] at hbyte
  split at hbyte
  · simp only [List.mem_cons, List.not_mem_nil, or_false] at hbyte
    rcases hbyte with rfl | rfl <;> exact hofNat _ (by omega) (by omega)
  split at hbyte
  · simp only [List.mem_cons, List.not_mem_nil, or_false] at hbyte
    rcases hbyte with rfl | rfl | rfl <;> exact hofNat _ (by omega) (by omega)
  · simp only [List.mem_cons, List.not_mem_nil, or_false] at hbyte
    rcases hbyte with rfl | rfl | rfl | rfl <;> exact hofNat _ (by omega) (by omega)

end Rust
