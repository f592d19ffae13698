import CorexManager.Rust.Utf8

/-!
# Reading bytes that may be no UTF-8

`String::from_utf8_lossy`: what is no character becomes one replacement character for every longest
start of one.
-/

namespace Rust

open Data (Text)

/-- A byte that continues a character. -/
def isContinuation (b : UInt8) : Bool := 0x80 ≤ b && b ≤ 0xBF

/-- The second byte can follow the first one of a character with more than two bytes. -/
def continuesLead (lead second : UInt8) : Bool :=
  if lead = 0xE0 then 0xA0 ≤ second && second ≤ 0xBF
  else if lead = 0xED then 0x80 ≤ second && second ≤ 0x9F
  else if lead = 0xF0 then 0x90 ≤ second && second ≤ 0xBF
  else if lead = 0xF4 then 0x80 ≤ second && second ≤ 0x8F
  else isContinuation second

/-- The length of the longest start of a character, where none is. -/
def brokenLength : List UInt8 → Nat
  | lead :: second :: third :: _ =>
      if 0xE0 ≤ lead ∧ lead ≤ 0xF4 ∧ continuesLead lead second = true then
        if 0xF0 ≤ lead ∧ isContinuation third = true then 3 else 2
      else 1
  | [lead, second] => if 0xE0 ≤ lead ∧ lead ≤ 0xF4 ∧ continuesLead lead second = true then 2 else 1
  | _ => 1

/-- The characters from a position on; some bytes belong to the last one. -/
def readLossy : (skip : Nat) → List UInt8 → Text
  | _, [] => []
  | skip + 1, _ :: rest => readLossy skip rest
  | 0, b :: rest =>
      match (b :: rest).toByteArray.utf8DecodeChar? 0 with
      | some c => c :: readLossy (c.utf8Size - 1) rest
      | none => Char.ofNat 0xFFFD :: readLossy (brokenLength (b :: rest) - 1) rest

/-- `String::from_utf8_lossy` -/
def fromUtf8Lossy (bytes : List UInt8) : Text := readLossy 0 bytes

theorem readLossy_append (before rest : List UInt8) :
    readLossy before.length (before ++ rest) = readLossy 0 rest := by
  induction before with
  | nil => rfl
  | cons b before ih => rw [List.cons_append, List.length_cons, readLossy, ih]

/-- **Text is read as it is**. -/
theorem fromUtf8Lossy_asBytes (t : Text) : fromUtf8Lossy (asBytes t) = t := by
  induction t with
  | nil => rfl
  | cons c t ih =>
      obtain ⟨b, rest, hchar⟩ := List.exists_cons_of_length_pos
        (by rw [String.length_utf8EncodeChar]; exact c.utf8Size_pos :
          0 < (String.utf8EncodeChar c).length)
      have hbytes : asBytes (c :: t) = b :: (rest ++ asBytes t) := by
        rw [asBytes, List.flatMap_cons, hchar]
        rfl
      have hdecode : (b :: (rest ++ asBytes t)).toByteArray.utf8DecodeChar? 0 = some c := by
        rw [← List.cons_append, ← hchar, List.toByteArray_append]
        exact ByteArray.utf8DecodeChar?_utf8EncodeChar_append
      have hlength : c.utf8Size - 1 = rest.length := by
        rw [← String.length_utf8EncodeChar, hchar, List.length_cons, Nat.add_sub_cancel]
      rw [fromUtf8Lossy, hbytes, readLossy, hdecode]
      dsimp only
      rw [hlength, readLossy_append]
      exact congrArg (c :: ·) ih

example : fromUtf8Lossy [0x61, 0xE2, 0x82, 0x62, 0xFF] = "a\uFFFDb\uFFFD".toList := by decide +kernel

/-! ### Zero bytes -/

theorem ofNat_ne_zero {n : Nat} (h : 0 < n) (hn : n < 256) : UInt8.ofNat n ≠ 0 := by
  intro hzero
  have hzero := congrArg UInt8.toNat hzero
  rw [UInt8.toNat_ofNat', Nat.mod_eq_of_lt hn] at hzero
  exact h.ne' hzero

/-- Only the zero character has a zero byte. -/
theorem ne_zero_of_mem_utf8EncodeChar {c : Char} (hc : c ≠ Char.ofNat 0) {b : UInt8}
    (hb : b ∈ String.utf8EncodeChar c) : b ≠ 0 := by
  have hpos : 0 < c.val.toNat := Nat.pos_of_ne_zero fun h => hc (Char.toNat_inj.mp h)
  unfold String.utf8EncodeChar at hb
  dsimp only at hb
  split at hb
  · rw [List.mem_singleton.mp hb]
    exact ofNat_ne_zero hpos (by omega)
  split at hb
  · simp only [List.mem_cons, List.not_mem_nil, or_false] at hb
    rcases hb with rfl | rfl <;> exact ofNat_ne_zero (by omega) (by omega)
  split at hb
  · simp only [List.mem_cons, List.not_mem_nil, or_false] at hb
    rcases hb with rfl | rfl | rfl <;> exact ofNat_ne_zero (by omega) (by omega)
  · simp only [List.mem_cons, List.not_mem_nil, or_false] at hb
    rcases hb with rfl | rfl | rfl | rfl <;> exact ofNat_ne_zero (by omega) (by omega)

theorem zero_mem_asBytes {t : Text} : 0 ∈ asBytes t ↔ Char.ofNat 0 ∈ t := by
  rw [asBytes, List.mem_flatMap]
  constructor
  · rintro ⟨c, hc, hzero⟩
    by_contra hnone
    exact ne_zero_of_mem_utf8EncodeChar (fun h => hnone (h ▸ hc)) hzero rfl
  · exact fun h => ⟨_, h, by decide⟩

end Rust
