import CorexManager.Crypto.Gcm
import CorexManager.Data.LongDivision
import CorexManager.Data.Text

/-!
# Base 62

The text of a path in a request fingerprint: its bytes are a number, which is written in base 62.
The number is held in words of 32 bits and divided in place.  The tests of the module have the
division of single bytes that it replaces.

* `base62Encode`, `base62Reference` — the two conversions.
* `Exact` — a division of one word that loses nothing.
* `base62_refines` — both give the same text without losing anything, and different paths of one
  length have different texts.
-/

namespace CorexManager.ReqFp

open Crypto (Bytes)
open Data (Text)
open Data.LongDivision

/-- `PATH_MAX`. -/
def pathMax : Nat := 2048

/-- `B62_CHARS`. -/
def b62Chars : List Char := "0123456789ABCDEFGHIJKLMNOPQRSTUVWXYZabcdefghijklmnopqrstuvwxyz".toList

/-- A digit. -/
def b62Char (digit : Nat) : Char := b62Chars.getD digit '0'

/-! ### Words -/

/-- One byte is put behind others. -/
def shiftByte (acc : UInt32) (b : UInt8) : UInt32 := (acc <<< 8) ||| b.toUInt32

/-- `u32::from_be_bytes` of every four bytes. -/
def exactChunks : Bytes → List UInt32
  | a :: b :: c :: d :: rest => [a, b, c, d].foldl shiftByte 0 :: exactChunks rest
  | _ => []

/-- Bytes in words; the first word may be short. -/
def packLimbs (bytes : Bytes) : List UInt32 :=
  let head := bytes.length % 4
  (if 0 < head then [(bytes.take head).foldl shiftByte 0] else []) ++ exactChunks (bytes.drop head)

/-- The dividend of a word, behind a remainder. -/
def limbVal (rem : UInt64) (limb : UInt32) : UInt64 := (rem <<< 32) ||| limb.toUInt64

def divideLimb (acc : UInt64 × List UInt32) (limb : UInt32) : UInt64 × List UInt32 :=
  (limbVal acc.1 limb % 62, acc.2 ++ [(limbVal acc.1 limb / 62).toUInt32])

/-- The words are divided by 62: the remainder, and the quotient in their place. -/
def divideLimbs (limbs : List UInt32) : UInt64 × List UInt32 := limbs.foldl divideLimb (0, [])

/-- A turn of the loop: leading zeros are skipped afterwards. -/
def limbTurn (limbs : List UInt32) : Nat × List UInt32 :=
  ((divideLimbs limbs).1.toNat, (divideLimbs limbs).2.dropWhile (· == 0))

/-- The number of some words. -/
def limbsNumber (limbs : List UInt32) : Nat := value 4294967296 (limbs.map UInt32.toNat)

/-- The number of some bytes. -/
def bytesNumber (bytes : Bytes) : Nat := value 256 (bytes.map UInt8.toNat)

/-- **Nothing is lost**: the dividend of a word fits in 64 bits, and its quotient in 32. -/
structure Exact (rem : UInt64) (limb : UInt32) : Prop where
  dividend : (limbVal rem limb).toNat = rem.toNat * 4294967296 + limb.toNat
  quotient : (limbVal rem limb / 62).toUInt32.toNat = (limbVal rem limb).toNat / 62

theorem shift_or_eq {a b k : Nat} (h : b < 2 ^ k) : (a <<< k) ||| b = a * 2 ^ k + b := by
  rw [← Nat.shiftLeft_add_eq_or_of_lt h, Nat.shiftLeft_eq]

theorem exact_of_lt {rem : UInt64} (h : rem.toNat < 62) (limb : UInt32) : Exact rem limb := by
  have hlimb := limb.toNat_lt
  have hdividend : (limbVal rem limb).toNat = rem.toNat * 4294967296 + limb.toNat := by
    rw [limbVal, UInt64.toNat_or, UInt64.toNat_shiftLeft, UInt32.toNat_toUInt64]
    show rem.toNat <<< 32 % 18446744073709551616 ||| limb.toNat = _
    rw [Nat.mod_eq_of_lt (by rw [Nat.shiftLeft_eq]; omega), shift_or_eq hlimb]
    rfl
  refine ⟨hdividend, ?_⟩
  rw [UInt64.toNat_toUInt32, UInt64.toNat_div]
  refine Nat.mod_eq_of_lt ?_
  show (limbVal rem limb).toNat / 62 < 4294967296
  omega

/-- **The words are divided** as the digits that they are. -/
theorem divideLimbs_eq (limbs : List UInt32) :
    (divideLimbs limbs).1.toNat = (divide 4294967296 62 (limbs.map UInt32.toNat)).1 ∧
      (divideLimbs limbs).2.map UInt32.toNat = (divide 4294967296 62 (limbs.map UInt32.toNat)).2 := by
  induction limbs using List.reverseRecOn with
  | nil => exact ⟨rfl, rfl⟩
  | append_singleton limbs limb ih =>
      obtain ⟨hrem, hquotient⟩ := ih
      have hlt : (divideLimbs limbs).1.toNat < 62 := hrem ▸ divide_lt (by decide) _
      have hexact := exact_of_lt hlt limb
      rw [List.map_append, List.map_singleton, divide_concat, divideDigit, ← hrem, ← hquotient,
        ← hexact.dividend, ← hexact.quotient, divideLimbs, List.foldl_concat]
      exact ⟨UInt64.toNat_mod _ _, List.map_append⟩

theorem map_dropZeros (limbs : List UInt32) :
    (limbs.dropWhile (· == 0)).map UInt32.toNat = (limbs.map UInt32.toNat).dropWhile (· == 0) := by
  rw [List.dropWhile_map]
  congr 2
  ext limb
  simp [← UInt32.toNat_inj]

theorem division_limbTurn : Division 62 limbsNumber limbTurn := by
  have hquotient : ∀ limbs, limbsNumber (limbTurn limbs).2 =
      value 4294967296 (divide 4294967296 62 (limbs.map UInt32.toNat)).2 := by
    intro limbs
    rw [limbsNumber, limbTurn, map_dropZeros, value_dropZeros, (divideLimbs_eq limbs).2]
  constructor
  · intro limbs
    rw [limbTurn, (divideLimbs_eq limbs).1]
    exact divide_lt (by decide) _
  · intro limbs
    rw [hquotient, limbTurn, (divideLimbs_eq limbs).1, limbsNumber]
    exact divide_value _
  · intro limbs
    rw [hquotient, ← (divideLimbs_eq limbs).2, ← dropZeros_eq_nil (by decide), ← map_dropZeros,
      List.map_eq_nil_iff]
    rfl

/-- The loop over the words. -/
def limbLoop (limbs : List UInt32) (out : Text) : Text :=
  if _h : limbs = [] then out
  else limbLoop (limbTurn limbs).2 (b62Char (limbTurn limbs).1 :: out)
termination_by size limbsNumber limbs
decreasing_by exact division_limbTurn.size_lt (by decide) _h

/-- `base62_encode`. -/
def base62Encode (s : Bytes) : Text :=
  let bytes := s.take pathMax
  if bytes = [] then ['0'] else limbLoop (packLimbs bytes) []

theorem limbLoop_eq {limbs : List UInt32} (h : limbs ≠ []) (out : Text) :
    limbLoop limbs out = (numeral 62 (limbsNumber limbs)).map b62Char ++ out := by
  refine division_limbTurn.loop_eq (by decide) (fun out => ?_) (fun limbs out hlimbs => ?_) h out
  · rw [limbLoop, dif_pos rfl]
  · rw [limbLoop, dif_neg hlimbs]

/-! ### Packing -/

theorem toNat_shiftByte {acc : UInt32} (h : acc.toNat < 16777216) (b : UInt8) :
    (shiftByte acc b).toNat = 256 * acc.toNat + b.toNat := by
  have hb := b.toNat_lt
  rw [shiftByte, UInt32.toNat_or, UInt32.toNat_shiftLeft, UInt8.toNat_toUInt32]
  show acc.toNat <<< 8 % 4294967296 ||| b.toNat = _
  rw [Nat.mod_eq_of_lt (by rw [Nat.shiftLeft_eq]; omega), shift_or_eq hb, Nat.mul_comm]
  rfl

/-- Up to four bytes fit in a word. -/
theorem toNat_foldl_shiftByte {bytes : Bytes} {acc : UInt32}
    (h : (acc.toNat + 1) * 256 ^ bytes.length ≤ 4294967296) :
    (bytes.foldl shiftByte acc).toNat = valueFrom 256 acc.toNat (bytes.map UInt8.toNat) := by
  induction bytes generalizing acc with
  | nil => rfl
  | cons b bytes ih =>
      have hb := b.toNat_lt
      rw [List.length_cons, pow_succ'] at h
      have hpos : 1 ≤ 256 ^ bytes.length := Nat.one_le_pow _ _ (by decide)
      have hacc : acc.toNat < 16777216 := by
        have hle : (acc.toNat + 1) * (256 * 1) ≤ 4294967296 :=
          (Nat.mul_le_mul_left _ (Nat.mul_le_mul_left 256 hpos)).trans h
        omega
      have hstep := toNat_shiftByte hacc b
      rw [List.foldl_cons, ih, hstep]
      · rfl
      · rw [hstep]
        refine le_trans ?_ h
        rw [← Nat.mul_assoc]
        exact Nat.mul_le_mul_right _ (by omega)

theorem valueFrom_exactChunks (bytes : Bytes) (h : bytes.length % 4 = 0) (v : Nat) :
    valueFrom 4294967296 v ((exactChunks bytes).map UInt32.toNat) =
      valueFrom 256 v (bytes.map UInt8.toNat) := by
  induction bytes using exactChunks.induct generalizing v with
  | case1 a b c d rest ih =>
      have hword : ([a, b, c, d].foldl shiftByte 0).toNat = valueFrom 256 0 [a.toNat, b.toNat,
          c.toNat, d.toNat] := toNat_foldl_shiftByte (by simp)
      rw [exactChunks, List.map_cons, hword]
      have hrest : rest.length % 4 = 0 := by
        simp only [List.length_cons] at h
        omega
      have hfour : 4294967296 * v + valueFrom 256 0 [a.toNat, b.toNat, c.toNat, d.toNat] =
          valueFrom 256 v [a.toNat, b.toNat, c.toNat, d.toNat] := by
        simp only [valueFrom, List.foldl_cons, List.foldl_nil]
        omega
      exact (congrArg (fun v => valueFrom 4294967296 v _) hfour).trans (ih hrest _)
  | case2 bytes hshort =>
      -- there are fewer than four bytes, so there are none
      rcases bytes with _ | ⟨a, _ | ⟨b, _ | ⟨c, _ | ⟨d, rest⟩⟩⟩⟩
      · rfl
      · cases h
      · cases h
      · cases h
      · exact (hshort a b c d rest rfl).elim

/-- **Packing** keeps the number. -/
theorem limbsNumber_packLimbs (bytes : Bytes) : limbsNumber (packLimbs bytes) = bytesNumber bytes := by
  have hsplit : (bytes.length - bytes.length % 4) % 4 = 0 := by omega
  have hdrop : (bytes.drop (bytes.length % 4)).length % 4 = 0 := by rwa [List.length_drop]
  have hhead : ((bytes.take (bytes.length % 4)).foldl shiftByte 0).toNat =
      valueFrom 256 0 ((bytes.take (bytes.length % 4)).map UInt8.toNat) := by
    refine toNat_foldl_shiftByte ?_
    have hle : (bytes.take (bytes.length % 4)).length ≤ 4 := by
      rw [List.length_take]
      omega
    calc (UInt32.toNat 0 + 1) * 256 ^ (bytes.take (bytes.length % 4)).length
      _ = 256 ^ (bytes.take (bytes.length % 4)).length := Nat.one_mul _
      _ ≤ 256 ^ 4 := Nat.pow_le_pow_right (by decide) hle
  have hfirst : limbsNumber (packLimbs bytes) = valueFrom 4294967296
      (valueFrom 256 0 ((bytes.take (bytes.length % 4)).map UInt8.toNat))
      ((exactChunks (bytes.drop (bytes.length % 4))).map UInt32.toNat) := by
    rw [limbsNumber, packLimbs, List.map_append, value, valueFrom_append]
    split
    · rw [List.map_singleton, hhead]
      simp [valueFrom]
    next hzero =>
      rw [Nat.eq_zero_of_not_pos hzero]
      rfl
  rw [hfirst, valueFrom_exactChunks _ hdrop, ← valueFrom_append, ← List.map_append,
    List.take_append_drop]
  rfl

theorem packLimbs_ne_nil {bytes : Bytes} (h : bytes ≠ []) : packLimbs bytes ≠ [] := by
  unfold packLimbs
  dsimp only
  split
  · exact List.cons_ne_nil _ _
  next hzero =>
    rcases bytes with _ | ⟨a, _ | ⟨b, _ | ⟨c, _ | ⟨d, rest⟩⟩⟩⟩
    · exact absurd rfl h
    · exact absurd (by decide : 0 < 1) hzero
    · exact absurd (by decide : 0 < 2) hzero
    · exact absurd (by decide : 0 < 3) hzero
    · rw [Nat.eq_zero_of_not_pos hzero]
      exact List.cons_ne_nil _ _

/-! ### The reference -/

/-- One byte is divided; zeros at the head of the quotient are left out. -/
def divideByte (acc : UInt32 × Bytes) (digit : UInt8) : UInt32 × Bytes :=
  let val := acc.1 * 256 + digit.toUInt32
  let q := val / 62
  (val % 62, if 0 < q ∨ acc.2 ≠ [] then acc.2 ++ [q.toUInt8] else acc.2)

def divideBytes (n : Bytes) : UInt32 × Bytes := n.foldl divideByte (0, [])

/-- A turn of the loop of the reference. -/
def byteTurn (n : Bytes) : Nat × Bytes := ((divideBytes n).1.toNat, (divideBytes n).2)

theorem divideBytes_eq (n : Bytes) :
    (divideBytes n).1.toNat = (divide 256 62 (n.map UInt8.toNat)).1 ∧
      (divideBytes n).2.map UInt8.toNat =
        (divide 256 62 (n.map UInt8.toNat)).2.dropWhile (· == 0) := by
  induction n using List.reverseRecOn with
  | nil => exact ⟨rfl, rfl⟩
  | append_singleton n digit ih =>
      obtain ⟨hrem, hquotient⟩ := ih
      have hlt : (divideBytes n).1.toNat < 62 := hrem ▸ divide_lt (by decide) _
      have hdigit := digit.toNat_lt
      have hval : ((divideBytes n).1 * 256 + digit.toUInt32).toNat =
          (divideBytes n).1.toNat * 256 + digit.toNat := by
        rw [UInt32.toNat_add, UInt32.toNat_mul, UInt8.toNat_toUInt32]
        show ((divideBytes n).1.toNat * 256 % 4294967296 + digit.toNat) % 4294967296 = _
        omega
      have hq : (((divideBytes n).1 * 256 + digit.toUInt32) / 62).toNat =
          ((divideBytes n).1.toNat * 256 + digit.toNat) / 62 := by
        rw [UInt32.toNat_div, hval]
        rfl
      have hq8 : (((divideBytes n).1 * 256 + digit.toUInt32) / 62).toUInt8.toNat =
          ((divideBytes n).1.toNat * 256 + digit.toNat) / 62 := by
        rw [UInt32.toNat_toUInt8, hq]
        omega
      have hfold : divideBytes (n ++ [digit]) = divideByte (divideBytes n) digit := List.foldl_concat ..
      rw [List.map_append, List.map_singleton, divide_concat, divideDigit, ← hrem, hfold, divideByte]
      dsimp only
      refine ⟨(UInt32.toNat_mod _ _).trans (by rw [hval]; rfl), ?_⟩
      -- what is left of the quotient before decides if a zero is left out
      rw [List.dropWhile_append, ← hquotient, List.isEmpty_map]
      have hpos : 0 < ((divideBytes n).1 * 256 + digit.toUInt32) / 62 ↔
          0 < ((divideBytes n).1.toNat * 256 + digit.toNat) / 62 := by
        rw [UInt32.lt_iff_toNat_lt, hq]
        rfl
      cases (divideBytes n).2 with
      | nil =>
          by_cases h : 0 < ((divideBytes n).1.toNat * 256 + digit.toNat) / 62
          · rw [if_pos (.inl (hpos.mpr h)), if_pos List.isEmpty_nil,
              List.dropWhile_cons_of_neg (by simpa using h.ne')]
            exact congrArg (fun q => [q]) hq8
          · rw [if_neg (not_or.mpr ⟨hpos.not.mpr h, not_not.mpr rfl⟩), if_pos List.isEmpty_nil,
              Nat.eq_zero_of_not_pos h]
            rfl
      | cons b rest =>
          rw [if_pos (.inr (List.cons_ne_nil b rest)), List.map_append, List.map_singleton, hq8]
          rfl

theorem division_byteTurn : Division 62 bytesNumber byteTurn := by
  have hquotient : ∀ n, bytesNumber (byteTurn n).2 =
      value 256 (divide 256 62 (n.map UInt8.toNat)).2 := by
    intro n
    rw [bytesNumber, byteTurn, (divideBytes_eq n).2, value_dropZeros]
  constructor
  · intro n
    rw [byteTurn, (divideBytes_eq n).1]
    exact divide_lt (by decide) _
  · intro n
    rw [hquotient, byteTurn, (divideBytes_eq n).1, bytesNumber]
    exact divide_value _
  · intro n
    rw [hquotient, ← dropZeros_eq_nil (by decide), ← (divideBytes_eq n).2, List.map_eq_nil_iff]
    rfl

/-- The loop of the reference. -/
def byteLoop (n : Bytes) (out : Text) : Text :=
  if _h : n = [] then out
  else byteLoop (byteTurn n).2 (b62Char (byteTurn n).1 :: out)
termination_by size bytesNumber n
decreasing_by exact division_byteTurn.size_lt (by decide) _h

/-- `base62_reference`. -/
def base62Reference (s : Bytes) : Text :=
  let bytes := s.take pathMax
  if bytes = [] then ['0'] else byteLoop bytes []

theorem byteLoop_eq {n : Bytes} (h : n ≠ []) (out : Text) :
    byteLoop n out = (numeral 62 (bytesNumber n)).map b62Char ++ out := by
  refine division_byteTurn.loop_eq (by decide) (fun out => ?_) (fun n out hn => ?_) h out
  · rw [byteLoop, dif_pos rfl]
  · rw [byteLoop, dif_neg hn]

/-! ### Both conversions -/

/-- What both conversions give. -/
def base62 (s : Bytes) : Text :=
  if s.take pathMax = [] then ['0']
  else (numeral 62 (bytesNumber (s.take pathMax))).map b62Char

theorem base62Encode_eq (s : Bytes) : base62Encode s = base62 s := by
  unfold base62Encode base62
  dsimp only
  split
  · rfl
  next h => rw [limbLoop_eq (packLimbs_ne_nil h), limbsNumber_packLimbs, List.append_nil]

theorem base62Reference_eq (s : Bytes) : base62Reference s = base62 s := by
  unfold base62Reference base62
  dsimp only
  split
  · rfl
  next h => rw [byteLoop_eq h, List.append_nil]

theorem b62Char_injective : ∀ d < 62, ∀ e < 62, b62Char d = b62Char e → d = e := by
  decide +kernel

/-- Digits are told apart by their characters. -/
theorem map_b62Char_injective {ds es : List Nat} (hds : ∀ d ∈ ds, d < 62) (hes : ∀ e ∈ es, e < 62)
    (h : ds.map b62Char = es.map b62Char) : ds = es := by
  induction ds generalizing es with
  | nil => exact (List.map_eq_nil_iff.mp h.symm).symm
  | cons d ds ih =>
      obtain ⟨e, es', rfl, hchar, hrest⟩ := List.map_eq_cons_iff.mp h.symm
      obtain ⟨hd, hds⟩ := List.forall_mem_cons.mp hds
      obtain ⟨he, hes⟩ := List.forall_mem_cons.mp hes
      rw [b62Char_injective d hd e he hchar.symm, ih hds hes hrest.symm]

theorem base62_injective {s t : Bytes} (hlength : s.length = t.length) (hmax : s.length ≤ pathMax)
    (h : base62 s = base62 t) : s = t := by
  rw [base62, base62, List.take_of_length_le hmax, List.take_of_length_le (hlength ▸ hmax)] at h
  by_cases hs : s = []
  · subst hs
    exact (List.eq_nil_of_length_eq_zero hlength.symm).symm
  · have ht : t ≠ [] := fun ht => hs (List.eq_nil_of_length_eq_zero (by rw [hlength, ht]; rfl))
    rw [if_neg hs, if_neg ht] at h
    have hnumber := numeral_injective
      (map_b62Char_injective (numeral_lt (by decide) _) (numeral_lt (by decide) _) h)
    have hbyte : ∀ (bytes : Bytes), ∀ d ∈ bytes.map UInt8.toNat, d < 256 := by
      intro bytes d hd
      obtain ⟨b, -, rfl⟩ := List.mem_map.mp hd
      exact b.toNat_lt
    have hmap := value_injective (by decide) (by simpa using hlength) (hbyte s) (hbyte t) hnumber
    exact (List.map_inj_right fun _ _ => UInt8.toNat_inj.mp).mp hmap

/-- **Base 62**: the words give the text of the bytes, packing and every division of a word lose
nothing, and different strings of one length have different texts. -/
theorem base62_refines :
    (∀ s, base62Encode s = base62Reference s) ∧
      (∀ bytes, limbsNumber (packLimbs bytes) = bytesNumber bytes) ∧
      (∀ limbs limb, Exact (divideLimbs limbs).1 limb) ∧
      ∀ s t : Bytes, s.length = t.length → s.length ≤ pathMax →
        base62Encode s = base62Encode t → s = t := by
  refine ⟨fun s => ?_, limbsNumber_packLimbs, fun limbs limb => ?_, fun s t hlength hmax h => ?_⟩
  · rw [base62Encode_eq, base62Reference_eq]
  · exact exact_of_lt (division_limbTurn.lt limbs) limb
  · rw [base62Encode_eq, base62Encode_eq] at h
    exact base62_injective hlength hmax h

end CorexManager.ReqFp
