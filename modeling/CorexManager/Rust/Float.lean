import CorexManager.Rust.Text
import Mathlib.Data.Prod.Lex
import Mathlib.Data.Rat.Defs
import Mathlib.Order.Compare
import Mathlib.Order.WithBot

/-!
# Decimal numerals and `f32`

`str::parse` of an `f32`, and the order of the numbers from zero on, by rank.

* `Decimal.parse` — the numerals, with their value as a rational.
* `parseF32` — the number that is nearest to the value.
* `rank_lt`, `rank_le`, `rank_beq` — the comparisons of numbers from zero on.
-/

namespace Rust

open Data (Text)
open Float.Model (UnpackedFloat)

/-! ### Numerals -/

/-- A numeral: its sign, its digits, and the power of ten they are to be multiplied by. -/
structure Decimal where
  negative : Bool
  digits : Nat
  exponent : Int

namespace Decimal

/-- The digits at the beginning, and the rest. -/
def takeDigits (t : Text) : Text × Text := t.span Char.isDigit

/-- The value of digits. -/
def ofDigits (t : Text) : Nat := t.foldl (fun n c => 10 * n + (c.toNat - '0'.toNat)) 0

/-- A sign at the beginning, and the rest. -/
def takeSign : Text → Bool × Text
  | '-' :: t => (true, t)
  | '+' :: t => (false, t)
  | t => (false, t)

/-- `Exp`, which may be left out. -/
def parseExponent : Text → Option Int
  | [] => some 0
  | c :: t =>
      if c = 'e' ∨ c = 'E' then
        let (negative, t) := takeSign t
        let (digits, rest) := takeDigits t
        if digits = [] ∨ rest ≠ [] then none
        else some (if negative then -(ofDigits digits : Int) else ofDigits digits)
      else none

/-- `Number`, behind its sign. -/
def parseNumber (negative : Bool) (t : Text) : Option Decimal :=
  let (whole, t) := takeDigits t
  let (fraction, t) := match t with
    | '.' :: t => takeDigits t
    | t => ([], t)
  if whole = [] ∧ fraction = [] then none
  else (parseExponent t).map fun e =>
    ⟨negative, ofDigits (whole ++ fraction), e - fraction.length⟩

/-- A numeral that is finite. -/
def parse (t : Text) : Option Decimal :=
  let (negative, t) := takeSign t
  parseNumber negative t

/-- The value of a numeral. -/
def toRat (d : Decimal) : ℚ :=
  let magnitude : ℚ :=
    if 0 ≤ d.exponent then d.digits * (10 : ℚ) ^ d.exponent.toNat
    else d.digits / (10 : ℚ) ^ (-d.exponent).toNat
  if d.negative then -magnitude else magnitude

/-- The nearest `f32`. -/
def toF32 (d : Decimal) : Float32 :=
  let magnitude := Float32.ofScientific d.digits (decide (d.exponent < 0)) d.exponent.natAbs
  if d.negative then -magnitude else magnitude

end Decimal

/-- `str::parse` of an `f32`. -/
def parseF32 (t : Text) : Option Float32 :=
  let (negative, rest) := Decimal.takeSign t
  let word := toAsciiLowercase rest
  if word = "inf".toList ∨ word = "infinity".toList then
    some (if negative then -(1.0 / 0.0) else 1.0 / 0.0)
  else if word = "nan".toList then some (0.0 / 0.0)
  else (Decimal.parse t).map Decimal.toF32

/-! ### Order -/

/-- The rank of a number from zero on: its exponent, then its mantissa. -/
def rankOf : UnpackedFloat → WithBot (Lex (ℤ × ℕ))
  | .finite .positive m e _ => (toLex (e, m) : Lex (ℤ × ℕ))
  | _ => ⊥

/-- A number from zero on, and not infinite. -/
def IsWeight : UnpackedFloat → Prop
  | .finite .positive .. => True
  | .zero _ => True
  | _ => False

theorem cmp_toLex (e e' : ℤ) (m m' : ℕ) :
    cmp (toLex (e, m)) (toLex (e', m')) = (compare e e').then (compare m m') := by
  rcases lt_trichotomy e e' with h | rfl | h
  · rw [compare_lt_iff_lt.mpr h]
    exact (cmp_eq_lt_iff _ _).mpr (Prod.Lex.toLex_lt_toLex.mpr (.inl h))
  · rcases lt_trichotomy m m' with h' | rfl | h'
    · simp [compare_lt_iff_lt.mpr h', Prod.Lex.toLex_lt_toLex, h']
    · simp
    · simp [compare_gt_iff_gt.mpr h', Prod.Lex.toLex_lt_toLex, h']
  · rw [compare_gt_iff_gt.mpr h]
    exact (cmp_eq_gt_iff _ _).mpr (Prod.Lex.toLex_lt_toLex.mpr (.inl h))

/-- Numbers from zero on compare as their ranks do. -/
theorem compare_eq_cmp {a b : UnpackedFloat} (ha : IsWeight a) (hb : IsWeight b) :
    a.compare b = some (cmp (rankOf a) (rankOf b)) := by
  cases a with
  | finite s m e hm =>
      cases s with
      | positive =>
          cases b with
          | finite s' m' e' hm' =>
              cases s' with
              | positive =>
                  have hcoe : cmp (rankOf (.finite .positive m e hm))
                      (rankOf (.finite .positive m' e' hm')) =
                        cmp (toLex (e, m)) (toLex (e', m')) := by
                    simp [rankOf, cmp, cmpUsing]
                  rw [hcoe, cmp_toLex]
                  rfl
              | negative => cases hb
          | zero s' => simp [UnpackedFloat.compare, rankOf, cmp, cmpUsing]
          | _ => cases hb
      | negative => cases ha
  | zero s =>
      cases b with
      | finite s' m' e' hm' =>
          cases s' with
          | positive => simp [UnpackedFloat.compare, rankOf, cmp, cmpUsing]
          | negative => cases hb
      | zero s' => simp [UnpackedFloat.compare, rankOf]
      | _ => cases hb
  | _ => cases ha

/-- A weight: a number from zero on, and not infinite. -/
def Weight (a : Float32) : Prop := IsWeight a.toModel.unpack

/-- The rank of a weight. -/
def rank (a : Float32) : WithBot (Lex (ℤ × ℕ)) := rankOf a.toModel.unpack

variable {a b : Float32}

theorem lt_iff_unpack : a < b ↔ a.toModel.unpack.lt b.toModel.unpack = true := by
  show decide _ = true ↔ _
  exact decide_eq_true_iff

theorem le_iff_unpack : a ≤ b ↔ a.toModel.unpack.le b.toModel.unpack = true := by
  show decide _ = true ↔ _
  exact decide_eq_true_iff

theorem unpack_zero : (0.0 : Float32).toModel.unpack = .zero .positive := by rfl

theorem unpack_one : ∃ m e h, (1.0 : Float32).toModel.unpack = .finite .positive m e h :=
  ⟨_, _, _, rfl⟩

theorem weight_zero : Weight 0.0 := by
  rw [Weight, unpack_zero]
  trivial

theorem weight_one : Weight 1.0 := by
  obtain ⟨m, e, h, hone⟩ := unpack_one
  rw [Weight, hone]
  trivial

@[simp] theorem rank_zero : rank 0.0 = ⊥ := by
  rw [rank, unpack_zero]
  rfl

theorem rank_lt (ha : Weight a) (hb : Weight b) : a < b ↔ rank a < rank b := by
  rw [lt_iff_unpack, UnpackedFloat.lt, compare_eq_cmp ha hb, ← cmp_eq_lt_iff, beq_iff_eq,
    Option.some_inj]
  rfl

theorem rank_le (ha : Weight a) (hb : Weight b) : a ≤ b ↔ rank a ≤ rank b := by
  rw [le_iff_unpack, UnpackedFloat.le, compare_eq_cmp ha hb, ← not_lt, ← cmp_eq_gt_iff]
  show (cmp (rank a) (rank b)).isLE = true ↔ _
  cases cmp (rank a) (rank b) <;> simp

theorem rank_beq (ha : Weight a) (hb : Weight b) : (a == b) = true ↔ rank a = rank b := by
  show a.toModel.unpack.beq b.toModel.unpack = true ↔ _
  rw [UnpackedFloat.beq, compare_eq_cmp ha hb, beq_iff_eq, Option.some_inj]
  exact cmp_eq_eq_iff (rank a) (rank b)

/-- A weight that is not positive is zero. -/
theorem rank_le_zero (ha : Weight a) : a ≤ 0.0 ↔ rank a = ⊥ := by
  rw [rank_le ha weight_zero, rank_zero, le_bot_iff]

/-- A number from zero to one is a weight. -/
theorem weight_of_mem (h0 : 0.0 ≤ a) (h1 : a ≤ 1.0) : Weight a := by
  obtain ⟨m, e, hm, hone⟩ := unpack_one
  rw [le_iff_unpack, UnpackedFloat.le, unpack_zero] at h0
  rw [le_iff_unpack, UnpackedFloat.le, hone] at h1
  rw [Weight]
  cases ha : a.toModel.unpack with
  | notANumber =>
      rw [ha] at h1
      cases h1
  | infinity s =>
      rw [ha] at h0 h1
      cases s with
      | positive => cases h1
      | negative => cases h0
  | zero s => trivial
  | finite s m' e' hm' =>
      rw [ha] at h0
      cases s with
      | positive => trivial
      | negative => cases h0

end Rust
