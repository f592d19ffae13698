import Mathlib.Data.List.Basic
import Mathlib.Data.List.Induction
import Mathlib.Data.List.TakeWhile
import Mathlib.Data.Nat.Digits.Defs

/-!
# Long division

Numbers as lists of digits, the most significant one first, and their conversion to another radix
by long division: the digits are divided by the radix until nothing is left, and the remainders are
the digits of the result.

* `divide` — the division of digits.
* `numeral` — the digits of a number, one at least.
* `Division` — what a turn of the conversion does, in whatever words the digits are held.
* `Division.loop_eq` — the conversion gives the numeral.
-/

namespace Data

namespace LongDivision

/-! ### Digits -/

section Digits

variable (base : Nat)

/-- The number of some digits behind another number. -/
def valueFrom (v : Nat) (digits : List Nat) : Nat := digits.foldl (fun v d => base * v + d) v

/-- The number of some digits. -/
def value (digits : List Nat) : Nat := valueFrom base 0 digits

variable {base} {digits ds es : List Nat} {d v : Nat}

theorem valueFrom_append : valueFrom base v (ds ++ es) = valueFrom base (valueFrom base v ds) es :=
  List.foldl_append

theorem value_concat : value base (digits ++ [d]) = base * value base digits + d :=
  valueFrom_append

theorem value_eq_ofDigits (digits : List Nat) : value base digits = Nat.ofDigits base digits.reverse := by
  induction digits using List.reverseRecOn with
  | nil => rfl
  | append_singleton digits d ih =>
      rw [value_concat, ih, List.reverse_concat, Nat.ofDigits_cons, Nat.add_comm]

theorem valueFrom_eq_zero (hbase : base ≠ 0) :
    valueFrom base v digits = 0 ↔ v = 0 ∧ ∀ d ∈ digits, d = 0 := by
  induction digits generalizing v with
  | nil => simp [valueFrom]
  | cons d digits ih =>
      show valueFrom base (base * v + d) digits = 0 ↔ _
      rw [ih, List.forall_mem_cons, ← and_assoc, Nat.add_eq_zero_iff, Nat.mul_eq_zero,
        or_iff_right hbase]

/-- Leading zeros do not count. -/
theorem value_dropZeros (digits : List Nat) :
    value base (digits.dropWhile (· == 0)) = value base digits := by
  induction digits with
  | nil => rfl
  | cons d digits ih =>
      rw [List.dropWhile_cons]
      split
      next hzero =>
        rw [ih, beq_iff_eq.mp hzero]
        show _ = valueFrom base (base * 0) digits
        rw [Nat.mul_zero]
        rfl
      next => rfl

/-- Without leading zeros only no digits at all are zero. -/
theorem dropZeros_eq_nil (hbase : base ≠ 0) (digits : List Nat) :
    digits.dropWhile (· == 0) = [] ↔ value base digits = 0 := by
  rw [value, valueFrom_eq_zero hbase, List.dropWhile_eq_nil_iff]
  simp

/-- As many digits of a base are those of one number at most. -/
theorem value_injective (hbase : 1 < base) (hlength : ds.length = es.length)
    (hds : ∀ d ∈ ds, d < base) (hes : ∀ d ∈ es, d < base) (h : value base ds = value base es) :
    ds = es := by
  rw [value_eq_ofDigits, value_eq_ofDigits] at h
  have hreverse := Nat.ofDigits_inj_of_len_eq hbase (by simpa using hlength)
    (fun d hd => hds d (List.mem_reverse.mp hd)) (fun d hd => hes d (List.mem_reverse.mp hd)) h
  exact List.reverse_injective hreverse

end Digits

/-! ### Division -/

section Divide

variable (base divisor : Nat)

/-- One digit is divided: the remainder, and the quotient so far. -/
def divideDigit (acc : Nat × List Nat) (digit : Nat) : Nat × List Nat :=
  ((acc.1 * base + digit) % divisor, acc.2 ++ [(acc.1 * base + digit) / divisor])

/-- Digits are divided: the remainder, and as many digits. -/
def divide (digits : List Nat) : Nat × List Nat := digits.foldl (divideDigit base divisor) (0, [])

variable {base divisor} {digits : List Nat} {d : Nat}

theorem divide_concat :
    divide base divisor (digits ++ [d]) = divideDigit base divisor (divide base divisor digits) d :=
  List.foldl_append

theorem divide_lt (h : 0 < divisor) (digits : List Nat) : (divide base divisor digits).1 < divisor := by
  induction digits using List.reverseRecOn with
  | nil => exact h
  | append_singleton digits d _ =>
      rw [divide_concat]
      exact Nat.mod_lt _ h

/-- **Digits are divided.** -/
theorem divide_value (digits : List Nat) :
    divisor * value base (divide base divisor digits).2 + (divide base divisor digits).1 =
      value base digits := by
  induction digits using List.reverseRecOn with
  | nil => rfl
  | append_singleton digits d ih =>
      rw [divide_concat, value_concat, ← ih, divideDigit]
      dsimp only
      rw [value_concat]
      generalize value base (divide base divisor digits).2 = q
      generalize (divide base divisor digits).1 = r
      have hdivide := Nat.div_add_mod (r * base + d) divisor
      calc divisor * (base * q + (r * base + d) / divisor) + (r * base + d) % divisor
        _ = divisor * base * q + (divisor * ((r * base + d) / divisor) + (r * base + d) % divisor) := by
          rw [Nat.mul_add, Nat.mul_assoc, Nat.add_assoc]
        _ = divisor * base * q + (r * base + d) := by rw [hdivide]
        _ = base * (divisor * q + r) + d := by
          rw [Nat.mul_add, ← Nat.mul_assoc, Nat.mul_comm divisor, Nat.mul_comm r, Nat.add_assoc]

/-- A digit of the quotient is one of the base. -/
theorem quotient_lt {r : Nat} (hr : r < divisor) (hd : d < base) : (r * base + d) / divisor < base := by
  refine Nat.div_lt_of_lt_mul ?_
  calc r * base + d
    _ < r * base + base := Nat.add_lt_add_left hd _
    _ = (r + 1) * base := (Nat.succ_mul r base).symm
    _ ≤ divisor * base := Nat.mul_le_mul_right base hr

end Divide

/-! ### Numerals -/

section Numeral

variable (radix : Nat)

/-- The digits of a number; zero has one. -/
def numeral (n : Nat) : List Nat := if n = 0 then [0] else (Nat.digits radix n).reverse

variable {radix}

/-- The last digit is the remainder, and the others are the numeral of the quotient. -/
theorem numeral_eq (h : 1 < radix) (n : Nat) :
    numeral radix n = (if n / radix = 0 then [] else numeral radix (n / radix)) ++ [n % radix] := by
  unfold numeral
  by_cases hn : n = 0
  · subst hn
    simp
  · rw [if_neg hn, Nat.digits_def' h (Nat.pos_of_ne_zero hn), List.reverse_cons]
    congr 1
    split
    next hzero => rw [hzero, Nat.digits_zero, List.reverse_nil]
    next => rfl

theorem value_numeral (n : Nat) : value radix (numeral radix n) = n := by
  unfold numeral
  split
  next hn => exact hn.symm
  next => rw [value_eq_ofDigits, List.reverse_reverse, Nat.ofDigits_digits]

theorem numeral_injective {m n : Nat} (h : numeral radix m = numeral radix n) : m = n := by
  rw [← @value_numeral radix m, h, value_numeral]

theorem numeral_lt (h : 1 < radix) (n : Nat) : ∀ d ∈ numeral radix n, d < radix := by
  intro d hd
  unfold numeral at hd
  split at hd
  · rw [List.mem_singleton.mp hd]
    exact Nat.zero_lt_of_lt h
  · exact Nat.digits_lt_base h (List.mem_reverse.mp hd)

end Numeral

/-! ### Conversion -/

section Conversion

variable {α : Type*} (radix : Nat) (number : List α → Nat) (turn : List α → Nat × List α)

/-- A turn of the conversion: the digits are divided, and leading zeros are left out. -/
structure Division : Prop where
  lt ds : (turn ds).1 < radix
  split ds : radix * number (turn ds).2 + (turn ds).1 = number ds
  trimmed ds : (turn ds).2 = [] ↔ number (turn ds).2 = 0

/-- What a turn makes smaller. -/
def size (ds : List α) : Nat := if ds.isEmpty then 0 else number ds + 1

variable {radix number turn}

namespace Division

variable (h : Division radix number turn) {ds : List α}

include h

/-- **The conversion ends.** -/
theorem size_lt (hradix : 1 < radix) (hds : ds ≠ []) :
    size number (turn ds).2 < size number ds := by
  have hsplit := h.split ds
  rw [size, size, if_neg (by simpa using hds : ¬ ds.isEmpty = true)]
  split
  · exact Nat.zero_lt_succ _
  next hrest =>
    have hpos : number (turn ds).2 ≠ 0 := fun hzero => hrest (by simpa using (h.trimmed ds).mpr hzero)
    have hmul : 2 * number (turn ds).2 ≤ radix * number (turn ds).2 :=
      Nat.mul_le_mul_right _ hradix
    omega

/-- The quotient and the remainder. -/
theorem quotient (ds : List α) :
    number (turn ds).2 = number ds / radix ∧ (turn ds).1 = number ds % radix := by
  rw [← h.split ds]
  have hlt := h.lt ds
  have hpos : 0 < radix := Nat.zero_lt_of_lt hlt
  constructor
  · rw [Nat.mul_add_div hpos, Nat.div_eq_of_lt hlt, Nat.add_zero]
  · rw [Nat.mul_add_mod, Nat.mod_eq_of_lt hlt]

/-- **Conversion**: a loop that puts the remainders in front of each other until no digits are left
gives the numeral. -/
theorem loop_eq {β : Type*} {char : Nat → β} {loop : List α → List β → List β}
    (hradix : 1 < radix) (hnil : ∀ out, loop [] out = out)
    (hloop : ∀ ds out, ds ≠ [] → loop ds out = loop (turn ds).2 (char (turn ds).1 :: out))
    (hds : ds ≠ []) (out : List β) :
    loop ds out = (numeral radix (number ds)).map char ++ out := by
  induction hn : size number ds using Nat.strong_induction_on generalizing ds out with
  | h n ih =>
      obtain ⟨hquotient, hremainder⟩ := h.quotient ds
      rw [hloop ds out hds, numeral_eq hradix, ← hquotient, ← hremainder, List.map_append,
        List.append_assoc]
      split
      next hzero =>
        rw [(h.trimmed ds).mpr hzero, hnil]
        rfl
      next hrest =>
        have hne : (turn ds).2 ≠ [] := fun hnil => hrest ((h.trimmed ds).mp hnil)
        exact ih _ (hn ▸ h.size_lt hradix hds) hne _ rfl

end Division

end Conversion

end LongDivision

end Data
