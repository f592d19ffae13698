import CorexManager.Data.Text

/-!
# Dates and times

`datetime` without a time zone: `isoformat`, and `fromisoformat` on the texts it
writes.  `fromisoformat_isoformat` is the round trip.
-/

namespace Python

open Data

/-- The days of a month. -/
def daysInMonth (year month : Nat) : Nat :=
  if month = 2 then
    if year % 4 = 0 ∧ (year % 100 ≠ 0 ∨ year % 400 = 0) then 29 else 28
  else if month = 4 ∨ month = 6 ∨ month = 9 ∨ month = 11 then 30
  else 31

/-- A point in time, to the microsecond. -/
structure DateTime where
  year : Nat
  month : Nat
  day : Nat
  hour : Nat
  minute : Nat
  second : Nat
  microsecond : Nat
  date : 1 ≤ year ∧ year ≤ 9999 ∧ 1 ≤ month ∧ month ≤ 12 ∧ 1 ≤ day ∧ day ≤ daysInMonth year month
  time : hour < 24 ∧ minute < 60 ∧ second < 60 ∧ microsecond < 1000000
  deriving DecidableEq

/-! ### Fields of fixed width -/

/-- Fill up with zeros. -/
def zfill (k n : Nat) : Text := List.replicate (k - (natText n).length) '0' ++ natText n

/-- Read a field of `k` digits off the beginning. -/
def field (k : Nat) (t : Text) : Option (Nat × Text) :=
  if (t.take k).length = k then (readNat (t.take k)).map fun n => (n, t.drop k) else none

/-- Read a separator off the beginning. -/
def separator (c : Char) : Text → Option Text
  | d :: t => if d = c then some t else none
  | [] => none

theorem isDigit_zfill (k n : Nat) : ∀ c ∈ zfill k n, c.isDigit = true := by
  intro c hc
  rcases List.mem_append.mp hc with hc | hc
  · rw [List.eq_of_mem_replicate hc]
    decide
  · exact natText_isDigit n c hc

theorem readNat_zfill (k n : Nat) : readNat (zfill k n) = some n := by
  have hall : (zfill k n).all Char.isDigit = true := List.all_eq_true.mpr (isDigit_zfill k n)
  have hne : zfill k n ≠ [] := List.append_ne_nil_of_right_ne_nil _ (natText_ne_nil n)
  rw [readNat, if_pos ⟨hne, hall⟩, zfill, Nat.ofDigitChars_append, Nat.ofDigitChars_replicate_zero,
    Nat.mul_zero]
  exact congrArg some Nat.ofDigitChars_ten_toDigits

theorem length_zfill {k n : Nat} (hk : 0 < k) (hn : n < 10 ^ k) : (zfill k n).length = k := by
  have hle : (natText n).length ≤ k := (Nat.length_toDigits_le_iff (by decide) hk).mpr hn
  rw [zfill, List.length_append, List.length_replicate]
  omega

/-- **A field reads itself** in front of anything. -/
theorem field_zfill {k n : Nat} (hk : 0 < k) (hn : n < 10 ^ k) (rest : Text) :
    field k (zfill k n ++ rest) = some (n, rest) := by
  have hlength := length_zfill hk hn
  have htake : (zfill k n ++ rest).take k = zfill k n := List.take_left' hlength
  have hdrop : (zfill k n ++ rest).drop k = rest := List.drop_left' hlength
  rw [field, htake, if_pos hlength, readNat_zfill, hdrop]
  rfl

theorem separator_cons (c : Char) (t : Text) : separator c (c :: t) = some t := if_pos rfl

/-! ### The two formats -/

namespace DateTime

/-- The fraction of a second, when there is one. -/
def fraction (d : DateTime) : Text :=
  if d.microsecond = 0 then [] else '.' :: zfill 6 d.microsecond

/-- `isoformat`. -/
def isoformat (d : DateTime) : Text :=
  zfill 4 d.year ++ '-' :: (zfill 2 d.month ++ '-' :: (zfill 2 d.day ++ 'T' ::
    (zfill 2 d.hour ++ ':' :: (zfill 2 d.minute ++ ':' :: (zfill 2 d.second ++ d.fraction)))))

/-- Read the fraction of a second. -/
def readFraction (t : Text) : Option Nat :=
  if t = [] then some 0
  else (separator '.' t).bind fun t =>
    (field 6 t).bind fun (us, rest) => if rest = [] then some us else none

/-- A date and a time, if the fields are those of one. -/
def ofFields (year month day hour minute second microsecond : Nat) : Option DateTime :=
  if h : (1 ≤ year ∧ year ≤ 9999 ∧ 1 ≤ month ∧ month ≤ 12 ∧ 1 ≤ day ∧
      day ≤ daysInMonth year month) ∧
      (hour < 24 ∧ minute < 60 ∧ second < 60 ∧ microsecond < 1000000) then
    some ⟨year, month, day, hour, minute, second, microsecond, h.1, h.2⟩
  else none

/-- `fromisoformat`. -/
def fromisoformat (t : Text) : Option DateTime := do
  let (year, t) ← field 4 t
  let t ← separator '-' t
  let (month, t) ← field 2 t
  let t ← separator '-' t
  let (day, t) ← field 2 t
  let t ← separator 'T' t
  let (hour, t) ← field 2 t
  let t ← separator ':' t
  let (minute, t) ← field 2 t
  let t ← separator ':' t
  let (second, t) ← field 2 t
  let microsecond ← readFraction t
  ofFields year month day hour minute second microsecond

theorem ofFields_self (d : DateTime) :
    ofFields d.year d.month d.day d.hour d.minute d.second d.microsecond = some d :=
  dif_pos ⟨d.date, d.time⟩

theorem readFraction_fraction (d : DateTime) : readFraction d.fraction = some d.microsecond := by
  unfold fraction
  by_cases h : d.microsecond = 0
  · rw [if_pos h, h]
    rfl
  · have hlt : d.microsecond < 10 ^ 6 := d.time.2.2.2
    have hfield := field_zfill (by decide) hlt []
    rw [List.append_nil] at hfield
    rw [if_neg h, readFraction, if_neg (List.cons_ne_nil _ _), separator_cons]
    show (field 6 (zfill 6 d.microsecond)).bind _ = _
    rw [hfield]
    rfl

theorem day_le (d : DateTime) : d.day ≤ 31 := by
  have hle := d.date.2.2.2.2.2
  unfold daysInMonth at hle
  split_ifs at hle <;> omega

/-- **Dates and times survive their format.** -/
theorem fromisoformat_isoformat (d : DateTime) : fromisoformat d.isoformat = some d := by
  obtain ⟨-, hyear, -, hmonth, -, -⟩ := d.date
  obtain ⟨hhour, hminute, hsecond, -⟩ := d.time
  have hday := d.day_le
  have hfour : d.year < 10 ^ 4 := by omega
  have htwo : ∀ {n}, n < 60 → n < 10 ^ 2 := by omega
  simp only [fromisoformat, isoformat, Option.bind_eq_bind, field_zfill (by decide) hfour,
    field_zfill (by decide) (htwo (show d.month < 60 by omega)),
    field_zfill (by decide) (htwo (show d.day < 60 by omega)),
    field_zfill (by decide) (htwo (show d.hour < 60 by omega)),
    field_zfill (by decide) (htwo hminute), field_zfill (by decide) (htwo hsecond),
    separator_cons, Option.bind_some, readFraction_fraction, ofFields_self]

theorem isoformat_injective {d e : DateTime} (h : d.isoformat = e.isoformat) : d = e := by
  have hread := congrArg fromisoformat h
  rw [fromisoformat_isoformat, fromisoformat_isoformat] at hread
  exact Option.some.inj hread

/-- The characters of the format. -/
theorem isoformat_chars (d : DateTime) :
    ∀ c ∈ d.isoformat, c.isDigit = true ∨ c = '-' ∨ c = 'T' ∨ c = ':' ∨ c = '.' := by
  have hfield : ∀ {k n : Nat} {c : Char}, c ∈ zfill k n → c.isDigit = true :=
    fun hc => isDigit_zfill _ _ _ hc
  have hfraction : ∀ c ∈ d.fraction, c = '.' ∨ c.isDigit = true := by
    intro c hc
    unfold fraction at hc
    split_ifs at hc
    · cases hc
    · exact (List.mem_cons.mp hc).imp_right hfield
  intro c hc
  simp only [isoformat, List.mem_append, List.mem_cons] at hc
  rcases hc with hc | hc | hc | hc | hc | hc | hc | hc | hc | hc | hc | hc
  all_goals first
    | exact .inl (hfield hc)
    | simp [hc]
    | (rcases hfraction c hc with hc | hc <;> simp [hc])

/-- The order of dates and times, as numbers. -/
def key (d : DateTime) : Nat :=
  (((((d.year * 12 + d.month) * 31 + d.day) * 24 + d.hour) * 60 + d.minute) * 60 + d.second) *
    1000000 + d.microsecond

end DateTime

end Python
