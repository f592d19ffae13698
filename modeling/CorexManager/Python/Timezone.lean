import CorexManager.Python.DateTime

/-!
# Dates and times with a time zone

`isoformat` of a `datetime` with or without an offset from UTC, and two readers of what it writes:
`fromisoformat`, and RFC 3339, which knows no text without an offset and no offset with seconds.

* `fromisoformat_isoformat` — the first reader takes every text back.
* `readRfc3339_isoformat` — the second takes those back whose offset is of whole minutes.
-/

namespace Python

open Data

/-- An offset from UTC, of less than a day. -/
@[ext] structure Offset where
  negative : Bool
  hours : Nat
  minutes : Nat
  seconds : Nat
  microseconds : Nat
  bounds : hours < 24 ∧ minutes < 60 ∧ seconds < 60 ∧ microseconds < 1000000
  zero : hours = 0 → minutes = 0 → seconds = 0 → microseconds = 0 → negative = false

namespace Offset

instance : DecidableEq Offset := fun _ _ => decidable_of_iff _ Offset.ext_iff.symm

/-- The microseconds of an offset, without its sign. -/
def magnitude (o : Offset) : Nat :=
  ((o.hours * 60 + o.minutes) * 60 + o.seconds) * 1000000 + o.microseconds

/-- The microseconds of an offset. -/
def micros (o : Offset) : Int := if o.negative then -o.magnitude else o.magnitude

/-- The offset has no seconds. -/
def WholeMinutes (o : Offset) : Prop := o.seconds = 0 ∧ o.microseconds = 0

instance (o : Offset) : Decidable o.WholeMinutes := inferInstanceAs (Decidable (_ ∧ _))

/-- The sign of an offset. -/
def sign (o : Offset) : Char := if o.negative then '-' else '+'

/-- The seconds of an offset, if there are any. -/
def secondsText (o : Offset) : Text :=
  if o.WholeMinutes then []
  else ':' :: (zfill 2 o.seconds ++
    if o.microseconds = 0 then [] else '.' :: zfill 6 o.microseconds)

/-- An offset without its sign. -/
def text (o : Offset) : Text := zfill 2 o.hours ++ ':' :: (zfill 2 o.minutes ++ o.secondsText)

/-- An offset of these fields, if they are those of one. -/
def ofFields (negative : Bool) (hours minutes seconds microseconds : Nat) : Option Offset :=
  if h : hours < 24 ∧ minutes < 60 ∧ seconds < 60 ∧ microseconds < 1000000 then
    some ⟨negative && !(hours == 0 && minutes == 0 && seconds == 0 && microseconds == 0),
      hours, minutes, seconds, microseconds, h, by simp +contextual⟩
  else none

theorem text_plain (o : Offset) : ∀ c ∈ o.text, c ≠ '-' := by
  rintro c hc rfl
  unfold text secondsText at hc
  have hdigit : ∀ k n, '-' ∉ zfill k n := fun k n h => absurd (isDigit_zfill k n _ h) (by decide)
  split_ifs at hc <;> simp [hdigit] at hc

/-- Read the seconds of an offset. -/
def readSeconds (t : Text) : Option (Nat × Nat) :=
  if t = [] then some (0, 0)
  else (separator ':' t).bind fun t =>
    (field 2 t).bind fun (seconds, t) => (DateTime.readFraction t).map fun us => (seconds, us)

/-- Read an offset after its sign. -/
def read (negative : Bool) (t : Text) : Option Offset := do
  let (hours, t) ← field 2 t
  let t ← separator ':' t
  let (minutes, t) ← field 2 t
  let (seconds, microseconds) ← readSeconds t
  ofFields negative hours minutes seconds microseconds

theorem ofFields_self (o : Offset) :
    ofFields o.negative o.hours o.minutes o.seconds o.microseconds = some o := by
  have hnegative : (o.negative && !(o.hours == 0 && o.minutes == 0 && o.seconds == 0 &&
      o.microseconds == 0)) = o.negative := by
    cases hsign : o.negative with
    | false => rfl
    | true =>
        rw [Bool.true_and, Bool.not_eq_true']
        by_contra hzero
        simp only [Bool.not_eq_false, Bool.and_eq_true, beq_iff_eq] at hzero
        obtain ⟨⟨⟨hhours, hminutes⟩, hseconds⟩, hmicroseconds⟩ := hzero
        cases hsign.symm.trans (o.zero hhours hminutes hseconds hmicroseconds)
  rw [ofFields, dif_pos o.bounds]
  exact congrArg some (by cases o; simp only [Offset.mk.injEq, and_self, and_true]; exact hnegative)

theorem readSeconds_secondsText (o : Offset) :
    readSeconds o.secondsText = some (o.seconds, o.microseconds) := by
  unfold secondsText
  by_cases hwhole : o.WholeMinutes
  · rw [if_pos hwhole, hwhole.1, hwhole.2]
    rfl
  · have hseconds : o.seconds < 10 ^ 2 := by have := o.bounds; omega
    rw [if_neg hwhole, readSeconds, if_neg (List.cons_ne_nil _ _), separator_cons, Option.bind_some,
      field_zfill (by decide) hseconds, Option.bind_some]
    dsimp only
    by_cases hmicroseconds : o.microseconds = 0
    · rw [if_pos hmicroseconds, hmicroseconds]
      rfl
    · have hlt : o.microseconds < 10 ^ 6 := o.bounds.2.2.2
      have hfield := field_zfill (by decide) hlt []
      rw [List.append_nil] at hfield
      rw [if_neg hmicroseconds, DateTime.readFraction, if_neg (List.cons_ne_nil _ _),
        separator_cons, Option.bind_some, hfield]
      rfl

/-- **Offsets survive their format.** -/
theorem read_text (o : Offset) : read o.negative o.text = some o := by
  have hhours : o.hours < 10 ^ 2 := by have := o.bounds; omega
  have hminutes : o.minutes < 10 ^ 2 := by have := o.bounds; omega
  simp only [read, text, Option.bind_eq_bind, field_zfill (by decide) hhours,
    field_zfill (by decide) hminutes, separator_cons, Option.bind_some, readSeconds_secondsText,
    ofFields_self]

end Offset

/-! ### Dates and times -/

/-- The days before a year. -/
def daysBeforeYear (year : Nat) : Nat :=
  (year - 1) * 365 + (year - 1) / 4 - (year - 1) / 100 + (year - 1) / 400

/-- The days of a year before a month. -/
def daysBeforeMonth (year month : Nat) : Nat :=
  ((List.range (month - 1)).map fun i => daysInMonth year (i + 1)).sum

namespace DateTime

/-- The microseconds to a date and time, in the calendar that is the same for all years. -/
def micros (d : DateTime) : Int :=
  ((((daysBeforeYear d.year + daysBeforeMonth d.year d.month + d.day) * 24 + d.hour) * 60 +
    d.minute) * 60 + d.second) * 1000000 + d.microsecond

/-- The date in `isoformat`, with the separator after it. -/
def dateText (d : DateTime) : Text :=
  zfill 4 d.year ++ '-' :: (zfill 2 d.month ++ '-' :: (zfill 2 d.day ++ ['T']))

/-- The time in `isoformat`. -/
def timeText (d : DateTime) : Text :=
  zfill 2 d.hour ++ ':' :: (zfill 2 d.minute ++ ':' :: (zfill 2 d.second ++ d.fraction))

theorem isoformat_eq (d : DateTime) : d.isoformat = d.dateText ++ d.timeText := by
  simp [isoformat, dateText, timeText]

theorem length_dateText (d : DateTime) : d.dateText.length = 11 := by
  obtain ⟨-, hyear, -, hmonth, -, -⟩ := d.date
  have hday := d.day_le
  simp only [dateText, List.length_append, List.length_cons, List.length_nil,
    length_zfill (k := 4) (n := d.year) (by decide) (by omega),
    length_zfill (k := 2) (n := d.month) (by decide) (by omega),
    length_zfill (k := 2) (n := d.day) (by decide) (by omega)]

theorem timeText_chars (d : DateTime) : ∀ c ∈ d.timeText, c.isDigit = true ∨ c = ':' ∨ c = '.' := by
  intro c hc
  have hfraction : c ∈ d.fraction → c = '.' ∨ c.isDigit = true := by
    intro hc
    unfold fraction at hc
    split_ifs at hc
    · cases hc
    · exact (List.mem_cons.mp hc).imp_right (isDigit_zfill _ _ c)
  simp only [timeText, List.mem_append, List.mem_cons] at hc
  rcases hc with hc | hc | hc | hc | hc | hc
  · exact .inl (isDigit_zfill _ _ c hc)
  · exact .inr (.inl hc)
  · exact .inl (isDigit_zfill _ _ c hc)
  · exact .inr (.inl hc)
  · exact .inl (isDigit_zfill _ _ c hc)
  · exact (hfraction hc).symm.imp_right .inr

/-- No character of a time stands before an offset. -/
theorem timeText_plain (d : DateTime) : ∀ c ∈ d.timeText, c ≠ '-' ∧ c ≠ '+' := by
  intro c hc
  constructor <;> rintro rfl <;> rcases d.timeText_chars _ hc with h | h | h <;> exact absurd h (by decide)

end DateTime

/-- A date and time, with its offset if it is known. -/
structure Zoned where
  reading : DateTime
  offset : Option Offset
  deriving DecidableEq

namespace Zoned

/-- The instant, in microseconds of UTC; without an offset it is in UTC already. -/
def instant (z : Zoned) : Int := z.reading.micros - (z.offset.map Offset.micros).getD 0

/-- The offset of a date and time, in `isoformat`. -/
def zoneText (z : Zoned) : Text := z.offset.elim [] fun o => o.sign :: o.text

/-- `isoformat`. -/
def isoformat (z : Zoned) : Text := z.reading.isoformat ++ z.zoneText

/-- A time, its sign and its offset. -/
def cutAt (sign : Char) (time : Text) : Text × Char × Text :=
  (time.takeWhile (· ≠ sign), sign, (time.dropWhile (· ≠ sign)).tail)

/-- A time before its offset: up to a `-`, or else up to a `+`. -/
def splitZone (time : Text) : Option (Text × Char × Text) :=
  if '-' ∈ time then some (cutAt '-' time)
  else if '+' ∈ time then some (cutAt '+' time) else none

/-- `fromisoformat`. -/
def fromisoformat (t : Text) : Option Zoned :=
  match splitZone (t.drop 11) with
  | none => (DateTime.fromisoformat t).map fun d => ⟨d, none⟩
  | some (time, sign, zone) => do
      let d ← DateTime.fromisoformat (t.take 11 ++ time)
      let o ← Offset.read (sign == '-') zone
      some ⟨d, some o⟩

theorem cutAt_append {sign : Char} {time : Text} (h : ∀ c ∈ time, c ≠ sign) (zone : Text) :
    cutAt sign (time ++ sign :: zone) = (time, sign, zone) := by
  have htime : ∀ c ∈ time, decide (c ≠ sign) = true := fun c hc => decide_eq_true (h c hc)
  rw [cutAt, List.takeWhile_append_of_pos htime, List.dropWhile_append_of_pos htime]
  simp

theorem splitZone_zoneText (z : Zoned) :
    splitZone (z.reading.timeText ++ z.zoneText) =
      z.offset.map fun o => (z.reading.timeText, o.sign, o.text) := by
  have hplain := z.reading.timeText_plain
  rw [zoneText]
  cases z.offset with
  | none =>
      rw [Option.elim_none, List.append_nil, splitZone, if_neg fun h => (hplain _ h).1 rfl,
        if_neg fun h => (hplain _ h).2 rfl]
      rfl
  | some o =>
      rw [Option.elim_some, Option.map_some, Offset.sign]
      cases o.negative with
      | true =>
          rw [if_pos rfl, splitZone, if_pos (by simp), cutAt_append fun c hc => (hplain c hc).1]
      | false =>
          have hminus : '-' ∉ z.reading.timeText ++ '+' :: o.text := by
            rw [List.mem_append, List.mem_cons]
            rintro (h | h | h)
            · exact (hplain _ h).1 rfl
            · exact absurd h (by decide)
            · exact o.text_plain _ h rfl
          rw [if_neg Bool.false_ne_true, splitZone, if_neg hminus, if_pos (by simp),
            cutAt_append fun c hc => (hplain c hc).2]

/-- **Dates and times survive their format**, with their offsets. -/
theorem fromisoformat_isoformat (z : Zoned) : fromisoformat z.isoformat = some z := by
  have htext : z.isoformat = z.reading.dateText ++ (z.reading.timeText ++ z.zoneText) := by
    rw [isoformat, DateTime.isoformat_eq, List.append_assoc]
  have hlength := z.reading.length_dateText
  have hdrop : z.isoformat.drop 11 = z.reading.timeText ++ z.zoneText := by
    rw [htext, List.drop_left' hlength]
  have htake : z.isoformat.take 11 = z.reading.dateText := by rw [htext, List.take_left' hlength]
  rw [fromisoformat, hdrop, splitZone_zoneText]
  obtain ⟨d, offset⟩ := z
  cases offset with
  | none =>
      have hisoformat : (Zoned.mk d none).isoformat = d.isoformat := List.append_nil _
      rw [hisoformat, Option.map_none]
      dsimp only
      rw [DateTime.fromisoformat_isoformat]
      rfl
  | some o =>
      have hsign : (o.sign == '-') = o.negative := by
        rw [Offset.sign]
        cases o.negative <;> rfl
      rw [htake, Option.map_some]
      dsimp only
      rw [← DateTime.isoformat_eq, DateTime.fromisoformat_isoformat, hsign, Offset.read_text]
      rfl

end Zoned

/-! ### RFC 3339 -/

/-- The separator of date and time. -/
def rfcSeparator : Text → Option Text
  | c :: t => if c = 'T' ∨ c = 't' ∨ c = ' ' then some t else none
  | [] => none

/-- The fraction of a second, of any number of digits, to the microsecond. -/
def rfcFraction : Text → Option (Nat × Text)
  | '.' :: t =>
      let digits := t.takeWhile Char.isDigit
      (readNat ((digits ++ List.replicate (6 - digits.length) '0').take 6)).bind fun us =>
        if digits = [] then none else some (us, t.dropWhile Char.isDigit)
  | t => some (0, t)

/-- The hours and minutes of an offset, which end the text, in microseconds. -/
def rfcMinutes (t : Text) : Option Nat := do
  let (hours, t) ← field 2 t
  let t ← separator ':' t
  let (minutes, t) ← field 2 t
  if t = [] ∧ hours < 24 ∧ minutes < 60 then some ((hours * 60 + minutes) * 60000000) else none

/-- The offset. -/
def rfcOffset : Text → Option Int
  | [] => none
  | sign :: t =>
      if sign = '+' then (rfcMinutes t).map fun micros => micros
      else if sign = '-' then (rfcMinutes t).map fun micros => -micros
      else if (sign = 'Z' ∨ sign = 'z') ∧ t = [] then some 0
      else none

/-- `full-date`: year, month and day. -/
def rfcDate (t : Text) : Option ((Nat × Nat × Nat) × Text) := do
  let (year, t) ← field 4 t
  let t ← separator '-' t
  let (month, t) ← field 2 t
  let t ← separator '-' t
  let (day, t) ← field 2 t
  some ((year, month, day), t)

/-- `partial-time`: hour, minute, second and microsecond. -/
def rfcTime (t : Text) : Option ((Nat × Nat × Nat × Nat) × Text) := do
  let (hour, t) ← field 2 t
  let t ← separator ':' t
  let (minute, t) ← field 2 t
  let t ← separator ':' t
  let (second, t) ← field 2 t
  let (microsecond, t) ← rfcFraction t
  some ((hour, minute, second, microsecond), t)

/-- The instant that a text of RFC 3339 names. -/
def readRfc3339 (t : Text) : Option Int := do
  let ((year, month, day), t) ← rfcDate t
  let t ← rfcSeparator t
  let ((hour, minute, second, microsecond), t) ← rfcTime t
  let offset ← rfcOffset t
  let d ← DateTime.ofFields year month day hour minute second microsecond
  some (d.micros - offset)

theorem rfcFraction_dot (t : Text) : rfcFraction ('.' :: t) =
    (readNat ((t.takeWhile Char.isDigit ++ List.replicate (6 - (t.takeWhile Char.isDigit).length) '0').take
      6)).bind fun us => if t.takeWhile Char.isDigit = [] then none
        else some (us, t.dropWhile Char.isDigit) := rfl

theorem rfcFraction_fraction (d : DateTime) {rest : Text}
    (hrest : ∀ c ∈ rest.head?, c.isDigit = false ∧ c ≠ '.') :
    rfcFraction (d.fraction ++ rest) = some (d.microsecond, rest) := by
  unfold DateTime.fraction
  by_cases h : d.microsecond = 0
  · rw [if_pos h, h, List.nil_append]
    cases rest with
    | nil => rfl
    | cons c rest =>
        unfold rfcFraction
        split
        · next hdot => exact absurd (List.cons.inj hdot).1 (hrest c rfl).2
        · rfl
  · have hlt : d.microsecond < 10 ^ 6 := d.time.2.2.2
    have hlength := length_zfill (k := 6) (by decide) hlt
    have hdigits := isDigit_zfill 6 d.microsecond
    have htake : (zfill 6 d.microsecond ++ rest).takeWhile Char.isDigit = zfill 6 d.microsecond := by
      rw [List.takeWhile_append_of_pos hdigits]
      cases rest with
      | nil => simp
      | cons c rest => simp [(hrest c rfl).1]
    have hdrop : (zfill 6 d.microsecond ++ rest).dropWhile Char.isDigit = rest := by
      rw [List.dropWhile_append_of_pos hdigits]
      cases rest with
      | nil => simp
      | cons c rest => simp [(hrest c rfl).1]
    have hne : zfill 6 d.microsecond ≠ [] := List.ne_nil_of_length_eq_add_one hlength
    rw [if_neg h, List.cons_append, rfcFraction_dot, htake, hdrop, hlength, Nat.sub_self,
      List.replicate_zero, List.append_nil, List.take_of_length_le hlength.le, readNat_zfill, Option.bind_some, if_neg hne]

theorem rfcDate_dateText (d : DateTime) (rest : Text) :
    (rfcDate (d.dateText ++ rest)).bind (fun p => (rfcSeparator p.2).map fun t => (p.1, t)) =
      some ((d.year, d.month, d.day), rest) := by
  obtain ⟨-, hyear, -, hmonth, -, -⟩ := d.date
  have hday := d.day_le
  have htext : d.dateText ++ rest = zfill 4 d.year ++ '-' :: (zfill 2 d.month ++ '-' ::
      (zfill 2 d.day ++ 'T' :: rest)) := by simp [DateTime.dateText]
  simp only [htext, rfcDate, Option.bind_eq_bind,
    field_zfill (k := 4) (n := d.year) (by decide) (by omega),
    field_zfill (k := 2) (n := d.month) (by decide) (by omega),
    field_zfill (k := 2) (n := d.day) (by decide) (by omega), separator_cons, Option.bind_some]
  rfl

theorem rfcTime_timeText (d : DateTime) {rest : Text}
    (hrest : ∀ c ∈ rest.head?, c.isDigit = false ∧ c ≠ '.') :
    rfcTime (d.timeText ++ rest) = some ((d.hour, d.minute, d.second, d.microsecond), rest) := by
  obtain ⟨hhour, hminute, hsecond, -⟩ := d.time
  have htext : d.timeText ++ rest = zfill 2 d.hour ++ ':' :: (zfill 2 d.minute ++ ':' ::
      (zfill 2 d.second ++ (d.fraction ++ rest))) := by simp [DateTime.timeText]
  simp only [htext, rfcTime, Option.bind_eq_bind,
    field_zfill (k := 2) (n := d.hour) (by decide) (by omega),
    field_zfill (k := 2) (n := d.minute) (by decide) (by omega),
    field_zfill (k := 2) (n := d.second) (by decide) (by omega), separator_cons, Option.bind_some,
    rfcFraction_fraction d hrest]

namespace Zoned

theorem zoneText_head (z : Zoned) : ∀ c ∈ z.zoneText.head?, c.isDigit = false ∧ c ≠ '.' := by
  intro c hc
  rw [zoneText] at hc
  cases hoffset : z.offset with
  | none =>
      rw [hoffset] at hc
      cases hc
  | some o =>
      rw [hoffset] at hc
      obtain rfl := Option.some.inj hc
      rw [Offset.sign]
      cases o.negative <;> decide

/-- What is read depends on the offset alone. -/
theorem readRfc3339_eq (z : Zoned) :
    readRfc3339 z.isoformat = (rfcOffset z.zoneText).map fun offset => z.reading.micros - offset := by
  have hdate := rfcDate_dateText z.reading (z.reading.timeText ++ z.zoneText)
  obtain ⟨p, hp, hseparator⟩ := Option.bind_eq_some_iff.mp hdate
  obtain ⟨t, ht, hpair⟩ := Option.map_eq_some_iff.mp hseparator
  obtain ⟨hfields, rfl⟩ := Prod.mk.inj hpair
  obtain ⟨fields, u⟩ := p
  dsimp only at hfields ht
  subst hfields
  rw [isoformat, DateTime.isoformat_eq, List.append_assoc, readRfc3339, hp, Option.bind_eq_bind,
    Option.bind_some]
  dsimp only
  rw [ht, Option.bind_eq_bind, Option.bind_some, rfcTime_timeText z.reading z.zoneText_head,
    Option.bind_eq_bind, Option.bind_some]
  dsimp only
  rw [DateTime.ofFields_self]
  cases rfcOffset z.zoneText <;> rfl

/-- An offset with seconds does not end where RFC 3339 ends it. -/
theorem rfcMinutes_text (o : Offset) :
    rfcMinutes o.text = if o.WholeMinutes then some o.magnitude else none := by
  have hhours : o.hours < 10 ^ 2 := by have := o.bounds; omega
  have hminutes : o.minutes < 10 ^ 2 := by have := o.bounds; omega
  simp only [rfcMinutes, Offset.text, Option.bind_eq_bind, field_zfill (by decide) hhours,
    field_zfill (by decide) hminutes, separator_cons, Option.bind_some]
  by_cases hwhole : o.WholeMinutes
  · have hmagnitude : o.magnitude = (o.hours * 60 + o.minutes) * 60000000 := by
      rw [Offset.magnitude, hwhole.1, hwhole.2]
      omega
    rw [Offset.secondsText, if_pos hwhole, if_pos ⟨rfl, o.bounds.1, o.bounds.2.1⟩, if_pos hwhole,
      hmagnitude]
  · rw [Offset.secondsText, if_neg hwhole, if_neg hwhole]
    exact if_neg fun h => List.cons_ne_nil _ _ h.1

theorem rfcOffset_zoneText (z : Zoned) :
    rfcOffset z.zoneText =
      z.offset.bind fun o => if o.WholeMinutes then some o.micros else none := by
  rw [zoneText]
  cases z.offset with
  | none => rfl
  | some o =>
      rw [Option.elim_some, Option.bind_some, Offset.sign, Offset.micros]
      cases o.negative with
      | true =>
          rw [if_pos rfl, if_pos rfl, rfcOffset, if_neg (by decide), if_pos rfl, rfcMinutes_text]
          split_ifs <;> rfl
      | false =>
          rw [if_neg Bool.false_ne_true, if_neg Bool.false_ne_true, rfcOffset, if_pos rfl,
            rfcMinutes_text]
          split_ifs <;> rfl

/-- **RFC 3339 reads** a date and time whose offset is of whole minutes, and no other. -/
theorem readRfc3339_isoformat (z : Zoned) :
    readRfc3339 z.isoformat =
      z.offset.bind fun o => if o.WholeMinutes then some z.instant else none := by
  rw [readRfc3339_eq, rfcOffset_zoneText, instant]
  cases z.offset with
  | none => rfl
  | some o =>
      rw [Option.bind_some, Option.bind_some]
      split_ifs <;> rfl

end Zoned

end Python
