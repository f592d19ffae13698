import CorexManager.Python.Timezone

/-!
# The end of an identity

The backend writes `expires_at` of an identity with `datetime.isoformat`
(`_serialize_datetime`).  The gateway in Rust reads it as RFC 3339 and takes what it cannot read
for unlimited; the gateway in Python reads it with `datetime.fromisoformat` and replaces its offset
by UTC.

`expiry_agrees_iff` — the times at which both are right.
-/

namespace CorexManager.Gateway

open Data (Text)
open Python (Zoned)

/-- `is_expired` of the gateway in Rust, with `DateTime::parse_from_rfc3339` and the time, in
microseconds. -/
def isExpired (parseFromRfc3339 : Text → Option Int) (now : Int) (expiresAt : Text) : Bool :=
  ((parseFromRfc3339 expiresAt).map fun utc => decide (utc < now)).getD false

/-- The check in `_verify_pat` and `_verify_jwt` of the gateway in Python; `none` is an exception. -/
def expiredPython (now : Int) (expiresAt : Text) : Option Bool :=
  (Zoned.fromisoformat expiresAt).map fun dt =>
    -- the offset is replaced, not converted
    let exp : Zoned := { dt with offset := some ⟨false, 0, 0, 0, 0, by decide, by simp⟩ }
    decide (exp.instant < now)

section Expiry

variable {parseFromRfc3339 : Text → Option Int} {now : Int} {dt : Zoned}

theorem expiredPython_isoformat :
    expiredPython now dt.isoformat = some (decide (dt.reading.micros < now)) := by
  have hutc : ∀ offset : Python.Offset, offset.micros = 0 →
      (Zoned.mk dt.reading (some offset)).instant = dt.reading.micros := by
    intro offset hzero
    show dt.reading.micros - offset.micros = _
    rw [hzero, Int.sub_zero]
  rw [expiredPython, Zoned.fromisoformat_isoformat, Option.map_some]
  dsimp only
  rw [hutc _ rfl]

/-- A date without an offset, or with one that has seconds, never comes. -/
theorem isExpired_isoformat
    (hparse : parseFromRfc3339 dt.isoformat = Python.readRfc3339 dt.isoformat) :
    isExpired parseFromRfc3339 now dt.isoformat =
      (dt.offset.any (fun o => decide o.WholeMinutes) && decide (dt.instant < now)) := by
  rw [isExpired, hparse, Zoned.readRfc3339_isoformat]
  cases dt.offset with
  | none => rfl
  | some o =>
      rw [Option.bind_some, Option.any_some]
      by_cases hwhole : o.WholeMinutes
      · rw [if_pos hwhole, decide_eq_true hwhole, Bool.true_and]
        rfl
      · rw [if_neg hwhole, decide_eq_false hwhole, Bool.false_and]
        rfl

/-- **Both gateways are right** about a date in UTC as long as it has not come; about a date with
an offset of whole minutes, when its reading and its instant are on the same side of the present;
about any other date as long as neither has come.  The parser is one of RFC 3339. -/
theorem expiry_agrees_iff
    (hparse : parseFromRfc3339 dt.isoformat = Python.readRfc3339 dt.isoformat) :
    (some (isExpired parseFromRfc3339 now dt.isoformat) = expiredPython now dt.isoformat ∧
        isExpired parseFromRfc3339 now dt.isoformat = decide (dt.instant < now)) ↔
      match dt.offset with
      | none => now ≤ dt.instant
      | some o =>
          if o.WholeMinutes then (dt.reading.micros < now ↔ dt.instant < now)
          else now ≤ dt.reading.micros ∧ now ≤ dt.instant := by
  have hreading : dt.offset = none → dt.instant = dt.reading.micros := by
    intro hnone
    rw [Zoned.instant, hnone]
    exact Int.sub_zero _
  rw [expiredPython_isoformat, isExpired_isoformat hparse, Option.some_inj]
  cases hoffset : dt.offset with
  | none =>
      rw [hreading hoffset, Option.any_none, Bool.false_and, and_self, eq_comm, decide_eq_false_iff_not,
        Int.not_lt]
  | some o =>
      rw [Option.any_some]
      dsimp only
      by_cases hwhole : o.WholeMinutes
      · rw [if_pos hwhole, decide_eq_true hwhole, Bool.true_and, and_iff_left rfl, decide_eq_decide]
        exact ⟨Iff.symm, Iff.symm⟩
      · rw [if_neg hwhole, decide_eq_false hwhole, Bool.false_and]
        rw [eq_comm, decide_eq_false_iff_not, Int.not_lt, eq_comm, decide_eq_false_iff_not,
          Int.not_lt]

/-! ### A date that has passed -/

/-- The first of January of a year, as the backend keeps it. -/
def newYear (year : Nat) (h : 1 ≤ year ∧ year ≤ 9999) : Zoned :=
  ⟨⟨year, 1, 1, 0, 0, 0, 0, ⟨h.1, h.2, by decide, by decide, by decide, by simp [Python.daysInMonth]⟩,
    by decide⟩, none⟩

/-- Before it, both gateways are right. -/
theorem newYear_ahead :
    some (isExpired Python.readRfc3339 0 (newYear 2025 (by decide)).isoformat) =
        expiredPython 0 (newYear 2025 (by decide)).isoformat ∧
      isExpired Python.readRfc3339 0 (newYear 2025 (by decide)).isoformat =
        decide ((newYear 2025 (by decide)).instant < 0) :=
  (expiry_agrees_iff rfl).mpr (show (0 : Int) ≤ (newYear 2025 _).instant by decide)

/-- **A credential that never expires**: a year after its end the gateway in Rust still takes it,
and the gateway in Python does not. -/
theorem newYear_passed :
    isExpired Python.readRfc3339 (newYear 2026 (by decide)).instant
        (newYear 2025 (by decide)).isoformat = false ∧
      expiredPython (newYear 2026 (by decide)).instant (newYear 2025 (by decide)).isoformat =
        some true ∧
      (newYear 2025 (by decide)).instant < (newYear 2026 (by decide)).instant := by
  refine ⟨?_, ?_, by decide⟩
  · rw [isExpired_isoformat rfl]
    rfl
  · rw [expiredPython_isoformat]
    decide

end Expiry

end CorexManager.Gateway
