import CorexManager.Logic.Transition

/-!
# Periodic tasks

`PeriodicTask` of `services/scheduler.py`: a thread that ticks, waits an interval and ticks again.
The time of the last run is kept in a setting, so that a process that starts knows whether the
task is due; if it is not, it first waits until it is.

* `step` — the clock, the thread, and what ends a process.
* `InTime` — the schedule the module promises: no tick in less than an interval after the last
  successful run, and one when the interval is over.
* `schedule_kept` — it is kept in runs in which no process stays up from before the task is due
  until it is, and every process that starts finds the time of the last successful run.
-/

namespace CorexManager.Periodic

/-! ### The task -/

/-- The settings of a `PeriodicTask`. -/
structure PeriodicTask where
  intervalSeconds : Nat
  skipInitialIfNotDue : Bool

/-- What the thread does. -/
inductive Phase where
  /-- The process is not up. -/
  | down
  /-- The first wait of `_run`, up to a time. -/
  | waitsRemaining (till : Nat)
  /-- The wait of its loop. -/
  | waitsInterval (till : Nat)
  /-- `_run_tick`. -/
  | ticking
  deriving DecidableEq

/-- What comes of `_tick`; after a success `_stamp` may fail. -/
inductive Outcome where
  | raised | failed | stamped | unstamped
  deriving DecidableEq

/-- The run was successful. -/
def Outcome.ok : Outcome → Bool
  | .stamped | .unstamped => true
  | .raised | .failed => false

/-- A required file is missing, the time in the setting, and the thread; then what happened: when
the process came up, when the last successful run ended, and whether the task ticked since. -/
structure State where
  now : Nat
  missing : Bool
  lastRunAt : Option Nat
  phase : Phase
  upSince : Nat
  lastSuccess : Option Nat
  ticked : Bool

/-- A step.  The clock does not go back, and a wait ends on time. -/
inductive Act where
  | advance (d : Nat)
  | files (missing : Bool)
  | start
  /-- The process ends, or the task is stopped. -/
  | kill
  /-- A wait is over. -/
  | wake
  | finish (outcome : Outcome)

section Schedule

variable (T : PeriodicTask)

/-- `_is_due`. -/
def isDue (s : State) : Bool :=
  s.missing || s.lastRunAt.all fun last => T.intervalSeconds ≤ s.now - last

/-- `_remaining_seconds`. -/
def remainingSeconds (s : State) : Nat :=
  s.lastRunAt.elim 0 fun last => T.intervalSeconds - (s.now - last)

/-- The time up to which the thread waits. -/
def Phase.till : Phase → Option Nat
  | waitsRemaining till | waitsInterval till => some till
  | down | ticking => none

/-- `_run_tick` begins. -/
def State.tick (s : State) : State := { s with phase := .ticking, ticked := true }

/-- One step. -/
def step (s : State) : Act → Option State
  | .advance d =>
      if s.phase.till.all fun till => s.now + d ≤ till then some { s with now := s.now + d } else none
  | .files missing => some { s with missing := missing }
  | .start =>
      if s.phase = .down then
        let s := { s with upSince := s.now }
        if T.skipInitialIfNotDue && !isDue T s then
          some { s with phase := .waitsRemaining (s.now + remainingSeconds T s) }
        else some s.tick
      else none
  | .kill => if s.phase = .down then none else some { s with phase := .down }
  | .wake =>
      match s.phase with
      | .waitsRemaining till =>
          if till ≤ s.now then
            -- the loop begins with a wait of its own
            some { s with phase := .waitsInterval (s.now + T.intervalSeconds) }
          else none
      | .waitsInterval till => if till ≤ s.now then some s.tick else none
      | _ => none
  | .finish outcome =>
      if s.phase = .ticking then
        some { s with
          phase := .waitsInterval (s.now + T.intervalSeconds)
          lastRunAt := if outcome = .stamped then some s.now else s.lastRunAt
          lastSuccess := if outcome.ok then some s.now else s.lastSuccess
          ticked := !outcome.ok }
      else none

/-- A task that never ran. -/
def fresh (now : Nat) : State := ⟨now, false, none, .down, 0, none, false⟩

/-! ### The schedule -/

/-- The step begins a tick. -/
def beginsTick (s : State) : Act → Bool
  | .start => !(T.skipInitialIfNotDue && !isDue T s)
  | .wake => match s.phase with
      | .waitsInterval _ => true
      | _ => false
  | _ => false

/-- A tick does not begin less than an interval after the last successful run, unless a file is
missing. -/
def NotEarly (s : State) (a : Act) : Prop :=
  beginsTick T s a = true → s.missing = false →
    ∀ last, s.lastSuccess = some last → last + T.intervalSeconds ≤ s.now

/-- In a process that is up, a task that did not tick since its last successful run is not late
for the next: the interval is not over, or the process has just come up. -/
def NotLate (s : State) : Prop :=
  s.phase ≠ .down → s.ticked = false → ∀ last, s.lastSuccess = some last →
    s.now ≤ max s.upSince (last + T.intervalSeconds)

/-- A process that starts finds the time of the last successful run, and a task that is due, or
may wait; the wait does not come to its end. -/
def Resumed (s : State) : Act → Prop
  | .start => s.lastRunAt = s.lastSuccess ∧ (T.skipInitialIfNotDue = true ∨ isDue T s = true)
  | .wake => ∀ till, s.phase ≠ .waitsRemaining till
  | _ => True

/-- Where the thread is, in terms of the last successful run. -/
def OnSchedule (s : State) : Phase → Prop
  | .down => True
  | .ticking => s.ticked = true
  | .waitsRemaining till => s.now ≤ till ∧
      ∃ last, s.lastSuccess = some last ∧ till = last + T.intervalSeconds
  | .waitsInterval till => s.now ≤ till ∧ ∀ last, s.lastSuccess = some last →
      last + T.intervalSeconds ≤ till ∧ (s.ticked = false → till = last + T.intervalSeconds)

/-- No run ends in the future, and the thread is on schedule. -/
structure Inv (s : State) : Prop where
  past : ∀ last, s.lastSuccess = some last → last ≤ s.now
  phase : OnSchedule T s s.phase

variable {T} {s s' : State}

theorem Inv.notLate (h : Inv T s) : NotLate T s := by
  intro hup hticked last hlast
  have hphase := h.phase
  cases hs : s.phase with
  | down => exact absurd hs hup
  | ticking =>
      rw [hs] at hphase
      cases hticked.symm.trans hphase
  | waitsRemaining till =>
      rw [hs] at hphase
      obtain ⟨hnow, last', hlast', htill⟩ := hphase
      cases hlast.symm.trans hlast'
      omega
  | waitsInterval till =>
      rw [hs] at hphase
      have htill := (hphase.2 last hlast).2 hticked
      have hnow := hphase.1
      omega

/-- A task that is due by its setting is due. -/
theorem due_of_isDue (hdue : isDue T s = true) (hmissing : s.missing = false) {last : Nat}
    (hlast : s.lastRunAt = some last) : T.intervalSeconds ≤ s.now - last := by
  rw [isDue, hmissing, Bool.false_or, hlast, Option.all_some] at hdue
  exact of_decide_eq_true hdue

/-- The ticks of a step under the condition are in time. -/
theorem Inv.notEarly (h : Inv T s) {a : Act} (hresumed : Resumed T s a)
    (hstep : step T s a = some s') : NotEarly T s a := by
  intro hbegins hmissing last hlast
  have hpast := h.past last hlast
  cases a with
  | start =>
      have hdue : isDue T s = true := by
        rcases hresumed.2 with hskip | hdue
        · rw [beginsTick, hskip, Bool.true_and, Bool.not_not] at hbegins
          exact hbegins
        · exact hdue
      have hage := due_of_isDue hdue hmissing (hresumed.1.trans hlast)
      omega
  | wake =>
      have hphase := h.phase
      rw [beginsTick] at hbegins
      split at hbegins
      case h_2 => cases hbegins
      case h_1 till hs =>
        rw [hs] at hphase
        have htill := (hphase.2 last hlast).1
        simp only [step, hs] at hstep
        split at hstep
        · omega
        · cases hstep
  | advance d => cases hbegins
  | files missing => cases hbegins
  | kill => cases hbegins
  | finish outcome => cases hbegins

/-- **A step** keeps the schedule. -/
theorem step_inv (s : State) (a : Act) (s' : State) (h : Inv T s) (hresumed : Resumed T s a)
    (hstep : step T s a = some s') : Inv T s' := by
  have hpast := h.past
  have hphase := h.phase
  cases a with
  | advance d =>
      rw [step] at hstep
      split at hstep
      case isFalse => cases hstep
      case isTrue htill =>
        obtain rfl := Option.some.inj hstep
        refine ⟨fun last hlast => Nat.le_add_right_of_le (hpast last hlast), ?_⟩
        show OnSchedule T { s with now := s.now + d } s.phase
        cases hs : s.phase with
        | down => trivial
        | ticking =>
            rw [hs] at hphase
            exact hphase
        | waitsRemaining till =>
            rw [hs] at hphase htill
            exact ⟨of_decide_eq_true htill, hphase.2⟩
        | waitsInterval till =>
            rw [hs] at hphase htill
            exact ⟨of_decide_eq_true htill, hphase.2⟩
  | files missing =>
      obtain rfl := Option.some.inj hstep
      refine ⟨hpast, ?_⟩
      show OnSchedule T { s with missing := missing } s.phase
      cases hs : s.phase <;> rw [hs] at hphase <;> exact hphase
  | kill =>
      rw [step] at hstep
      split at hstep
      · cases hstep
      · obtain rfl := Option.some.inj hstep
        exact ⟨hpast, trivial⟩
  | start =>
      rw [step] at hstep
      split at hstep
      case isFalse => cases hstep
      case isTrue hdown =>
        dsimp only at hstep
        split at hstep
        case isFalse =>
          obtain rfl := Option.some.inj hstep
          exact ⟨hpast, rfl⟩
        case isTrue hwaits =>
          obtain rfl := Option.some.inj hstep
          refine ⟨hpast, Nat.le_add_right _ _, ?_⟩
          -- it is not due, so that there is a last run, less than an interval ago
          have hnot : isDue T s = false := by
            rcases hdue : isDue T s with _ | _
            · rfl
            · have hnot := (Bool.and_eq_true_iff.mp hwaits).2
              rw [show isDue T { s with upSince := s.now } = isDue T s from rfl, hdue] at hnot
              cases hnot
          rw [isDue, Bool.or_eq_false_iff] at hnot
          cases hlast : s.lastRunAt with
          | none =>
              rw [hlast] at hnot
              cases hnot.2
          | some last =>
              rw [hlast, Option.all_some, decide_eq_false_iff_not] at hnot
              have hsuccess := hresumed.1.symm.trans hlast
              have hle := hpast last hsuccess
              refine ⟨last, hsuccess, ?_⟩
              have hage := hnot.2
              show s.now + (T.intervalSeconds - (s.now - last)) = last + T.intervalSeconds
              omega
  | wake =>
      simp only [step] at hstep
      split at hstep
      case h_1 till hs => exact absurd hs (hresumed till)
      case h_2 till hs =>
        split at hstep
        · obtain rfl := Option.some.inj hstep
          exact ⟨hpast, rfl⟩
        · cases hstep
      case h_3 => cases hstep
  | finish outcome =>
      rw [step] at hstep
      split at hstep
      case isFalse => cases hstep
      case isTrue hticking =>
        obtain rfl := Option.some.inj hstep
        cases hok : outcome.ok with
        | true =>
            refine ⟨fun last hlast => ?_, Nat.le_add_right _ _, fun last hlast => ?_⟩
            · exact Nat.le_of_eq (Option.some.inj hlast).symm
            · obtain rfl := Option.some.inj hlast
              exact ⟨Nat.le_refl _, fun _ => rfl⟩
        | false =>
            refine ⟨hpast, Nat.le_add_right _ _, fun last hlast => ?_⟩
            exact ⟨Nat.add_le_add_right (hpast last hlast) _, nofun⟩

/-- **The schedule is kept** in runs in which every process that starts finds the time of the last
successful run, and none stays up from before the task is due until it is: no tick is early, and
none is late. -/
theorem schedule_kept (now : Nat) (as : List Act)
    (h : Transition.Along (step T) (Resumed T) (fresh now) as) :
    Transition.Along (step T) (fun s a => (step T s a).isSome → NotEarly T s a) (fresh now) as ∧
      ∀ s, Transition.run (step T) (fresh now) as = some s → NotLate T s := by
  have hfresh : Inv T (fresh now) := ⟨nofun, trivial⟩
  constructor
  · refine Transition.along_imp step_inv (fun s a hinv hresumed hsome => ?_) hfresh h
    obtain ⟨s', hstep⟩ := Option.isSome_iff_exists.mp hsome
    exact hinv.notEarly hresumed hstep
  · exact fun s hrun => (Transition.run_invariant step_inv hfresh h hrun).notLate

end Schedule

/-! ### A process that starts before the task is due -/

/-- A task of ten seconds. -/
def everyTen : PeriodicTask := ⟨10, true⟩

/-- Two ticks in one process. -/
def oneProcess : List Act := [.start, .finish .stamped, .advance 10, .wake, .finish .stamped]

/-- They are in time. -/
theorem oneProcess_kept :
    Transition.Along (step everyTen) (fun s a => (step everyTen s a).isSome → NotEarly everyTen s a)
        (fresh 0) oneProcess ∧
      ∀ s, Transition.run (step everyTen) (fresh 0) oneProcess = some s → NotLate everyTen s := by
  refine schedule_kept 0 oneProcess ?_
  refine ⟨⟨rfl, .inl rfl⟩, fun s hs => ?_⟩
  obtain rfl := Option.some.inj hs
  refine ⟨trivial, fun s hs => ?_⟩
  obtain rfl := Option.some.inj hs
  refine ⟨trivial, fun s hs => ?_⟩
  obtain rfl := Option.some.inj hs
  refine ⟨nofun, fun s hs => ?_⟩
  obtain rfl := Option.some.inj hs
  exact ⟨trivial, fun _ _ => trivial⟩

/-- A run, a process that ends and one that starts a second later, and the time after that. -/
def restarted : List Act :=
  [.start, .finish .stamped, .kill, .advance 1, .start, .advance 9, .wake, .advance 5]

/-- **The task is late**: after the wait until it is due it waits an interval more. -/
theorem restarted_late :
    ∃ s, Transition.run (step everyTen) (fresh 0) restarted = some s ∧
      s.phase = .waitsInterval 20 ∧ ¬ NotLate everyTen s := by
  refine ⟨_, rfl, rfl, fun h => ?_⟩
  exact absurd (h Phase.noConfusion rfl 0 rfl) (by decide)

end CorexManager.Periodic
