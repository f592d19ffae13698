import CorexManager.Logic.Transition
import Mathlib.Logic.Function.Basic

/-!
# The circuit breaker

`circuit_breaker.rs`, and the calls of `upstream.rs` that go through it: a call is checked, is on
its way for some time, and has its result recorded.

* `Phase` — what a circuit breaker is for: after enough failures in a row it refuses every call
  until the reset time, then lets a single probe through.
* `CircuitBreaker` — the breaker of the code, which counts failures and knows no probe.
* `Tracks` — the failures and the time that stand for a phase.
* `refines` — the two decide alike in runs in which no call comes while a probe is on its way, and
  none that was there before the circuit opened ends before it closes again.
-/

namespace CorexManager.Breaker

/-! ### What it is for -/

section Phases

variable {Call : Type*}

/-- The phases of a circuit. -/
inductive Phase (Call : Type*) where
  /-- So many calls have failed in a row. -/
  | closed (failures : Nat)
  /-- Calls are refused up to the time. -/
  | opened (resetAt : Nat)
  /-- The call is on its way, and all others are refused. -/
  | probing (probe : Call)

namespace Phase

/-- A call is let through. -/
def admits (now : Nat) : Phase Call → Bool
  | closed _ => true
  | opened resetAt => resetAt ≤ now
  | probing _ => false

/-- A call comes. -/
def called (now : Nat) (c : Call) : Phase Call → Phase Call
  | opened resetAt => if resetAt ≤ now then probing c else opened resetAt
  | p => p

variable [DecidableEq Call]

/-- The result of a call is recorded.  In a circuit that is not closed only that of the probe
counts. -/
def recorded (threshold reset now : Nat) (c : Call) (success : Bool) : Phase Call → Phase Call
  | closed failures =>
      if success then closed 0
      else if threshold ≤ failures + 1 then opened (now + reset) else closed (failures + 1)
  | opened resetAt => opened resetAt
  | probing probe =>
      if probe ≠ c then probing probe else if success then closed 0 else opened (now + reset)

end Phase

end Phases

/-! ### The breaker of the code -/

/-- `CbState`. -/
structure CbState where
  failures : Nat
  openUntil : Nat

/-- The settings of `CircuitBreaker`. -/
structure CircuitBreaker where
  failureThreshold : Nat
  resetSeconds : Nat

/-- The states of the servers that had failures. -/
abbrev States := Int → Option CbState

/-- `check`. -/
def check (states : States) (serverId : Int) (now : Nat) : Bool :=
  !(states serverId).any fun s => now < s.openUntil

/-- `record_success`. -/
def recordSuccess (states : States) (serverId : Int) : States :=
  Function.update states serverId none

/-- `record_failure`; the counter is of 32 bits. -/
def recordFailure (B : CircuitBreaker) (states : States) (serverId : Int) (now : Nat) : States :=
  let s := (states serverId).getD ⟨0, 0⟩
  let failures := (s.failures + 1) % 4294967296
  Function.update states serverId (some ⟨failures,
    if B.failureThreshold ≤ failures then now + B.resetSeconds else s.openUntil⟩)

/-- A response below 500 is a success; no response is a failure. -/
def succeeded (result : Option Nat) : Bool := result.any (· < 500)

/-- What `send_request` and the handshake record of a call. -/
def record (B : CircuitBreaker) (states : States) (serverId : Int) (now : Nat)
    (result : Option Nat) : States :=
  if succeeded result then recordSuccess states serverId else recordFailure B states serverId now

/-! ### The breaker tracks the phases -/

section Tracks

variable {Call : Type*} (B : CircuitBreaker)

/-- The failures and the time of a server are those of a phase. -/
def Tracks (now : Nat) (inFlight : Call → Option Int) (serverId : Int) (st : Option CbState) :
    Phase Call → Prop
  | .closed failures => st.getD ⟨0, 0⟩ = ⟨failures, 0⟩
  | .opened resetAt => ∃ failures, B.failureThreshold ≤ failures ∧ st = some ⟨failures, resetAt⟩
  | .probing probe => inFlight probe = some serverId ∧
      ∃ failures resetAt, B.failureThreshold ≤ failures ∧ resetAt ≤ now ∧
        st = some ⟨failures, resetAt⟩

variable {B} {now : Nat} {inFlight : Call → Option Int} {serverId : Int} {st : Option CbState}
  {p : Phase Call}

theorem Tracks.later (h : Tracks B now inFlight serverId st p) (d : Nat) :
    Tracks B (now + d) inFlight serverId st p := by
  cases p with
  | closed failures => exact h
  | opened resetAt => exact h
  | probing probe =>
      obtain ⟨hprobe, failures, resetAt, hfailures, hpassed, hst⟩ := h
      exact ⟨hprobe, failures, resetAt, hfailures, by omega, hst⟩

/-- Calls of other servers, and calls that come, do not matter. -/
theorem Tracks.keeps (h : Tracks B now inFlight serverId st p) {inFlight' : Call → Option Int}
    (hkeep : ∀ c, inFlight c = some serverId → inFlight' c = some serverId) :
    Tracks B now inFlight' serverId st p := by
  cases p with
  | closed failures => exact h
  | opened resetAt => exact h
  | probing probe => exact ⟨hkeep probe h.1, h.2⟩

end Tracks

/-! ### Runs -/

/-- The time, the breaker, the calls on their way with their servers, and what is expected of the
circuit of each server. -/
structure State (Call : Type*) where
  now : Nat
  states : States
  inFlight : Call → Option Int
  expected : Int → Phase Call

/-- A step: the check of a call, the end of one with its status, if it had a response. -/
inductive Act (Call : Type*) where
  | tick (d : Nat)
  | call (c : Call) (serverId : Int)
  | finish (c : Call) (result : Option Nat)

section Runs

variable {Call : Type*} [DecidableEq Call] (B : CircuitBreaker)

/-- One step. -/
def step (s : State Call) : Act Call → Option (State Call)
  | .tick d => some { s with now := s.now + d }
  | .call c serverId =>
      if s.inFlight c = none then
        some { s with
          inFlight :=
            if check s.states serverId s.now then Function.update s.inFlight c (some serverId)
            else s.inFlight
          expected :=
            Function.update s.expected serverId ((s.expected serverId).called s.now c) }
      else none
  | .finish c result =>
      match s.inFlight c with
      | some serverId => some { s with
          states := record B s.states serverId s.now result
          inFlight := Function.update s.inFlight c none
          expected := Function.update s.expected serverId ((s.expected serverId).recorded
            B.failureThreshold B.resetSeconds s.now c (succeeded result)) }
      | none => none

/-- The start, at some time. -/
def start (now : Nat) : State Call := ⟨now, fun _ => none, fun _ => none, fun _ => .closed 0⟩

/-- A call is let through exactly when it should be. -/
def Right (s : State Call) : Act Call → Prop
  | .call _ serverId => check s.states serverId s.now = (s.expected serverId).admits s.now
  | _ => True

/-- No call comes while a probe is on its way, and while the circuit is not closed no other call
ends; the counter does not overflow. -/
def Orderly (s : State Call) : Act Call → Prop
  | .tick _ => True
  | .call _ serverId => ∀ probe, s.expected serverId ≠ .probing probe
  | .finish c _ => ∀ serverId, s.inFlight c = some serverId →
      ((∃ failures, s.expected serverId = .closed failures) ∨ s.expected serverId = .probing c) ∧
        ∀ st, s.states serverId = some st → st.failures + 1 < 4294967296

/-- It does so for every server. -/
def Inv (s : State Call) : Prop :=
  ∀ serverId, Tracks B s.now s.inFlight serverId (s.states serverId) (s.expected serverId)

variable {B} {s s' : State Call} {now : Nat} {inFlight : Call → Option Int} {serverId : Int}
  {p : Phase Call}

/-- **A call**, when no probe is on its way: it is let through when it should be, and then is the
probe if the circuit was open. -/
theorem Tracks.called {states : States} (h : Tracks B now inFlight serverId (states serverId) p)
    (hprobe : ∀ probe, p ≠ .probing probe) (c : Call) :
    check states serverId now = p.admits now ∧
      Tracks B now (if check states serverId now then Function.update inFlight c (some serverId)
        else inFlight) serverId (states serverId) (p.called now c) := by
  cases p with
  | probing probe => exact absurd rfl (hprobe probe)
  | closed failures =>
      have hzero : check states serverId now = true := by
        rw [check]
        cases hst : states serverId with
        | none => rfl
        | some st =>
            have hst' : st = ⟨failures, 0⟩ := by
              rw [hst] at h
              exact h
            rw [hst', Option.any_some, decide_eq_false (Nat.not_lt_zero now)]
            rfl
      exact ⟨hzero, h⟩
  | opened resetAt =>
      obtain ⟨failures, hfailures, hst⟩ := h
      have hcheck : check states serverId now = decide (resetAt ≤ now) := by
        rw [check, hst, Option.any_some, ← decide_not, decide_eq_decide]
        exact Nat.not_lt
      rw [hcheck]
      refine ⟨rfl, ?_⟩
      by_cases hpassed : resetAt ≤ now
      · rw [Phase.called, if_pos hpassed, decide_eq_true hpassed, if_pos rfl]
        exact ⟨Function.update_self c _ inFlight, failures, resetAt, hfailures, hpassed, hst⟩
      · rw [Phase.called, if_neg hpassed]
        exact ⟨failures, hfailures, hst⟩

/-- **A result** in a closed circuit, or that of the probe. -/
theorem Tracks.recorded {states : States} (h : Tracks B now inFlight serverId (states serverId) p)
    {c : Call} (hphase : (∃ failures, p = .closed failures) ∨ p = .probing c)
    (hcount : ∀ st, states serverId = some st → st.failures + 1 < 4294967296)
    (inFlight' : Call → Option Int) (result : Option Nat) :
    Tracks B now inFlight' serverId (record B states serverId now result serverId)
      (p.recorded B.failureThreshold B.resetSeconds now c (succeeded result)) := by
  have hbound : ((states serverId).getD ⟨0, 0⟩).failures + 1 < 4294967296 := by
    cases hst : states serverId with
    | none => decide
    | some st => exact hcount st hst
  rw [record]
  cases succeeded result with
  | true =>
      have hclosed : p.recorded B.failureThreshold B.resetSeconds now c true = .closed 0 := by
        rcases hphase with ⟨failures, rfl⟩ | rfl
        · rfl
        · exact if_neg (not_not.mpr rfl)
      rw [hclosed, if_pos rfl, recordSuccess, Function.update_self]
      rfl
  | false =>
      rw [if_neg Bool.false_ne_true, recordFailure, Function.update_self, Nat.mod_eq_of_lt hbound]
      rcases hphase with ⟨failures, rfl⟩ | rfl
      · have hst : (states serverId).getD ⟨0, 0⟩ = ⟨failures, 0⟩ := h
        rw [hst]
        show Tracks B now inFlight' serverId _ (if B.failureThreshold ≤ failures + 1 then _ else _)
        by_cases hopen : B.failureThreshold ≤ failures + 1
        · rw [if_pos hopen, if_pos hopen]
          exact ⟨failures + 1, hopen, rfl⟩
        · rw [if_neg hopen, if_neg hopen]
          rfl
      · obtain ⟨-, failures, resetAt, hfailures, -, hst⟩ := h
        have hopen : B.failureThreshold ≤ failures + 1 := by omega
        have hphase : (Phase.probing c).recorded B.failureThreshold B.resetSeconds now c false =
            .opened (now + B.resetSeconds) := if_neg (not_not.mpr rfl)
        rw [hphase, hst, Option.getD_some, if_pos hopen]
        exact ⟨failures + 1, hopen, rfl⟩

/-- **A step** keeps the breaker on the track. -/
theorem step_inv (s : State Call) (a : Act Call) (s' : State Call) (h : Inv B s)
    (horderly : Orderly s a) (hstep : step B s a = some s') : Inv B s' := by
  cases a with
  | tick d =>
      obtain rfl := Option.some.inj hstep
      exact fun serverId => (h serverId).later d
  | call c serverId =>
      rw [step] at hstep
      split at hstep
      case isFalse => cases hstep
      case isTrue hfresh =>
        obtain rfl := Option.some.inj hstep
        intro other
        by_cases hother : other = serverId
        · subst hother
          have hcalled := ((h other).called horderly c).2
          rw [← Function.update_self other ((s.expected other).called s.now c) s.expected] at hcalled
          exact hcalled
        · have hexpected := Function.update_of_ne hother ((s.expected serverId).called s.now c) s.expected
          show Tracks B s.now _ other (s.states other) (Function.update s.expected serverId _ other)
          rw [hexpected]
          refine (h other).keeps fun c' hc' => ?_
          have hne : c' ≠ c := by
            rintro rfl
            cases hfresh.symm.trans hc'
          split
          · exact (Function.update_of_ne hne _ _).trans hc'
          · exact hc'
  | finish c result =>
      rw [step] at hstep
      split at hstep
      case h_2 => cases hstep
      case h_1 serverId hflight =>
        obtain rfl := Option.some.inj hstep
        obtain ⟨hphase, hcount⟩ := horderly serverId hflight
        intro other
        by_cases hother : other = serverId
        · subst hother
          have hrecorded := (h other).recorded hphase hcount (Function.update s.inFlight c none) result
          rw [← Function.update_self other ((s.expected other).recorded B.failureThreshold
            B.resetSeconds s.now c (succeeded result)) s.expected] at hrecorded
          exact hrecorded
        · have hexpected := Function.update_of_ne hother ((s.expected serverId).recorded
            B.failureThreshold B.resetSeconds s.now c (succeeded result)) s.expected
          have hstates : record B s.states serverId s.now result other = s.states other := by
            rw [record]
            split
            · exact Function.update_of_ne hother _ _
            · exact Function.update_of_ne hother _ _
          show Tracks B s.now _ other (record B s.states serverId s.now result other)
            (Function.update s.expected serverId _ other)
          rw [hexpected, hstates]
          refine (h other).keeps fun c' hc' => ?_
          have hne : c' ≠ c := by
            rintro rfl
            exact hother (Option.some.inj (hc'.symm.trans hflight))
          exact (Function.update_of_ne hne _ _).trans hc'

/-- **The breaker decides as a circuit breaker should** in orderly runs: after the threshold of
failures in a row it refuses every call up to the reset time, it then lets a single probe through,
and the result of the probe closes the circuit or opens it for a whole reset period. -/
theorem refines (now : Nat) (as : List (Act Call)) (h : Transition.Along (step B) Orderly (start now) as) :
    Transition.Along (step B) Right (start now) as := by
  refine Transition.along_imp (I := Inv B) step_inv (fun s a hinv horderly => ?_) (fun _ => rfl) h
  cases a with
  | tick d => trivial
  | finish c result => trivial
  | call c serverId => exact ((hinv serverId).called horderly c).1

end Runs

/-! ### Two probes -/

/-- One failure opens the circuit for a minute. -/
def strict : CircuitBreaker := ⟨1, 60⟩

/-- A call that fails, and another that comes at once. -/
def failure : List (Act Nat) := [.call 1 0, .finish 1 none, .call 2 0]

/-- The second is refused. -/
theorem failure_right : Transition.Along (step strict) Right (start 0) failure := by
  refine refines 0 failure ⟨nofun, fun s hs => ?_⟩
  obtain rfl := Option.some.inj hs
  refine ⟨fun serverId hflight => ?_, fun s hs => ?_⟩
  · obtain rfl : (0 : Int) = serverId := Option.some.inj hflight
    exact ⟨.inl ⟨0, rfl⟩, nofun⟩
  · obtain rfl := Option.some.inj hs
    exact ⟨nofun, fun _ _ => trivial⟩

/-- A failure, the reset time, and a call that is let through. -/
def afterReset : List (Act Nat) := [.call 1 0, .finish 1 none, .tick 60, .call 2 0]

/-- A failure of one of two calls, and the success of the other. -/
def lateSuccess : List (Act Nat) := [.call 1 0, .call 2 0, .finish 1 none, .finish 2 (some 200)]

/-- **A second probe is let through**, and a call that was there before the circuit opened closes
it. -/
theorem second_probe :
    (∃ s, Transition.run (step strict) (start 0) afterReset = some s ∧ s.expected 0 = .probing 2 ∧
      ¬ Right s (.call 3 0)) ∧
    ∃ s, Transition.run (step strict) (start 0) lateSuccess = some s ∧ s.expected 0 = .opened 60 ∧
      ¬ Right s (.call 3 0) := by
  refine ⟨⟨_, rfl, rfl, fun h => ?_⟩, _, rfl, rfl, fun h => ?_⟩
  · exact absurd h Bool.noConfusion
  · exact absurd h Bool.noConfusion

end CorexManager.Breaker
