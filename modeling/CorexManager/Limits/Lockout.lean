import CorexManager.Data.Store
import CorexManager.Data.Text
import CorexManager.Logic.Transition
import CorexManager.Logic.Window
import Mathlib.Algebra.Order.Ring.Rat

/-!
# Lockouts after failed authentications

`BruteForceState` of `policy/auth.rs` counts the failed attempts of every client address and
locks an address out; `authenticate` asks it first and tells it the outcome.  Calls
interleave: every reading of the clock and every critical section is a step of its own.

* `step` — the steps of all calls; the clock may read anything, an attempt may end any way.
* `Locks` — a success clears a lockout, and a failure that read the clock earlier shortens it.
* `locked_out` — ten failures in a window lock the address, and no call gets through a
  lockout that nothing undoes.
* `success_unlocks` — a success that was under way when the lockout was set undoes it.
-/

namespace CorexManager.Lockout

open Data

/-! ### `BruteForceState` -/

/-- `AUTH_FAIL_WINDOW`, in seconds. -/
def authFailWindow : ℚ := 60

/-- `AUTH_FAIL_THRESHOLD`. -/
def authFailThreshold : Nat := 10

/-- `AUTH_LOCKOUT_SECONDS`. -/
def authLockoutSeconds : ℚ := 300

/-- The failed attempts and the lockouts of the addresses. -/
structure BruteForceState where
  failCounts : Store Text (List ℚ)
  lockouts : Store Text ℚ

namespace BruteForceState

variable (b : BruteForceState) (ip : Text) (now : ℚ)

/-- `check`: until when the address is locked out, if it is. -/
def check : Option ℚ :=
  if ip = [] then none
  else
    let lockedUntil := (b.lockouts ip).getD 0
    if now < lockedUntil then some lockedUntil else none

/-- The failures `record_failure` keeps of an address, with the new one. -/
def failures : List ℚ :=
  ((b.failCounts ip).getD []).filter (fun t => now - authFailWindow < t) ++ [now]

/-- What `record_failure` does to the counts. -/
def count : BruteForceState :=
  { b with failCounts := b.failCounts.write ip (b.failures ip now) }

/-- What `record_failure` does to the lockouts from the threshold on. -/
def lock : BruteForceState :=
  { b with lockouts := b.lockouts.write ip (now + authLockoutSeconds) }

/-- The first half of `record_success`. -/
def clear : BruteForceState := { b with failCounts := b.failCounts.keep (· != ip) }

/-- The second half of `record_success`. -/
def unlock : BruteForceState := { b with lockouts := b.lockouts.keep (· != ip) }

@[simp] theorem count_lockouts : (b.count ip now).lockouts = b.lockouts := rfl

@[simp] theorem lock_failCounts : (b.lock ip now).failCounts = b.failCounts := rfl

@[simp] theorem clear_lockouts : (b.clear ip).lockouts = b.lockouts := rfl

@[simp] theorem unlock_failCounts : (b.unlock ip).failCounts = b.failCounts := rfl

end BruteForceState

/-! ### Calls of `authenticate` -/

/-- Why an attempt fails. -/
inductive Refusal where
  | identityRevoked | invalidPat | tokenRevoked | invalidJwt
  deriving DecidableEq

/-- The text of the `AuthError`. -/
def Refusal.message : Refusal → String
  | identityRevoked => "Identity revoked"
  | invalidPat => "Invalid or expired PAT"
  | tokenRevoked => "Token revoked"
  | invalidJwt => "Invalid or expired JWT"

/-- How far a call is. -/
inductive Phase where
  /-- Not there yet. -/
  | absent
  /-- `check` has read the clock. -/
  | arrived (ip : Text) (now : ℚ)
  /-- Too many failures. -/
  | denied (lockedUntil : ℚ)
  /-- The token is verified, and whether it is revoked. -/
  | verifying (ip : Text)
  /-- `record_failure` has read the clock. -/
  | failing (ip : Text) (why : Refusal) (now : ℚ)
  /-- The failure is counted, and is one too many. -/
  | locking (ip : Text) (why : Refusal) (now : ℚ)
  | refused (why : Refusal)
  /-- `record_success` is called. -/
  | succeeding (ip : Text)
  /-- The failures are removed. -/
  | cleared (ip : Text)
  | authenticated
  deriving DecidableEq

/-- A step of a call. -/
inductive Act where
  | arrive (r : Nat) (ip : Text) (now : ℚ)
  | check (r : Nat)
  | refuse (r : Nat) (why : Refusal) (now : ℚ)
  | accept (r : Nat)
  | count (r : Nat)
  | lock (r : Nat)
  | clear (r : Nat)
  | unlock (r : Nat)

/-- The shared state, the calls, and what happened. -/
structure State where
  brute : BruteForceState
  /-- The call that holds the lock of the counts. -/
  holder : Option Nat
  phase : Nat → Phase
  /-- The readings of the failures counted since the last were removed, newest first. -/
  recorded : Text → List ℚ

namespace State

variable (s : State)

/-- A call moves on. -/
def goto (r : Nat) (p : Phase) : State := { s with phase := Function.update s.phase r p }

@[simp] theorem goto_brute (r : Nat) (p : Phase) : (s.goto r p).brute = s.brute := rfl

@[simp] theorem goto_recorded (r : Nat) (p : Phase) : (s.goto r p).recorded = s.recorded := rfl

@[simp] theorem goto_self (r : Nat) (p : Phase) : (s.goto r p).phase r = p := by
  unfold goto
  exact Function.update_self ..

theorem goto_other {r r' : Nat} (p : Phase) (h : r' ≠ r) :
    (s.goto r p).phase r' = s.phase r' := by
  unfold goto
  exact Function.update_of_ne h ..

end State

/-- One step, when it is the next of its call. -/
def step (s : State) : Act → Option State
  | .arrive r ip now => if s.phase r = .absent then some (s.goto r (.arrived ip now)) else none
  | .check r =>
      match s.phase r with
      | .arrived ip now =>
          match s.brute.check ip now with
          | some lockedUntil => some (s.goto r (.denied lockedUntil))
          | none => some (s.goto r (.verifying ip))
      | _ => none
  | .refuse r why now =>
      match s.phase r with
      | .verifying ip =>
          some (s.goto r (if ip = [] then .refused why else .failing ip why now))
      | _ => none
  | .accept r =>
      match s.phase r with
      | .verifying ip => some (s.goto r (if ip = [] then .authenticated else .succeeding ip))
      | _ => none
  | .count r =>
      match s.phase r, s.holder with
      | .failing ip why now, none =>
          let counted : State :=
            { s with
              brute := s.brute.count ip now
              recorded := Function.update s.recorded ip (now :: s.recorded ip) }
          if authFailThreshold ≤ (s.brute.failures ip now).length then
            -- the lock of the counts is held until the lockout is set
            some { counted.goto r (.locking ip why now) with holder := some r }
          else some (counted.goto r (.refused why))
      | _, _ => none
  | .lock r =>
      match s.phase r with
      | .locking ip why now =>
          some { s.goto r (.refused why) with brute := s.brute.lock ip now, holder := none }
      | _ => none
  | .clear r =>
      match s.phase r, s.holder with
      | .succeeding ip, none =>
          some { s.goto r (.cleared ip) with
            brute := s.brute.clear ip
            recorded := Function.update s.recorded ip [] }
      | _, _ => none
  | .unlock r =>
      match s.phase r with
      | .cleared ip => some { s.goto r .authenticated with brute := s.brute.unlock ip }
      | _ => none

/-- The call a step belongs to. -/
def Act.call : Act → Nat
  | .arrive r _ _ | .check r | .refuse r _ _ | .accept r | .count r | .lock r | .clear r
  | .unlock r => r

/-- A step leaves the other calls where they are. -/
theorem step_other {s s' : State} {a : Act} {r : Nat} (hr : r ≠ a.call)
    (hstep : step s a = some s') : s'.phase r = s.phase r := by
  cases a <;> simp only [step] at hstep
  all_goals
    repeat' split at hstep
    all_goals
      cases hstep
      try exact Function.update_of_ne hr ..

/-- Before the first call. -/
def start : State := ⟨⟨fun _ => none, fun _ => none⟩, none, fun _ => .absent, fun _ => []⟩

/-! ### Failures in a window -/

/-- Readings in a window of the counting length. -/
def InWindow (a : ℚ) (ts : List ℚ) : Prop := ∀ t ∈ ts, Window.Within a authFailWindow t

/-- The last failures fall in one window, as many as the threshold. -/
def Crowded (ts : List ℚ) : Prop :=
  authFailThreshold ≤ ts.length ∧ ∃ a, InWindow a (ts.take authFailThreshold)

/-- The last failures stay counted, as far back as one window holds them. -/
def Kept (s : State) : Prop :=
  ∀ ip a l, l <+: s.recorded ip → InWindow a l →
    l.reverse <:+ (s.brute.failCounts ip).getD []

theorem start_kept : Kept start := by
  intro ip a l hl _
  rw [List.prefix_nil.mp hl]
  exact List.nil_suffix

/-- A failure that is counted keeps the earlier ones of a window it is in. -/
theorem failures_kept {s : State} (h : Kept s) {ip : Text} {now a : ℚ} {l : List ℚ}
    (hl : l <+: now :: s.recorded ip) (hwindow : InWindow a l) :
    l.reverse <:+ s.brute.failures ip now := by
  cases l with
  | nil => exact List.nil_suffix
  | cons t l =>
      obtain ⟨rfl, htail⟩ := List.cons_prefix_cons.mp hl
      have hnow := hwindow t (.head _)
      have hrest : InWindow a l := fun t' ht' => hwindow t' (.tail _ ht')
      -- no reading of the window is older than the cutoff
      have hall : ∀ t' ∈ l.reverse, decide (t - authFailWindow < t') = true := by
        intro t' ht'
        exact decide_eq_true (hnow.recent (hrest t' (List.mem_reverse.mp ht')))
      have hsuffix := (h ip a l htail hrest).filter fun t' => decide (t - authFailWindow < t')
      rw [List.filter_eq_self.mpr hall] at hsuffix
      obtain ⟨older, holder⟩ := hsuffix
      refine ⟨older, ?_⟩
      rw [List.reverse_cons, ← List.append_assoc, holder]
      rfl

theorem step_kept (s : State) (a : Act) (s' : State) (h : Kept s)
    (hstep : step s a = some s') : Kept s' := by
  cases a <;> simp only [step] at hstep
  case count r =>
    split at hstep
    · next ip why now _ _ =>
        have hcounted : Kept { s with
            brute := s.brute.count ip now
            recorded := Function.update s.recorded ip (now :: s.recorded ip) } := by
          intro ip' a l hl hwindow
          dsimp only at hl
          by_cases hip : ip' = ip
          · subst hip
            rw [Function.update_self] at hl
            show l.reverse <:+ (s.brute.failCounts.write ip' _ ip').getD []
            rw [Store.write_self]
            exact failures_kept h hl hwindow
          · rw [Function.update_of_ne hip] at hl
            show l.reverse <:+ (s.brute.failCounts.write ip _ ip').getD []
            rw [Store.write_other _ _ hip]
            exact h ip' a l hl hwindow
        split at hstep <;> exact Option.some.inj hstep ▸ hcounted
    · cases hstep
  case clear r =>
    split at hstep
    · next ip _ _ =>
        rw [← Option.some.inj hstep]
        intro ip' a l hl hwindow
        dsimp only at hl
        by_cases hip : ip' = ip
        · subst hip
          rw [Function.update_self] at hl
          rw [List.prefix_nil.mp hl]
          exact List.nil_suffix
        · rw [Function.update_of_ne hip] at hl
          show l.reverse <:+ (s.brute.failCounts.keep (· != ip) ip').getD []
          rw [Store.keep_of_kept _ (by simpa using hip)]
          exact h ip' a l hl hwindow
    · cases hstep
  -- the other steps count nothing and remove nothing
  all_goals
    repeat' split at hstep
    all_goals
      cases hstep
      try exact h

theorem run_kept {as : List Act} {s : State} (hs : Transition.run step start as = some s) :
    Kept s := Transition.run_preserves step_kept start_kept hs

/-! ### Lockouts -/

/-- The address is locked out until then, or longer. -/
def LockedUntil (s : State) (ip : Text) (limit : ℚ) : Prop :=
  ∃ lockedUntil, s.brute.lockouts ip = some lockedUntil ∧ limit ≤ lockedUntil

/-- **Nothing undoes the lockout**: no success of the address removes it, and no failure
sets it anew that read the clock too early for it. -/
def Keeps (ip : Text) (limit : ℚ) (s : State) : Act → Prop
  | .unlock r => s.phase r ≠ .cleared ip
  | .lock r => ∀ why now, s.phase r = .locking ip why now → limit ≤ now + authLockoutSeconds
  | _ => True

/-- What a failure does that is one too many. -/
theorem step_lock {s s' : State} {r : Nat} {ip : Text} {why : Refusal} {now : ℚ}
    (hr : s.phase r = .locking ip why now) (hstep : step s (.lock r) = some s') :
    LockedUntil s' ip (now + authLockoutSeconds) := by
  simp only [step, hr] at hstep
  rw [← Option.some.inj hstep]
  exact ⟨_, Store.write_self .., le_rfl⟩

theorem step_lockedUntil {ip : Text} {limit : ℚ} (s : State) (a : Act) (s' : State)
    (h : LockedUntil s ip limit) (hkeeps : Keeps ip limit s a) (hstep : step s a = some s') :
    LockedUntil s' ip limit := by
  obtain ⟨lockedUntil, hlocked, hlimit⟩ := h
  cases a <;> simp only [step] at hstep
  case lock r =>
    split at hstep
    · next ip' why now hr =>
        by_cases hip : ip' = ip
        · subst hip
          rw [← Option.some.inj hstep]
          exact ⟨_, Store.write_self .., hkeeps why now hr⟩
        · rw [← Option.some.inj hstep]
          exact ⟨lockedUntil, (Store.write_other _ _ (Ne.symm hip)).trans hlocked, hlimit⟩
    · cases hstep
  case unlock r =>
    split at hstep
    · next ip' hr =>
        have hip : ip ≠ ip' := fun hip => hkeeps (hip ▸ hr)
        have hkept : s.brute.lockouts.keep (· != ip') ip = s.brute.lockouts ip :=
          Store.keep_of_kept _ (by simpa using hip)
        rw [← Option.some.inj hstep]
        exact ⟨lockedUntil, hkept.trans hlocked, hlimit⟩
    · cases hstep
  -- the other steps leave the lockouts alone
  all_goals
    repeat' split at hstep
    all_goals
      cases hstep
      try exact ⟨lockedUntil, hlocked, hlimit⟩

/-- A failure that is one too many has yet to set the lockout, or it is set. -/
theorem step_locking {ip : Text} {r : Nat} {why : Refusal} {now : ℚ} (s : State) (a : Act)
    (s' : State)
    (h : s.phase r = .locking ip why now ∨ LockedUntil s ip (now + authLockoutSeconds))
    (hkeeps : Keeps ip (now + authLockoutSeconds) s a) (hstep : step s a = some s') :
    s'.phase r = .locking ip why now ∨ LockedUntil s' ip (now + authLockoutSeconds) := by
  rcases h with hr | hlocked
  · by_cases hcall : r = a.call
    · cases a <;> rw [Act.call] at hcall <;> subst hcall
      case lock => exact .inr (step_lock hr hstep)
      -- no other step is next
      all_goals
        simp only [step, hr] at hstep
        cases hstep
    · exact .inl ((step_other hcall hstep).trans hr)
  · exact .inr (step_lockedUntil s a s' hlocked hkeeps hstep)

/-- A call that read the clock before the lockout ends does not get through. -/
theorem check_denied {s : State} {r : Nat} {ip : Text} {now limit : ℚ} (hip : ip ≠ [])
    (hlocked : LockedUntil s ip limit) (hr : s.phase r = .arrived ip now) (hnow : now < limit) :
    ∃ lockedUntil, step s (.check r) = some (s.goto r (.denied lockedUntil)) := by
  obtain ⟨lockedUntil, hlocked, hlimit⟩ := hlocked
  have hcheck : s.brute.check ip now = some lockedUntil := by
    unfold BruteForceState.check
    rw [if_neg hip, hlocked]
    exact if_pos (hnow.trans_le hlimit)
  exact ⟨lockedUntil, by simp only [step, hr, hcheck]⟩

/-- The failure with which a window holds too many sets a lockout. -/
theorem count_locking {s s' : State} (h : Kept s) {r : Nat} {ip : Text} {why : Refusal} {now : ℚ}
    (hr : s.phase r = .failing ip why now) (hstep : step s (.count r) = some s')
    (hcrowded : Crowded (s'.recorded ip)) : s'.phase r = .locking ip why now := by
  simp only [step, hr] at hstep
  split at hstep
  · next why' now' hphase _ =>
      cases hphase
      have hrecorded : s'.recorded ip = now :: s.recorded ip := by
        split at hstep <;> exact Option.some.inj hstep ▸ Function.update_self ..
      rw [hrecorded] at hcrowded
      obtain ⟨hlength, a, hwindow⟩ := hcrowded
      have hkept := (failures_kept h (List.take_prefix _ _) hwindow).length_le
      rw [List.length_reverse, List.length_take, min_eq_left hlength] at hkept
      rw [if_pos hkept] at hstep
      rw [← Option.some.inj hstep]
      exact Function.update_self ..
  · cases hstep

/-- **Ten failures in a window lock the address out**, once the last of them is through
`record_failure`, and from a lockout at `t` on every call is denied that starts before it
ends; unless a success of the address completes in between, or a failure sets the lockout
anew that read the clock before. -/
theorem locked_out {as : List Act} {s : State} (hs : Transition.run step start as = some s)
    {ip : Text} (hip : ip ≠ []) {r : Nat} {why : Refusal} {t : ℚ} {s₁ s₂ : State}
    {bs : List Act} (hrun : Transition.run step s₁ bs = some s₂)
    (hkeeps : Transition.Along step (Keeps ip (t + authLockoutSeconds)) s₁ bs) :
    (s.phase r = .failing ip why t → step s (.count r) = some s₁ → Crowded (s₁.recorded ip) →
      s₂.phase r ≠ .locking ip why t → LockedUntil s₂ ip (t + authLockoutSeconds)) ∧
    (s.phase r = .locking ip why t → step s (.lock r) = some s₁ →
      ∀ r' now, s₂.phase r' = .arrived ip now → now < t + authLockoutSeconds →
        ∃ lockedUntil, step s₂ (.check r') = some (s₂.goto r' (.denied lockedUntil))) := by
  constructor
  · intro hr hstep hcrowded hreturned
    have hlocking := count_locking (run_kept hs) hr hstep hcrowded
    exact (Transition.run_invariant step_locking (.inl hlocking) hkeeps hrun).resolve_left hreturned
  · intro hr hstep r' now hr' hnow
    have hlocked := Transition.run_invariant step_lockedUntil (step_lock hr hstep) hkeeps hrun
    exact check_denied hip hlocked hr' hnow

/-! ### Runs of one address -/

/-- A client address. -/
def client : Text := "192.0.2.7".toList

/-- A call with a wrong token, at its number on the clock. -/
def failedAttempt (r : Nat) : List Act :=
  [.arrive r client r, .check r, .refuse r .invalidPat r, .count r]

/-- A success is under way, its failures removed; nine calls fail, and a tenth is about to. -/
def tenFailures : List Act :=
  [.arrive 20 client 0, .check 20, .accept 20, .clear 20] ++
    (List.range 9).flatMap failedAttempt ++ [.arrive 9 client 9, .check 9, .refuse 9 .invalidPat 9]

/-- The tenth failure is counted. -/
def tenthCounted : List Act := tenFailures.concat (.count 9)

/-- It sets the lockout. -/
def tenthLocked : List Act := tenthCounted.concat (.lock 9)

/-- A call starts. -/
def nextCall : List Act := tenthLocked.concat (.arrive 10 client 20)

/-- The state after a run that is possible. -/
def after (as : List Act) : State := (Transition.run step start as).getD start

theorem run_after {as : List Act} (h : (Transition.run step start as).isSome = true) :
    Transition.run step start as = some (after as) := by
  obtain ⟨s, hs⟩ := Option.isSome_iff_exists.mp h
  rw [after, hs]
  rfl

theorem step_after {as : List Act} {a : Act}
    (h : (Transition.run step start (as.concat a)).isSome = true) :
    step (after as) a = some (after (as.concat a)) := by
  have hrun := run_after h
  rw [List.concat_eq_append] at hrun ⊢
  obtain ⟨s, hs, hnext⟩ := Transition.run_append_iff.mp hrun
  obtain ⟨s', hstep, hs'⟩ := Transition.run_cons_iff.mp hnext
  have hafter : after as = s := by
    rw [after, hs]
    rfl
  rw [hafter, hstep, Option.some.inj hs']

/-- The tenth failure locks the client out, and the next call is denied. -/
theorem tenth_locks_out :
    LockedUntil (after tenthLocked) client (9 + authLockoutSeconds) ∧
      ∃ lockedUntil, step (after nextCall) (.check 10) =
        some ((after nextCall).goto 10 (.denied lockedUntil)) := by
  have hfailing : (after tenFailures).phase 9 = .failing client .invalidPat 9 := by decide +kernel
  have hlocking : (after tenthCounted).phase 9 = .locking client .invalidPat 9 := by decide +kernel
  have hrefused : (after tenthLocked).phase 9 = .refused .invalidPat := by decide +kernel
  have harrived : (after nextCall).phase 10 = .arrived client 20 := by decide +kernel
  have hrecorded : (after tenthCounted).recorded client = [9, 8, 7, 6, 5, 4, 3, 2, 1, 0] := by
    decide +kernel
  have hcount : step (after tenFailures) (.count 9) = some (after tenthCounted) :=
    step_after (by decide +kernel)
  have hlock : step (after tenthCounted) (.lock 9) = some (after tenthLocked) :=
    step_after (by decide +kernel)
  have harrive : step (after tenthLocked) (.arrive 10 client 20) = some (after nextCall) :=
    step_after (by decide +kernel)
  have hbefore : Transition.run step start tenFailures = some (after tenFailures) :=
    run_after (by decide +kernel)
  have hcounted : Transition.run step start tenthCounted = some (after tenthCounted) :=
    run_after (by decide +kernel)
  have hthen : Transition.run step (after tenthCounted) [.lock 9] = some (after tenthLocked) :=
    Transition.run_cons_iff.mpr ⟨_, hlock, rfl⟩
  have hnext : Transition.run step (after tenthLocked) [.arrive 10 client 20] =
      some (after nextCall) := Transition.run_cons_iff.mpr ⟨_, harrive, rfl⟩
  have hclient : client ≠ [] := by decide
  have hcrowded : Crowded ((after tenthCounted).recorded client) := by
    rw [hrecorded]
    exact ⟨by decide, -1, by unfold InWindow Window.Within; decide +kernel⟩
  constructor
  · refine (locked_out hbefore hclient hthen ⟨?_, fun _ _ => trivial⟩).1
      hfailing hcount hcrowded (hrefused ▸ nofun)
    rintro why now hphase
    cases hlocking.symm.trans hphase
    exact le_rfl
  · exact (locked_out hcounted hclient hnext ⟨trivial, fun _ _ => trivial⟩).2
      hlocking hlock 10 20 harrived (by decide +kernel)

/-- **A success that was under way undoes the lockout**: the lockout is set at 9, and a call
that starts at 20 goes on to have its token verified. -/
theorem success_unlocks :
    (after tenthCounted).phase 9 = .locking client .invalidPat 9 ∧
      (after tenthLocked).brute.lockouts client = some (9 + authLockoutSeconds) ∧
      (Transition.run step (after tenthLocked)
        [.unlock 20, .arrive 21 client 20, .check 21]).map (fun s => s.phase 21) =
        some (.verifying client) := by
  decide +kernel

end CorexManager.Lockout
