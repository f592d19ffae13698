import CorexManager.Data.Dict
import CorexManager.Data.Regions
import CorexManager.Data.Text
import CorexManager.Logic.Transition
import CorexManager.Logic.Window

/-!
# Rate limits over a sliding window

`check_rate_limit` of `policy/ratelimit.rs` counts the admissions of a key in a sorted set
of Valkey: `sliding_window` of `policy/valkey.rs` trims the set, counts it and adds an
entry.  Every command is a step of its own, and checks of the key interleave.

* `step` — the steps of all checks of one key; commands may fail, and the key may expire.
* `Alone` — no other check comes between the count of a check and its entry.
* `window_bounded` — in runs of such steps no window holds more admissions than the limit,
  and every admission has an entry of its own.
* `two_take_the_last_slot` — two checks that overlap break it.
-/

namespace CorexManager.SlidingWindow

open Data

/-! ### The sorted set -/

/-- `WINDOW_SECONDS`, in the milliseconds of the timestamps. -/
def windowMillis : ℤ := 60 * 1000

/-- The member `sliding_window` adds. -/
def member (now : ℤ) (count : Nat) : Text := intText now ++ ':' :: natText count

/-- What `ZREMRANGEBYSCORE` removes up to the cutoff. -/
def expired (now : ℤ) (e : Text × ℤ) : Bool := 0 ≤ e.2 && e.2 ≤ now - windowMillis

theorem member_now {now now' : ℤ} {count count' : Nat}
    (h : member now count = member now' count') : now = now' := by
  have hcolon : ∀ n : Nat, ':' ∉ natText n := fun n hmem =>
    absurd (natText_isDigit n ':' hmem) (by decide)
  have htext := (separator_inj (hcolon count) (hcolon count') h).1
  have hread := readInt_intText now
  rw [htext, readInt_intText] at hread
  exact (Option.some.inj hread).symm

/-! ### Checks -/

/-- Whether there is a connection to Valkey, what a failure means, and how many requests of an
identity may run at once where the configuration does not say. -/
structure RateLimiter where
  client : Bool
  failClosed : Bool
  defaultMaxConcurrent : Int

/-- The result of a check. -/
structure RateLimitDecision where
  allowed : Bool
  remaining : Int
  deriving DecidableEq

/-- `fail_open`. -/
def RateLimiter.failOpen (limiter : RateLimiter) (maxRpm : Int) : RateLimitDecision :=
  if limiter.failClosed then ⟨false, 0⟩ else ⟨true, maxRpm⟩

/-- What becomes of a command. -/
inductive Reply where
  | done
  /-- It is run, and the reply is lost. -/
  | lost
  | failed
  deriving DecidableEq

/-- How far a check is. -/
inductive Phase where
  /-- Not there yet. -/
  | absent
  | arrived (now : ℤ)
  | trimmed (now : ℤ)
  | counted (now : ℤ) (count : Nat)
  | decided (d : RateLimitDecision)
  deriving DecidableEq

/-- A step. -/
inductive Act where
  | arrive (r : Nat) (now : ℤ)
  | trim (r : Nat) (reply : Reply)
  | card (r : Nat) (reply : Reply)
  | add (r : Nat) (reply : Reply)
  | expire

/-- The set of the key, its checks, and what happened. -/
structure State where
  /-- The members with their scores. -/
  entries : List (Text × ℤ)
  phase : Nat → Phase
  /-- The timestamps of the checks that were allowed, newest first. -/
  admitted : List ℤ
  /-- The scores that were removed. -/
  removed : List ℤ

namespace State

variable (s : State)

/-- A check moves on. -/
def goto (r : Nat) (p : Phase) : State := { s with phase := Function.update s.phase r p }

/-- A check ends. -/
def finish (r : Nat) (now : ℤ) (d : RateLimitDecision) : State :=
  { s.goto r (.decided d) with admitted := if d.allowed then now :: s.admitted else s.admitted }

/-- Entries are removed. -/
def remove (p : Text × ℤ → Bool) : State :=
  { s with
    entries := s.entries.filter fun e => !p e
    removed := (s.entries.filter p).map Prod.snd ++ s.removed }

/-- `ZADD`. -/
def zadd (now : ℤ) (count : Nat) : State :=
  { s with entries := Dict.set s.entries (member now count) now }

end State

variable (limiter : RateLimiter) (maxRpm : Int)

/-- One step, when it is the next of its check. -/
def step (s : State) : Act → Option State
  | .arrive r now =>
      if s.phase r = .absent then
        if maxRpm ≤ 0 then some (s.finish r now ⟨true, maxRpm⟩)
        else if limiter.client then some (s.goto r (.arrived now))
        else some (s.finish r now (limiter.failOpen maxRpm))
      else none
  | .trim r reply =>
      match s.phase r with
      | .arrived now =>
          match reply with
          | .done => some ((s.remove (expired now)).goto r (.trimmed now))
          | .lost => some ((s.remove (expired now)).finish r now (limiter.failOpen maxRpm))
          | .failed => some (s.finish r now (limiter.failOpen maxRpm))
      | _ => none
  | .card r reply =>
      match s.phase r with
      | .trimmed now =>
          match reply with
          | .done =>
              if maxRpm ≤ s.entries.length then some (s.finish r now ⟨false, 0⟩)
              else some (s.goto r (.counted now s.entries.length))
          | _ => some (s.finish r now (limiter.failOpen maxRpm))
      | _ => none
  | .add r reply =>
      match s.phase r with
      | .counted now count =>
          match reply with
          | .done => some ((s.zadd now count).finish r now ⟨true, maxRpm - count - 1⟩)
          | .lost => some ((s.zadd now count).finish r now (limiter.failOpen maxRpm))
          | .failed => some (s.finish r now (limiter.failOpen maxRpm))
      | _ => none
  | .expire => some (s.remove fun _ => true)

/-- Before the first check. -/
def start : State := ⟨[], fun _ => .absent, [], []⟩

/-! ### Checks that are not disturbed -/

/-- **A check that nothing disturbs**: without Valkey nothing is allowed; when a check finds a
free slot, no entry of its window has been removed; and when it takes the slot, no other
check has found one, and its entry is a new one. -/
def Alone (s : State) : Act → Prop
  | .arrive _ _ => limiter.client = true ∨ limiter.failClosed = true
  | .trim _ reply => reply = .done ∨ limiter.failClosed = true
  | .card r reply => (reply = .done ∨ limiter.failClosed = true) ∧
      ∀ now, s.phase r = .trimmed now → s.entries.length < maxRpm →
        ∀ t ∈ s.removed, t ≤ now - windowMillis
  | .add r .done => (∀ r' ≠ r, ∀ now count, s.phase r' ≠ .counted now count) ∧
      ∀ now count, s.phase r = .counted now count →
        Dict.lookup s.entries (member now count) = none
  | .add _ _ => limiter.failClosed = true
  | .expire => True

/-- What such steps preserve. -/
structure Inv (s : State) : Prop where
  named : ∀ e ∈ s.entries, ∃ count, e.1 = member e.2 count
  /-- Every admission has an entry of its own, in the set or removed. -/
  kept : s.admitted.Subperm (s.entries.map Prod.snd ++ s.removed)
  free : ∀ r now count, s.phase r = .counted now count → count < maxRpm ∧
    s.admitted.countP (fun t => decide (now - windowMillis < t)) ≤ count
  bounded : Window.Bounded windowMillis maxRpm s.admitted

variable {limiter : RateLimiter} {maxRpm : Int} {s : State}

theorem start_inv (hmax : 0 ≤ maxRpm) : Inv maxRpm start where
  named := fun _ h => nomatch h
  kept := List.Subperm.refl []
  free := fun _ _ _ h => nomatch h
  bounded := Window.Bounded.nil hmax

namespace Inv

theorem goto (h : Inv maxRpm s) (r : Nat) {p : Phase}
    (hp : ∀ now count, p = .counted now count → count < maxRpm ∧
      s.admitted.countP (fun t => decide (now - windowMillis < t)) ≤ count) :
    Inv maxRpm (s.goto r p) := by
  refine ⟨h.named, h.kept, ?_, h.bounded⟩
  intro r' now count hr'
  rcases Transition.moved_cases hr' with ⟨-, hphase⟩ | ⟨-, hphase⟩
  · exact hp now count hphase
  · exact h.free r' now count hphase

/-- A check that is not allowed. -/
theorem finish (h : Inv maxRpm s) (r : Nat) (now : ℤ) {d : RateLimitDecision}
    (hd : d.allowed = false) : Inv maxRpm (s.finish r now d) := by
  have hgoto : Inv maxRpm (s.goto r (.decided d)) := h.goto r fun _ _ hp => nomatch hp
  rw [State.finish, hd]
  exact hgoto

/-- What is removed is remembered. -/
theorem remove (h : Inv maxRpm s) (p : Text × ℤ → Bool) : Inv maxRpm (s.remove p) := by
  refine ⟨fun e he => h.named e (List.mem_of_mem_filter he), ?_, h.free, h.bounded⟩
  have hsplit : ((s.entries.filter fun e => !p e) ++ s.entries.filter p).Perm s.entries :=
    List.perm_append_comm.trans (List.filter_append_perm p s.entries)
  have hscores := (hsplit.map Prod.snd).append_right s.removed
  rw [List.map_append, List.append_assoc] at hscores
  exact h.kept.trans hscores.symm.subperm

/-- An entry that is added, whether it is new or not. -/
theorem zadd (h : Inv maxRpm s) (now : ℤ) (count : Nat) : Inv maxRpm (s.zadd now count) := by
  cases hlookup : Dict.lookup s.entries (member now count) with
  | none =>
      have hset := Dict.set_of_lookup_none now hlookup
      refine ⟨?_, ?_, h.free, h.bounded⟩
      · intro e he
        rw [State.zadd, hset] at he
        rcases List.mem_append.mp he with he | he
        · exact h.named e he
        · exact ⟨count, by rw [List.mem_singleton.mp he]⟩
      · have hmore : (s.entries.map Prod.snd ++ s.removed).Sublist
            ((Dict.set s.entries (member now count) now).map Prod.snd ++ s.removed) := by
          rw [hset, List.map_append]
          exact (List.sublist_append_left _ _).append_right _
        exact h.kept.trans hmore.subperm
  | some score =>
      obtain ⟨count', hmember⟩ := h.named _ (Dict.mem_of_lookup hlookup)
      have hscore : score = now := (member_now hmember).symm
      have hset := Dict.set_of_lookup_some (hscore ▸ hlookup)
      have hsame : s.zadd now count = s := by rw [State.zadd, hset]
      rwa [hsame]

/-- The slot that is free is taken, with an entry that is new. -/
theorem admitted (h : Inv maxRpm s) {r : Nat} {now : ℤ} {count : Nat} {d : RateLimitDecision}
    (hr : s.phase r = .counted now count) (hd : d.allowed = true)
    (halone : ∀ r' ≠ r, ∀ now count, s.phase r' ≠ .counted now count)
    (hnew : Dict.lookup s.entries (member now count) = none) :
    Inv maxRpm ((s.zadd now count).finish r now d) := by
  obtain ⟨hcount, hfew⟩ := h.free r now count hr
  have hset := Dict.set_of_lookup_none now hnew
  rw [State.finish, hd]
  refine ⟨(h.zadd now count).named, ?_, ?_, h.bounded.cons (by omega)⟩
  · have hmore : (now :: (s.entries.map Prod.snd ++ s.removed)).Perm
        ((Dict.set s.entries (member now count) now).map Prod.snd ++ s.removed) := by
      rw [hset, List.map_append, List.append_assoc]
      exact List.perm_middle.symm
    exact ((List.subperm_cons now).mpr h.kept).trans hmore.subperm
  · intro r' now' count' hr'
    rcases Transition.moved_cases hr' with ⟨-, hphase⟩ | ⟨hother, hphase⟩
    · cases hphase
    · exact absurd hphase (halone r' hother now' count')

/-- The count of a check bounds the admissions that are recent for it. -/
theorem recent (h : Inv maxRpm s) {now : ℤ}
    (hremoved : ∀ t ∈ s.removed, t ≤ now - windowMillis) :
    s.admitted.countP (fun t => decide (now - windowMillis < t)) ≤ s.entries.length := by
  have hnone : s.removed.countP (fun t => decide (now - windowMillis < t)) = 0 := by
    apply List.countP_eq_zero.mpr
    intro t ht hlate
    exact absurd (of_decide_eq_true hlate) (not_lt.mpr (hremoved t ht))
  calc s.admitted.countP (fun t => decide (now - windowMillis < t))
      ≤ (s.entries.map Prod.snd ++ s.removed).countP fun t => decide (now - windowMillis < t) :=
        h.kept.countP_le _
    _ = (s.entries.map Prod.snd).countP fun t => decide (now - windowMillis < t) := by
        rw [List.countP_append, hnone, Nat.add_zero]
    _ ≤ s.entries.length := by
        rw [← List.length_map (f := Prod.snd)]
        exact List.countP_le_length

end Inv

/-- **Steps of checks that nothing disturbs keep the invariant.** -/
theorem step_inv (hmax : 0 < maxRpm) (s : State) (a : Act) (s' : State) (h : Inv maxRpm s)
    (halone : Alone limiter maxRpm s a) (hstep : step limiter maxRpm s a = some s') :
    Inv maxRpm s' := by
  have hclosed : limiter.failClosed = true → (limiter.failOpen maxRpm).allowed = false := by
    intro hclosed
    rw [RateLimiter.failOpen, if_pos hclosed]
  cases a with
  | arrive r now =>
      simp only [step] at hstep
      split at hstep
      · rw [if_neg (not_le.mpr hmax)] at hstep
        split at hstep
        · exact Option.some.inj hstep ▸ h.goto r fun _ _ hp => nomatch hp
        · next hnone =>
            exact Option.some.inj hstep ▸ h.finish r now (hclosed (halone.resolve_left hnone))
      · cases hstep
  | trim r reply =>
      simp only [step] at hstep
      split at hstep
      · next now hr =>
          cases reply with
          | done =>
              exact Option.some.inj hstep ▸ (h.remove _).goto r fun _ _ hp => nomatch hp
          | lost =>
              have hd := hclosed (halone.resolve_left nofun)
              exact Option.some.inj hstep ▸ (h.remove _).finish r now hd
          | failed =>
              have hd := hclosed (halone.resolve_left nofun)
              exact Option.some.inj hstep ▸ h.finish r now hd
      · cases hstep
  | card r reply =>
      obtain ⟨hreply, hremoved⟩ := halone
      simp only [step] at hstep
      split at hstep
      · next now hr =>
          split at hstep
          · split at hstep
            · exact Option.some.inj hstep ▸ h.finish r now rfl
            · next hfree =>
                rw [← Option.some.inj hstep]
                refine h.goto r fun now' count hp => ?_
                cases hp
                exact ⟨not_le.mp hfree, h.recent (hremoved now hr (not_le.mp hfree))⟩
          · next hlost =>
              have hd := hclosed (hreply.resolve_left fun heq => hlost heq)
              exact Option.some.inj hstep ▸ h.finish r now hd
      · cases hstep
  | add r reply =>
      simp only [step] at hstep
      split at hstep
      · next now count hr =>
          cases reply with
          | done => exact Option.some.inj hstep ▸ h.admitted hr rfl halone.1 (halone.2 now count hr)
          | lost => exact Option.some.inj hstep ▸ (h.zadd now count).finish r now (hclosed halone)
          | failed => exact Option.some.inj hstep ▸ h.finish r now (hclosed halone)
      · cases hstep
  | expire => exact Option.some.inj hstep ▸ h.remove _

/-- **The limit holds in every window**, after every run of checks that nothing disturbs, and
every admission has an entry of its own in the set until it is removed. -/
theorem window_bounded {as : List Act} (hmax : 0 < maxRpm)
    (halone : Transition.Along (step limiter maxRpm) (Alone limiter maxRpm) start as)
    (hs : Transition.run (step limiter maxRpm) start as = some s) :
    (∀ a, (s.admitted.countP (fun t => decide (Window.Within a windowMillis t)) : ℤ) ≤ maxRpm) ∧
      s.admitted.Subperm (s.entries.map Prod.snd ++ s.removed) :=
  have hinv := Transition.run_invariant (step_inv hmax) (start_inv hmax.le) halone hs
  ⟨hinv.bounded, hinv.kept⟩

/-! ### Checks that overlap -/

/-- A limiter that answers, and lets requests pass when Valkey does not. -/
def connected : RateLimiter := ⟨true, false, 0⟩

/-- A check that is allowed. -/
def oneCheck : List Act := [.arrive 1 7, .trim 1 .done, .card 1 .done, .add 1 .done]

/-- Both checks count before either adds its entry. -/
def overlapping : List Act :=
  [.arrive 1 7, .arrive 2 7, .trim 1 .done, .trim 2 .done, .card 1 .done, .card 2 .done,
    .add 1 .done, .add 2 .done]

/-- The state after a run that is possible. -/
def after (limit : Int) (as : List Act) : State :=
  (Transition.run (step connected limit) start as).getD start

/-- The last slot is taken by a check that is alone. -/
theorem oneCheck_bounded : ∃ s, Transition.run (step connected 1) start oneCheck = some s ∧
    s.admitted = [7] ∧
    (∀ a, (s.admitted.countP (fun t => decide (Window.Within a windowMillis t)) : ℤ) ≤ 1) ∧
    s.admitted.Subperm (s.entries.map Prod.snd ++ s.removed) := by
  have halone : Transition.Along (step connected 1) (Alone connected 1) start oneCheck ∧
      Transition.run (step connected 1) start oneCheck = some
        (((((start.goto 1 (.arrived 7)).remove (expired 7)).goto 1 (.trimmed 7)).goto 1
          (.counted 7 0)).zadd 7 0 |>.finish 1 7 ⟨true, 0⟩) := by
    refine Transition.along_run_cons (.inl rfl) rfl ?_
    refine Transition.along_run_cons (.inl rfl) rfl ?_
    refine Transition.along_run_cons ⟨.inl rfl, fun _ _ _ _ ht => nomatch ht⟩ rfl ?_
    refine Transition.along_run_cons ⟨?_, fun _ _ _ => rfl⟩ rfl ⟨trivial, rfl⟩
    intro r hr now count hphase
    have hbefore : ∀ {f : Nat → Phase} {p : Phase},
        Function.update f 1 p r = .counted now count → f r = .counted now count :=
      fun h => ((Transition.moved_cases h).resolve_left fun h => hr h.1).2
    cases hbefore (hbefore (hbefore hphase))
  exact ⟨_, halone.2, rfl, window_bounded (by decide) halone.1 halone.2⟩

/-- **Two checks take the last slot**: both are admitted under a limit of one, and their
entries are one and the same. -/
theorem two_take_the_last_slot :
    ((after 1 overlapping).admitted.countP
      (fun t => decide (Window.Within 0 windowMillis t)) = 2) ∧
      (after 1 overlapping).entries.length = 1 := by
  decide +kernel

end CorexManager.SlidingWindow
