import CorexManager.Limits.SlidingWindow

/-!
# Limits on concurrent requests

`acquire_concurrent_slot` and `release_concurrent_slot` of `policy/ratelimit.rs` count the
requests of an identity that run in a counter of Valkey, with one command after the other;
`handle_call` acquires a slot before it forwards a call and releases it after.

* `step` — the steps of all requests of an identity; commands may fail, every request brings
  the limit of its time, and the key may expire.
* `Counted` — a request is admitted with its slot counted, and the key stays as long as one is.
* `slots_bounded` — in runs of such steps the counter is never negative, and the requests
  that run are within the limit the last of them was admitted under.
* `uncounted_release` — a release without a slot breaks both.
-/

namespace CorexManager.ConcurrentSlots

open SlidingWindow (RateLimiter Reply)

/-! ### Requests -/

/-- How far a request is. -/
inductive Phase where
  /-- Not there yet. -/
  | absent
  /-- `INCR` is next. -/
  | acquiring (limit : Int)
  /-- It counted one, and `EXPIRE` is next. -/
  | first
  /-- It counted too many, and `DECR` is next. -/
  | refusing
  | refused
  | admitted
  | released
  deriving DecidableEq

/-- A step. -/
inductive Act where
  | acquire (r : Nat) (maxConcurrent : Option Int)
  | incr (r : Nat) (reply : Reply)
  | expire (r : Nat) (reply : Reply)
  | giveBack (r : Nat) (reply : Reply)
  | release (r : Nat) (reply : Reply)
  /-- The time to live of the key is over. -/
  | timeout

/-- The counter, the requests, and what happened. -/
structure State where
  counter : Option Int
  /-- The key has a time to live. -/
  volatile : Bool
  phase : Nat → Phase
  /-- The requests that are admitted and not released, the last first, with their limits. -/
  running : List (Nat × Int)
  /-- The requests whose slot is counted and to be given back. -/
  surplus : List Nat

namespace State

variable (s : State)

/-- What the counter counts. -/
def count : Int := s.counter.getD 0

/-- A request moves on. -/
def goto (r : Nat) (p : Phase) : State := { s with phase := Function.update s.phase r p }

/-- `INCR` and `DECR`. -/
def add (n : Int) : State := { s with counter := some (s.count + n) }

/-- `EXPIRE`. -/
def setTtl : State := { s with volatile := s.volatile || s.counter.isSome }

/-- A command, if it is run. -/
def command (reply : Reply) (f : State → State) : State := if reply = .failed then s else f s

/-- A request is admitted under a limit. -/
def takeSlot (r : Nat) (limit : Int) (p : Phase) : State :=
  { s.goto r p with running := (r, limit) :: s.running }

@[simp] theorem add_count (n : Int) : (s.add n).count = s.count + n := rfl

@[simp] theorem setTtl_count : s.setTtl.count = s.count := rfl

end State

variable (limiter : RateLimiter)

/-- One step, when it is the next of its request. -/
def step (s : State) : Act → Option State
  | .acquire r maxConcurrent =>
      if s.phase r = .absent then
        let limit := maxConcurrent.getD limiter.defaultMaxConcurrent
        if limit ≤ 0 then some (s.takeSlot r limit .admitted)
        else if limiter.client then some (s.goto r (.acquiring limit))
        else if limiter.failClosed then some (s.goto r .refused)
        else some (s.takeSlot r limit .admitted)
      else none
  | .incr r reply =>
      match s.phase r with
      | .acquiring limit =>
          let counted := s.command reply fun s => s.add 1
          if reply = .done then
            if counted.count = 1 then some (counted.takeSlot r limit .first)
            else if limit < counted.count then
              some { counted.goto r .refusing with surplus := r :: s.surplus }
            else some (counted.takeSlot r limit .admitted)
          else if limiter.failClosed then some (counted.goto r .refused)
          else some (counted.takeSlot r limit .admitted)
      | _ => none
  | .expire r reply =>
      match s.phase r with
      | .first => some ((s.command reply State.setTtl).goto r .admitted)
      | _ => none
  | .giveBack r reply =>
      match s.phase r with
      | .refusing =>
          some { (s.command reply fun s => s.add (-1)).goto r .refused with
            surplus := s.surplus.erase r }
      | _ => none
  | .release r reply =>
      match s.phase r with
      | .admitted =>
          let freed := if limiter.client then s.command reply fun s => s.add (-1) else s
          some { freed.goto r .released with
            running := s.running.eraseP fun held => held.1 = r }
      | _ => none
  | .timeout => if s.volatile then some { s with counter := none, volatile := false } else none

/-- Before the first request. -/
def start : State := ⟨none, false, fun _ => .absent, [], []⟩

/-! ### Requests within their limits -/

/-- Every request, when it was admitted, was within its limit. -/
def Within : List (Nat × Int) → Prop
  | [] => True
  | held :: running => (running.length + 1 : Int) ≤ held.2 ∧ Within running

theorem Within.sublist {l l' : List (Nat × Int)} (h : Within l) (hsub : l'.Sublist l) :
    Within l' := by
  induction hsub with
  | slnil => trivial
  | cons held _ ih => exact ih h.2
  | cons_cons held hsub ih =>
      have hlength := hsub.length_le
      refine ⟨?_, ih h.2⟩
      have hheld := h.1
      omega

/-- **Slots are counted**: a limit is set, and without Valkey nothing is admitted; a failed
`INCR` admits nothing; and the key times out only when no slot is taken. -/
def Counted (s : State) : Act → Prop
  | .acquire _ maxConcurrent => 0 < maxConcurrent.getD limiter.defaultMaxConcurrent ∧
      (limiter.client = true ∨ limiter.failClosed = true)
  | .incr _ reply => reply = .done ∨ limiter.failClosed = true
  | .timeout => s.running = [] ∧ s.surplus = []
  | _ => True

/-- The request is admitted. -/
def Phase.Runs (p : Phase) : Prop := p = .first ∨ p = .admitted

theorem Phase.runs_first : Phase.first.Runs := .inl rfl

theorem Phase.runs_admitted : Phase.admitted.Runs := .inr rfl

/-- What such steps preserve. -/
structure Inv (s : State) : Prop where
  running : ∀ r, (s.phase r).Runs → ∃ limit, (r, limit) ∈ s.running
  surplus : ∀ r, s.phase r = .refusing → r ∈ s.surplus
  limit : ∀ r limit, s.phase r = .acquiring limit → 0 < limit
  counted : (s.running.length + s.surplus.length : Int) ≤ s.count
  within : Within s.running

theorem start_inv : Inv start where
  running := fun _ h => nomatch h
  surplus := fun _ h => nomatch h
  limit := fun _ _ h => nomatch h
  counted := le_rfl
  within := trivial

/-- What a command that takes one from the counter may do. -/
structure Command (s s' : State) : Prop where
  phase : s'.phase = s.phase
  running : s'.running = s.running
  surplus : s'.surplus = s.surplus
  count : s.count - 1 ≤ s'.count

theorem Command.refl (s : State) : Command s s := ⟨rfl, rfl, rfl, by omega⟩

theorem Command.of_reply (s : State) (reply : Reply) :
    Command s (s.command reply fun s => s.add (-1)) := by
  rw [State.command]
  split
  · exact .refl s
  · exact ⟨rfl, rfl, rfl, le_of_eq (by rw [State.add_count]; omega)⟩

namespace Inv

variable {s s' : State}

/-- A request that takes no slot and has none to give back moves on. -/
theorem goto (h : Inv s) (r : Nat) {p : Phase}
    (hrunning : p.Runs → ∃ limit, (r, limit) ∈ s.running)
    (hsurplus : p ≠ .refusing) (hlimit : ∀ limit, p = .acquiring limit → 0 < limit) :
    Inv (s.goto r p) := by
  refine ⟨?_, ?_, ?_, h.counted, h.within⟩
  · intro r' hr'
    rcases Transition.moved_holds hr' with ⟨rfl, hp⟩ | ⟨-, hr'⟩
    · exact hrunning hp
    · exact h.running r' hr'
  · intro r' hr'
    rcases Transition.moved_cases hr' with ⟨-, hp⟩ | ⟨-, hr'⟩
    · exact absurd hp hsurplus
    · exact h.surplus r' hr'
  · intro r' limit hr'
    rcases Transition.moved_cases hr' with ⟨-, hp⟩ | ⟨-, hr'⟩
    · exact hlimit limit hp
    · exact h.limit r' limit hr'

/-- A slot is counted twice. -/
theorem add (h : Inv s) : Inv (s.add 1) := by
  refine ⟨h.running, h.surplus, h.limit, ?_, h.within⟩
  have hcounted := h.counted
  rw [State.add_count]
  exact hcounted.trans (by omega)

theorem setTtl (h : Inv s) : Inv s.setTtl :=
  ⟨h.running, h.surplus, h.limit, h.counted, h.within⟩

theorem command (h : Inv s) (reply : Reply) {f : State → State} (hf : Inv (f s)) :
    Inv (s.command reply f) := by
  rw [State.command]
  split
  · exact h
  · exact hf

/-- A request is admitted within its limit, with its slot counted. -/
theorem takeSlot (h : Inv s) (r : Nat) {limit : Int} {p : Phase} (hp : p.Runs)
    (hlimit : s.count + 1 ≤ limit) : Inv ((s.add 1).takeSlot r limit p) := by
  have hcounted := h.counted
  have hfits : (s.running.length + 1 : Int) ≤ limit := by omega
  refine ⟨?_, ?_, ?_, ?_, hfits, h.within⟩
  · intro r' hr'
    rcases Transition.moved_holds hr' with ⟨rfl, -⟩ | ⟨-, hr'⟩
    · exact ⟨limit, .head _⟩
    · obtain ⟨limit', hmem⟩ := h.running r' hr'
      exact ⟨limit', .tail _ hmem⟩
  · intro r' hr'
    rcases Transition.moved_cases hr' with ⟨-, heq⟩ | ⟨-, hr'⟩
    · rcases hp with rfl | rfl <;> cases heq
    · exact h.surplus r' hr'
  · intro r' limit' hr'
    rcases Transition.moved_cases hr' with ⟨-, heq⟩ | ⟨-, hr'⟩
    · rcases hp with rfl | rfl <;> cases heq
    · exact h.limit r' limit' hr'
  · show ((s.running.length + 1 : Nat) + s.surplus.length : Int) ≤ s.count + 1
    push_cast
    omega

/-- A request is refused, and its slot is to be given back. -/
theorem refuse (h : Inv s) (r : Nat) :
    Inv { (s.add 1).goto r .refusing with surplus := r :: s.surplus } := by
  have hcounted := h.counted
  refine ⟨?_, ?_, ?_, ?_, h.within⟩
  · intro r' hr'
    rcases Transition.moved_holds hr' with ⟨-, hp⟩ | ⟨-, hr'⟩
    · exact absurd hp (by simp [Phase.Runs])
    · exact h.running r' hr'
  · intro r' hr'
    rcases Transition.moved_cases hr' with ⟨rfl, -⟩ | ⟨-, hr'⟩
    · exact .head _
    · exact .tail _ (h.surplus r' hr')
  · intro r' limit hr'
    rcases Transition.moved_cases hr' with ⟨-, hp⟩ | ⟨-, hr'⟩
    · cases hp
    · exact h.limit r' limit hr'
  · show (s.running.length + (s.surplus.length + 1 : Nat) : Int) ≤ s.count + 1
    push_cast
    omega

/-- A slot is given back, or it stays counted. -/
theorem giveBack (h : Inv s) {r : Nat} (hr : s.phase r = .refusing) (hcommand : Command s s') :
    Inv { s'.goto r .refused with surplus := s.surplus.erase r } := by
  have hmem := h.surplus r hr
  refine ⟨?_, ?_, ?_, ?_, hcommand.running ▸ h.within⟩
  · intro r' hr'
    show ∃ limit, (r', limit) ∈ s'.running
    rw [hcommand.running]
    rcases Transition.moved_holds hr' with ⟨-, hp⟩ | ⟨-, hr'⟩
    · exact absurd hp (by simp [Phase.Runs])
    · exact h.running r' (hcommand.phase ▸ hr')
  · intro r' hr'
    rcases Transition.moved_cases hr' with ⟨-, hp⟩ | ⟨hother, hr'⟩
    · cases hp
    · exact (List.mem_erase_of_ne hother).mpr (h.surplus r' (hcommand.phase ▸ hr'))
  · intro r' limit hr'
    rcases Transition.moved_cases hr' with ⟨-, hp⟩ | ⟨-, hr'⟩
    · cases hp
    · exact h.limit r' limit (hcommand.phase ▸ hr')
  · have hlength := List.length_erase_of_mem hmem
    have hpos := List.length_pos_of_mem hmem
    have hcounted := h.counted
    have hcount := hcommand.count
    show (s'.running.length + (s.surplus.erase r).length : Int) ≤ s'.count
    rw [hcommand.running]
    omega

/-- A request that is admitted ends, and gives its slot back or leaves it counted. -/
theorem release (h : Inv s) {r : Nat} (hr : s.phase r = .admitted) (hcommand : Command s s') :
    Inv { s'.goto r .released with running := s.running.eraseP fun held => held.1 = r } := by
  obtain ⟨limit, hmem⟩ := h.running r (hr ▸ Phase.runs_admitted)
  refine ⟨?_, ?_, ?_, ?_, h.within.sublist (List.eraseP_sublist ..)⟩
  · intro r' hr'
    rcases Transition.moved_holds hr' with ⟨-, hp⟩ | ⟨hother, hr'⟩
    · exact absurd hp (by simp [Phase.Runs])
    · obtain ⟨limit', hmem'⟩ := h.running r' (hcommand.phase ▸ hr')
      exact ⟨limit', (List.mem_eraseP_of_neg (by simpa using hother)).mpr hmem'⟩
  · intro r' hr'
    rcases Transition.moved_cases hr' with ⟨-, hp⟩ | ⟨-, hr'⟩
    · cases hp
    · exact hcommand.surplus ▸ h.surplus r' (hcommand.phase ▸ hr')
  · intro r' limit hr'
    rcases Transition.moved_cases hr' with ⟨-, hp⟩ | ⟨-, hr'⟩
    · cases hp
    · exact h.limit r' limit (hcommand.phase ▸ hr')
  · have hlength : (s.running.eraseP fun held => held.1 = r).length = s.running.length - 1 :=
      List.length_eraseP_of_mem hmem (by simp)
    have hpos := List.length_pos_of_mem hmem
    have hcounted := h.counted
    have hcount := hcommand.count
    show ((s.running.eraseP fun held => held.1 = r).length + s'.surplus.length : Int) ≤ s'.count
    rw [hcommand.surplus]
    omega

end Inv

/-- **Steps that count their slots keep the invariant.** -/
theorem step_inv (s : State) (a : Act) (s' : State) (h : Inv s) (hcounted : Counted limiter s a)
    (hstep : step limiter s a = some s') : Inv s' := by
  cases a with
  | acquire r maxConcurrent =>
      obtain ⟨hlimit, hclient⟩ := hcounted
      simp only [step] at hstep
      split at hstep
      · rw [if_neg (not_le.mpr hlimit)] at hstep
        split at hstep
        · rw [← Option.some.inj hstep]
          refine h.goto r (fun hp => absurd hp (by simp [Phase.Runs])) nofun ?_
          intro limit hp
          cases hp
          exact hlimit
        · next hnone =>
            rw [if_pos (hclient.resolve_left hnone)] at hstep
            rw [← Option.some.inj hstep]
            exact h.goto r (fun hp => absurd hp (by simp [Phase.Runs])) nofun nofun
      · cases hstep
  | incr r reply =>
      simp only [step] at hstep
      split at hstep
      · next limit hr =>
          by_cases hdone : reply = .done
          · subst hdone
            have hpos := h.limit r limit hr
            have hadd : s.command .done (fun s => s.add 1) = s.add 1 := rfl
            rw [if_pos rfl, hadd, State.add_count] at hstep
            split at hstep
            · exact Option.some.inj hstep ▸ h.takeSlot r Phase.runs_first (by omega)
            · split at hstep
              · exact Option.some.inj hstep ▸ h.refuse r
              · exact Option.some.inj hstep ▸ h.takeSlot r Phase.runs_admitted (by omega)
          · rw [if_neg hdone, if_pos (hcounted.resolve_left hdone)] at hstep
            rw [← Option.some.inj hstep]
            exact (h.command reply h.add).goto r (fun hp => absurd hp (by simp [Phase.Runs]))
              nofun nofun
      · cases hstep
  | expire r reply =>
      simp only [step] at hstep
      split at hstep
      · next hr =>
          rw [← Option.some.inj hstep]
          have hcommand := h.command reply h.setTtl
          have hphase : (s.command reply State.setTtl).phase r = .first := by
            rw [State.command]
            split <;> exact hr
          exact hcommand.goto r (fun _ => hcommand.running r (hphase ▸ Phase.runs_first)) nofun nofun
      · cases hstep
  | giveBack r reply =>
      simp only [step] at hstep
      split at hstep
      · next hr => exact Option.some.inj hstep ▸ h.giveBack hr (.of_reply s reply)
      · cases hstep
  | release r reply =>
      simp only [step] at hstep
      split at hstep
      · next hr =>
          rw [← Option.some.inj hstep]
          split
          · exact h.release hr (.of_reply s reply)
          · exact h.release hr (.refl s)
      · cases hstep
  | timeout =>
      obtain ⟨hrunning, hsurplus⟩ := hcounted
      simp only [step] at hstep
      split at hstep
      · rw [← Option.some.inj hstep]
        refine ⟨h.running, h.surplus, h.limit, ?_, h.within⟩
        show (s.running.length + s.surplus.length : Int) ≤ 0
        rw [hrunning, hsurplus]
        exact le_rfl
      · cases hstep

/-- **The limits hold**, after every run whose steps count their slots: the counter is not
negative, and the requests that run are within the limit the last of them was admitted
under. -/
theorem slots_bounded {as : List Act} {s : State}
    (hcounted : Transition.Along (step limiter) (Counted limiter) start as)
    (hs : Transition.run (step limiter) start as = some s) :
    0 ≤ s.count ∧ ∀ held ∈ s.running.head?, (s.running.length : Int) ≤ held.2 := by
  have hinv := Transition.run_invariant (step_inv limiter) start_inv hcounted hs
  have hbound := hinv.counted
  refine ⟨by omega, ?_⟩
  cases hrunning : s.running with
  | nil => exact fun _ h => nomatch h
  | cons held running =>
      rintro _ ⟨⟩
      have hwithin := hinv.within
      rw [hrunning] at hwithin
      exact_mod_cast hwithin.1

/-! ### Releases without a slot -/

/-- A limiter that answers. -/
def connected : RateLimiter := ⟨true, true, 0⟩

/-- Two requests arrive under a limit of one; the second is refused, the first released. -/
def withinLimit : List Act :=
  [.acquire 1 (some 1), .incr 1 .done, .expire 1 .done, .acquire 2 (some 1), .incr 2 .done,
    .giveBack 2 .done, .release 1 .done]

/-- A request is admitted without a limit, and a limit of one is set before it ends. -/
def limitSet : List Act := [.acquire 1 (some 0), .release 1 .done]

/-- Two more requests arrive. -/
def thenTwo : List Act :=
  [.acquire 2 (some 1), .incr 2 .done, .acquire 3 (some 1), .incr 3 .done, .expire 3 .done]

/-- The state after a run that is possible. -/
def after (as : List Act) : State := (Transition.run (step connected) start as).getD start

/-- Slots that are counted keep to the limit. -/
theorem withinLimit_bounded : ∃ s, Transition.run (step connected) start withinLimit = some s ∧
    s.phase 2 = .refused ∧ s.phase 1 = .released ∧
    0 ≤ s.count ∧ ∀ held ∈ s.running.head?, (s.running.length : Int) ≤ held.2 := by
  have hcounted : Transition.Along (step connected) (Counted connected) start withinLimit ∧
      Transition.run (step connected) start withinLimit = some (after withinLimit) := by
    refine Transition.along_run_cons ⟨by decide, .inl rfl⟩ rfl ?_
    refine Transition.along_run_cons (.inl rfl) rfl ?_
    refine Transition.along_run_cons trivial rfl ?_
    refine Transition.along_run_cons ⟨by decide, .inl rfl⟩ rfl ?_
    refine Transition.along_run_cons (.inl rfl) rfl ?_
    refine Transition.along_run_cons trivial rfl ?_
    exact Transition.along_run_cons trivial rfl ⟨trivial, rfl⟩
  exact ⟨_, hcounted.2, rfl, rfl, slots_bounded connected hcounted.1 hcounted.2⟩

/-- **A release without a slot**: the counter falls below zero, and then two requests run
under a limit of one. -/
theorem uncounted_release :
    (after limitSet).count = -1 ∧ (after (limitSet ++ thenTwo)).running = [(3, 1), (2, 1)] := by
  decide

end CorexManager.ConcurrentSlots
