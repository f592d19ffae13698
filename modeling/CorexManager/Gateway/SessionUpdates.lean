import CorexManager.Gateway.Sessions

/-!
# Updates of one session

The calls of `SessionStore` on one session, command by command: `set_upstream_session` reads
the session with `GET` and stores what it read, with one upstream more, with `SETEX`.

* `step` — the commands of all calls; a command may fail, and the time to live may end.
* `Kept` — every upstream that was stored is there, and a session that ended is not.
* `updates_kept_iff` — this holds throughout exactly those runs in which no `SETEX` puts back
  what was changed since its `GET`.
* `update_lost` — of two updates one is lost, and a session that was deleted is back.
-/

namespace CorexManager.SessionUpdates

open Gateway (SessionData)
open Data (Dict.lookup Dict.set Dict.lookup_set_self Dict.lookup_set_other Store.lastWrite
  Store.lastWrite_concat Text intText)
open Transition

/-! ### Calls -/

/-- How far a call is. -/
inductive Phase where
  | absent
  /-- `set_upstream_session` read the session, and `SETEX` is next. -/
  | setting (serverId : Int) (upstreamSid : Text) (data : SessionData)
  | done
  /-- `get` returned. -/
  | returned (data : Option SessionData)

/-- A command of a call, and whether Valkey replied to it. -/
inductive Act where
  /-- `set_upstream_session` sends `GET`. -/
  | set (r : Nat) (serverId : Int) (upstreamSid : Text) (replied : Bool)
  /-- It sends `SETEX`. -/
  | setex (r : Nat) (replied : Bool)
  | get (r : Nat) (replied : Bool)
  | delete (r : Nat) (replied : Bool)
  /-- The time to live is over. -/
  | timeout

/-- The session in Valkey, the calls, and what happened to it. -/
structure State where
  stored : Option SessionData
  phase : Nat → Phase
  /-- The upstreams that were stored, in their order. -/
  updates : List (Text × Text)
  /-- The session was deleted, or its time was over. -/
  ended : Bool

namespace State

variable (s : State)

/-- A call moves on. -/
def goto (r : Nat) (p : Phase) : State := { s with phase := Function.update s.phase r p }

/-- What `get` returns. -/
def get (replied : Bool) : Option SessionData := if replied then s.stored else none

/-- `SETEX`, for an update of what was read. -/
def setex (serverId : Int) (upstreamSid : Text) (data : SessionData) : State :=
  { s with
    stored := some
      { data with upstreams := Dict.set data.upstreams (intText serverId) upstreamSid }
    updates := s.updates ++ [(intText serverId, upstreamSid)] }

/-- The session ends. -/
def finish : State := { s with stored := none, ended := true }

end State

/-- One command, when it is the next of its call. -/
def step (s : State) : Act → Option State
  | .set r serverId upstreamSid replied =>
      match s.phase r with
      | .absent =>
          match s.get replied with
          | some data => some (s.goto r (.setting serverId upstreamSid data))
          | none => some (s.goto r .done)
      | _ => none
  | .setex r replied =>
      match s.phase r with
      | .setting serverId upstreamSid data =>
          some (if replied then (s.setex serverId upstreamSid data).goto r .done
            else s.goto r .done)
      | _ => none
  | .get r replied =>
      match s.phase r with
      | .absent => some (s.goto r (.returned (s.get replied)))
      | _ => none
  | .delete r replied =>
      match s.phase r with
      | .absent => some (if replied then s.finish.goto r .done else s.goto r .done)
      | _ => none
  | .timeout => some s.finish

/-- A session as it was created, before the first call. -/
def start (data : SessionData) : State := ⟨some data, fun _ => .absent, [], false⟩

/-! ### What a command does -/

/-- A command stores an update, ends the session, or leaves both as they were. -/
theorem step_cases {s s' : State} {a : Act} (h : step s a = some s') :
    (∃ r serverId upstreamSid data, a = .setex r true ∧
      s.phase r = .setting serverId upstreamSid data ∧
      s' = (s.setex serverId upstreamSid data).goto r .done) ∨
    (∀ r, a ≠ .setex r true) ∧
      (s'.stored = none ∧ s'.ended = true ∨
        s'.stored = s.stored ∧ s'.updates = s.updates ∧ s'.ended = s.ended) := by
  cases a with
  | set r serverId upstreamSid replied =>
      refine .inr ⟨nofun, .inr ?_⟩
      unfold step at h
      dsimp only at h
      split at h
      · split at h <;> exact Option.some.inj h ▸ ⟨rfl, rfl, rfl⟩
      · cases h
  | setex r replied =>
      unfold step at h
      dsimp only at h
      split at h
      · next serverId upstreamSid data hphase =>
          cases replied with
          | true => exact .inl ⟨r, serverId, upstreamSid, data, rfl, hphase, (Option.some.inj h).symm⟩
          | false => exact .inr ⟨nofun, .inr (Option.some.inj h ▸ ⟨rfl, rfl, rfl⟩)⟩
      · cases h
  | get r replied =>
      refine .inr ⟨nofun, .inr ?_⟩
      unfold step at h
      dsimp only at h
      split at h
      · exact Option.some.inj h ▸ ⟨rfl, rfl, rfl⟩
      · cases h
  | delete r replied =>
      refine .inr ⟨nofun, ?_⟩
      unfold step at h
      dsimp only at h
      split at h
      · cases replied with
        | true => exact .inl (Option.some.inj h ▸ ⟨rfl, rfl⟩)
        | false => exact .inr (Option.some.inj h ▸ ⟨rfl, rfl, rfl⟩)
      · cases h
  | timeout => exact .inr ⟨nofun, .inl (Option.some.inj h ▸ ⟨rfl, rfl⟩)⟩

/-! ### Updates that are kept -/

/-- **No update is lost**: the upstreams of the session are those that were stored last, or
those it began with; and **nothing is brought back**: a session that ended is not there. -/
structure Kept (data : SessionData) (s : State) : Prop where
  visible : s.ended = false → ∃ now, s.stored = some now ∧ ∀ key,
    Dict.lookup now.upstreams key =
      (Store.lastWrite s.updates key).or (Dict.lookup data.upstreams key)
  gone : s.ended = true → s.stored = none

/-- **A command is fresh** unless it is a `SETEX` that puts back what was changed since the
`GET` of its call: the session is still there, with the upstreams of other servers that were
read. -/
def Fresh (s : State) : Act → Prop
  | .setex r true => ∀ serverId upstreamSid data, s.phase r = .setting serverId upstreamSid data →
      ∃ now, s.stored = some now ∧ ∀ key, key ≠ intText serverId →
        Dict.lookup now.upstreams key = Dict.lookup data.upstreams key
  | _ => True

variable {data : SessionData} {s s' : State}

theorem start_kept : Kept data (start data) where
  visible := fun _ => ⟨data, rfl, fun _ => rfl⟩
  gone := fun h => nomatch h

/-- An update keeps the others exactly when it is fresh. -/
theorem setex_kept_iff {serverId : Int} {upstreamSid : Text} {read : SessionData} {r : Nat}
    (h : Kept data s) :
    (∃ now, s.stored = some now ∧ ∀ key, key ≠ intText serverId →
        Dict.lookup now.upstreams key = Dict.lookup read.upstreams key) ↔
      Kept data ((s.setex serverId upstreamSid read).goto r .done) := by
  have hset : ∀ key, key ≠ intText serverId →
      Store.lastWrite (s.updates ++ [(intText serverId, upstreamSid)]) key =
        Store.lastWrite s.updates key := fun key hkey => by
    rw [Store.lastWrite_concat, if_neg hkey.symm]
  constructor
  · rintro ⟨now, hnow, hsame⟩
    have hended : s.ended = false := by
      by_contra hended
      rw [h.gone (Bool.not_eq_false _ ▸ hended)] at hnow
      cases hnow
    obtain ⟨now', hnow', hvisible⟩ := h.visible hended
    obtain rfl := Option.some.inj (hnow.symm.trans hnow')
    refine ⟨fun _ => ⟨_, rfl, fun key => ?_⟩, fun hended' => ?_⟩
    · show Dict.lookup (Dict.set read.upstreams (intText serverId) upstreamSid) key =
        (Store.lastWrite (s.updates ++ [(intText serverId, upstreamSid)]) key).or _
      by_cases hkey : key = intText serverId
      · rw [hkey, Dict.lookup_set_self, Store.lastWrite_concat, if_pos rfl]
        rfl
      · rw [Dict.lookup_set_other _ _ hkey, ← hsame key hkey, hvisible key, hset key hkey]
    · exact absurd (hended.symm.trans hended') Bool.false_ne_true
  · intro h'
    have hended : s.ended = false := by
      by_contra hended
      cases h'.gone (Bool.not_eq_false _ ▸ hended)
    obtain ⟨now, hnow, hvisible⟩ := h.visible hended
    obtain ⟨now', hnow', hvisible'⟩ := h'.visible hended
    obtain rfl := Option.some.inj hnow'
    refine ⟨now, hnow, fun key hkey => ?_⟩
    rw [hvisible key, ← hset key hkey, ← Dict.lookup_set_other read.upstreams upstreamSid hkey]
    exact (hvisible' key).symm

theorem step_kept_iff {a : Act} (h : Kept data s) (hstep : step s a = some s') :
    Fresh s a ↔ Kept data s' := by
  rcases step_cases hstep with ⟨r, serverId, upstreamSid, read, rfl, hphase, rfl⟩ | ⟨ha, hrest⟩
  · rw [← setex_kept_iff h]
    refine ⟨fun hfresh => hfresh serverId upstreamSid read hphase, fun hsame => ?_⟩
    intro serverId' upstreamSid' read' hphase'
    obtain ⟨rfl, rfl, rfl⟩ := Phase.setting.inj (hphase.symm.trans hphase')
    exact hsame
  · have hfresh : Fresh s a := by
      cases a with
      | setex r replied =>
          cases replied with
          | true => exact absurd rfl (ha r)
          | false => trivial
      | _ => trivial
    refine iff_of_true hfresh ?_
    rcases hrest with ⟨hstored, hended⟩ | ⟨hstored, hupdates, hended⟩
    · exact ⟨fun hnot => absurd (hnot.symm.trans hended) Bool.false_ne_true, fun _ => hstored⟩
    · refine ⟨?_, ?_⟩
      · rw [hstored, hupdates, hended]
        exact h.visible
      · rw [hstored, hended]
        exact h.gone

/-- **Updates are kept exactly in fresh runs.** -/
theorem updates_kept_iff {as : List Act} (hrun : run step (start data) as = some s) :
    (∀ bs t, bs <+: as → run step (start data) bs = some t → Kept data t) ↔
      Along step Fresh (start data) as :=
  (along_iff_throughout (J := fun _ => True) (fun _ _ _ _ _ => trivial)
    (fun _ _ _ _ h hstep => step_kept_iff h hstep) trivial start_kept hrun).symm

/-! ### Two calls -/

/-- A session without upstreams. -/
def created : SessionData := ⟨1, 1, []⟩

/-- One call after the other. -/
def oneByOne : List Act :=
  [.set 0 1 "a".toList true, .setex 0 true, .set 1 2 "b".toList true, .setex 1 true]

theorem updates_kept_oneByOne :
    (∀ bs t, bs <+: oneByOne → run step (start created) bs = some t → Kept created t) ↔
      Along step Fresh (start created) oneByOne :=
  updates_kept_iff (Option.some_get (x := run step (start created) oneByOne) rfl).symm

/-- Both calls read the session before they store it. -/
def together : List Act :=
  [.set 0 1 "a".toList true, .set 1 2 "b".toList true, .setex 0 true, .setex 1 true]

/-- The session is deleted between the `GET` and the `SETEX` of a call. -/
def deleted : List Act := [.set 0 1 "a".toList true, .delete 1 true, .setex 0 true]

/-- The first of two updates is lost, and the deleted session is there again. -/
theorem update_lost :
    (¬ ∀ t, run step (start created) together = some t → Kept created t) ∧
      ¬ ∀ t, run step (start created) deleted = some t → Kept created t := by
  constructor
  · intro h
    have hkept := h _ (Option.some_get (x := run step (start created) together) rfl).symm
    obtain ⟨now, hnow, hvisible⟩ := hkept.visible rfl
    obtain rfl := Option.some.inj hnow
    have hlost : Dict.lookup [("2".toList, "b".toList)] "1".toList = some "a".toList :=
      hvisible "1".toList
    cases hlost
  · intro h
    have hkept := h _ (Option.some_get (x := run step (start created) deleted) rfl).symm
    cases hkept.gone rfl

end CorexManager.SessionUpdates
