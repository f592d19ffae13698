import CorexManager.Logic.Transition
import Mathlib.Logic.Function.Basic

/-!
# The cached configuration status

`get_config_status` and `invalidate_config_status` of `services/config.py`: the flag that the
configuration has unapplied changes is computed under a lock and cached for a few seconds.  An
invalidation sets a dirty flag and drops the cached value, but does not wait for the lock.

* `next` — the steps of a call: every access to the cache and to the dirty flag, and every
  operation on the lock, is one.
* `ClearsSafely` — when the dirty flag is cleared, the values that are cached and not expired
  are newer than every invalidation.
* `answers_current` — in runs of such steps no call returns a value that was computed before an
  invalidation that had returned when the call began.
-/

namespace CorexManager.StatusCache

/-! ### Calls -/

/-- A computed flag, and how many invalidations had begun when the configuration was read. -/
structure Status where
  unapplied : Bool
  asOf : Nat

/-- `_config_status_cache`: a status, and when it was cached. -/
abbrev Cached : Type := Nat × Status

/-- What a thread does next.  A `get_config_status` carries the number of the last invalidation
that had returned when it began, an `invalidate_config_status` its own. -/
inductive Phase where
  | idle
  /-- Reads the dirty flag, with or without the lock, after it read the cache. -/
  | checksFlag (locked : Bool) (floor : Nat) (cached : Cached)
  /-- Reads the clock. -/
  | checksAge (locked : Bool) (floor : Nat) (cached : Cached)
  /-- Waits for the lock. -/
  | waits (floor : Nat)
  /-- Reads the cache, with the lock. -/
  | looks (floor : Nat)
  /-- Clears the dirty flag. -/
  | clears (floor : Nat)
  /-- Reads the configuration. -/
  | computes (floor : Nat)
  /-- Reads the dirty flag after the computation. -/
  | checksDirty (floor : Nat) (status : Status)
  /-- Clears the dirty flag after the computation. -/
  | resets (floor : Nat) (status : Status)
  /-- Drops the cached value. -/
  | drops (floor : Nat) (status : Status)
  /-- Caches the status. -/
  | stores (floor : Nat) (status : Status)
  /-- Releases the lock, and returns or raises. -/
  | leaves (floor : Nat) (status : Option Status)
  /-- `acquire(blocking=False)` of an invalidation. -/
  | tries (id : Nat)
  /-- Drops the cached value, with the lock. -/
  | empties (id : Nat)
  /-- Clears the dirty flag, with the lock. -/
  | unsets (id : Nat)
  /-- Releases the lock. -/
  | releases (id : Nat)

namespace Phase

/-- The thread has the lock. -/
def locked : Phase → Bool
  | checksFlag locked _ _ | checksAge locked _ _ => locked
  | looks _ | clears _ | computes _ | checksDirty _ _ | resets _ _ | drops _ _ | stores _ _
  | leaves _ _ | empties _ | unsets _ | releases _ => true
  | idle | waits _ | tries _ => false

/-- The thread clears the dirty flag. -/
def clearsFlag : Phase → Bool
  | clears _ | resets _ _ | unsets _ => true
  | _ => false

/-- The cached value that the thread has read, before it reads the dirty flag. -/
def read : Phase → Option Cached
  | checksFlag _ _ cached => some cached
  | _ => none

end Phase

/-- What the threads share; then what happened: how many invalidations began, the number of the
last that returned, and the statuses that were returned. -/
structure Shared where
  now : Nat
  cache : Option Cached
  dirty : Bool
  lock : Option Nat
  begun : Nat
  returned : Nat
  answers : List (Nat × Status)

namespace Shared

/-- `get_config_status` returns. -/
def answer (s : Shared) (floor : Nat) (status : Status) : Shared :=
  { s with answers := (floor, status) :: s.answers }

/-- `invalidate_config_status` returns. -/
def settle (s : Shared) (id : Nat) : Shared := { s with returned := max s.returned id }

end Shared

/-- After a cached value is not there, dirty or expired. -/
def miss (locked : Bool) (floor : Nat) : Phase := if locked then .clears floor else .waits floor

/-- After the cache is read. -/
def lookup (locked : Bool) (floor : Nat) : Option Cached → Phase
  | none => miss locked floor
  | some cached => .checksFlag locked floor cached

section Steps

variable (ttl : Nat)

/-- A step of a call of thread `t`; `result` is what comes of `_config_status_data`. -/
def next (s : Shared) (t : Nat) (result : Option Bool) : Phase → Option (Shared × Phase)
  | .idle => none
  | .checksFlag locked floor cached =>
      some (s, if s.dirty then miss locked floor else .checksAge locked floor cached)
  | .checksAge locked floor cached =>
      if s.now - cached.1 < ttl then
        if locked then some (s, .leaves floor (some cached.2))
        else some (s.answer floor cached.2, .idle)
      else some (s, miss locked floor)
  | .waits floor => if s.lock = none then some ({ s with lock := some t }, .looks floor) else none
  | .looks floor => some (s, lookup true floor s.cache)
  | .clears floor => some ({ s with dirty := false }, .computes floor)
  | .computes floor =>
      some (s, result.elim (.leaves floor none) fun unapplied =>
        .checksDirty floor ⟨unapplied, s.begun⟩)
  | .checksDirty floor status =>
      some (s, if s.dirty then .resets floor status else .stores floor status)
  | .resets floor status => some ({ s with dirty := false }, .drops floor status)
  | .drops floor status => some ({ s with cache := none }, .leaves floor (some status))
  | .stores floor status =>
      some ({ s with cache := some (s.now, status) }, .leaves floor (some status))
  | .leaves floor status =>
      some ({ status.elim s (s.answer floor) with lock := none }, .idle)
  | .tries id =>
      if s.lock = none then some ({ s with lock := some t }, .empties id)
      else some (s.settle id, .idle)
  | .empties id => some ({ s with cache := none }, .unsets id)
  | .unsets id => some ({ s with dirty := false }, .releases id)
  | .releases id => some ({ s.settle id with lock := none }, .idle)

/-- The threads. -/
structure State where
  shared : Shared
  phase : Nat → Phase

/-- A thread moves on. -/
def State.goto (s : State) (t : Nat) (move : Shared × Phase) : State :=
  ⟨move.1, Function.update s.phase t move.2⟩

/-- A step of the system. -/
inductive Act where
  | advance (d : Nat)
  /-- `get_config_status` begins, and reads the cache. -/
  | getConfigStatus (t : Nat)
  /-- `invalidate_config_status` begins, and sets the dirty flag. -/
  | invalidateConfigStatus (t : Nat)
  | go (t : Nat) (result : Option Bool)

/-- One step. -/
def step (s : State) : Act → Option State
  | .advance d => some { s with shared := { s.shared with now := s.shared.now + d } }
  | .getConfigStatus t =>
      match s.phase t with
      | .idle => some (s.goto t (s.shared, lookup false s.shared.returned s.shared.cache))
      | _ => none
  | .invalidateConfigStatus t =>
      match s.phase t with
      | .idle =>
          let id := s.shared.begun + 1
          some (s.goto t ({ s.shared with dirty := true, begun := id }, .tries id))
      | _ => none
  | .go t result => (next ttl s.shared t result (s.phase t)).map (s.goto t)

/-- The module is loaded. -/
def start (now : Nat) : State := ⟨⟨now, none, false, none, 0, 0, []⟩, fun _ => .idle⟩

/-! ### The invariant -/

/-- A cached value is expired, or was computed after every invalidation began. -/
def UpToDate (s : Shared) (cached : Cached) : Prop :=
  s.now - cached.1 < ttl → s.begun ≤ cached.2.asOf

/-- When the dirty flag is cleared, the cached value is up to date, and so is every one that
a call has read before it reads the flag. -/
def ClearsSafely (s : State) : Act → Prop
  | .go t _ => (s.phase t).clearsFlag = true →
      (∀ cached ∈ s.shared.cache, UpToDate ttl s.shared cached) ∧
        ∀ t', ∀ cached ∈ (s.phase t').read, UpToDate ttl s.shared cached
  | _ => True

/-- What holds of a call. -/
def Keeps (s : Shared) : Phase → Prop
  | .idle => True
  | .checksFlag _ floor cached =>
      floor ≤ s.begun ∧ (s.dirty = false → UpToDate ttl s cached)
  | .checksAge _ floor cached =>
      floor ≤ s.begun ∧ (s.now - cached.1 < ttl → floor ≤ cached.2.asOf)
  | .waits floor | .looks floor | .clears floor | .computes floor => floor ≤ s.begun
  | .checksDirty floor status | .stores floor status =>
      floor ≤ status.asOf ∧ (s.dirty = false → s.begun ≤ status.asOf)
  | .resets floor status | .drops floor status => floor ≤ status.asOf
  | .leaves floor status => ∀ v ∈ status, floor ≤ v.asOf
  | .tries id | .empties id | .unsets id | .releases id => id ≤ s.begun

/-- What holds of a thread: a call with the lock is the one that has it. -/
def Ok (s : Shared) (t : Nat) (p : Phase) : Prop :=
  Keeps ttl s p ∧ (p.locked = true → s.lock = some t)

/-- What holds of what the threads share. -/
structure Sound (s : Shared) : Prop where
  returned : s.returned ≤ s.begun
  cache : ∀ cached ∈ s.cache, s.dirty = false → UpToDate ttl s cached
  answers : ∀ answer ∈ s.answers, answer.1 ≤ answer.2.asOf

/-- The invariant. -/
structure Inv (s : State) : Prop where
  shared : Sound ttl s.shared
  threads : ∀ t, Ok ttl s.shared t (s.phase t)

/-- What a step may do to the other threads without harm: time passes, invalidations begin with
the dirty flag set, and the lock of another is left alone. -/
structure Harmless (s s' : Shared) (t : Nat) : Prop where
  now : s.now ≤ s'.now
  begun : s.begun ≤ s'.begun
  dirty : s'.dirty = false → s.dirty = false ∧ s'.begun = s.begun
  lock : s.lock = some t → s'.lock = some t

variable {ttl} {s s' : Shared} {t : Nat} {p : Phase}

theorem UpToDate.mono {cached : Cached} (h : UpToDate ttl s cached) (hnow : s.now ≤ s'.now)
    (hbegun : s'.begun = s.begun) : UpToDate ttl s' cached := by
  intro hage
  have := h (by omega)
  omega

/-- A harmless step keeps what holds of a call. -/
theorem Keeps.mono (h : Keeps ttl s p) (hs : Harmless s s' t) : Keeps ttl s' p := by
  have hnow := hs.now
  have hbegun := hs.begun
  cases p with
  | idle => trivial
  | checksFlag locked floor cached =>
      refine ⟨Nat.le_trans h.1 hbegun, fun hdirty => ?_⟩
      obtain ⟨hdirty, heq⟩ := hs.dirty hdirty
      exact (h.2 hdirty).mono hnow heq
  | checksAge locked floor cached =>
      refine ⟨Nat.le_trans h.1 hbegun, fun hage => h.2 ?_⟩
      omega
  | waits floor => exact Nat.le_trans h hbegun
  | looks floor => exact Nat.le_trans h hbegun
  | clears floor => exact Nat.le_trans h hbegun
  | computes floor => exact Nat.le_trans h hbegun
  | checksDirty floor status =>
      refine ⟨h.1, fun hdirty => ?_⟩
      obtain ⟨hdirty, heq⟩ := hs.dirty hdirty
      exact heq ▸ h.2 hdirty
  | stores floor status =>
      refine ⟨h.1, fun hdirty => ?_⟩
      obtain ⟨hdirty, heq⟩ := hs.dirty hdirty
      exact heq ▸ h.2 hdirty
  | resets floor status => exact h
  | drops floor status => exact h
  | leaves floor status => exact h
  | tries id => exact Nat.le_trans h hbegun
  | empties id => exact Nat.le_trans h hbegun
  | unsets id => exact Nat.le_trans h hbegun
  | releases id => exact Nat.le_trans h hbegun

theorem Ok.mono (h : Ok ttl s t p) (hs : Harmless s s' t) : Ok ttl s' t p :=
  ⟨h.1.mono hs, fun hlocked => hs.lock (h.2 hlocked)⟩

/-- Where the dirty flag stays cleared only without an invalidation, the shared part stays sound
as long as the cache and the answers do. -/
theorem Sound.mono (h : Sound ttl s) (hs : Harmless s s' t) (hcache : s'.cache = s.cache)
    (hreturned : s'.returned = s.returned) (hanswers : s'.answers = s.answers) :
    Sound ttl s' where
  returned := hreturned ▸ Nat.le_trans h.returned hs.begun
  cache cached hcached hdirty := by
    obtain ⟨hdirty, heq⟩ := hs.dirty hdirty
    exact (h.cache cached (hcache ▸ hcached) hdirty).mono hs.now heq
  answers := hanswers ▸ h.answers

/-- **Clearing the dirty flag**, with the lock and up-to-date values, keeps what holds of the
other threads. -/
theorem Ok.clear {actor : Nat} (h : Ok ttl s t p) (hlock : s.lock = some actor) (hne : t ≠ actor)
    (hread : ∀ cached ∈ p.read, UpToDate ttl s cached) :
    Ok ttl { s with dirty := false } t p := by
  -- another thread does not have the lock, so that it is not between a computation and the cache
  have hfree : p.locked = false := by
    cases hp : p.locked with
    | false => rfl
    | true => exact absurd (Option.some.inj ((h.2 hp).symm.trans hlock)) hne
  refine ⟨?_, fun hlocked => by rw [hfree] at hlocked; cases hlocked⟩
  cases p with
  | checksFlag locked floor cached => exact ⟨h.1.1, fun _ => hread cached rfl⟩
  | checksDirty floor status => cases hfree
  | stores floor status => cases hfree
  | _ => exact h.1

/-- A step that leaves the clock, the dirty flag and the lock of the other alone is harmless. -/
theorem Harmless.of_eq (hnow : s'.now = s.now) (hbegun : s'.begun = s.begun)
    (hdirty : s'.dirty = s.dirty) (hlock : s.lock = some t → s'.lock = some t) :
    Harmless s s' t :=
  ⟨Nat.le_of_eq hnow.symm, Nat.le_of_eq hbegun.symm, fun h => ⟨hdirty ▸ h, hbegun⟩, hlock⟩

/-- The thread with the lock may do with it what it likes. -/
theorem lock_of_ne {actor : Nat} {lock : Option Nat} (hlock : s.lock = some actor)
    (hne : t ≠ actor) : s.lock = some t → lock = some t :=
  fun h => absurd (Option.some.inj (h.symm.trans hlock)) hne

/-! ### The steps keep it -/

variable {S : State} {S' : State}

/-- A thread moves on, and the others keep what holds of them. -/
theorem inv_goto (hsound : Sound ttl s') (hself : Ok ttl s' t p)
    (hothers : ∀ t', t' ≠ t → Ok ttl s' t' (S.phase t')) : Inv ttl (S.goto t (s', p)) := by
  refine ⟨hsound, fun t' => ?_⟩
  by_cases ht : t' = t
  · subst ht
    show Ok ttl s' t' (Function.update S.phase t' p t')
    rw [Function.update_self]
    exact hself
  · show Ok ttl s' t' (Function.update S.phase t p t')
    rw [Function.update_of_ne ht]
    exact hothers t' ht

/-- A thread moves on without harm to the others. -/
theorem Inv.goto_harmless (h : Inv ttl S) (hsound : Sound ttl s') (hself : Ok ttl s' t p)
    (hothers : ∀ t', t' ≠ t → Harmless S.shared s' t') : Inv ttl (S.goto t (s', p)) :=
  inv_goto hsound hself fun t' ht => (h.threads t').mono (hothers t' ht)

/-- A thread moves on, and what is shared stays as it is. -/
theorem Inv.goto_same (h : Inv ttl S) (hself : Ok ttl S.shared t p) :
    Inv ttl (S.goto t (S.shared, p)) :=
  h.goto_harmless h.shared hself fun _ _ => .of_eq rfl rfl rfl id

theorem keeps_miss {locked : Bool} {floor : Nat} (h : floor ≤ s.begun) :
    Keeps ttl s (miss locked floor) := by
  cases locked <;> exact h

theorem locked_miss {locked : Bool} {floor : Nat} : (miss locked floor).locked = locked := by
  cases locked <;> rfl

/-- Reading the cache. -/
theorem ok_lookup {locked : Bool} {floor : Nat} (h : Sound ttl s) (hfloor : floor ≤ s.begun)
    (hlock : locked = true → s.lock = some t) : Ok ttl s t (lookup locked floor s.cache) := by
  cases hcache : s.cache with
  | none => exact ⟨keeps_miss hfloor, fun hlocked => hlock (locked_miss.symm.trans hlocked)⟩
  | some cached => exact ⟨⟨hfloor, h.cache cached hcache⟩, hlock⟩

/-- A step of a call keeps the invariant. -/
theorem next_inv {result : Option Bool} (h : Inv ttl S)
    (hclears : ClearsSafely ttl S (.go t result))
    (hnext : next ttl S.shared t result (S.phase t) = some (s', p)) :
    Inv ttl (S.goto t (s', p)) := by
  obtain ⟨hkeeps, hlock⟩ := h.threads t
  have hsound := h.shared
  -- what is up to date when the thread clears the dirty flag
  have hclear : (S.phase t).clearsFlag = true → (S.phase t).locked = true →
      Keeps ttl { S.shared with dirty := false } p →
        Inv ttl (S.goto t ({ S.shared with dirty := false }, p)) := by
    intro hphase hlocked hself
    obtain ⟨hcache, hread⟩ := hclears hphase
    refine inv_goto ⟨hsound.returned, fun cached hcached _ => hcache cached hcached,
      hsound.answers⟩ ⟨hself, fun _ => hlock hlocked⟩ fun t' ht' => ?_
    exact (h.threads t').clear (hlock hlocked) ht' (hread t')
  cases hphase : S.phase t with
  | idle =>
      rw [hphase] at hnext
      cases hnext
  | checksFlag locked floor cached =>
      rw [hphase] at hkeeps hlock hnext
      obtain ⟨rfl, rfl⟩ := Prod.mk.inj (Option.some.inj hnext)
      refine h.goto_same ?_
      cases hdirty : S.shared.dirty with
      | true => exact ⟨keeps_miss hkeeps.1, fun hl => hlock (locked_miss.symm.trans hl)⟩
      | false =>
          refine ⟨⟨hkeeps.1, fun hage => ?_⟩, hlock⟩
          exact Nat.le_trans hkeeps.1 (hkeeps.2 hdirty hage)
  | checksAge locked floor cached =>
      rw [hphase] at hkeeps hlock hnext
      rw [next] at hnext
      split at hnext
      case isTrue hage =>
        have hfloor := hkeeps.2 hage
        split at hnext
        case isTrue hlocked =>
          obtain ⟨rfl, rfl⟩ := Prod.mk.inj (Option.some.inj hnext)
          exact h.goto_same ⟨fun v hv => Option.some.inj hv ▸ hfloor, fun _ => hlock hlocked⟩
        case isFalse =>
          obtain ⟨rfl, rfl⟩ := Prod.mk.inj (Option.some.inj hnext)
          refine h.goto_harmless ⟨hsound.returned, hsound.cache, ?_⟩ ⟨trivial, nofun⟩
            fun _ _ => .of_eq rfl rfl rfl id
          exact List.forall_mem_cons.mpr ⟨hfloor, hsound.answers⟩
      case isFalse =>
        obtain ⟨rfl, rfl⟩ := Prod.mk.inj (Option.some.inj hnext)
        exact h.goto_same ⟨keeps_miss hkeeps.1, fun hl => hlock (locked_miss.symm.trans hl)⟩
  | waits floor =>
      rw [hphase] at hkeeps hnext
      rw [next] at hnext
      split at hnext
      case isFalse => cases hnext
      case isTrue hfree =>
        obtain ⟨rfl, rfl⟩ := Prod.mk.inj (Option.some.inj hnext)
        refine h.goto_harmless ⟨hsound.returned, hsound.cache, hsound.answers⟩
          ⟨hkeeps, fun _ => rfl⟩ fun t' _ => .of_eq rfl rfl rfl fun hl => ?_
        cases hfree.symm.trans hl
  | looks floor =>
      rw [hphase] at hkeeps hlock hnext
      obtain ⟨rfl, rfl⟩ := Prod.mk.inj (Option.some.inj hnext)
      exact h.goto_same (ok_lookup hsound hkeeps hlock)
  | clears floor =>
      rw [hphase] at hkeeps hlock hnext hclear
      obtain ⟨rfl, rfl⟩ := Prod.mk.inj (Option.some.inj hnext)
      exact hclear rfl rfl hkeeps
  | computes floor =>
      rw [hphase] at hkeeps hlock hnext
      obtain ⟨rfl, rfl⟩ := Prod.mk.inj (Option.some.inj hnext)
      refine h.goto_same ?_
      cases result with
      | none => exact ⟨fun v hv => (by cases hv), hlock⟩
      | some unapplied => exact ⟨⟨hkeeps, fun _ => Nat.le_refl _⟩, hlock⟩
  | checksDirty floor status =>
      rw [hphase] at hkeeps hlock hnext
      obtain ⟨rfl, rfl⟩ := Prod.mk.inj (Option.some.inj hnext)
      refine h.goto_same ?_
      cases S.shared.dirty with
      | true => exact ⟨hkeeps.1, hlock⟩
      | false => exact ⟨hkeeps, hlock⟩
  | resets floor status =>
      rw [hphase] at hkeeps hlock hnext hclear
      obtain ⟨rfl, rfl⟩ := Prod.mk.inj (Option.some.inj hnext)
      exact hclear rfl rfl hkeeps
  | drops floor status =>
      rw [hphase] at hkeeps hlock hnext
      obtain ⟨rfl, rfl⟩ := Prod.mk.inj (Option.some.inj hnext)
      refine h.goto_harmless ⟨hsound.returned, fun _ hcached => (by cases hcached),
        hsound.answers⟩ ⟨fun v hv => Option.some.inj hv ▸ hkeeps, hlock⟩ fun _ _ =>
          .of_eq rfl rfl rfl id
  | stores floor status =>
      rw [hphase] at hkeeps hlock hnext
      obtain ⟨rfl, rfl⟩ := Prod.mk.inj (Option.some.inj hnext)
      refine h.goto_harmless ⟨hsound.returned, fun cached hcached hdirty _ => ?_, hsound.answers⟩
        ⟨fun v hv => Option.some.inj hv ▸ hkeeps.1, hlock⟩ fun _ _ => .of_eq rfl rfl rfl id
      obtain rfl := Option.some.inj hcached
      exact hkeeps.2 hdirty
  | leaves floor status =>
      rw [hphase] at hkeeps hlock hnext
      obtain ⟨rfl, rfl⟩ := Prod.mk.inj (Option.some.inj hnext)
      have hothers : ∀ t', t' ≠ t → S.shared.lock = some t' → none = some t' :=
        fun t' ht' => lock_of_ne (hlock rfl) ht'
      cases status with
      | none =>
          exact h.goto_harmless ⟨hsound.returned, hsound.cache, hsound.answers⟩
            ⟨trivial, nofun⟩ fun t' ht' => .of_eq rfl rfl rfl (hothers t' ht')
      | some v =>
          refine h.goto_harmless ⟨hsound.returned, hsound.cache, ?_⟩
            ⟨trivial, nofun⟩ fun t' ht' => .of_eq rfl rfl rfl (hothers t' ht')
          exact List.forall_mem_cons.mpr ⟨hkeeps v rfl, hsound.answers⟩
  | tries id =>
      rw [hphase] at hkeeps hnext
      rw [next] at hnext
      split at hnext
      case isTrue hfree =>
        obtain ⟨rfl, rfl⟩ := Prod.mk.inj (Option.some.inj hnext)
        refine h.goto_harmless ⟨hsound.returned, hsound.cache, hsound.answers⟩
          ⟨hkeeps, fun _ => rfl⟩ fun t' _ => .of_eq rfl rfl rfl fun hl => ?_
        cases hfree.symm.trans hl
      case isFalse =>
        obtain ⟨rfl, rfl⟩ := Prod.mk.inj (Option.some.inj hnext)
        exact h.goto_harmless ⟨Nat.max_le.mpr ⟨hsound.returned, hkeeps⟩, hsound.cache,
          hsound.answers⟩ ⟨trivial, nofun⟩ fun _ _ => .of_eq rfl rfl rfl fun hl => hl
  | empties id =>
      rw [hphase] at hkeeps hlock hnext
      obtain ⟨rfl, rfl⟩ := Prod.mk.inj (Option.some.inj hnext)
      exact h.goto_harmless ⟨hsound.returned, fun _ hcached => (by cases hcached),
        hsound.answers⟩ ⟨hkeeps, hlock⟩ fun _ _ => .of_eq rfl rfl rfl fun hl => hl
  | unsets id =>
      rw [hphase] at hkeeps hlock hnext hclear
      obtain ⟨rfl, rfl⟩ := Prod.mk.inj (Option.some.inj hnext)
      exact hclear rfl rfl hkeeps
  | releases id =>
      rw [hphase] at hkeeps hlock hnext
      obtain ⟨rfl, rfl⟩ := Prod.mk.inj (Option.some.inj hnext)
      exact h.goto_harmless ⟨Nat.max_le.mpr ⟨hsound.returned, hkeeps⟩, hsound.cache,
        hsound.answers⟩ ⟨trivial, nofun⟩ fun t' ht' =>
          .of_eq rfl rfl rfl (lock_of_ne (hlock rfl) ht')

/-- **A step** keeps the invariant. -/
theorem step_inv (S : State) (a : Act) (S' : State) (h : Inv ttl S)
    (hclears : ClearsSafely ttl S a) (hstep : step ttl S a = some S') : Inv ttl S' := by
  have hsound := h.shared
  cases a with
  | advance d =>
      obtain rfl := Option.some.inj hstep
      have hharmless : ∀ t, Harmless S.shared { S.shared with now := S.shared.now + d } t :=
        fun t => ⟨Nat.le_add_right _ _, Nat.le_refl _, fun hdirty => ⟨hdirty, rfl⟩, id⟩
      exact ⟨hsound.mono (hharmless 0) rfl rfl rfl, fun t => (h.threads t).mono (hharmless t)⟩
  | getConfigStatus t =>
      rw [step] at hstep
      split at hstep
      · obtain rfl := Option.some.inj hstep
        exact h.goto_same (ok_lookup hsound hsound.returned nofun)
      · cases hstep
  | invalidateConfigStatus t =>
      rw [step] at hstep
      split at hstep
      · obtain rfl := Option.some.inj hstep
        have hharmless : ∀ t', Harmless S.shared
            { S.shared with dirty := true, begun := S.shared.begun + 1 } t' :=
          fun t' => ⟨Nat.le_refl _, Nat.le_succ _, nofun, id⟩
        exact h.goto_harmless (hsound.mono (hharmless 0) rfl rfl rfl) ⟨Nat.le_refl _, nofun⟩
          fun t' _ => hharmless t'
      · cases hstep
  | go t result =>
      obtain ⟨⟨s', p⟩, hnext, rfl⟩ := Option.map_eq_some_iff.mp hstep
      exact next_inv h hclears hnext

theorem start_inv (now : Nat) : Inv ttl (start now) :=
  ⟨⟨Nat.le_refl _, nofun, nofun⟩, fun _ => ⟨trivial, nofun⟩⟩

variable (ttl) in
/-- **Answers are current** in runs that clear the dirty flag safely: a value that a
`get_config_status` returns was computed after every invalidation that had returned when the call
began. -/
theorem answers_current (now : Nat) (as : List Act)
    (h : Transition.Along (step ttl) (ClearsSafely ttl) (start now) as) :
    ∀ S, Transition.run (step ttl) (start now) as = some S →
      ∀ answer ∈ S.shared.answers, answer.1 ≤ answer.2.asOf :=
  fun _ hrun => (Transition.run_invariant step_inv (start_inv now) h hrun).shared.answers

end Steps

/-! ### A call that clears the flag of an invalidation -/

/-- An invalidation, and then a call that computes the status and returns it. -/
def afterInvalidation : List Act :=
  [.invalidateConfigStatus 0, .go 0 none, .go 0 none, .go 0 none, .go 0 none,
    .getConfigStatus 0, .go 0 none, .go 0 none, .go 0 none, .go 0 (some true), .go 0 none,
    .go 0 none, .go 0 none]

/-- A flag is cleared safely when nothing is cached and no call has read the cache. -/
theorem clearsSafely_of_none {ttl : Nat} {S : State} {a : Act} (hcache : S.shared.cache = none)
    (hread : ∀ t, (S.phase t).read = none) : ClearsSafely ttl S a := by
  cases a with
  | go t result =>
      refine fun _ => ⟨fun cached hcached => ?_, fun t' cached hcached => ?_⟩
      · cases hcache.symm.trans hcached
      · cases (hread t').symm.trans hcached
  | _ => trivial

theorem read_update {f : Nat → Phase} {i : Nat} {p : Phase} (hf : ∀ t, (f t).read = none)
    (hp : p.read = none) (t : Nat) : (Function.update f i p t).read = none := by
  by_cases ht : t = i
  · subst ht
    rw [Function.update_self]
    exact hp
  · rw [Function.update_of_ne ht]
    exact hf t

/-- The status is current. -/
theorem afterInvalidation_current :
    ∃ S, Transition.run (step 5) (start 0) afterInvalidation = some S ∧
      ∀ answer ∈ S.shared.answers, answer.1 ≤ answer.2.asOf := by
  refine ⟨_, rfl, answers_current 5 0 afterInvalidation ?_ _ rfl⟩
  have hidle : ∀ t, ((start 0).phase t).read = none := fun _ => rfl
  refine ⟨trivial, fun S hS => ?_⟩
  obtain rfl := Option.some.inj hS
  refine ⟨nofun, fun S hS => ?_⟩
  obtain rfl := Option.some.inj hS
  refine ⟨nofun, fun S hS => ?_⟩
  obtain rfl := Option.some.inj hS
  -- the invalidation clears the flag, with nothing cached
  refine ⟨clearsSafely_of_none rfl ?_, fun S hS => ?_⟩
  · exact read_update (read_update (read_update hidle rfl) rfl) rfl
  obtain rfl := Option.some.inj hS
  refine ⟨nofun, fun S hS => ?_⟩
  obtain rfl := Option.some.inj hS
  refine ⟨trivial, fun S hS => ?_⟩
  obtain rfl := Option.some.inj hS
  refine ⟨nofun, fun S hS => ?_⟩
  obtain rfl := Option.some.inj hS
  refine ⟨nofun, fun S hS => ?_⟩
  obtain rfl := Option.some.inj hS
  -- and so does the call
  refine ⟨clearsSafely_of_none rfl ?_, fun S hS => ?_⟩
  · refine read_update (read_update (read_update (read_update (read_update ?_ rfl) rfl) rfl) rfl) rfl
    exact read_update (read_update (read_update hidle rfl) rfl) rfl
  obtain rfl := Option.some.inj hS
  refine ⟨nofun, fun S hS => ?_⟩
  obtain rfl := Option.some.inj hS
  refine ⟨nofun, fun S hS => ?_⟩
  obtain rfl := Option.some.inj hS
  refine ⟨nofun, fun S hS => ?_⟩
  obtain rfl := Option.some.inj hS
  exact ⟨nofun, fun _ _ => trivial⟩

/-- A status is cached.  An invalidation sets the dirty flag; another call takes the lock and
finds the flag, so that the invalidation cannot take it, and returns; the call clears the flag,
with the old status still cached. -/
def overtaken : List Act :=
  [.getConfigStatus 0, .go 0 none, .go 0 none, .go 0 none, .go 0 (some false), .go 0 none,
    .go 0 none, .go 0 none,
    .invalidateConfigStatus 1, .getConfigStatus 0, .go 0 none, .go 0 none, .go 0 none, .go 0 none,
    .go 1 none, .go 0 none, .getConfigStatus 2, .go 2 none, .go 2 none]

/-- **The call after the invalidation returns the old status**. -/
theorem overtaken_outdated :
    ∃ S, Transition.run (step 5) (start 0) overtaken = some S ∧
      ∃ answer ∈ S.shared.answers, answer.2.asOf < answer.1 :=
  ⟨_, rfl, (1, ⟨false, 0⟩), List.mem_cons_self, Nat.zero_lt_one⟩

end CorexManager.StatusCache
