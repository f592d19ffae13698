import CorexManager.Data.Dict
import CorexManager.Logic.Transition
import CorexManager.RespTransform.Tokens
import Mathlib.Logic.Function.Basic

/-!
# Lifetimes of tokens

A token is kept in the store for the time of its rule, and in a cache in front of the store for five
minutes from its creation or from the last lookup that the store has answered.

* `cacheGet`, `cachePut` — the local cache.
* `Lookups.step` — matches that are masked, tokens that are resolved, time, and the store going up
  and down.
* `Lookups.Faithful` — a token resolves to its original before its time is over, and not after.
* `lifetimes_iff` — it does so throughout a run exactly when no token outlives its time in the cache.
* `outlived` — a token of one second is resolved after two.
-/

namespace CorexManager.RespTransform

open Crypto (Sized)
open Data (Text)
open Transition

/-! ### The local cache -/

/-- An original, and the last moment it is kept for.  Times are in milliseconds. -/
structure Timed where
  original : Text
  expiry : Nat
deriving DecidableEq

/-- `TOKEN_CACHE`. -/
abbrev TokenCache : Type := List (Text × Timed)

/-- `CACHE_MAX_SIZE`. -/
def cacheMaxSize : Nat := 10000

/-- `CACHE_TTL`. -/
def cacheTtl : Nat := 300 * 1000

/-- What is kept, unless it is expired. -/
def Timed.fresh (now : Nat) (e : Timed) : Option Text :=
  if e.expiry < now then none else some e.original

/-- `cache_get`. -/
def cacheGet (now : Nat) (cache : TokenCache) (token : Text) : Option Text × TokenCache :=
  match Data.Dict.lookup cache token with
  | none => (none, cache)
  | some entry =>
      if entry.expiry < now then (none, cache.filter fun e => e.1 ≠ token)
      else (some entry.original, cache)

/-- `cache_put`. -/
def cachePut (now : Nat) (cache : TokenCache) (token original : Text) : TokenCache :=
  Data.Dict.set (if cacheMaxSize ≤ cache.length then [] else cache) token ⟨original, now + cacheTtl⟩

variable {now : Nat} {cache : TokenCache} {token t original : Text}

theorem cacheGet_fst :
    (cacheGet now cache token).1 = (Data.Dict.lookup cache token).bind (Timed.fresh now) := by
  unfold cacheGet
  cases Data.Dict.lookup cache token with
  | none => rfl
  | some entry =>
      rw [Option.bind_some, Timed.fresh]
      dsimp only
      split <;> rfl

/-- What is looked up after an entry is gone was there before. -/
theorem lookup_of_filter {e : Timed}
    (h : Data.Dict.lookup (cache.filter fun e => e.1 ≠ token) t = some e) :
    Data.Dict.lookup cache t = some e := by
  induction cache with
  | nil => exact h
  | cons f cache ih =>
      rw [Data.Dict.lookup_cons]
      by_cases hf : f.1 = token
      · rw [List.filter_cons_of_neg (by simpa using hf)] at h
        by_cases ht : f.1 = t
        · -- the entry that is gone is that of the key
          have hkey := (Data.Dict.lookup_isSome_iff).mp (Option.isSome_of_eq_some h)
          obtain ⟨g, hg, hgt⟩ := List.mem_map.mp hkey
          exact absurd (hgt.trans (ht.symm.trans hf)) (by simpa using (List.mem_filter.mp hg).2)
        · rw [if_neg ht]
          exact ih h
      · rw [List.filter_cons_of_pos (by simpa using hf), Data.Dict.lookup_cons] at h
        by_cases ht : f.1 = t
        · rwa [if_pos ht] at h ⊢
        · rw [if_neg ht] at h ⊢
          exact ih h

theorem lookup_of_cacheGet {e : Timed}
    (h : Data.Dict.lookup (cacheGet now cache token).2 t = some e) :
    Data.Dict.lookup cache t = some e := by
  unfold cacheGet at h
  split at h
  · exact h
  · split at h
    · exact lookup_of_filter h
    · exact h

theorem lookup_cachePut_self :
    Data.Dict.lookup (cachePut now cache token original) token =
      some ⟨original, now + cacheTtl⟩ :=
  Data.Dict.lookup_set_self ..

/-- Other entries are those from before, if there are any. -/
theorem lookup_of_cachePut (hne : t ≠ token) {e : Timed}
    (h : Data.Dict.lookup (cachePut now cache token original) t = some e) :
    Data.Dict.lookup cache t = some e := by
  rw [cachePut, Data.Dict.lookup_set_other _ _ hne] at h
  split at h
  · cases h
  · exact h

/-! ### The store -/

/-- The store: whether it can be reached, and its entries. -/
structure Valkey where
  up : Bool := true
  entries : Text → Option Timed := fun _ => none

/-- The key of a token. -/
def tokenKey (token : Text) : Text := "resp_transform:token:".toList ++ token

section Store

variable (accepts : Nat → Bool) (store : Valkey) (now : Nat)

/-- `valkey_set`, if it succeeds; `accepts` are the times of `SET EX`, in seconds. -/
def valkeySet (key value : Text) (ttl : Nat) : Option Valkey :=
  if store.up = true ∧ accepts ttl = true then
    some { store with
      entries := Function.update store.entries key (some ⟨value, now + 1000 * ttl⟩) }
  else none

/-- `valkey_get`. -/
def valkeyGet (key : Text) : Option Text :=
  if store.up then (store.entries key).bind (Timed.fresh now) else none

end Store

theorem tokenKey_injective {a b : Text} : tokenKey a = tokenKey b ↔ a = b :=
  List.append_right_inj _

/-! ### Steps -/

/-- A match that was masked by a token of the store. -/
structure Creation where
  token : Text
  original : Text
  created : Nat
  ttl : Nat

/-- The end of the time of a token. -/
def Creation.deadline (c : Creation) : Nat := c.created + 1000 * c.ttl

/-- The clock, the cache, the store, and the tokens so far. -/
structure Lookups where
  now : Nat := 0
  cache : TokenCache := []
  store : Valkey := {}
  creations : List Creation := []

inductive Lookups.Action where
  | pass (time : Nat)
  /-- The store can be reached, or not. -/
  | reach (up : Bool)
  /-- `tokenize_mask`, for one match. -/
  | mask (tokenPrefix : Text) (tokenTtl : Option Nat) (random : Sized 16) (original : Text)
  /-- `detokenize` or `resolve_token_tokenize`, for one token. -/
  | resolve (token : Text)

section Steps

variable (accepts : Nat → Bool)

namespace Lookups

variable (w : Lookups)

/-- What a token is resolved to now, by the cache or the store. -/
def answer (token : Text) : Option Text :=
  (cacheGet w.now w.cache token).1.or (valkeyGet w.store w.now (tokenKey token))

/-- The time of a rule. -/
def ttlOf (tokenTtl : Option Nat) : Nat := tokenTtl.getD 3600

def mask (tokenTtl : Option Nat) (token original : Text) : Lookups :=
  match valkeySet accepts w.store w.now (tokenKey token) original (ttlOf tokenTtl) with
  | some store =>
      { w with
        store := store
        cache := cachePut w.now w.cache token original
        creations := ⟨token, original, w.now, ttlOf tokenTtl⟩ :: w.creations }
  | none => w

def resolve (token : Text) : Lookups :=
  match cacheGet w.now w.cache token with
  | (some _, cache) => { w with cache := cache }
  | (none, cache) =>
      match valkeyGet w.store w.now (tokenKey token) with
      | some original => { w with cache := cachePut w.now cache token original }
      | none => { w with cache := cache }

def next : Action → Lookups
  | .pass time => { w with now := w.now + time }
  | .reach up => { w with store := { w.store with up := up } }
  | .mask tokenPrefix tokenTtl random original =>
      w.mask accepts tokenTtl (tokenPrefix ++ randomToken random.1) original
  | .resolve token => w.resolve token

/-- All of them are possible at any time. -/
def step (a : Action) : Option Lookups := some (w.next accepts a)

/-- **Lifetimes**: before its time is over a token resolves to its original while the store can be
reached, and after it the token is not resolved. -/
structure Faithful : Prop where
  before c : c ∈ w.creations → w.now < c.deadline → w.store.up = true →
    w.answer c.token = some c.original
  after c : c ∈ w.creations → c.deadline < w.now → w.answer c.token = none

/-- The tokens that are drawn are new ones. -/
def Draws (w : Lookups) : Action → Prop
  | .mask tokenPrefix _ random _ => ∀ c ∈ w.creations, c.token ≠ tokenPrefix ++ randomToken random.1
  | _ => True

/-- **No token outlives its time in the cache**: when its time is over, so is that of its entry. -/
def Outlasts (w : Lookups) : Action → Prop
  | .pass time => ∀ c ∈ w.creations, c.deadline < w.now + time →
      ∀ e, Data.Dict.lookup w.cache c.token = some e → e.expiry < w.now + time
  | _ => True

/-! ### What is kept -/

/-- What the store and the cache have. -/
structure Sound : Prop where
  stored c : c ∈ w.creations → w.store.entries (tokenKey c.token) = some ⟨c.original, c.deadline⟩
  cached t e : Data.Dict.lookup w.cache t = some e →
    ∃ c ∈ w.creations, c.token = t ∧ e.original = c.original
  known t e : w.store.entries (tokenKey t) = some e → ∃ c ∈ w.creations, c.token = t

variable {accepts} {w} {w' : Lookups} {c d : Creation} {token original : Text}

/-- A token is of one creation. -/
theorem Sound.unique (h : w.Sound) (hc : c ∈ w.creations) (hd : d ∈ w.creations)
    (htoken : c.token = d.token) : c.original = d.original ∧ c.deadline = d.deadline := by
  have hstored := h.stored c hc
  rw [htoken, h.stored d hd, Option.some.injEq, Timed.mk.injEq] at hstored
  exact ⟨hstored.1.symm, hstored.2.symm⟩

theorem Sound.original_of_cached (h : w.Sound) (hc : c ∈ w.creations) {e : Timed}
    (he : Data.Dict.lookup w.cache c.token = some e) : e.original = c.original := by
  obtain ⟨d, hd, htoken, horiginal⟩ := h.cached c.token e he
  exact horiginal.trans (h.unique hd hc htoken).1

theorem Sound.valkeyGet (h : w.Sound) (hc : c ∈ w.creations) :
    valkeyGet w.store w.now (tokenKey c.token) =
      if w.store.up = true ∧ w.now ≤ c.deadline then some c.original else none := by
  rw [RespTransform.valkeyGet, h.stored c hc, Option.bind_some, Timed.fresh]
  by_cases hup : w.store.up = true
  · rw [if_pos hup]
    by_cases hlate : c.deadline < w.now
    · rw [if_pos hlate, if_neg (fun hle => absurd hle.2 (Nat.not_le.mpr hlate))]
    · rw [if_neg hlate, if_pos ⟨hup, Nat.not_lt.mp hlate⟩]
  · rw [if_neg hup, if_neg (fun hle => hup hle.1)]

/-- **While the store can be reached** a token resolves to its original until its time is over. -/
theorem Sound.answer_before (h : w.Sound) (hc : c ∈ w.creations) (hnow : w.now < c.deadline)
    (hup : w.store.up = true) : w.answer c.token = some c.original := by
  rw [answer, h.valkeyGet hc, if_pos ⟨hup, hnow.le⟩, cacheGet_fst]
  cases he : Data.Dict.lookup w.cache c.token with
  | none => rfl
  | some e =>
      rw [Option.bind_some, Timed.fresh, h.original_of_cached hc he]
      split <;> rfl

/-- After its time a token is resolved exactly by an entry of the cache. -/
theorem Sound.answer_after (h : w.Sound) (hc : c ∈ w.creations) (hnow : c.deadline < w.now) :
    w.answer c.token = none ↔
      ∀ e, Data.Dict.lookup w.cache c.token = some e → e.expiry < w.now := by
  rw [answer, h.valkeyGet hc, if_neg (fun hle => absurd hle.2 (Nat.not_le.mpr hnow)), Option.or_none,
    cacheGet_fst, Option.bind_eq_none_iff]
  refine forall₂_congr fun e _ => ?_
  rw [Timed.fresh]
  split
  next hlate => exact iff_of_true rfl hlate
  next hlate => exact iff_of_false (by simp) hlate

/-- The cache is in time at a moment. -/
def InTime (w : Lookups) (now : Nat) : Prop := ∀ c ∈ w.creations, c.deadline < now →
  ∀ e, Data.Dict.lookup w.cache c.token = some e → e.expiry < now

theorem Sound.faithful_iff (h : w.Sound) : w.Faithful ↔ w.InTime w.now := by
  constructor
  · exact fun hfaithful c hc hnow => (h.answer_after hc hnow).mp (hfaithful.after c hc hnow)
  · intro htime
    exact ⟨fun c hc => h.answer_before hc, fun c hc hnow =>
      (h.answer_after hc hnow).mpr (htime c hc hnow)⟩

/-! ### Masks -/

variable (accepts w) in
/-- What a mask can do. -/
theorem mask_cases (tokenTtl : Option Nat) (token original : Text) :
    w.mask accepts tokenTtl token original = w ∨
      w.mask accepts tokenTtl token original =
        { w with
          store := { w.store with
            entries := Function.update w.store.entries (tokenKey token)
              (some ⟨original, w.now + 1000 * ttlOf tokenTtl⟩) }
          cache := cachePut w.now w.cache token original
          creations := ⟨token, original, w.now, ttlOf tokenTtl⟩ :: w.creations } := by
  unfold mask valkeySet
  split
  next store hstore =>
    split at hstore
    · obtain rfl := Option.some.inj hstore
      exact .inr rfl
    · cases hstore
  next => exact .inl rfl

theorem Sound.mask (h : w.Sound) (tokenTtl : Option Nat)
    (hnew : ∀ c ∈ w.creations, c.token ≠ token) : (w.mask accepts tokenTtl token original).Sound := by
  rcases mask_cases accepts w tokenTtl token original with heq | heq
  · rw [heq]
    exact h
  · rw [heq]
    constructor
    · intro c hc
      rcases List.mem_cons.mp hc with rfl | hc
      · exact Function.update_self ..
      · exact (Function.update_of_ne (fun hkey => hnew c hc (tokenKey_injective.mp hkey)) ..).trans
          (h.stored c hc)
    · intro t e he
      by_cases ht : t = token
      · subst ht
        rw [lookup_cachePut_self] at he
        exact ⟨_, List.mem_cons_self, rfl, by rw [← Option.some.inj he]⟩
      · obtain ⟨c, hc, hcached⟩ := h.cached t e (lookup_of_cachePut ht he)
        exact ⟨c, List.mem_cons_of_mem _ hc, hcached⟩
    · intro t e he
      by_cases ht : t = token
      · exact ⟨_, List.mem_cons_self, ht.symm⟩
      · have hne : tokenKey t ≠ tokenKey token := fun hkey => ht (tokenKey_injective.mp hkey)
        have hkey := (Function.update_of_ne hne ..).symm.trans he
        obtain ⟨c, hc, htoken⟩ := h.known t e hkey
        exact ⟨c, List.mem_cons_of_mem _ hc, htoken⟩

/-- The time of a new token is not over. -/
theorem InTime.mask (h : w.InTime w.now) (tokenTtl : Option Nat)
    (hnew : ∀ c ∈ w.creations, c.token ≠ token) :
    (w.mask accepts tokenTtl token original).InTime
      (w.mask accepts tokenTtl token original).now := by
  rcases mask_cases accepts w tokenTtl token original with heq | heq
  · rw [heq]
    exact h
  · rw [heq]
    intro c hc hnow e he
    rcases List.mem_cons.mp hc with rfl | hc
    · exact absurd hnow (Nat.not_lt.mpr (Nat.le_add_right ..))
    · exact h c hc hnow e (lookup_of_cachePut (hnew c hc) he)

/-! ### Lookups -/

/-- What a lookup can do: the cache loses an entry at most, or it has what the store answered. -/
theorem resolve_cases (token : Text) :
    (∃ cache, w.resolve token = { w with cache := cache } ∧
      ∀ t e, Data.Dict.lookup cache t = some e → Data.Dict.lookup w.cache t = some e) ∨
    ∃ cache original, valkeyGet w.store w.now (tokenKey token) = some original ∧
      w.resolve token = { w with cache := cachePut w.now cache token original } ∧
      ∀ t e, Data.Dict.lookup cache t = some e → Data.Dict.lookup w.cache t = some e := by
  have hless := fun t e => @lookup_of_cacheGet w.now w.cache token t e
  unfold resolve
  generalize cacheGet w.now w.cache token = found at hless
  obtain ⟨_ | original, cache⟩ := found
  · dsimp only
    cases hget : valkeyGet w.store w.now (tokenKey token) with
    | none => exact .inl ⟨cache, rfl, hless⟩
    | some original => exact .inr ⟨cache, original, rfl, rfl, hless⟩
  · exact .inl ⟨cache, rfl, hless⟩

/-- What the store answers is of a token whose time is not over. -/
theorem Sound.of_valkeyGet (h : w.Sound)
    (hget : RespTransform.valkeyGet w.store w.now (tokenKey token) = some original) :
    ∃ c ∈ w.creations, c.token = token ∧ c.original = original ∧ w.now ≤ c.deadline := by
  have hentry : (w.store.entries (tokenKey token)).isSome := by
    rw [RespTransform.valkeyGet] at hget
    split at hget
    · exact Option.isSome_of_mem (Option.bind_eq_some_iff.mp hget).choose_spec.1
    · cases hget
  obtain ⟨e, he⟩ := Option.isSome_iff_exists.mp hentry
  obtain ⟨c, hc, rfl⟩ := h.known token e he
  rw [h.valkeyGet hc] at hget
  split at hget
  next hup => exact ⟨c, hc, rfl, Option.some.inj hget, hup.2⟩
  next => cases hget

theorem Sound.resolve (h : w.Sound) (token : Text) : (w.resolve token).Sound := by
  rcases resolve_cases (w := w) token with ⟨cache, heq, hless⟩ | ⟨cache, original, hget, heq, hless⟩
  · rw [heq]
    exact ⟨h.stored, fun t e he => h.cached t e (hless t e he), h.known⟩
  · rw [heq]
    refine ⟨h.stored, fun t e he => ?_, h.known⟩
    by_cases ht : t = token
    · subst ht
      obtain ⟨c, hc, htoken, horiginal, -⟩ := h.of_valkeyGet hget
      rw [lookup_cachePut_self] at he
      exact ⟨c, hc, htoken, by rw [← Option.some.inj he, horiginal]⟩
    · exact h.cached t e (hless t e (lookup_of_cachePut ht he))

theorem InTime.resolve (hsound : w.Sound) (h : w.InTime w.now) (token : Text) :
    (w.resolve token).InTime (w.resolve token).now := by
  rcases resolve_cases (w := w) token with ⟨cache, heq, hless⟩ | ⟨cache, original, hget, heq, hless⟩
  · rw [heq]
    exact fun c hc hnow e he => h c hc hnow e (hless c.token e he)
  · rw [heq]
    intro c hc hnow e he
    by_cases ht : c.token = token
    · obtain ⟨d, hd, htoken, -, hdeadline⟩ := hsound.of_valkeyGet hget
      have hsame := (hsound.unique hc hd (ht.trans htoken.symm)).2
      exact absurd hnow (Nat.not_lt.mpr (hsame ▸ hdeadline))
    · exact h c hc hnow e (hless c.token e (lookup_of_cachePut ht he))

/-! ### Runs -/

/-- Every step that draws a new token keeps what is kept. -/
theorem Sound.step {a : Action} (h : w.Sound) (hdraws : w.Draws a)
    (hstep : w.step accepts a = some w') : w'.Sound := by
  obtain rfl : w.next accepts a = w' := Option.some.inj hstep
  cases a with
  | pass time => exact ⟨h.stored, h.cached, h.known⟩
  | reach up => exact ⟨h.stored, h.cached, h.known⟩
  | mask tokenPrefix tokenTtl random original => exact h.mask tokenTtl hdraws
  | resolve token => exact h.resolve token

/-- **One step**: only time that passes can make a token outlive its own. -/
theorem Sound.outlasts_iff {a : Action} (h : w.Sound) (hfaithful : w.Faithful) (hdraws : w.Draws a)
    (hstep : w.step accepts a = some w') : w.Outlasts a ↔ w'.Faithful := by
  rw [(h.step hdraws hstep).faithful_iff]
  have htime := h.faithful_iff.mp hfaithful
  obtain rfl : w.next accepts a = w' := Option.some.inj hstep
  cases a with
  | pass time => exact Iff.rfl
  | reach up => exact iff_of_true trivial htime
  | mask tokenPrefix tokenTtl random original => exact iff_of_true trivial (htime.mask tokenTtl hdraws)
  | resolve token => exact iff_of_true trivial (htime.resolve h token)

theorem sound_start : Sound {} :=
  ⟨fun _ hc => absurd hc List.not_mem_nil, fun _ _ he => (by cases he), fun _ _ he => (by cases he)⟩

variable (accepts) in
/-- **Lifetimes of tokens**: with new tokens drawn, each of them is throughout a run resolved until
its time is over and not after it, exactly if along the run no entry of the cache outlasts the time
of its token. -/
theorem lifetimes_iff (as : List Action) (hdraws : Along (step accepts) Draws {} as) :
    Along (step accepts) Outlasts {} as ↔
      ∀ bs w, bs <+: as → run (step accepts) {} bs = some w → w.Faithful := by
  obtain ⟨w, hrun⟩ := @run_total _ _ (step accepts) (fun _ _ => ⟨_, rfl⟩) {} as
  exact along_iff_throughout_of_along (J := Sound) (I := Faithful) (B := Draws)
    (fun _ _ _ h hdraws hstep => h.step hdraws hstep)
    (fun _ _ _ h hfaithful hdraws hstep => h.outlasts_iff hfaithful hdraws hstep)
    sound_start (sound_start.faithful_iff.mpr fun _ hc => absurd hc List.not_mem_nil) hdraws hrun

/-- A token of one second, and the second. -/
def secondRun : List Action :=
  [.mask "TOK_".toList (some 1) ⟨List.replicate 16 0, length_zeros⟩ "alice".toList, .pass 1000]

/-- When its second is over the token is resolved as it should be. -/
theorem lifetimes_second :
    ∃ w, run (step fun _ => true) {} secondRun = some w ∧ w.Faithful := by
  refine ⟨_, rfl, (lifetimes_iff (fun _ => true) secondRun ?_).mp ⟨trivial, fun w hw => ⟨?_, ?_⟩⟩
    secondRun _ (List.prefix_refl _) rfl⟩
  · exact ⟨fun _ hc => absurd hc List.not_mem_nil, fun _ _ => ⟨trivial, fun _ _ => trivial⟩⟩
  · intro c hc hnow
    obtain rfl := Option.some.inj hw
    obtain rfl := List.mem_singleton.mp hc
    exact absurd hnow (Nat.lt_irrefl 1000)
  · exact fun _ _ => trivial

/-! ### A token that outlives its time -/

/-- A token of one second, and two seconds. -/
def outlivingRun : List Action :=
  [.mask "TOK_".toList (some 1) ⟨List.replicate 16 0, length_zeros⟩ "alice".toList, .pass 2000]

/-- The end of the run: the token is resolved by the cache. -/
theorem outlived : ∃ w c, run (step fun _ => true) {} outlivingRun = some w ∧ c ∈ w.creations ∧
    c.deadline < w.now ∧ w.answer c.token = some "alice".toList ∧ ¬ w.Faithful := by
  have hanswer : ∀ w c, c ∈ Lookups.creations w → c.deadline < w.now →
      w.answer c.token = some "alice".toList → ¬ w.Faithful := by
    intro w c hc hnow ha h
    rw [h.after c hc hnow] at ha
    cases ha
  exact ⟨_, _, rfl, List.mem_singleton_self _, by decide +kernel, by decide +kernel,
    hanswer _ _ (List.mem_singleton_self _) (by decide +kernel) (by decide +kernel)⟩

end Lookups

end Steps

end CorexManager.RespTransform
