import CorexManager.Data.Json
import CorexManager.Data.Store
import CorexManager.Logic.Transition

/-!
# Challenges are solved once

`captcha_store_ctx` of `captcha_ctx.lua` issues a challenge by storing its context in
Valkey; the challenge page (`get_captcha_challenge`) and `verify_captcha` of `api/v1/waf.py`
read, store back and delete it.  Every command to Valkey is a step of its own, and requests
interleave.

* `step` — the steps of all requests; those of Valkey may fail, and any key may expire.
* `Undisturbed` — a request still finds the challenge as it read it when it acts on it.
* `single_use` — in undisturbed runs a challenge mints one cookie at most, and is not
  usable once it is consumed.
* `not_single_use` — two solves, or a page and a solve, that overlap break it.
-/

namespace CorexManager.Captcha

open Data

/-! ### Keys -/

/-- The key of a challenge. -/
def cidKey (cid : Text) : Text := "cap:cid:".toList ++ cid

/-- The key of a cookie. -/
def cvKey (token : Text) : Text := "cap:_cv:".toList ++ token

theorem cidKey_inj {a b : Text} (h : cidKey a = cidKey b) : a = b := List.append_cancel_left h

theorem cvKey_ne_cidKey (token cid : Text) : cvKey token ≠ cidKey cid := by
  unfold cvKey cidKey
  rw [toList_of_eq (s := "cap:_cv:") rfl, toList_of_eq (s := "cap:cid:") rfl]
  simp

/-! ### Requests -/

/-- The form of `verify_captcha`, as far as the answer depends on it. -/
structure Form where
  cid : Text
  /-- The token of the active provider. -/
  token : Option Text
  /-- `compute_cv_binding_hash` of the client. -/
  bindingHash : Text
  deriving DecidableEq

/-- What is answered. -/
inductive Answer where
  | error (status : Nat)
  | challenge (cid : Text)
  | redirect (cookie : Text)
  deriving DecidableEq

/-- How far a request is. -/
inductive Phase where
  /-- Not there yet. -/
  | absent
  | page (cid : Text)
  | pageRead (cid : Text) (context : Json)
  | verify (form : Form)
  | verifyRead (form : Form)
  /-- The provider accepted the solve. -/
  | accepted (form : Form)
  /-- The cookie is stored. -/
  | minted (form : Form) (cookie : Text)
  | answered (a : Answer)
  deriving DecidableEq

/-- What becomes of the solve. -/
inductive Check where
  | unconfigured | accepted | rejected | unreachable
  deriving DecidableEq

/-- A step. -/
inductive Act where
  /-- `captcha_store_ctx`, with its random token and the context. -/
  | issue (token context : Text) (ok : Bool)
  | page (r : Nat) (cid : Text) (siteKey : Bool)
  | readPage (r : Nat) (ok : Bool)
  | storePage (r : Nat) (ok : Bool)
  | verify (r : Nat) (form : Form)
  | readVerify (r : Nat) (ok : Bool)
  | check (r : Nat) (outcome : Check)
  /-- `set_cv_token`, with the random token of the cookie. -/
  | mint (r : Nat) (cookie : Text) (ok : Bool)
  | consume (r : Nat) (ok : Bool)
  | expire (key : Text)

/-- Valkey, the requests, and what happened. -/
structure State where
  store : Store Text Text
  phase : Nat → Phase
  issued : List Text
  /-- The challenges cookies were minted for, with the cookies. -/
  mints : List (Text × Text)
  /-- The challenges whose solve is complete. -/
  consumed : List Text

namespace State

/-- A request moves on. -/
def goto (s : State) (r : Nat) (p : Phase) : State :=
  { s with phase := Function.update s.phase r p }

/-- `client.set`, when it succeeds. -/
def set (s : State) (ok : Bool) (key value : Text) : State :=
  if ok then { s with store := s.store.write key value } else s

/-- `client.delete`, when it succeeds. -/
def delete (s : State) (ok : Bool) (key : Text) : State :=
  if ok then { s with store := s.store.keep (· != key) } else s

@[simp] theorem goto_consumed (s : State) (r : Nat) (p : Phase) :
    (s.goto r p).consumed = s.consumed := rfl

@[simp] theorem set_consumed (s : State) (ok : Bool) (key value : Text) :
    (s.set ok key value).consumed = s.consumed := by cases ok <;> rfl

@[simp] theorem delete_consumed (s : State) (ok : Bool) (key : Text) :
    (s.delete ok key).consumed = s.consumed := by cases ok <;> rfl

@[simp] theorem set_mints (s : State) (ok : Bool) (key value : Text) :
    (s.set ok key value).mints = s.mints := by cases ok <;> rfl

@[simp] theorem set_phase (s : State) (ok : Bool) (key value : Text) :
    (s.set ok key value).phase = s.phase := by cases ok <;> rfl

end State

/-! ### Steps -/

/-- The truth of a value in Python. -/
def truthy : Json → Bool
  | .null => false
  | .bool b => b
  | .num (.int n) => n != 0
  | .num (.float bits) => bits != 0 && bits != 0x8000000000000000
  | .str t => t != []
  | .arr items => !items.isEmpty
  | .obj fields => !fields.isEmpty

/-- `context["l"] = 1`, unless it is set. -/
def logged : Json → Json
  | .obj fields =>
      let l : Text × Json := (['l'], .num (.int 1))
      if ((Json.obj fields).get ['l']).any truthy then .obj fields
      else if fields.any (·.1 == ['l']) then
        .obj (fields.map fun f => if f.1 == ['l'] then l else f)
      else .obj (fields ++ [l])
  | j => j

variable (J : JsonText)

/-- `cache_get` of a challenge, and the test whether it is a dictionary that is not empty. -/
def liveContext (s : State) (cid : Text) (ok : Bool) : Option Json :=
  if cid = [] ∨ ok = false then none
  else ((s.store (cidKey cid)).bind J.parse).bind fun context =>
    match context with
    | .obj (f :: fields) => some (.obj (f :: fields))
    | _ => none

/-- One step, when it is the next of its request. -/
def step (s : State) : Act → Option State
  | .issue token context ok =>
      -- `NX` refuses a key that is there
      if ok = true ∧ s.store (cidKey token) = none then
        some { s with store := s.store.write (cidKey token) context, issued := token :: s.issued }
      else some s
  | .page r cid siteKey =>
      if s.phase r = .absent then
        some (s.goto r (if siteKey then .page cid else .answered (.error 503)))
      else none
  | .readPage r ok =>
      match s.phase r with
      | .page cid =>
          match liveContext J s cid ok with
          | some context => some (s.goto r (.pageRead cid context))
          | none => some (s.goto r (.answered (.error 400)))
      | _ => none
  | .storePage r ok =>
      match s.phase r with
      | .pageRead cid context =>
          some ((s.set ok (cidKey cid) (J.dumps (logged context))).goto r
            (.answered (.challenge cid)))
      | _ => none
  | .verify r form =>
      if s.phase r = .absent then some (s.goto r (.verify form)) else none
  | .readVerify r ok =>
      match s.phase r with
      | .verify form =>
          match liveContext J s form.cid ok with
          | some _ => some (s.goto r (.verifyRead form))
          | none => some (s.goto r (.answered (.error 400)))
      | _ => none
  | .check r outcome =>
      match s.phase r with
      | .verifyRead form =>
          some (s.goto r (match outcome, form.token with
            | .unconfigured, _ => .answered (.error 400)
            | _, none => .answered (.error 400)
            | .unreachable, some _ => .answered (.error 502)
            | .rejected, some _ => .answered (.error 403)
            | .accepted, some _ => .accepted form))
      | _ => none
  | .mint r cookie ok =>
      match s.phase r with
      | .accepted form =>
          some { (s.set ok (cvKey cookie) form.bindingHash).goto r (.minted form cookie) with
            mints := (form.cid, cookie) :: s.mints }
      | _ => none
  | .consume r ok =>
      match s.phase r with
      | .minted form cookie =>
          some { (s.delete ok (cidKey form.cid)).goto r (.answered (.redirect cookie)) with
            consumed := form.cid :: s.consumed }
      | _ => none
  | .expire key => some (s.delete true key)

/-- `captcha_validate_cookie`. -/
def validateCookie (s : State) (token liveHash : Text) : Bool :=
  token != [] && (s.store (cvKey token)).any fun stored => stored != [] && liveHash == stored

/-- Before the first challenge. -/
def start : State := ⟨fun _ => none, fun _ => .absent, [], [], []⟩

/-! ### Cookies -/

theorem delete_store {s : State} (ok : Bool) {key k : Text}
    (h : (s.delete ok key).store k ≠ none) : s.store k ≠ none := by
  cases ok with
  | false => exact h
  | true =>
      intro hnone
      apply h
      show (if (k != key) = true then s.store k else none) = none
      rw [hnone]
      exact ite_self none

/-- Every stored cookie was minted. -/
def Backed (s : State) : Prop := ∀ t, s.store (cvKey t) ≠ none → t ∈ s.mints.map Prod.snd

theorem Backed.write_cid {s : State} (h : Backed s) (cid value : Text) {t : Text}
    (ht : s.store.write (cidKey cid) value (cvKey t) ≠ none) : t ∈ s.mints.map Prod.snd :=
  h t (Store.write_other s.store value (cvKey_ne_cidKey t cid) ▸ ht)

theorem step_backed (s : State) (a : Act) (s' : State) (h : Backed s)
    (hstep : step J s a = some s') : Backed s' := by
  have hset : ∀ (ok : Bool) (cid value : Text) {t : Text},
      (s.set ok (cidKey cid) value).store (cvKey t) ≠ none → t ∈ s.mints.map Prod.snd := by
    intro ok cid value t ht
    cases ok with
    | false => exact h t ht
    | true => exact h.write_cid cid value ht
  cases a <;> simp only [step] at hstep
  case issue token context ok =>
    split at hstep
    · exact Option.some.inj hstep ▸ fun t ht => h.write_cid token context ht
    · exact Option.some.inj hstep ▸ h
  case storePage r ok =>
    split at hstep <;> cases hstep
    next cid context _ =>
      intro t ht
      rw [State.goto, State.set_mints]
      exact hset ok cid _ ht
  case mint r cookie ok =>
    split at hstep <;> cases hstep
    next form _ =>
      intro t ht
      by_cases heq : t = cookie
      · exact heq ▸ .head _
      · have hkey : cvKey t ≠ cvKey cookie := fun hkey => heq (List.append_cancel_left hkey)
        refine .tail _ (h t ?_)
        cases ok with
        | false => exact ht
        | true => exact Store.write_other s.store form.bindingHash hkey ▸ ht
  case consume r ok =>
    split at hstep <;> cases hstep
    intro t ht
    have hmem := h t (delete_store ok ht)
    cases ok <;> exact hmem
  case expire key =>
    cases hstep
    exact fun t ht => h t (delete_store true ht)
  -- the other steps leave the store alone
  all_goals
    repeat' split at hstep
    all_goals
      cases hstep
      try exact h

/-- **A cookie that HAProxy accepts was minted**, in every run. -/
theorem valid_minted {as : List Act} {s : State} (hs : Transition.run (step J) start as = some s)
    {t hash : Text} (hvalid : validateCookie s t hash = true) : t ∈ s.mints.map Prod.snd := by
  have hbacked : Backed s := by
    refine Transition.run_invariant (C := fun _ _ => True)
      (fun s a s' h _ hstep => step_backed J s a s' h hstep) (fun t ht => absurd rfl ht) ?_ hs
    clear hs
    generalize start = s₀
    induction as generalizing s₀ with
    | nil => trivial
    | cons a as ih => exact ⟨trivial, fun s' _ => ih s'⟩
  refine hbacked t fun hnone => ?_
  unfold validateCookie at hvalid
  rw [hnone, Option.any_none, Bool.and_false] at hvalid
  cases hvalid

/-! ### Undisturbed requests -/

/-- The challenge a request has read and not answered for. -/
def Phase.holds : Phase → Option Text
  | .pageRead cid _ => some cid
  | .verifyRead form | .accepted form | .minted form _ => some form.cid
  | _ => none

/-- The challenge whose accepted solve is not complete. -/
def Phase.solves : Phase → Option Text
  | .accepted form | .minted form _ => some form.cid
  | _ => none

/-- The request is of a challenge whose solve was completed since it was read. -/
def State.Overtaken (s : State) (r : Nat) : Prop := ∃ cid ∈ (s.phase r).holds, cid ∈ s.consumed

/-- Another solve of the challenge is accepted and not complete. -/
def State.Contested (s : State) (r : Nat) : Prop :=
  ∃ cid ∈ (s.phase r).holds, ∃ r', (s.phase r').solves = some cid

/-- **An undisturbed step**: random tokens do not repeat, a solve is accepted of a challenge
that is neither consumed by now nor about to be, a page stores back a challenge that is not
consumed by now, and deletes succeed. -/
def Undisturbed (s : State) : Act → Prop
  | .issue token _ _ => token ∉ s.issued
  | .check r .accepted => ¬ s.Overtaken r ∧ ¬ s.Contested r
  | .storePage r _ => ¬ s.Overtaken r
  | .consume _ ok => ok = true
  | _ => True

/-- What undisturbed steps preserve. -/
structure Inv (s : State) : Prop where
  live : ∀ cid, s.store (cidKey cid) ≠ none → cid ∈ s.issued
  held : ∀ r, ∀ cid ∈ (s.phase r).holds, cid ∈ s.issued
  mints : (s.mints.map Prod.fst).Nodup
  consumed : ∀ cid ∈ s.consumed, cid ∈ s.issued ∧ s.store (cidKey cid) = none
  /-- A cookie belongs to a complete solve or to one that is about to be. -/
  minted : ∀ cid ∈ s.mints.map Prod.fst, cid ∈ s.consumed ∨
    ∃ r form cookie, s.phase r = .minted form cookie ∧ form.cid = cid
  fresh : ∀ r form, s.phase r = .accepted form → form.cid ∉ s.mints.map Prod.fst
  solving : ∀ r cid, (s.phase r).solves = some cid → cid ∉ s.consumed
  single : ∀ r r' cid, (s.phase r).solves = some cid → (s.phase r').solves = some cid → r = r'

theorem start_inv : Inv start where
  live := fun _ h => absurd rfl h
  held := fun _ _ h => nomatch h
  mints := List.nodup_nil
  consumed := fun _ h => nomatch h
  minted := fun _ h => nomatch h
  fresh := fun _ _ h => nomatch h
  solving := fun _ _ h => nomatch h
  single := fun _ _ _ h => nomatch h

namespace Inv

variable {s : State}

/-- A request that solves nothing moves to where it solves nothing. -/
theorem goto_quiet (h : Inv s) {r : Nat} {p : Phase} (hr : (s.phase r).solves = none)
    (hp : p.solves = none) (hheld : ∀ cid ∈ p.holds, cid ∈ s.issued) : Inv (s.goto r p) := by
  -- who solves after the step did so before
  have hsolves : ∀ r' cid, ((s.goto r p).phase r').solves = some cid →
      (s.phase r').solves = some cid := by
    intro r' cid hcid
    by_cases hr' : r' = r
    · subst hr'
      have hself : (s.goto r' p).phase r' = p := Function.update_self _ _ _
      rw [hself, hp] at hcid
      cases hcid
    · have hother : (s.goto r p).phase r' = s.phase r' := Function.update_of_ne hr' _ _
      rwa [hother] at hcid
  have hkept : ∀ {r' : Nat} {q : Phase}, q.solves ≠ none → s.phase r' = q →
      (s.goto r p).phase r' = q := by
    intro r' q hq hr'
    have hne : r' ≠ r := by
      rintro rfl
      exact hq (hr' ▸ hr)
    exact (Function.update_of_ne hne _ _).trans hr'
  refine ⟨h.live, ?_, h.mints, h.consumed, ?_, ?_, ?_, ?_⟩
  · intro r' cid hcid
    by_cases hr' : r' = r
    · subst hr'
      have hself : (s.goto r' p).phase r' = p := Function.update_self _ _ _
      exact hheld cid (hself ▸ hcid)
    · have hother : (s.goto r p).phase r' = s.phase r' := Function.update_of_ne hr' _ _
      exact h.held r' cid (hother ▸ hcid)
  · intro cid hcid
    rcases h.minted cid hcid with hconsumed | ⟨r', form, cookie, hr', hform⟩
    · exact .inl hconsumed
    · exact .inr ⟨r', form, cookie, hkept (by simp [Phase.solves]) hr', hform⟩
  · intro r' form hr'
    have hsolving : (s.phase r').solves = some form.cid := hsolves r' form.cid (by rw [hr']; rfl)
    have hne : r' ≠ r := by
      rintro rfl
      rw [hr] at hsolving
      cases hsolving
    exact h.fresh r' form ((Function.update_of_ne hne _ _ : (s.goto r p).phase r' = _) ▸ hr')
  · exact fun r' cid hcid => h.solving r' cid (hsolves r' cid hcid)
  · exact fun r₁ r₂ cid h₁ h₂ => h.single r₁ r₂ cid (hsolves r₁ cid h₁) (hsolves r₂ cid h₂)

/-- A key is removed. -/
theorem delete (h : Inv s) (ok : Bool) (key : Text) : Inv (s.delete ok key) := by
  cases ok with
  | false => exact h
  | true =>
      refine ⟨fun cid hcid => h.live cid (delete_store true hcid), h.held, h.mints, ?_,
        h.minted, h.fresh, h.solving, h.single⟩
      intro cid hcid
      obtain ⟨hissued, hnone⟩ := h.consumed cid hcid
      refine ⟨hissued, ?_⟩
      by_contra hsome
      exact delete_store true hsome hnone

/-- A challenge is stored back. -/
theorem set_cid (h : Inv s) (ok : Bool) {cid : Text} (value : Text) (hissued : cid ∈ s.issued)
    (hlive : cid ∉ s.consumed) : Inv (s.set ok (cidKey cid) value) := by
  cases ok with
  | false => exact h
  | true =>
      refine ⟨?_, h.held, h.mints, ?_, h.minted, h.fresh, h.solving, h.single⟩
      · intro c hc
        by_cases heq : c = cid
        · rwa [heq]
        · have hother := Store.write_other s.store value fun hkey => heq (cidKey_inj hkey)
          exact h.live c (hother ▸ hc)
      · intro c hc
        have hne : c ≠ cid := fun heq => hlive (heq ▸ hc)
        have hother := Store.write_other s.store value fun hkey => hne (cidKey_inj hkey)
        exact ⟨(h.consumed c hc).1, hother.trans (h.consumed c hc).2⟩

/-- A cookie is stored. -/
theorem set_cv (h : Inv s) (ok : Bool) (token value : Text) : Inv (s.set ok (cvKey token) value) := by
  cases ok with
  | false => exact h
  | true =>
      have hother : ∀ cid, s.store.write (cvKey token) value (cidKey cid) = s.store (cidKey cid) :=
        fun cid => Store.write_other s.store value fun hkey => cvKey_ne_cidKey token cid hkey.symm
      refine ⟨fun cid hcid => h.live cid (hother cid ▸ hcid), h.held, h.mints, ?_, h.minted, h.fresh,
        h.solving, h.single⟩
      exact fun cid hcid => ⟨(h.consumed cid hcid).1, (hother cid).trans (h.consumed cid hcid).2⟩

/-- A challenge is issued. -/
theorem issue (h : Inv s) {token : Text} (context : Text) (hfresh : token ∉ s.issued) :
    Inv { s with store := s.store.write (cidKey token) context, issued := token :: s.issued } := by
  refine ⟨?_, fun r cid hcid => .tail _ (h.held r cid hcid), h.mints, ?_, h.minted, h.fresh,
    h.solving, h.single⟩
  · intro cid hcid
    by_cases heq : cid = token
    · exact heq ▸ .head _
    · have hother := Store.write_other s.store context fun hkey => heq (cidKey_inj hkey)
      exact .tail _ (h.live cid (hother ▸ hcid))
  · intro cid hcid
    obtain ⟨hissued, hnone⟩ := h.consumed cid hcid
    have hne : cid ≠ token := fun heq => hfresh (heq ▸ hissued)
    exact ⟨.tail _ hissued,
      (Store.write_other s.store context fun hkey => hne (cidKey_inj hkey)).trans hnone⟩

/-- A solve is accepted. -/
theorem accept (h : Inv s) {r : Nat} {form : Form} (hr : s.phase r = .verifyRead form)
    (hovertaken : ¬ s.Overtaken r) (hcontested : ¬ s.Contested r) :
    Inv (s.goto r (.accepted form)) := by
  have hholds : form.cid ∈ (s.phase r).holds := hr ▸ rfl
  have hconsumed : form.cid ∉ s.consumed := fun hc => hovertaken ⟨form.cid, hholds, hc⟩
  have hnobody : ∀ r', (s.phase r').solves ≠ some form.cid :=
    fun r' hr' => hcontested ⟨form.cid, hholds, r', hr'⟩
  have hself : (s.goto r (.accepted form)).phase r = .accepted form := Function.update_self _ _ _
  have hother : ∀ r', r' ≠ r → (s.goto r (.accepted form)).phase r' = s.phase r' :=
    fun r' hne => Function.update_of_ne hne _ _
  -- no cookie of the challenge, or its solve would be complete or about to be
  have hmints : form.cid ∉ s.mints.map Prod.fst := by
    intro hmint
    rcases h.minted _ hmint with hc | ⟨r', form', cookie, hr', hform⟩
    · exact hconsumed hc
    · exact hnobody r' (by rw [hr', ← hform]; rfl)
  refine ⟨h.live, ?_, h.mints, h.consumed, ?_, ?_, ?_, ?_⟩
  · intro r' cid hcid
    by_cases heq : r' = r
    · subst heq
      rw [hself] at hcid
      exact h.held r' cid (hr ▸ hcid)
    · exact h.held r' cid (hother r' heq ▸ hcid)
  · intro cid hcid
    rcases h.minted cid hcid with hc | ⟨r', form', cookie, hr', hform⟩
    · exact .inl hc
    · refine .inr ⟨r', form', cookie, ?_, hform⟩
      have hne : r' ≠ r := by
        rintro rfl
        rw [hr] at hr'
        cases hr'
      exact (hother r' hne).trans hr'
  · intro r' form' hr'
    by_cases heq : r' = r
    · subst heq
      rw [hself] at hr'
      exact Phase.accepted.inj hr' ▸ hmints
    · exact h.fresh r' form' (hother r' heq ▸ hr')
  · intro r' cid hcid
    by_cases heq : r' = r
    · subst heq
      rw [hself] at hcid
      exact Option.some.inj hcid ▸ hconsumed
    · exact h.solving r' cid (hother r' heq ▸ hcid)
  · intro r₁ r₂ cid h₁ h₂
    by_cases heq₁ : r₁ = r
    · subst heq₁
      rw [hself] at h₁
      by_cases heq₂ : r₂ = r₁
      · exact heq₂.symm
      · rw [hother r₂ heq₂, ← Option.some.inj h₁] at h₂
        exact absurd h₂ (hnobody r₂)
    · rw [hother r₁ heq₁] at h₁
      by_cases heq₂ : r₂ = r
      · subst heq₂
        rw [hself] at h₂
        rw [← Option.some.inj h₂] at h₁
        exact absurd h₁ (hnobody r₁)
      · exact h.single r₁ r₂ cid h₁ (hother r₂ heq₂ ▸ h₂)

/-- A cookie is minted for an accepted solve. -/
theorem mint (h : Inv s) {r : Nat} {form : Form} (hr : s.phase r = .accepted form)
    (cookie : Text) :
    Inv { s.goto r (.minted form cookie) with mints := (form.cid, cookie) :: s.mints } := by
  have hsolves : (s.phase r).solves = some form.cid := hr ▸ rfl
  have hself : (s.goto r (.minted form cookie)).phase r = .minted form cookie :=
    Function.update_self _ _ _
  have hother : ∀ r', r' ≠ r → (s.goto r (.minted form cookie)).phase r' = s.phase r' :=
    fun r' hne => Function.update_of_ne hne _ _
  have hsame : ∀ r', ((s.goto r (.minted form cookie)).phase r').solves = (s.phase r').solves := by
    intro r'
    by_cases heq : r' = r
    · subst heq
      rw [hself, hsolves]
      rfl
    · rw [hother r' heq]
  refine ⟨h.live, ?_, List.nodup_cons.mpr ⟨h.fresh r form hr, h.mints⟩, h.consumed, ?_, ?_, ?_, ?_⟩
  · intro r' cid hcid
    by_cases heq : r' = r
    · subst heq
      have hcid' : cid ∈ (Phase.minted form cookie).holds := by
        rw [← hself]
        exact hcid
      exact h.held r' cid (hr ▸ hcid')
    · exact h.held r' cid (hother r' heq ▸ hcid)
  · intro cid hcid
    rcases List.mem_cons.mp hcid with rfl | hcid
    · exact .inr ⟨r, form, cookie, hself, rfl⟩
    · rcases h.minted cid hcid with hc | ⟨r', form', cookie', hr', hform⟩
      · exact .inl hc
      · refine .inr ⟨r', form', cookie', ?_, hform⟩
        have hne : r' ≠ r := by
          rintro rfl
          rw [hr] at hr'
          cases hr'
        exact (hother r' hne).trans hr'
  · intro r' form' hr'
    have hne : r' ≠ r := by
      rintro rfl
      rw [show ({ s.goto r' (.minted form cookie) with
        mints := (form.cid, cookie) :: s.mints } : State).phase r' = _ from hself] at hr'
      cases hr'
    have hr'' : s.phase r' = .accepted form' := hother r' hne ▸ hr'
    -- two accepted solves of one challenge would be one request
    have hcid : form'.cid ≠ form.cid := by
      intro heq
      exact hne (h.single r' r form.cid (by rw [hr'', ← heq]; rfl) hsolves)
    intro hmem
    rcases List.mem_cons.mp hmem with heq | hmem
    · exact hcid heq
    · exact h.fresh r' form' hr'' hmem
  · exact fun r' cid hcid => h.solving r' cid (hsame r' ▸ hcid)
  · exact fun r₁ r₂ cid h₁ h₂ => h.single r₁ r₂ cid (hsame r₁ ▸ h₁) (hsame r₂ ▸ h₂)

/-- A solve is complete. -/
theorem consume (h : Inv s) {r : Nat} {form : Form} {cookie : Text}
    (hr : s.phase r = .minted form cookie) (hnone : s.store (cidKey form.cid) = none) (a : Answer) :
    Inv { s.goto r (.answered a) with consumed := form.cid :: s.consumed } := by
  have hsolves : (s.phase r).solves = some form.cid := hr ▸ rfl
  have hself : (s.goto r (.answered a)).phase r = .answered a := Function.update_self _ _ _
  have hother : ∀ r', r' ≠ r → (s.goto r (.answered a)).phase r' = s.phase r' :=
    fun r' hne => Function.update_of_ne hne _ _
  have hback : ∀ r' cid, ((s.goto r (.answered a)).phase r').solves = some cid →
      r' ≠ r ∧ (s.phase r').solves = some cid := by
    intro r' cid hcid
    by_cases heq : r' = r
    · subst heq
      rw [hself] at hcid
      cases hcid
    · exact ⟨heq, hother r' heq ▸ hcid⟩
  refine ⟨h.live, ?_, h.mints, ?_, ?_, ?_, ?_, ?_⟩
  · intro r' cid hcid
    by_cases heq : r' = r
    · subst heq
      rw [show ({ s.goto r' (.answered a) with
        consumed := form.cid :: s.consumed } : State).phase r' = _ from hself] at hcid
      cases hcid
    · exact h.held r' cid (hother r' heq ▸ hcid)
  · intro cid hcid
    rcases List.mem_cons.mp hcid with rfl | hcid
    · exact ⟨h.held r _ (hr ▸ rfl), hnone⟩
    · exact h.consumed cid hcid
  · intro cid hcid
    rcases h.minted cid hcid with hc | ⟨r', form', cookie', hr', hform⟩
    · exact .inl (.tail _ hc)
    · by_cases heq : r' = r
      · subst heq
        rw [hr] at hr'
        rw [← hform, ← (Phase.minted.inj hr').1]
        exact .inl (.head _)
      · exact .inr ⟨r', form', cookie', (hother r' heq).trans hr', hform⟩
  · intro r' form' hr'
    obtain ⟨hne, -⟩ := hback r' form'.cid (by
      rw [show (s.goto r (.answered a)).phase r' = .accepted form' from hr']; rfl)
    exact h.fresh r' form' (hother r' hne ▸ hr')
  · intro r' cid hcid hmem
    obtain ⟨hne, hcid⟩ := hback r' cid hcid
    rcases List.mem_cons.mp hmem with rfl | hmem
    · exact hne (h.single r' r _ hcid hsolves)
    · exact h.solving r' cid hcid hmem
  · intro r₁ r₂ cid h₁ h₂
    exact h.single r₁ r₂ cid (hback r₁ cid h₁).2 (hback r₂ cid h₂).2

end Inv

/-- A live context is stored. -/
theorem liveContext_stored {s : State} {cid : Text} {ok : Bool} {context : Json}
    (h : liveContext J s cid ok = some context) : s.store (cidKey cid) ≠ none := by
  intro hnone
  unfold liveContext at h
  rw [hnone] at h
  split at h
  · cases h
  · cases h

/-- **Undisturbed steps keep the invariant.** -/
theorem step_inv (s : State) (a : Act) (s' : State) (h : Inv s) (hundisturbed : Undisturbed s a)
    (hstep : step J s a = some s') : Inv s' := by
  cases a with
  | issue token context ok =>
      simp only [step] at hstep
      split at hstep
      · exact Option.some.inj hstep ▸ h.issue context hundisturbed
      · exact Option.some.inj hstep ▸ h
  | page r cid siteKey =>
      simp only [step] at hstep
      split at hstep
      · next hr =>
          rw [← Option.some.inj hstep]
          refine h.goto_quiet (hr ▸ rfl) ?_ ?_
          · cases siteKey <;> rfl
          · cases siteKey <;> exact fun _ hmem => nomatch hmem
      · cases hstep
  | readPage r ok =>
      simp only [step] at hstep
      split at hstep
      · next cid hr =>
          split at hstep
          · next context hlive =>
              rw [← Option.some.inj hstep]
              refine h.goto_quiet (hr ▸ rfl) rfl fun c hc => ?_
              rw [← Option.some.inj (hc : some cid = some c)]
              exact h.live cid (liveContext_stored J hlive)
          · rw [← Option.some.inj hstep]
            exact h.goto_quiet (hr ▸ rfl) rfl fun _ hmem => nomatch hmem
      · cases hstep
  | storePage r ok =>
      simp only [step] at hstep
      split at hstep
      · next cid context hr =>
          rw [← Option.some.inj hstep]
          have hholds : cid ∈ (s.phase r).holds := hr ▸ rfl
          have hlive : cid ∉ s.consumed := fun hc => hundisturbed ⟨cid, hholds, hc⟩
          have hset := h.set_cid ok (J.dumps (logged context)) (h.held r cid hholds) hlive
          refine hset.goto_quiet ?_ rfl fun _ hmem => nomatch hmem
          rw [State.set_phase, hr]
          rfl
      · cases hstep
  | verify r form =>
      simp only [step] at hstep
      split at hstep
      · next hr =>
          rw [← Option.some.inj hstep]
          exact h.goto_quiet (hr ▸ rfl) rfl fun _ hmem => nomatch hmem
      · cases hstep
  | readVerify r ok =>
      simp only [step] at hstep
      split at hstep
      · next form hr =>
          split at hstep
          · next context hlive =>
              rw [← Option.some.inj hstep]
              refine h.goto_quiet (hr ▸ rfl) rfl fun c hc => ?_
              rw [← Option.some.inj (hc : some form.cid = some c)]
              exact h.live form.cid (liveContext_stored J hlive)
          · rw [← Option.some.inj hstep]
            exact h.goto_quiet (hr ▸ rfl) rfl fun _ hmem => nomatch hmem
      · cases hstep
  | check r outcome =>
      simp only [step] at hstep
      split at hstep
      · next form hr =>
          rw [← Option.some.inj hstep]
          split
          · exact h.goto_quiet (hr ▸ rfl) rfl fun _ hmem => nomatch hmem
          · exact h.goto_quiet (hr ▸ rfl) rfl fun _ hmem => nomatch hmem
          · exact h.goto_quiet (hr ▸ rfl) rfl fun _ hmem => nomatch hmem
          · exact h.goto_quiet (hr ▸ rfl) rfl fun _ hmem => nomatch hmem
          · exact h.accept hr hundisturbed.1 hundisturbed.2
      · cases hstep
  | mint r cookie ok =>
      simp only [step] at hstep
      split at hstep
      · next form hr =>
          rw [← Option.some.inj hstep]
          have hphase : (s.set ok (cvKey cookie) form.bindingHash).phase r = .accepted form := by
            rw [State.set_phase, hr]
          have hmint := (h.set_cv ok cookie form.bindingHash).mint hphase cookie
          rwa [State.set_mints] at hmint
      · cases hstep
  | consume r ok =>
      simp only [step] at hstep
      split at hstep
      · next form cookie hr =>
          rw [← Option.some.inj hstep]
          have hok : ok = true := hundisturbed
          subst hok
          have hnone : (s.delete true (cidKey form.cid)).store (cidKey form.cid) = none := by
            show (if (cidKey form.cid != cidKey form.cid) = true then _ else none) = none
            rw [bne_self_eq_false]
            rfl
          exact (h.delete true (cidKey form.cid)).consume hr hnone _
      · cases hstep
  | expire key =>
      simp only [step] at hstep
      exact Option.some.inj hstep ▸ h.delete true key

/-- What is consumed stays consumed. -/
theorem step_consumed {s s' : State} {a : Act} (hstep : step J s a = some s') :
    s.consumed ⊆ s'.consumed := by
  cases a <;> simp only [step] at hstep <;> (repeat' split at hstep) <;> cases hstep <;> simp

/-- **A challenge is solved once**, in every run of undisturbed steps: it mints one cookie at
most, and from its complete solve on nobody finds it. -/
theorem single_use {as bs : List Act} {s s' : State}
    (halong : Transition.Along (step J) Undisturbed start (as ++ bs))
    (hs : Transition.run (step J) start as = some s)
    (hs' : Transition.run (step J) s bs = some s') :
    (s'.mints.map Prod.fst).Nodup ∧ ∀ cid ∈ s.consumed, ∀ ok, liveContext J s' cid ok = none := by
  obtain ⟨hfirst, hthen⟩ := Transition.along_append halong hs
  have hinv : Inv s := Transition.run_invariant (step_inv J) start_inv hfirst hs
  constructor
  · exact (Transition.run_invariant (step_inv J) hinv hthen hs').mints
  · intro cid hcid ok
    have hboth : Inv s' ∧ cid ∈ s'.consumed :=
      Transition.run_invariant (I := fun s => Inv s ∧ cid ∈ s.consumed)
        (fun s a s' h hu hstep => ⟨step_inv J s a s' h.1 hu hstep, step_consumed J hstep h.2⟩)
        ⟨hinv, hcid⟩ hthen hs'
    by_contra hlive
    obtain ⟨context, hcontext⟩ := Option.ne_none_iff_exists'.mp hlive
    exact liveContext_stored J hcontext (hboth.1.consumed cid hboth.2).2

/-! ### Requests that overlap -/

/-- The token of a challenge. -/
def token : Text := List.replicate 32 'c'

/-- The context the Lua action stores. -/
def context : Json :=
  .obj [(['i'], .num (.int 7)), (['t'], .str "waf".toList), (['n'], .str []), (['r'], .str ['q']),
    (['u'], .str ['/'])]

/-- Its text. -/
def contextText : Text := "\x7b\"i\":7,\"t\":\"waf\",\"n\":\"\",\"r\":\"q\",\"u\":\"/\"\x7d".toList

/-- `json.loads` and `json.dumps`, on this context. -/
def contextJson : JsonText :=
  printer [(context, contextText),
    (logged context, ("\x7b\"i\": 7, \"t\": \"waf\", \"n\": \"\", \"r\": \"q\", \"u\": \"/\", " ++
      "\"l\": 1\x7d").toList)]

/-- A solve of the challenge. -/
def solve : Form := ⟨token, some ['p'], ['h']⟩

/-- One solve. -/
def oneSolve : List Act :=
  [.issue token contextText true, .verify 1 solve, .readVerify 1 true, .check 1 .accepted,
    .mint 1 ['a'] true, .consume 1 true]

/-- The challenge as it is issued. -/
def issuedOnce : State :=
  { start with store := start.store.write (cidKey token) contextText, issued := [token] }

theorem issuedOnce_live : liveContext contextJson (issuedOnce.goto 1 (.verify solve)) token true =
    some context := by decide +kernel

theorem oneSolve_along : Transition.Along (step contextJson) Undisturbed start oneSolve ∧
    Transition.run (step contextJson) start oneSolve = some
      { issuedOnce with
        store := (issuedOnce.store.write (cvKey ['a']) ['h']).keep (· != cidKey token)
        phase := Function.update (Function.update (Function.update (Function.update
          (Function.update start.phase 1 (.verify solve)) 1 (.verifyRead solve)) 1
          (.accepted solve)) 1 (.minted solve ['a'])) 1 (.answered (.redirect ['a']))
        mints := [(token, ['a'])]
        consumed := [token] } := by
  have hverify : step contextJson issuedOnce (.verify 1 solve) =
      some (issuedOnce.goto 1 (.verify solve)) := rfl
  have hread : step contextJson (issuedOnce.goto 1 (.verify solve)) (.readVerify 1 true) =
      some ((issuedOnce.goto 1 (.verify solve)).goto 1 (.verifyRead solve)) := by
    have hphase : (issuedOnce.goto 1 (.verify solve)).phase 1 = .verify solve := rfl
    simp only [step, hphase, show solve.cid = token from rfl, issuedOnce_live]
  refine Transition.along_run_cons (List.not_mem_nil) rfl ?_
  refine Transition.along_run_cons trivial hverify ?_
  refine Transition.along_run_cons trivial hread ?_
  refine Transition.along_run_cons ⟨?_, ?_⟩ rfl ?_
  · rintro ⟨cid, -, hcid⟩
    exact absurd hcid List.not_mem_nil
  · rintro ⟨cid, -, r', hr'⟩
    by_cases hone : r' = 1
    · subst hone
      cases hr'
    · have hphase : ((issuedOnce.goto 1 (.verify solve)).goto 1 (.verifyRead solve)).phase r' =
          .absent := by
        show Function.update (Function.update start.phase 1 _) 1 _ r' = _
        rw [Function.update_of_ne hone, Function.update_of_ne hone]
        rfl
      rw [hphase] at hr'
      cases hr'
  · refine Transition.along_run_cons trivial rfl ?_
    exact Transition.along_run_cons rfl rfl ⟨trivial, rfl⟩

/-- A solve without others: the challenge has minted its cookie and is gone. -/
theorem solved_once : ∃ s, Transition.run (step contextJson) start oneSolve = some s ∧
    (s.mints.map Prod.fst).Nodup ∧ ∀ cid ∈ s.consumed, ∀ ok, liveContext contextJson s cid ok = none :=
  have halong : Transition.Along (step contextJson) Undisturbed start (oneSolve ++ []) := by
    rw [List.append_nil]
    exact oneSolve_along.1
  ⟨_, oneSolve_along.2, single_use contextJson halong oneSolve_along.2 rfl⟩

/-- Two solves are posted, and each reads the challenge before the other deletes it. -/
def twoSolves : List Act :=
  [.issue token contextText true, .verify 1 solve, .verify 2 solve, .readVerify 1 true,
    .readVerify 2 true, .check 1 .accepted, .check 2 .accepted, .mint 1 ['a'] true,
    .consume 1 true, .mint 2 ['b'] true, .consume 2 true]

/-- The page is loaded again while a solve is verified. -/
def pageAndSolve : List Act :=
  [.issue token contextText true, .verify 1 solve, .readVerify 1 true, .page 2 token true,
    .readPage 2 true, .check 1 .accepted, .mint 1 ['a'] true, .consume 1 true, .storePage 2 true]

/-- **Overlapping requests**: two solves mint two cookies for one challenge, and a page stores
back a challenge that is consumed. -/
theorem not_single_use :
    ((Transition.run (step contextJson) start twoSolves).map fun s => s.mints.map Prod.fst) =
        some [token, token] ∧
      ((Transition.run (step contextJson) start pageAndSolve).map fun s =>
        (s.consumed, (liveContext contextJson s token true).isSome)) = some ([token], true) := by
  decide +kernel

end CorexManager.Captcha
