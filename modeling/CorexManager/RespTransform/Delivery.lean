import CorexManager.RespTransform.Payload
import Mathlib.Data.List.Induction

/-!
# Delivery of a transformed body

The runs in which the headers of one side only match rules.  Its body arrives in any parts, and
its channel takes any part of what it is sent, or nothing.

* `Delivered` — the output is emitted once and in order, and is complete when the message ends.
* `Starved` — so many callbacks in a row in which nothing of an unfinished output was taken.
* `delivered_or_starved` — the output is delivered unless the filter was starved up to its limit.
-/

namespace CorexManager.RespTransform

open Transition

/-- The headers of no other side match rules. -/
def Act.Only (d : Side) : Act → Prop
  | .headers d' true => d' = d
  | _ => True

/-- A payload callback of the side. -/
def Act.isPayload (d : Side) : Act → Bool
  | .payload d' _ => d' == d
  | _ => false

variable (transform : Side → List UInt8 → List UInt8)

/-- **The output is delivered**: nothing is emitted before the body is complete, then its
transformation from the beginning, and all of it before the message ends. -/
structure Delivered (d : Side) (s : State) : Prop where
  nothing : (s.message d).registered = true → (s.message d).last = false → (s.message d).emitted = []
  ordered : (s.message d).registered = true →
    (s.message d).emitted <+: transform d (s.message d).received
  complete : (s.message d).registered = true → (s.message d).ended = true →
    (s.message d).emitted = transform d (s.message d).received

/-- At the end of a run there were `k` callbacks in which nothing was emitted, although the body
was complete and its output was not. -/
def Starved (d : Side) (as : List Act) (k : Nat) : Prop :=
  ∃ bs cs s t, as = bs ++ cs ∧ run (step transform) start bs = some s ∧
    run (step transform) s cs = some t ∧ k ≤ cs.countP (Act.isPayload d) ∧
    (s.message d).last = true ∧ (s.message d).emitted ≠ transform d (s.message d).received ∧
    (t.message d).emitted = (s.message d).emitted

variable {transform} {s s' t : State} {d d' : Side} {a : Act} {as : List Act} {k : Nat}

/-! ### Starved runs -/

/-- The message of the side is the same, or has more of its output emitted. -/
theorem Starved.zero (hrun : run (step transform) start as = some s)
    (hlast : (s.message d).last = true)
    (hunfinished : (s.message d).emitted ≠ transform d (s.message d).received) :
    Starved transform d as 0 :=
  ⟨as, [], s, s, (List.append_nil as).symm, hrun, rfl, Nat.zero_le _, hlast, hunfinished, rfl⟩

theorem Starved.extend {j : Nat} (h : Starved transform d as k)
    (hrun : run (step transform) start as = some s) (hstep : step transform s a = some s')
    (hemitted : (s'.message d).emitted = (s.message d).emitted)
    (hj : j ≤ k + if a.isPayload d then 1 else 0) : Starved transform d (as ++ [a]) j := by
  obtain ⟨bs, cs, u, t, rfl, hbs, hcs, hk, hlast, hunfinished, hsame⟩ := h
  obtain rfl : t = s := by
    obtain ⟨u', hu', hrest⟩ := run_append_iff.mp hrun
    obtain rfl := Option.some.inj (hbs.symm.trans hu')
    exact Option.some.inj (hcs.symm.trans hrest)
  refine ⟨bs, cs ++ [a], u, s', List.append_assoc .., hbs, ?_, ?_, hlast, hunfinished,
    hemitted.trans hsame⟩
  · exact run_append_iff.mpr ⟨t, hcs, run_cons_iff.mpr ⟨s', hstep, rfl⟩⟩
  · rw [List.countP_append, List.countP_singleton]
    omega

theorem Starved.mono {j : Nat} (h : Starved transform d as k) (hj : j ≤ k) :
    Starved transform d as j := by
  obtain ⟨bs, cs, s, t, has, hbs, hcs, hk, hrest⟩ := h
  exact ⟨bs, cs, s, t, has, hbs, hcs, Nat.le_trans hj hk, hrest⟩

/-! ### A flush -/

/-- What a flush does: it sends something, or there is nothing to send, or it is refused, and
after too many refusals it drops the rest. -/
theorem flush_cases (s : State) (d : Side) :
    (s.outPos < (s.sendLoop d maxSendAttempts).outPos ∧ (s.flush d).stalled = 0) ∨
      (s.flush d).message = s.message ∧
        (s.flush d).stalled = s.stalled + if s.pending then 1 else 0 := by
  obtain ⟨n, sends, chunk, hn, heq⟩ := sendLoop_sent s d maxSendAttempts
  rw [State.flush]
  split
  · next hprogress => exact .inl ⟨hprogress, rfl⟩
  · next hnone =>
      right
      have hzero : n = 0 := by
        rw [heq] at hnone
        have hle : ¬ s.outPos < s.outPos + n := hnone
        omega
      subst hzero
      have hmessage : (s.sendLoop d maxSendAttempts).message = s.message := by
        rw [heq]
        show (s.setMessage d _).message = s.message
        rw [List.take_zero, List.append_nil, setMessage_self]
      have hstalled : (s.sendLoop d maxSendAttempts).stalled = s.stalled := by rw [heq]; rfl
      have hpending : (s.sendLoop d maxSendAttempts).pending = s.pending := by rw [heq]; rfl
      rw [hpending, ← hstalled]
      split
      · split <;> exact ⟨hmessage, rfl⟩
      · exact ⟨hmessage, rfl⟩

/-- A callback that drains the output of a side whose input was removed. -/
theorem drain_cases (hinput : (s.message d).input = []) :
    (s.outPos < (s.sendLoop d maxSendAttempts).outPos ∧ (deliver d (s.drain d)).stalled = 0) ∨
      ((deliver d (s.drain d)).message d).emitted = (s.message d).emitted ∧
        (deliver d (s.drain d)).stalled = s.stalled + if s.pending then 1 else 0 := by
  have hstalled : (deliver d (s.drain d)).stalled = (s.flush d).stalled := by
    show ((s.drain d).1.setMessage d _).stalled = _
    rw [State.drain]
    split <;> rfl
  have hemitted : (s.flush d).message = s.message →
      ((deliver d (s.drain d)).message d).emitted = (s.message d).emitted := by
    intro hmessage
    rw [deliver, message_self, State.drain]
    split
    · show ((s.flush d).message d).emitted ++ ((s.flush d).message d).input.take 0 = _
      rw [List.take_zero, List.append_nil, hmessage]
    · show (((s.flush d).setMessage d _).message d).emitted ++
        (((s.flush d).setMessage d _).message d).input = _
      rw [message_self]
      show ((s.flush d).message d).emitted ++ ((s.flush d).message d).input = _
      rw [hmessage, hinput, List.append_nil]
  rw [hstalled]
  obtain hprogress | ⟨hmessage, hsame⟩ := flush_cases s d
  · exact .inl hprogress
  · exact .inr ⟨hemitted hmessage, hsame⟩

/-- The output of a side that is pending is not all emitted. -/
theorem Draining.unfinished (h : Draining transform s d) (hpending : s.pending = true) :
    (s.message d).emitted ≠ transform d (s.message d).received := by
  rw [h.emitted, ← h.out]
  intro hall
  have hlength := congrArg List.length hall
  rw [List.length_take] at hlength
  have hlt : s.outPos < s.out.length := of_decide_eq_true hpending
  omega

/-! ### A callback -/

/-- The filter is not starved any further from one state to the next. -/
def Fed (transform : Side → List UInt8 → List UInt8) (d : Side) (s t : State) : Prop :=
  t.stalled = 0 ∨ (t.message d).emitted = (s.message d).emitted ∧
    (t.stalled = s.stalled ∨ t.stalled = s.stalled + 1 ∧ (s.message d).last = true ∧
      (s.message d).emitted ≠ transform d (s.message d).received)

/-- Sending the output of a message that is as before, its input and its flag apart. -/
theorem Draining.fed (h : Draining transform t d) (hstalled : t.stalled = s.stalled)
    (hemitted : (t.message d).emitted = (s.message d).emitted)
    (hreceived : (t.message d).received = (s.message d).received)
    (hlast : (t.message d).last = (s.message d).last) :
    Fed transform d s (deliver d (t.drain d)) := by
  obtain ⟨-, hzero⟩ | ⟨hsame, hcount⟩ := drain_cases h.input
  · exact .inl hzero
  · refine .inr ⟨hsame.trans hemitted, ?_⟩
    cases hpending : t.pending with
    | false =>
        rw [hpending, if_neg Bool.false_ne_true, hstalled] at hcount
        exact .inl hcount
    | true =>
        rw [hpending, if_pos rfl, hstalled] at hcount
        refine .inr ⟨hcount, hlast ▸ h.last, ?_⟩
        rw [← hemitted, ← hreceived]
        exact h.unfinished hpending

/-- A callback of the active side keeps the invariant, or it is one too many in which nothing is
taken. -/
theorem payload_outcome (h : Inv transform s) (hactive : s.active d = true) :
    Fed transform d s (deliver d (s.httpPayload d transform)) ∧
      (Inv transform (deliver d (s.httpPayload d transform)) ∨
        maxStalledCallbacks ≤ (deliver d (s.httpPayload d transform)).stalled) := by
  have hsome : (s.active .response || s.active .request) = true := by
    cases d with
    | response => rw [hactive, Bool.true_or]
    | request => rw [hactive, Bool.or_true]
  have hbuffer := buffer_inv h hactive
  have hself : (s.buffer d).message d = { s.message d with input := [] } := message_self _
  have hstill : (s.buffer d).converted = s.converted := rfl
  rw [State.httpPayload, if_pos hsome]
  dsimp only
  rw [hstill]
  cases hconverted : s.converted with
  | true =>
      have hd := hbuffer.draining d hactive hconverted
      rw [Bool.not_true, Bool.and_false, if_neg Bool.false_ne_true, hstill, hconverted, if_pos rfl]
      refine ⟨hd.fed rfl (by rw [hself]) (by rw [hself]) (by rw [hself]), ?_⟩
      by_cases hwait : (s.buffer d).pending = true →
          ((s.buffer d).sendLoop d maxSendAttempts).outPos = (s.buffer d).outPos →
            (s.buffer d).stalled + 1 < maxStalledCallbacks
      · exact .inl (drain_inv hbuffer hactive hconverted hwait)
      · right
        rw [Classical.not_imp, Classical.not_imp] at hwait
        obtain ⟨hpending, hpos, hlimit⟩ := hwait
        obtain ⟨hprogress, -⟩ | ⟨-, hcount⟩ := drain_cases hd.input
        · exact absurd hprogress (hpos ▸ Nat.lt_irrefl _)
        · rw [hcount, if_pos hpending]
          exact Nat.le_of_not_lt hlimit
  | false =>
      have hd := h.buffering d hactive hconverted
      rw [Bool.not_false, Bool.and_true]
      cases heom : (s.message d).eom with
      | false =>
          have hheld : deliver d (s.buffer d, some 0) = s.buffer d :=
            deliver_held (by rw [hself]; exact heom) (by rw [hself]; exact hd.ended)
          rw [if_neg Bool.false_ne_true, hstill, hconverted, if_neg Bool.false_ne_true, hheld]
          exact ⟨.inl hd.stalled, .inl hbuffer⟩
      | true =>
          have hconvert := convert_inv hbuffer hactive hconverted (by rw [hself]; exact heom)
            (by rw [hself])
          have hdraining := hconvert.draining d hactive rfl
          have hconvertSelf : ((s.buffer d).convert d transform).message d =
              { s.message d with input := [], eom := false } := by
            show ((s.buffer d).setMessage d _).message d = _
            rw [message_self, hself]
          have hyes : ((s.buffer d).convert d transform).converted = true := rfl
          rw [if_pos rfl, if_pos hyes]
          refine ⟨hdraining.fed rfl (by rw [hconvertSelf]) (by rw [hconvertSelf])
            (by rw [hconvertSelf]), .inl (drain_inv hconvert hactive rfl fun _ _ => ?_)⟩
          show s.stalled + 1 < maxStalledCallbacks
          rw [hd.stalled]
          decide

/-! ### Runs -/

/-- What is known after a run in which the headers of one side only match rules. -/
structure Followed (transform : Side → List UInt8 → List UInt8) (d : Side) (as : List Act)
    (s : State) : Prop where
  inv : Inv transform s
  other : ∀ d', d' ≠ d → (s.message d').registered = false
  stalled : s.stalled = 0 ∨ (s.message d).registered = true ∧ Starved transform d as s.stalled

/-- A side whose data the filter has is active until its message ends. -/
theorem Inv.active_of_registered (h : Inv transform s)
    (hregistered : (s.message d).registered = true) (hended : (s.message d).ended = false) :
    s.active d = true := by
  by_contra hidle
  have hdone := (h.finished d (Bool.not_eq_true _ ▸ hidle) hregistered).2.2.1
  exact Bool.false_ne_true (hended.symm.trans hdone)

/-- The filter has the data of an active side. -/
theorem Inv.registered (h : Inv transform s) (hactive : s.active d = true) :
    (s.message d).registered = true := by
  cases hconverted : s.converted with
  | false => exact (h.buffering d hactive hconverted).registered
  | true => exact (h.draining d hactive hconverted).registered

/-- The room of the channels is not part of the invariant. -/
theorem Inv.withSends (h : Inv transform s) (sends : List Nat) :
    Inv transform { s with sends } :=
  ⟨h.alone, fun d' h₁ h₂ => (h.buffering d' h₁ h₂).other rfl rfl rfl,
    fun d' h₁ h₂ => (h.draining d' h₁ h₂).other rfl rfl rfl, h.finished, h.native, h.fresh⟩

/-- A step that leaves the counter, and what the side emitted and asked for, as it was. -/
theorem Followed.keep (h : Followed transform d as s) (hrun : run (step transform) start as = some s)
    (hstep : step transform s a = some s') (hinv : Inv transform s')
    (hregistered : ∀ d', (s'.message d').registered = (s.message d').registered)
    (hstalled : s'.stalled = s.stalled)
    (hemitted : (s.message d).registered = true →
      (s'.message d).emitted = (s.message d).emitted) : Followed transform d (as ++ [a]) s' where
  inv := hinv
  other := fun d' hd' => (hregistered d').trans (h.other d' hd')
  stalled := by
    rcases h.stalled with hzero | ⟨hd, hstarved⟩
    · exact .inl (hstalled.trans hzero)
    · refine .inr ⟨(hregistered d).trans hd, hstarved.extend hrun hstep (hemitted hd) ?_⟩
      rw [hstalled]
      exact Nat.le_add_right _ _

/-- What a step is. -/
theorem step_cases (h : step transform s a = some s') :
    (∃ d matching, a = .headers d matching ∧ (s.message d).begun = false ∧
      s' = if matching then s.activate d else s.passHeaders d) ∨
    (∃ d bytes last, a = .receive d bytes last ∧ (s.message d).begun = true ∧
      (s.message d).last = false ∧ s' = s.setMessage d { s.message d with
        input := (s.message d).input ++ bytes
        received := (s.message d).received ++ bytes
        last := last
        eom := last }) ∨
    (∃ d sends, a = .payload d sends ∧ (s.message d).begun = true ∧ (s.message d).ended = false ∧
      s' = if (s.message d).registered then deliver d ({ s with sends }.httpPayload d transform)
        else s.setMessage d (((s.message d).forward none).release false)) := by
  cases a with
  | headers d matching =>
      unfold step at h
      dsimp only at h
      split at h
      · cases h
      · next hpossible =>
          rw [Bool.or_eq_true, not_or] at hpossible
          exact .inl ⟨d, matching, rfl, Bool.eq_false_iff.mpr hpossible.1, (Option.some.inj h).symm⟩
  | receive d bytes last =>
      unfold step at h
      dsimp only at h
      split at h
      · next hpossible =>
          rw [Bool.and_eq_true, Bool.not_eq_true'] at hpossible
          exact .inr (.inl ⟨d, bytes, last, rfl, hpossible.1, hpossible.2, (Option.some.inj h).symm⟩)
      · cases h
  | payload d sends =>
      unfold step at h
      dsimp only at h
      split at h
      · next hpossible =>
          rw [Bool.and_eq_true, Bool.not_eq_true'] at hpossible
          exact .inr (.inr ⟨d, sends, rfl, hpossible.1, hpossible.2, (Option.some.inj h).symm⟩)
      · cases h

/-- One message was changed, and is registered as before. -/
theorem registered_update {m : Message} (ht : t.message = Function.update s.message d m)
    (hm : m.registered = (s.message d).registered) (d' : Side) :
    (t.message d').registered = (s.message d').registered := by
  rw [ht]
  by_cases hsame : d' = d
  · subst hsame
    rw [Function.update_self]
    exact hm
  · rw [Function.update_of_ne hsame]

theorem registered_flush (s : State) (d d' : Side) :
    ((s.flush d).message d').registered = (s.message d').registered := by
  obtain ⟨n, sends, chunk, -, heq⟩ := sendLoop_sent s d maxSendAttempts
  have hmessage : (s.flush d).message = (s.sendLoop d maxSendAttempts).message := by
    rw [State.flush]
    split
    · rfl
    · split
      · split <;> rfl
      · rfl
  rw [heq] at hmessage
  exact registered_update hmessage rfl d'

theorem registered_drain (s : State) (d d' : Side) :
    ((s.drain d).1.message d').registered = (s.message d').registered := by
  rw [State.drain]
  split
  · exact registered_flush s d d'
  · have hcomplete : (((s.flush d).complete d).message d').registered =
        ((s.flush d).message d').registered :=
      registered_update (m := { (s.flush d).message d with eom := true }) rfl rfl d'
    exact hcomplete.trans (registered_flush s d d')

/-- A callback does not change which messages the filter has. -/
theorem registered_payload (s : State) (d d' : Side) :
    ((deliver d (s.httpPayload d transform)).message d').registered =
      (s.message d').registered := by
  have hbuffer : ((s.buffer d).message d').registered = (s.message d').registered :=
    registered_update (m := { s.message d with input := [] }) rfl rfl d'
  have hconvert : (((s.buffer d).convert d transform).message d').registered =
      (s.message d').registered := by
    have h : (((s.buffer d).convert d transform).message d').registered =
        ((s.buffer d).message d').registered :=
      registered_update (m := { (s.buffer d).message d with eom := false }) rfl rfl d'
    exact h.trans hbuffer
  have hpayload : ((s.httpPayload d transform).1.message d').registered =
      (s.message d').registered := by
    rw [State.httpPayload]
    split
    · dsimp only
      split <;> split
      · rw [registered_drain, hconvert]
      · exact hconvert
      · rw [registered_drain, hbuffer]
      · exact hbuffer
    · rfl
  refine (registered_update rfl ?_ d').trans hpayload
  cases (s.httpPayload d transform).2 <;> rfl

/-- The output of a message beside the one that was changed, or of one that keeps it. -/
theorem emitted_update {m : Message} (ht : t.message = Function.update s.message d' m)
    (hm : d' = d → m.emitted = (s.message d').emitted) :
    (t.message d).emitted = (s.message d).emitted := by
  rw [ht]
  by_cases hsame : d = d'
  · subst hsame
    rw [Function.update_self]
    exact hm rfl
  · rw [Function.update_of_ne hsame]

/-- One more step of such a run, unless the filter gives up. -/
theorem Followed.next (h : Followed transform d as s) (hrun : run (step transform) start as = some s)
    (honly : a.Only d) (hstep : step transform s a = some s') :
    Followed transform d (as ++ [a]) s' ∨ Starved transform d (as ++ [a]) maxStalledCallbacks := by
  obtain ⟨d', matching, rfl, hbegun, hnext⟩ | ⟨d', bytes, last, rfl, hbegun, hlast, hnext⟩ |
    ⟨d', sends, rfl, hbegun, hended, hnext⟩ := step_cases hstep
  · left
    cases matching with
    | true =>
        obtain rfl : d' = d := honly
        obtain rfl : s' = s.activate d' := hnext
        have hidle : ∀ d'', s.active d'' = false := by
          intro d''
          by_contra hactive
          replace hactive : s.active d'' = true := Bool.not_eq_false _ ▸ hactive
          by_cases hd'' : d'' = d'
          · exact Bool.false_ne_true (hbegun.symm.trans (hd'' ▸ h.inv.begun hactive))
          · exact Bool.false_ne_true ((h.other d'' hd'').symm.trans (h.inv.registered hactive))
        refine ⟨activate_inv h.inv hbegun hidle, fun d'' hd'' => ?_, .inl rfl⟩
        show ((s.setMessage d' _).message d'').registered = false
        rw [message_other _ hd'']
        exact h.other d'' hd''
    | false =>
        obtain rfl : s' = s.passHeaders d' := hnext
        exact h.keep hrun hstep (passHeaders_inv h.inv hbegun)
          (registered_update rfl rfl) rfl fun _ => emitted_update rfl fun _ => rfl
  · subst hnext
    exact .inl (h.keep hrun hstep (receive_inv h.inv hbegun hlast) (registered_update rfl rfl) rfl
      fun _ => emitted_update rfl fun _ => rfl)
  · cases hregistered : (s.message d').registered with
    | false =>
        left
        rw [hregistered, if_neg Bool.false_ne_true] at hnext
        have hquiet : Undisturbed s (.payload d' sends) := fun hyes =>
          absurd (hregistered.symm.trans hyes) Bool.false_ne_true
        have hinv : Inv transform s' := step_inv h.inv hquiet hstep
        subst hnext
        refine h.keep hrun hstep hinv (registered_update rfl rfl) rfl fun hyes =>
          emitted_update rfl fun hsame => ?_
        subst hsame
        exact absurd (hregistered.symm.trans hyes) Bool.false_ne_true
    | true =>
        have hd' : d' = d := by
          by_contra hne
          exact Bool.false_ne_true ((h.other d' hne).symm.trans hregistered)
        subst hd'
        rw [hregistered, if_pos rfl] at hnext
        have hactive := h.inv.active_of_registered hregistered hended
        have hkept : ∀ d'', (s'.message d'').registered = (s.message d'').registered := by
          rw [hnext]
          exact registered_payload { s with sends } d'
        obtain ⟨hfed, hinv⟩ := payload_outcome (h.inv.withSends sends) hactive
        rw [← hnext] at hfed hinv
        have hstarved : s'.stalled = 0 ∨ Starved transform d' (as ++ [.payload d' sends]) s'.stalled := by
          rcases hfed with hzero | ⟨hemitted, hsame | ⟨hmore, hlast, hunfinished⟩⟩
          · exact .inl hzero
          · rcases h.stalled with hzero | ⟨-, hstarved⟩
            · exact .inl (hsame.trans hzero)
            · refine .inr (hstarved.extend hrun hstep hemitted ?_)
              rw [hsame]
              exact Nat.le_add_right _ _
          · have hstarved : Starved transform d' as s.stalled := by
              rcases h.stalled with hzero | ⟨-, hstarved⟩
              · rw [hzero]
                exact .zero hrun hlast hunfinished
              · exact hstarved
            refine .inr (hstarved.extend hrun hstep hemitted ?_)
            refine Nat.le_of_eq ?_
            rw [hmore, Act.isPayload, if_pos (beq_self_eq_true d')]
        rcases hinv with hinv | hlimit
        · exact .inl ⟨hinv, fun d'' hd'' => (hkept d'').trans (h.other d'' hd''),
            hstarved.imp_right fun hk => ⟨(hkept d').trans hregistered, hk⟩⟩
        · rcases hstarved with hzero | hk
          · rw [hzero] at hlimit
            exact absurd hlimit (by decide)
          · exact .inr (hk.mono hlimit)

/-- **The transformed body is delivered unless the filter is starved.**  In every run in which the
headers of one side only match rules, however its body arrives and whatever its channel takes,
the output is emitted once, in order, and completely before the message ends, or there were as
many callbacks in a row as the filter waits for in which nothing of it was taken. -/
theorem delivered_or_starved (honly : ∀ a ∈ as, a.Only d)
    (hrun : run (step transform) start as = some s) :
    Delivered transform d s ∨ ∃ bs, bs <+: as ∧ Starved transform d bs maxStalledCallbacks := by
  have hfollowed : Followed transform d as s ∨
      ∃ bs, bs <+: as ∧ Starved transform d bs maxStalledCallbacks := by
    induction as using List.reverseRecOn generalizing s with
    | nil =>
        obtain rfl := Option.some.inj hrun
        exact .inl ⟨start_inv, fun _ _ => rfl, .inl rfl⟩
    | append_singleton as a ih =>
        obtain ⟨t, ht, hlast⟩ := run_append_iff.mp hrun
        obtain ⟨u, hstep, hu⟩ := run_cons_iff.mp hlast
        obtain rfl := Option.some.inj hu
        rcases ih (fun b hb => honly b (List.mem_append_left _ hb)) ht with h | ⟨bs, hbs, hstarved⟩
        · rcases h.next ht (honly a (by simp)) hstep with h | hstarved
          · exact .inl h
          · exact .inr ⟨_, List.prefix_refl _, hstarved⟩
        · exact .inr ⟨bs, hbs.trans (List.prefix_append as [a]), hstarved⟩
  refine hfollowed.imp_left fun h => ?_
  have hseparate := h.inv.separate d
  exact ⟨fun hd => (hseparate.1 hd).1, fun hd => (hseparate.1 hd).2.1, fun hd => (hseparate.1 hd).2.2⟩

/-- The body comes in two parts, and the output is refused at first and then taken in parts. -/
def piecemeal : List Act :=
  [.headers .request false, .headers .response true, .receive .response [97] false,
    .payload .response [], .receive .response [99, 97] true, .payload .response [0, 0, 0, 0],
    .payload .response [2], .payload .response [1]]

theorem delivered_piecemeal :
    Delivered replaceA .response ((run (step replaceA) start piecemeal).get rfl) ∨
      ∃ bs, bs <+: piecemeal ∧ Starved replaceA .response bs maxStalledCallbacks :=
  delivered_or_starved (by simp [piecemeal, Act.Only]) (Option.some_get _).symm

end CorexManager.RespTransform
