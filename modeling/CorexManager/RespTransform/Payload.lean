import CorexManager.Logic.Transition

/-!
# Both sides of the transformation filter

One instance of the filter has the callbacks of a request and of its response.  A side whose
headers match rules is buffered until its end of message, transformed and sent; the buffer, the
output and the flags of this are fields of the instance, not of the side.

* `httpPayload` — the payload callback of a side.
* `step` — headers, bytes and callbacks of both sides, in any order HAProxy can call them.
* `Separate` — each side emits the transformation of its own bytes, or its own bytes.
* `separate_of_undisturbed` — this holds in every run in which no side becomes active before the
  other one is finished, and the filter does not give up.
* `mixed` — a response that starts within the request body.
-/

namespace CorexManager.RespTransform

open Transition

/-- The direction of a message. -/
inductive Side where
  | request
  | response
  deriving DecidableEq

/-- Smallest chunk of a send. -/
def minSendChunk : Nat := 1024

/-- Maximum `send()` attempts of a callback. -/
def maxSendAttempts : Nat := 64

def initialChunk : Nat := 12288

/-- Maximum consecutive callbacks without progress. -/
def maxStalledCallbacks : Nat := 10000

/-- A message under HAProxy. -/
structure Message where
  /-- Its headers were processed. -/
  begun : Bool
  /-- The filter asked for its data. -/
  registered : Bool
  /-- The body bytes that are neither forwarded nor removed. -/
  input : List UInt8
  /-- The end-of-message flag. -/
  eom : Bool
  emitted : List UInt8
  /-- Everything that arrived, and whether it was all. -/
  received : List UInt8
  last : Bool
  ended : Bool

/-- The filter instance, and the messages of both sides. -/
structure State where
  /-- `active_request` and `active_response`. -/
  active : Side → Bool
  bodyBuf : List UInt8
  converted : Bool
  out : List UInt8
  outPos : Nat
  chunk : Nat
  stalled : Nat
  message : Side → Message
  /-- What the channel replies to the next sends; it refuses those after them. -/
  sends : List Nat

namespace State

variable (s : State) (d : Side)

def setMessage (m : Message) : State := { s with message := Function.update s.message d m }

/-- `pending() > 0`. -/
def pending : Bool := decide (s.outPos < s.out.length)

/-- The headers of a side match rules: its state is reset, and its data is asked for. -/
def activate : State :=
  { s.setMessage d { s.message d with begun := true, registered := true } with
    active := Function.update s.active d true
    bodyBuf := []
    converted := false
    out := []
    outPos := 0
    stalled := 0
    chunk := initialChunk }

/-- The headers of a side match no rule. -/
def passHeaders : State :=
  { s.setMessage d { s.message d with begun := true } with
    active := Function.update s.active d false }

/-- The loop of `flush`, with the attempts it has left. -/
def sendLoop (s : State) (d : Side) : Nat → State
  | 0 => s
  | attempts + 1 =>
      if s.pending then
        let n := min s.chunk (s.out.length - s.outPos)
        let sent := min (s.sends.headD 0) n
        let t := { s with sends := s.sends.tail }
        if 0 < sent then
          sendLoop { t.setMessage d { s.message d with
              emitted := (s.message d).emitted ++ (s.out.drop s.outPos).take sent } with
            outPos := s.outPos + sent } d attempts
        else if minSendChunk < s.chunk then
          sendLoop { t with chunk := max (s.chunk / 2) minSendChunk } d attempts
        else t
      else s

/-- `flush`: after too many callbacks without progress the rest is dropped. -/
def flush : State :=
  let t := s.sendLoop d maxSendAttempts
  if s.outPos < t.outPos then { t with stalled := 0 }
  else if t.pending then
    if maxStalledCallbacks ≤ t.stalled + 1 then
      { t with stalled := t.stalled + 1, outPos := t.out.length }
    else { t with stalled := t.stalled + 1 }
  else t

/-- The available data is buffered and removed. -/
def buffer : State :=
  { s.setMessage d { s.message d with input := [] } with
    bodyBuf := s.bodyBuf ++ (s.message d).input }

/-- The buffered body is transformed by the side that is active, the response first. -/
def convert (transform : Side → List UInt8 → List UInt8) : State :=
  { s.setMessage d { s.message d with eom := false } with
    converted := true
    out := if s.active .response then transform .response s.bodyBuf
      else transform .request s.bodyBuf
    bodyBuf := []
    outPos := 0 }

/-- The end of message is set again, and no side is active. -/
def complete : State :=
  { s.setMessage d { s.message d with eom := true } with active := fun _ => false }

/-- The converted output is sent; the number is how much of the input is forwarded. -/
def drain : State × Option Nat :=
  let t := s.flush d
  if t.pending then (t, some 0) else (t.complete d, none)

/-- `http_payload`. -/
def httpPayload (transform : Side → List UInt8 → List UInt8) : State × Option Nat :=
  if s.active .response || s.active .request then
    let eom := (s.message d).eom
    let t := s.buffer d
    let t := if eom && !t.converted then t.convert d transform else t
    if t.converted then t.drain d else (t, some 0)
  else (s, none)

/-- `http_end`: whether the analyser has to wait. -/
def httpEnd : Bool := s.converted && s.pending

end State

/-- What HAProxy forwards of the input: everything, or so many bytes. -/
def Message.forward (m : Message) : Option Nat → Message
  | none => { m with emitted := m.emitted ++ m.input, input := [] }
  | some n => { m with emitted := m.emitted ++ m.input.take n, input := m.input.drop n }

/-- The message ends once its flag is set and no input is held, unless a filter waits. -/
def Message.release (m : Message) (wait : Bool) : Message :=
  { m with ended := m.eom && m.input.isEmpty && !wait }

/-- What HAProxy or one of the peers does. -/
inductive Act where
  /-- The headers of a side; they match rules or not. -/
  | headers (d : Side) (matching : Bool)
  | receive (d : Side) (bytes : List UInt8) (last : Bool)
  /-- Data of a side is forwarded; `sends` is what its channel has room for. -/
  | payload (d : Side) (sends : List Nat)

variable (transform : Side → List UInt8 → List UInt8)

/-- What follows from a callback. -/
def deliver (d : Side) (result : State × Option Nat) : State :=
  result.1.setMessage d (((result.1.message d).forward result.2).release result.1.httpEnd)

/-- One event.  The response begins after the request, and a body after its headers. -/
def step (s : State) : Act → Option State
  | .headers d matching =>
      if (s.message d).begun || (d == .response && !(s.message .request).begun) then none
      else some (if matching then s.activate d else s.passHeaders d)
  | .receive d bytes last =>
      let m := s.message d
      if m.begun && !m.last then
        some (s.setMessage d { m with
          input := m.input ++ bytes, received := m.received ++ bytes, last := last, eom := last })
      else none
  | .payload d sends =>
      let m := s.message d
      if m.begun && !m.ended then
        some (if m.registered then deliver d ({ s with sends }.httpPayload d transform)
          else s.setMessage d ((m.forward none).release false))
      else none

/-- Before the request. -/
def start : State where
  active := fun _ => false
  bodyBuf := []
  converted := false
  out := []
  outPos := 0
  chunk := initialChunk
  stalled := 0
  message := fun _ => ⟨false, false, [], false, [], [], false, false⟩
  sends := []

/-! ### What each side emits -/

/-- **Each side emits its own bytes**: nothing until they are complete, then their
transformation, and all of it when the message ends; without rules, the bytes as they are. -/
def Separate (s : State) : Prop := ∀ d,
  ((s.message d).registered = true →
    ((s.message d).last = false → (s.message d).emitted = []) ∧
    (s.message d).emitted <+: transform d (s.message d).received ∧
    ((s.message d).ended = true → (s.message d).emitted = transform d (s.message d).received)) ∧
  ((s.message d).registered = false →
    (s.message d).emitted ++ (s.message d).input = (s.message d).received)

/-- **A step does not disturb the other side**: headers that match rules come when neither side is
active, and a callback whose output is refused is not the last that is waited for. -/
def Undisturbed (s : State) : Act → Prop
  | .headers _ true => ∀ d, s.active d = false
  | .payload d sends => (s.message d).registered = true → s.converted = true → s.pending = true →
      (({ s with sends }.buffer d).sendLoop d maxSendAttempts).outPos = s.outPos →
        s.stalled + 1 < maxStalledCallbacks
  | _ => True

/-! ### Sends -/

variable {transform} {s s' t u : State} {d : Side} {a : Act}

/-- Some of the output was sent, and nothing else was touched. -/
def Sent (d : Side) (s t : State) : Prop :=
  ∃ (n : Nat) (sends : List Nat) (chunk : Nat), n ≤ s.out.length - s.outPos ∧
    t = { s.setMessage d { s.message d with
        emitted := (s.message d).emitted ++ (s.out.drop s.outPos).take n } with
      outPos := s.outPos + n
      sends
      chunk }

theorem setMessage_self (s : State) (d : Side) : s.setMessage d (s.message d) = s := by
  rw [State.setMessage, Function.update_eq_self]

theorem message_self (m : Message) : (s.setMessage d m).message d = m := by
  show Function.update s.message d m d = m
  rw [Function.update_self]

theorem message_other {d' : Side} (m : Message) (h : d' ≠ d) :
    (s.setMessage d m).message d' = s.message d' := by
  show Function.update s.message d m d' = s.message d'
  rw [Function.update_of_ne h]

theorem Sent.refl (d : Side) (s : State) : Sent d s s :=
  ⟨0, s.sends, s.chunk, Nat.zero_le _, by
    rw [List.take_zero, List.append_nil, Nat.add_zero, setMessage_self]⟩

theorem Sent.trans (h : Sent d s t) (h' : Sent d t u) : Sent d s u := by
  obtain ⟨n, sends, chunk, hn, rfl⟩ := h
  obtain ⟨m, sends', chunk', hm, rfl⟩ := h'
  refine ⟨n + m, sends', chunk', ?_, ?_⟩
  · have hm' : m ≤ s.out.length - (s.outPos + n) := hm
    omega
  · have hemitted : (s.message d).emitted ++ (s.out.drop s.outPos).take n ++
        (s.out.drop (s.outPos + n)).take m =
          (s.message d).emitted ++ (s.out.drop s.outPos).take (n + m) := by
      rw [List.append_assoc, List.take_add, List.drop_drop]
    simp only [State.setMessage, Function.update_self, Function.update_idem, Nat.add_assoc, hemitted]

/-- The send loop sends what is pending, as far as the channel takes it. -/
theorem sendLoop_sent (s : State) (d : Side) (attempts : Nat) : Sent d s (s.sendLoop d attempts) := by
  induction attempts generalizing s with
  | zero => exact Sent.refl d s
  | succ attempts ih =>
      rw [State.sendLoop]
      split
      · dsimp only
        split
        · refine Sent.trans ⟨min (s.sends.headD 0) (min s.chunk (s.out.length - s.outPos)),
            s.sends.tail, s.chunk, ?_, rfl⟩ (ih _)
          omega
        · have hkeep : ∀ chunk, Sent d s { s with sends := s.sends.tail, chunk } := fun chunk =>
            ⟨0, s.sends.tail, chunk, Nat.zero_le _, by
              rw [List.take_zero, List.append_nil, Nat.add_zero, setMessage_self]⟩
          split
          · exact (hkeep _).trans (ih _)
          · exact hkeep s.chunk
      · exact Sent.refl d s

/-- A flush that is not the last one waited for sends some of the output. -/
theorem flush_sent (h : s.pending = true → (s.sendLoop d maxSendAttempts).outPos = s.outPos →
    s.stalled + 1 < maxStalledCallbacks) :
    ∃ t stalled, Sent d s t ∧ s.flush d = { t with stalled } := by
  have hsent := sendLoop_sent s d maxSendAttempts
  obtain ⟨n, sends, chunk, -, heq⟩ := sendLoop_sent s d maxSendAttempts
  rw [State.flush]
  split
  · exact ⟨_, 0, hsent, rfl⟩
  · next hnone =>
      split
      · next hpending =>
          have hpos : (s.sendLoop d maxSendAttempts).outPos = s.outPos := by
            rw [heq] at hnone ⊢
            exact Nat.le_antisymm (Nat.le_of_not_lt hnone) (Nat.le_add_right s.outPos n)
          have hsame : (s.sendLoop d maxSendAttempts).stalled = s.stalled ∧
              (s.sendLoop d maxSendAttempts).out = s.out := by
            rw [heq]
            exact ⟨rfl, rfl⟩
          rw [State.pending, hpos, hsame.2] at hpending
          rw [hsame.1, if_neg (Nat.not_le.mpr (h hpending hpos))]
          exact ⟨_, s.stalled + 1, hsent, rfl⟩
      · exact ⟨_, _, hsent, rfl⟩

/-! ### One side at a time -/

/-- The body of a side is being buffered. -/
structure Buffering (s : State) (d : Side) : Prop where
  stalled : s.stalled = 0
  registered : (s.message d).registered = true
  begun : (s.message d).begun = true
  emitted : (s.message d).emitted = []
  buffered : s.bodyBuf ++ (s.message d).input = (s.message d).received
  eom : (s.message d).eom = (s.message d).last
  ended : (s.message d).ended = false

variable (transform) in
/-- The transformed body of a side is being sent. -/
structure Draining (s : State) (d : Side) : Prop where
  registered : (s.message d).registered = true
  begun : (s.message d).begun = true
  last : (s.message d).last = true
  input : (s.message d).input = []
  out : s.out = transform d (s.message d).received
  emitted : (s.message d).emitted = s.out.take s.outPos
  eom : (s.message d).eom = false
  ended : (s.message d).ended = false

/-- A message of which nothing arrived. -/
def Message.fresh (begun : Bool) : Message := ⟨begun, false, [], false, [], [], false, false⟩

variable (transform) in
/-- At most one side is active; one that was is finished. -/
structure Inv (s : State) : Prop where
  alone : ∀ d d', s.active d = true → s.active d' = true → d = d'
  buffering : ∀ d, s.active d = true → s.converted = false → Buffering s d
  draining : ∀ d, s.active d = true → s.converted = true → Draining transform s d
  finished : ∀ d, s.active d = false → (s.message d).registered = true →
    (s.message d).begun = true ∧ (s.message d).last = true ∧ (s.message d).ended = true ∧
      (s.message d).emitted = transform d (s.message d).received
  native : ∀ d, (s.message d).registered = false →
    (s.message d).emitted ++ (s.message d).input = (s.message d).received
  fresh : ∀ d, (s.message d).begun = false → s.message d = .fresh false

theorem start_inv : Inv transform start where
  alone := nofun
  buffering := nofun
  draining := nofun
  finished := nofun
  native := fun _ _ => rfl
  fresh := fun _ _ => rfl

/-- A side that is active has begun. -/
theorem Inv.begun (h : Inv transform s) (hd : s.active d = true) : (s.message d).begun = true := by
  cases hconverted : s.converted with
  | false => exact (h.buffering d hd hconverted).begun
  | true => exact (h.draining d hd hconverted).begun

theorem Inv.separate (h : Inv transform s) : Separate transform s := by
  refine fun d => ⟨fun hregistered => ?_, h.native d⟩
  cases hactive : s.active d with
  | false =>
      obtain ⟨-, hlast, -, hemitted⟩ := h.finished d hactive hregistered
      rw [hlast, hemitted]
      exact ⟨nofun, List.prefix_refl _, fun _ => rfl⟩
  | true =>
      cases hconverted : s.converted with
      | false =>
          have hd := h.buffering d hactive hconverted
          rw [hd.emitted, hd.ended]
          exact ⟨fun _ => rfl, List.nil_prefix, nofun⟩
      | true =>
          have hd := h.draining d hactive hconverted
          rw [hd.emitted, hd.out, hd.ended, hd.last]
          exact ⟨nofun, List.take_prefix _ _, nofun⟩

/-- A step of one side that is not active leaves the active one alone. -/
theorem Buffering.other {d' : Side} (h : Buffering s d') (hmessage : s'.message d' = s.message d')
    (hstalled : s'.stalled = s.stalled) (hbuf : s'.bodyBuf = s.bodyBuf) : Buffering s' d' := by
  obtain ⟨h₁, h₂, h₃, h₄, h₅, h₆, h₇⟩ := h
  rw [← hmessage] at h₂ h₃ h₄ h₅ h₆ h₇
  exact ⟨hstalled.trans h₁, h₂, h₃, h₄, hbuf ▸ h₅, h₆, h₇⟩

theorem Draining.other {d' : Side} (h : Draining transform s d')
    (hmessage : s'.message d' = s.message d') (hout : s'.out = s.out) (hpos : s'.outPos = s.outPos) :
    Draining transform s' d' := by
  obtain ⟨h₁, h₂, h₃, h₄, h₅, h₆, h₇, h₈⟩ := h
  rw [← hmessage] at h₁ h₂ h₃ h₄ h₅ h₆ h₇ h₈
  rw [← hout] at h₅ h₆
  rw [← hpos] at h₆
  exact ⟨h₁, h₂, h₃, h₄, h₅, h₆, h₇, h₈⟩

/-- The invariant of a state from that of another one, but for one side. -/
theorem Inv.update (h : Inv transform s) (hactive : ∀ d', d' ≠ d → s'.active d' = s.active d')
    (hmessage : ∀ d', d' ≠ d → s'.message d' = s.message d')
    (hothers : ∀ d', d' ≠ d → s.active d' = true → s'.active d = false ∧
      s'.converted = s.converted ∧ s'.stalled = s.stalled ∧ s'.bodyBuf = s.bodyBuf ∧
        s'.out = s.out ∧ s'.outPos = s.outPos)
    (hbuffering : s'.active d = true → s'.converted = false → Buffering s' d)
    (hdraining : s'.active d = true → s'.converted = true → Draining transform s' d)
    (hfinished : s'.active d = false → (s'.message d).registered = true →
      (s'.message d).begun = true ∧ (s'.message d).last = true ∧ (s'.message d).ended = true ∧
        (s'.message d).emitted = transform d (s'.message d).received)
    (hnative : (s'.message d).registered = false →
      (s'.message d).emitted ++ (s'.message d).input = (s'.message d).received)
    (hfresh : (s'.message d).begun = false → s'.message d = .fresh false) : Inv transform s' where
  alone := fun d₁ d₂ h₁ h₂ => by
    by_cases hd₁ : d₁ = d <;> by_cases hd₂ : d₂ = d
    · rw [hd₁, hd₂]
    · rw [hactive d₂ hd₂] at h₂
      rw [hd₁, (hothers d₂ hd₂ h₂).1] at h₁
      cases h₁
    · rw [hactive d₁ hd₁] at h₁
      rw [hd₂, (hothers d₁ hd₁ h₁).1] at h₂
      cases h₂
    · exact h.alone d₁ d₂ (hactive d₁ hd₁ ▸ h₁) (hactive d₂ hd₂ ▸ h₂)
  buffering := fun d' h₁ h₂ => by
    by_cases hd' : d' = d
    · subst hd'
      exact hbuffering h₁ h₂
    · rw [hactive d' hd'] at h₁
      obtain ⟨-, hconverted, hstalled, hbuf, -, -⟩ := hothers d' hd' h₁
      exact (h.buffering d' h₁ (hconverted ▸ h₂)).other (hmessage d' hd') hstalled hbuf
  draining := fun d' h₁ h₂ => by
    by_cases hd' : d' = d
    · subst hd'
      exact hdraining h₁ h₂
    · rw [hactive d' hd'] at h₁
      obtain ⟨-, hconverted, -, -, hout, hpos⟩ := hothers d' hd' h₁
      exact (h.draining d' h₁ (hconverted ▸ h₂)).other (hmessage d' hd') hout hpos
  finished := fun d' h₁ h₂ => by
    by_cases hd' : d' = d
    · subst hd'
      exact hfinished h₁ h₂
    · rw [hactive d' hd'] at h₁
      rw [hmessage d' hd'] at h₂ ⊢
      exact h.finished d' h₁ h₂
  native := fun d' h₁ => by
    by_cases hd' : d' = d
    · subst hd'
      exact hnative h₁
    · rw [hmessage d' hd'] at h₁ ⊢
      exact h.native d' h₁
  fresh := fun d' h₁ => by
    by_cases hd' : d' = d
    · subst hd'
      exact hfresh h₁
    · rw [hmessage d' hd'] at h₁ ⊢
      exact h.fresh d' h₁

/-- A message of a side that the filter does not have. -/
theorem Inv.setNative {m : Message} (h : Inv transform s) (hd : s.active d = false)
    (hregistered : m.registered = false) (hnative : m.emitted ++ m.input = m.received)
    (hfresh : m.begun = false → m = .fresh false) : Inv transform (s.setMessage d m) := by
  have hself : (s.setMessage d m).message d = m := message_self m
  refine h.update (d := d) (fun _ _ => rfl) (fun d' hd' => message_other m hd')
    (fun d' _ _ => ⟨hd, rfl, rfl, rfl, rfl, rfl⟩) ?_ ?_ ?_ ?_ ?_
  · exact fun hactive => absurd (hd.symm.trans hactive) Bool.false_ne_true
  · exact fun hactive => absurd (hd.symm.trans hactive) Bool.false_ne_true
  · intro _ hreg
    rw [hself, hregistered] at hreg
    cases hreg
  · intro _
    rw [hself]
    exact hnative
  · intro hbegun
    rw [hself] at hbegun ⊢
    exact hfresh hbegun

/-! ### Steps of one side -/

/-- A side becomes active when neither is. -/
theorem activate_inv (h : Inv transform s) (hbegun : (s.message d).begun = false)
    (hnone : ∀ d', s.active d' = false) : Inv transform (s.activate d) := by
  have hself : (s.activate d).message d = { Message.fresh true with registered := true } := by
    show (s.setMessage d _).message d = _
    rw [message_self, h.fresh d hbegun]
    rfl
  have hactive : (s.activate d).active d = true := by
    show Function.update s.active d true d = true
    rw [Function.update_self]
  refine h.update (d := d) (fun d' hd' => ?_) (fun d' hd' => message_other _ hd')
    (fun d' _ hd' => ?_) (fun _ _ => ?_) ?_ ?_ ?_ ?_
  · show Function.update s.active d true d' = s.active d'
    rw [Function.update_of_ne hd']
  · exact absurd ((hnone d').symm.trans hd') Bool.false_ne_true
  · refine ⟨rfl, ?_, ?_, ?_, ?_, ?_, ?_⟩ <;> rw [hself] <;> rfl
  · exact nofun
  · exact fun hidle => absurd (hidle.symm.trans hactive) Bool.false_ne_true
  · rw [hself]
    exact nofun
  · rw [hself]
    exact nofun

/-- A side without matching rules is left to HAProxy. -/
theorem passHeaders_inv (h : Inv transform s) (hbegun : (s.message d).begun = false) :
    Inv transform (s.passHeaders d) := by
  have hidle : s.active d = false := by
    by_contra hactive
    have hyes := h.begun (Bool.not_eq_false _ ▸ hactive)
    exact Bool.false_ne_true (hbegun.symm.trans hyes)
  have hsame : s.passHeaders d = s.setMessage d { s.message d with begun := true } := by
    rw [State.passHeaders, ← hidle, Function.update_eq_self]
    rfl
  have hfresh := h.fresh d hbegun
  rw [hsame, hfresh]
  exact h.setNative hidle rfl rfl nofun

/-- Bytes arrive on a side that is not complete. -/
theorem receive_inv (h : Inv transform s) {bytes : List UInt8} {last : Bool}
    (hbegun : (s.message d).begun = true) (hlast : (s.message d).last = false) :
    Inv transform (s.setMessage d { s.message d with
      input := (s.message d).input ++ bytes
      received := (s.message d).received ++ bytes
      last := last
      eom := last }) := by
  cases hactive : s.active d with
  | false =>
      have hregistered : (s.message d).registered = false := by
        by_contra hreg
        have hcomplete := (h.finished d hactive (Bool.not_eq_false _ ▸ hreg)).2.1
        exact Bool.false_ne_true (hlast.symm.trans hcomplete)
      refine h.setNative hactive hregistered ?_ fun hnot => absurd (hnot.symm.trans hbegun)
        Bool.false_ne_true
      rw [← List.append_assoc, h.native d hregistered]
  | true =>
      have hconverted : s.converted = false := by
        by_contra hconverted
        have hd := h.draining d hactive (Bool.not_eq_false _ ▸ hconverted)
        exact Bool.false_ne_true (hlast.symm.trans hd.last)
      have hd := h.buffering d hactive hconverted
      refine h.update (d := d) (fun _ _ => rfl) (fun d' hd' => message_other _ hd')
        (fun d' hd' hactive' => absurd (h.alone d' d hactive' hactive) hd') (fun _ _ => ?_) ?_ ?_ ?_ ?_
      · refine ⟨hd.stalled, ?_, ?_, ?_, ?_, ?_, ?_⟩ <;> rw [message_self]
        · exact hd.registered
        · exact hd.begun
        · exact hd.emitted
        · show s.bodyBuf ++ ((s.message d).input ++ bytes) = (s.message d).received ++ bytes
          rw [← List.append_assoc, hd.buffered]
        · exact hd.ended
      · exact fun _ hyes => absurd (hconverted.symm.trans hyes) Bool.false_ne_true
      · exact fun hidle => absurd (hidle.symm.trans hactive) Bool.false_ne_true
      · rw [message_self]
        exact fun hnot => absurd (hnot.symm.trans hd.registered) Bool.false_ne_true
      · rw [message_self]
        exact fun hnot => absurd (hnot.symm.trans hbegun) Bool.false_ne_true

/-- The active side is changed, and stays active. -/
theorem Inv.working (h : Inv transform s) (hactive : s.active d = true)
    (hsame : s'.active = s.active) (hmessage : ∀ d', d' ≠ d → s'.message d' = s.message d')
    (hbuffering : s'.converted = false → Buffering s' d)
    (hdraining : s'.converted = true → Draining transform s' d) : Inv transform s' := by
  have hreg : (s'.message d).registered = true ∧ (s'.message d).begun = true := by
    cases hconverted : s'.converted with
    | false => exact ⟨(hbuffering hconverted).registered, (hbuffering hconverted).begun⟩
    | true => exact ⟨(hdraining hconverted).registered, (hdraining hconverted).begun⟩
  refine h.update (fun d' _ => by rw [hsame]) hmessage
    (fun d' hd' hactive' => absurd (h.alone d' d hactive' hactive) hd') (fun _ => hbuffering)
    (fun _ => hdraining) (fun hidle => ?_) (fun hnot => ?_) (fun hnot => ?_)
  · rw [hsame, hactive] at hidle
    cases hidle
  · exact absurd (hnot.symm.trans hreg.1) Bool.false_ne_true
  · exact absurd (hnot.symm.trans hreg.2) Bool.false_ne_true

theorem buffer_inv (h : Inv transform s) (hactive : s.active d = true) :
    Inv transform (s.buffer d) := by
  have hself : (s.buffer d).message d = { s.message d with input := [] } := message_self _
  refine h.working hactive rfl (fun d' hd' => message_other _ hd') (fun hconverted => ?_)
    fun hconverted => ?_
  · have hd := h.buffering d hactive hconverted
    refine ⟨hd.stalled, ?_, ?_, ?_, ?_, ?_, ?_⟩ <;> rw [hself]
    · exact hd.registered
    · exact hd.begun
    · exact hd.emitted
    · show s.bodyBuf ++ (s.message d).input ++ [] = (s.message d).received
      rw [List.append_nil, hd.buffered]
    · exact hd.eom
    · exact hd.ended
  · have hd := h.draining d hactive hconverted
    refine ⟨?_, ?_, ?_, ?_, ?_, ?_, ?_, ?_⟩ <;> rw [hself]
    · exact hd.registered
    · exact hd.begun
    · exact hd.last
    · exact hd.out
    · exact hd.emitted
    · exact hd.eom
    · exact hd.ended

/-- The complete body of the active side is transformed by that side's rules. -/
theorem convert_inv (h : Inv transform s) (hactive : s.active d = true)
    (hconverted : s.converted = false) (heom : (s.message d).eom = true)
    (hinput : (s.message d).input = []) : Inv transform (s.convert d transform) := by
  have hself : (s.convert d transform).message d = { s.message d with eom := false } :=
    message_self _
  have hd := h.buffering d hactive hconverted
  have hbody : s.bodyBuf = (s.message d).received := by
    rw [← hd.buffered, hinput, List.append_nil]
  refine h.working hactive rfl (fun d' hd' => message_other _ hd') nofun fun _ => ?_
  refine ⟨?_, ?_, ?_, ?_, ?_, ?_, ?_, ?_⟩ <;> rw [hself]
  · exact hd.registered
  · exact hd.begun
  · exact hd.eom.symm.trans heom
  · exact hinput
  · show (if s.active .response then transform .response s.bodyBuf
      else transform .request s.bodyBuf) = transform d (s.message d).received
    rw [← hbody]
    cases d with
    | response => rw [if_pos hactive]
    | request =>
        have hidle : ¬ s.active .response = true :=
          fun hboth => nomatch h.alone .response .request hboth hactive
        rw [if_neg hidle]
  · exact hd.emitted
  · exact hd.ended

theorem release_held {m : Message} {wait : Bool} (heom : m.eom = false) (hended : m.ended = false) :
    (m.forward (some 0)).release wait = m := by
  cases m with
  | mk begun registered input eom emitted received last ended =>
      obtain rfl : eom = false := heom
      obtain rfl : ended = false := hended
      simp only [Message.forward, Message.release, List.take_zero, List.append_nil, List.drop_zero,
        Bool.false_and]

/-- A callback that holds its input changes nothing more. -/
theorem deliver_held (heom : (s.message d).eom = false) (hended : (s.message d).ended = false) :
    deliver d (s, some 0) = s := by
  rw [deliver, release_held heom hended, setMessage_self]

/-- The output of the active side is sent, and with the last of it the message ends. -/
theorem drain_inv (h : Inv transform s) (hactive : s.active d = true)
    (hconverted : s.converted = true)
    (hwait : s.pending = true → (s.sendLoop d maxSendAttempts).outPos = s.outPos →
      s.stalled + 1 < maxStalledCallbacks) : Inv transform (deliver d (s.drain d)) := by
  have hd := h.draining d hactive hconverted
  obtain ⟨t, stalled, ⟨n, sends, chunk, hn, rfl⟩, hflush⟩ := flush_sent hwait
  have hemitted : (s.message d).emitted ++ (s.out.drop s.outPos).take n =
      s.out.take (s.outPos + n) := by
    rw [hd.emitted, List.take_add]
  rw [hemitted] at hflush
  have hself : (s.flush d).message d =
      { s.message d with emitted := s.out.take (s.outPos + n) } := by
    rw [hflush]
    exact message_self _
  have hother : ∀ d', d' ≠ d → (s.flush d).message d' = s.message d' := fun d' hd' => by
    rw [hflush]
    exact message_other _ hd'
  have hkept : (s.flush d).active = s.active ∧ (s.flush d).out = s.out ∧
      (s.flush d).outPos = s.outPos + n ∧ (s.flush d).converted = true := by
    rw [hflush]
    exact ⟨rfl, rfl, rfl, hconverted⟩
  obtain ⟨hactives, hout, hpos, hstill⟩ := hkept
  rw [State.drain]
  cases hpending : (s.flush d).pending with
  | true =>
      rw [if_pos rfl, deliver_held (by rw [hself]; exact hd.eom) (by rw [hself]; exact hd.ended)]
      refine h.working hactive hactives hother (fun hnot => ?_) fun _ => ?_
      · exact absurd (hstill.symm.trans hnot) Bool.true_eq_false.mp
      · refine ⟨?_, ?_, ?_, ?_, ?_, ?_, ?_, ?_⟩ <;> rw [hself]
        · exact hd.registered
        · exact hd.begun
        · exact hd.last
        · exact hd.input
        · rw [hout]
          exact hd.out
        · rw [hout, hpos]
        · exact hd.eom
        · exact hd.ended
  | false =>
      have hall : s.out.take (s.outPos + n) = transform d (s.message d).received := by
        rw [State.pending, hout, hpos, decide_eq_false_iff_not, Nat.not_lt] at hpending
        rw [List.take_of_length_le hpending, hd.out]
      have hwaits : ((s.flush d).complete d).httpEnd = false := by
        show ((s.flush d).converted && (s.flush d).pending) = false
        rw [hpending, Bool.and_false]
      have hdone : (deliver d ((s.flush d).complete d, none)).message d =
          { s.message d with
            emitted := transform d (s.message d).received, eom := true, ended := true } := by
        rw [deliver, message_self, hwaits]
        show ((((s.flush d).setMessage d _).message d).forward none).release false = _
        rw [message_self, hself, hall]
        simp only [Message.forward, Message.release, hd.input, List.append_nil, List.isEmpty_nil,
          Bool.true_and, Bool.not_false]
      rw [if_neg Bool.false_ne_true]
      have hidle : ∀ d', (deliver d ((s.flush d).complete d, none)).active d' = false := fun _ => rfl
      refine h.update (d := d) (fun d' hd' => ?_) (fun d' hd' => ?_)
        (fun d' hd' hactive' => absurd (h.alone d' d hactive' hactive) hd') nofun nofun ?_ ?_ ?_
      · rw [hidle d']
        by_contra hactive'
        exact hd' (h.alone d' d (Bool.not_eq_false _ ▸ Ne.symm hactive') hactive)
      · rw [deliver, message_other _ hd']
        show ((s.flush d).setMessage d _).message d' = s.message d'
        rw [message_other _ hd', hother d' hd']
      · rw [hdone]
        exact fun _ _ => ⟨hd.begun, hd.last, rfl, rfl⟩
      · rw [hdone]
        exact fun hnot => absurd (hnot.symm.trans hd.registered) Bool.false_ne_true
      · rw [hdone]
        exact fun hnot => absurd (hnot.symm.trans hd.begun) Bool.false_ne_true

/-- A callback of a side that the filter has. -/
theorem payload_inv (h : Inv transform s) (hactive : s.active d = true)
    (hwait : s.converted = true → (s.buffer d).pending = true →
      ((s.buffer d).sendLoop d maxSendAttempts).outPos = s.outPos →
        s.stalled + 1 < maxStalledCallbacks) :
    Inv transform (deliver d (s.httpPayload d transform)) := by
  have hsome : (s.active .response || s.active .request) = true := by
    cases d with
    | response => rw [hactive, Bool.true_or]
    | request => rw [hactive, Bool.or_true]
  have hbuffer := buffer_inv h hactive
  have hempty : ((s.buffer d).message d).input = [] := by
    show ((s.setMessage d _).message d).input = []
    rw [message_self]
  have heomEq : ((s.buffer d).message d).eom = (s.message d).eom := by
    show ((s.setMessage d _).message d).eom = _
    rw [message_self]
  rw [State.httpPayload, if_pos hsome]
  dsimp only
  cases hconverted : s.converted with
  | true =>
      have hstill : (s.buffer d).converted = true := hconverted
      rw [hstill, Bool.not_true, Bool.and_false, if_neg Bool.false_ne_true, hstill, if_pos rfl]
      exact drain_inv hbuffer hactive hstill (hwait hconverted)
  | false =>
      have hstill : (s.buffer d).converted = false := hconverted
      rw [hstill, Bool.not_false, Bool.and_true]
      cases heom : (s.message d).eom with
      | false =>
          have hd := hbuffer.buffering d hactive hstill
          rw [if_neg Bool.false_ne_true, hstill, if_neg Bool.false_ne_true,
            deliver_held (heomEq.trans heom) hd.ended]
          exact hbuffer
      | true =>
          rw [if_pos rfl]
          have hstalled : ((s.buffer d).convert d transform).stalled = 0 :=
            (h.buffering d hactive hconverted).stalled
          have hconvert := convert_inv hbuffer hactive hstill (heomEq.trans heom) hempty
          refine drain_inv hconvert hactive rfl fun _ _ => ?_
          rw [hstalled]
          decide

/-- **An undisturbed step keeps at most one side active.** -/
theorem step_inv (h : Inv transform s) (hundisturbed : Undisturbed s a)
    (hstep : step transform s a = some s') : Inv transform s' := by
  cases a with
  | headers d matching =>
      unfold step at hstep
      dsimp only at hstep
      split at hstep
      · cases hstep
      next hpossible =>
      have hbegun : (s.message d).begun = false := by
        rw [Bool.or_eq_true, not_or] at hpossible
        exact Bool.eq_false_iff.mpr hpossible.1
      obtain rfl := Option.some.inj hstep
      cases matching with
      | true => exact activate_inv h hbegun hundisturbed
      | false => exact passHeaders_inv h hbegun
  | receive d bytes last =>
      unfold step at hstep
      dsimp only at hstep
      split at hstep
      · next hpossible =>
          rw [Bool.and_eq_true, Bool.not_eq_true'] at hpossible
          exact Option.some.inj hstep ▸ receive_inv h hpossible.1 hpossible.2
      · cases hstep
  | payload d sends =>
      unfold step at hstep
      dsimp only at hstep
      split at hstep
      · next hpossible =>
          rw [Bool.and_eq_true, Bool.not_eq_true'] at hpossible
          obtain rfl := Option.some.inj hstep
          cases hregistered : (s.message d).registered with
          | true =>
              have hactive : s.active d = true := by
                by_contra hidle
                have hdone := (h.finished d (Bool.not_eq_true _ ▸ hidle) hregistered).2.2.1
                exact Bool.false_ne_true (hpossible.2.symm.trans hdone)
              have hsends : Inv transform { s with sends } :=
                ⟨h.alone, fun d' h₁ h₂ => (h.buffering d' h₁ h₂).other rfl rfl rfl,
                  fun d' h₁ h₂ => (h.draining d' h₁ h₂).other rfl rfl rfl, h.finished, h.native,
                  h.fresh⟩
              rw [if_pos rfl]
              exact payload_inv hsends hactive (hundisturbed hregistered)
          | false =>
              have hidle : s.active d = false := by
                by_contra hactive
                replace hactive : s.active d = true := Bool.not_eq_false _ ▸ hactive
                cases hconverted : s.converted with
                | false =>
                    have hreg := (h.buffering d hactive hconverted).registered
                    exact Bool.false_ne_true (hregistered.symm.trans hreg)
                | true =>
                    have hreg := (h.draining d hactive hconverted).registered
                    exact Bool.false_ne_true (hregistered.symm.trans hreg)
              rw [if_neg Bool.false_ne_true]
              refine h.setNative hidle hregistered ?_ fun hnot =>
                absurd (hnot.symm.trans hpossible.1) Bool.false_ne_true
              show (s.message d).emitted ++ (s.message d).input ++ [] = (s.message d).received
              rw [List.append_nil, h.native d hregistered]
      · cases hstep

/-- **Each side emits its own bytes in undisturbed runs.** -/
theorem separate_of_undisturbed {as : List Act}
    (hundisturbed : Along (step transform) Undisturbed start as)
    (hrun : run (step transform) start as = some s) : Separate transform s :=
  (run_invariant (fun _ _ _ h hC hstep => step_inv h hC hstep) start_inv hundisturbed hrun).separate

/-! ### A response within the request -/

/-- The rules replace one byte by another in the response, and find no token in the request. -/
def replaceA : Side → List UInt8 → List UInt8
  | .request, body => body
  | .response, body => body.map fun byte => if byte = 97 then 98 else byte

/-- The response begins after the request body was sent. -/
def afterwards : List Act :=
  [.headers .request true, .receive .request [97] true, .payload .request [1],
    .headers .response true, .receive .response [97] true, .payload .response [1]]

theorem undisturbed_afterwards : Along (step replaceA) Undisturbed start afterwards := by
  have hrun : Along (step replaceA) Undisturbed start afterwards ∧
      run (step replaceA) start afterwards =
        some ((run (step replaceA) start afterwards).get rfl) :=
    along_run_cons (fun _ => rfl) rfl <| along_run_cons trivial rfl <|
      along_run_cons (fun _ h => nomatch h) rfl <| along_run_cons (fun _ => rfl) rfl <|
      along_run_cons trivial rfl <| along_run_cons (fun _ h => nomatch h) rfl ⟨trivial, rfl⟩
  exact hrun.1

theorem separate_afterwards :
    Separate replaceA ((run (step replaceA) start afterwards).get rfl) :=
  separate_of_undisturbed undisturbed_afterwards (Option.some_get _).symm

/-- The response begins between two parts of the request body. -/
def within : List Act :=
  [.headers .request true, .receive .request [97] false, .payload .request [],
    .headers .response true, .receive .request [97] true, .payload .request [1]]

/-- The first part of the request is lost, and the second is transformed as a response. -/
theorem mixed :
    ¬ ∀ s, run (step replaceA) start within = some s → Separate replaceA s := by
  intro h
  have hseparate := h _ (Option.some_get (x := run (step replaceA) start within) rfl).symm
  have hemitted : [(98 : UInt8)] = [97, 97] := ((hseparate .request).1 rfl).2.2 rfl
  cases hemitted

end CorexManager.RespTransform
