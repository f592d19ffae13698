import CorexManager.Logic.Transition

/-!
# The compressed response body

The payload callback of the compression filter, for one response whose encoder is built: what
the server sends is written to the encoder, what the encoder puts out is staged and sent as far
as the channel takes it, and the end-of-message flag is hidden while output is left.

* `httpPayload` — the callback, over the replies of the channel to its sends.
* `step` — bytes arrive, or HAProxy calls the filter; the message ends when its flag is set and
  no input is held.
* `complete_iff` — a message that ended was compressed completely exactly when no callback held
  output back at the end of the message before the encoder was finished.
* `truncated` — with the first output held back, the final block is never sent.
-/

namespace CorexManager.Compression

open Transition

/-! ### Encoders -/

/-- A streaming encoder: what its inner writer receives. -/
structure Encoder (E : Type*) where
  start : E
  write : E → List UInt8 → E × List UInt8
  finish : E → List UInt8

namespace Encoder

variable {E : Type*} (enc : Encoder E)

/-- The encoder and its output after some chunks. -/
def feed (chunks : List (List UInt8)) : E × List UInt8 :=
  chunks.foldl (fun done chunk =>
    ((enc.write done.1 chunk).1, done.2 ++ (enc.write done.1 chunk).2)) (enc.start, [])

/-- The whole output for some chunks, with the final block. -/
def complete (chunks : List (List UInt8)) : List UInt8 :=
  (enc.feed chunks).2 ++ enc.finish (enc.feed chunks).1

@[simp] theorem feed_nil : enc.feed [] = (enc.start, []) := rfl

@[simp] theorem feed_concat (chunks : List (List UInt8)) (chunk : List UInt8) :
    enc.feed (chunks ++ [chunk]) =
      ((enc.write (enc.feed chunks).1 chunk).1,
        (enc.feed chunks).2 ++ (enc.write (enc.feed chunks).1 chunk).2) := by
  rw [feed, List.foldl_append]
  rfl

end Encoder

/-! ### The filter and its message -/

/-- Initial chunk size of the sends. -/
def eomSendChunk : Nat := 12288

/-- Minimum chunk size. -/
def eomMinSendChunk : Nat := 1024

/-- Maximum `send()` attempts of a flush. -/
def eomMaxSendAttempts : Nat := 64

/-- Maximum consecutive callbacks without progress. -/
def eomMaxStalledCallbacks : Nat := 100

/-- The filter, the message, and what happened to it. -/
structure State (E : Type*) where
  writer : Option E
  originalBytes : Nat
  pendingOut : List UInt8
  pendingPos : Nat
  eomFlushing : Bool
  flushChunk : Nat
  flushStalled : Nat
  bytesSaved : Nat
  /-- The body bytes the filter has not consumed. -/
  input : List UInt8
  /-- The end-of-message flag. -/
  eom : Bool
  /-- The server's side is closed. -/
  closed : Bool
  /-- What the channel replies to the next sends; it refuses those after them. -/
  sends : List Nat
  emitted : List UInt8
  /-- Everything the server sent, and whether it was all. -/
  received : List UInt8
  last : Bool
  /-- The chunks written to the encoder. -/
  written : List (List UInt8)
  ended : Bool
  gaveUp : Bool

namespace State

variable {E : Type*} (enc : Encoder E) (s : State E)

/-- What is staged and not sent. -/
def pending : List UInt8 := s.pendingOut.drop s.pendingPos

/-- `pending_pos < pending_out.len()`. -/
def outputLeft : Bool := decide (s.pendingPos < s.pendingOut.length)

/-- `msg.send()`: how many bytes the channel takes, none when it has no room. -/
def send (data : List UInt8) : Nat × State E :=
  let sent := min (s.sends.headD 0) data.length
  (sent, { s with sends := s.sends.tail, emitted := s.emitted ++ data.take sent })

/-- The loop of `flush_pending`, with the attempts it has left. -/
def sendLoop (s : State E) : Nat → State E
  | 0 => s
  | attempts + 1 =>
      if s.outputLeft then
        let n := min (s.pendingOut.length - s.pendingPos) s.flushChunk
        let (sent, t) := s.send (s.pending.take n)
        if 0 < sent then
          sendLoop { t with pendingPos := t.pendingPos + sent, flushChunk := eomSendChunk } attempts
        else if eomMinSendChunk < t.flushChunk then
          sendLoop { t with flushChunk := max (t.flushChunk / 2) eomMinSendChunk } attempts
        else t
      else s

/-- The message is released although output is left. -/
def giveUp : State E :=
  { s with
    eomFlushing := false
    pendingOut := []
    pendingPos := 0
    flushChunk := eomSendChunk
    eom := true
    gaveUp := true }

/-- `flush_pending`. -/
def flushPending : State E :=
  let t := s.sendLoop eomMaxSendAttempts
  if s.pendingPos < t.pendingPos then { t with flushStalled := 0 }
  else if t.eomFlushing && t.outputLeft then
    let t := { t with flushStalled := t.flushStalled + 1 }
    if eomMaxStalledCallbacks ≤ t.flushStalled then t.giveUp else t
  else t

/-- `pending_out` is empty again. -/
def clearPending : State E := { s with pendingOut := [], pendingPos := 0 }

/-- The end of message is hidden, and the flush phase begins. -/
def hideEom : State E := { s with eom := false, eomFlushing := true }

/-- The output of an earlier callback is drained. -/
def drainEarlier : State E :=
  if s.outputLeft then
    if s.flushPending.outputLeft then s.flushPending else s.flushPending.clearPending
  else s

/-- `msg.body()`: nothing once the channel is closed without data. -/
def body : Option (List UInt8) :=
  if s.input.isEmpty && s.closed then none else some s.input

/-- A chunk is written to the encoder, and its output staged. -/
def writeChunk (encoder : E) (chunk : List UInt8) : State E :=
  if chunk.isEmpty then s
  else
    { s with
      writer := some (enc.write encoder chunk).1
      originalBytes := s.originalBytes + chunk.length
      pendingOut := s.pendingOut ++ (enc.write encoder chunk).2
      written := s.written ++ [chunk] }

/-- The chunk is removed from the channel, and what was produced is flushed. -/
def removeAndFlush : State E := flushPending { s with input := [] }

/-- The encoder is finished, and its tail is flushed. -/
def finishEncoder (encoder : E) : State E :=
  let data := enc.finish encoder
  flushPending { s with
    writer := none
    bytesSaved := s.bytesSaved + (s.originalBytes - data.length)
    pendingOut := data
    pendingPos := 0 }

/-- The callback once the input is consumed. -/
def atEnd (eom : Bool) : State E × Option Nat :=
  match eom, s.writer with
  | true, some encoder =>
      let t := s.finishEncoder enc encoder
      if t.outputLeft then (t.hideEom, some 0) else ({ t with pendingOut := [] }, none)
  | _, _ => (s, none)

/-- `http_payload`, with how many bytes of the input are forwarded: all, or so many. -/
def httpPayload : State E × Option Nat :=
  if s.eomFlushing then
    let t := s.flushPending
    if t.outputLeft then (t, some 0)
    else ({ t.clearPending with eomFlushing := false, eom := true }, none)
  else
    match s.writer with
    | none => (s, none)
    | some encoder =>
        let t := s.drainEarlier
        if t.outputLeft then
          -- no input is left, and the flag alone would end the response
          (if s.eom && t.input.isEmpty then t.hideEom else t, some 0)
        else
          match t.body with
          | some chunk =>
              let t := (t.writeChunk enc encoder chunk).removeAndFlush
              if t.outputLeft then (if s.eom then t.hideEom else t, some 0)
              else t.clearPending.atEnd enc s.eom
          | none => t.atEnd enc s.eom

/-- `http_end`: whether the analyser has to wait. -/
def httpEnd : Bool := s.eomFlushing && s.outputLeft

end State

/-! ### The filter under HAProxy -/

/-- What HAProxy forwards of the input after a callback: everything, or so many bytes. -/
def forward {E : Type*} (s : State E) : Option Nat → State E
  | none => { s with emitted := s.emitted ++ s.input, input := [] }
  | some n => { s with emitted := s.emitted ++ s.input.take n, input := s.input.drop n }

/-- The message ends once its flag is set, no input is held and the filter does not wait. -/
def release {E : Type*} (s : State E) : State E :=
  { s with ended := s.ended || s.eom && s.input.isEmpty && !s.httpEnd }

/-- What follows from a callback. -/
def deliver {E : Type*} (result : State E × Option Nat) : State E :=
  release (forward result.1 result.2)

/-- The server sends, or HAProxy calls the filter. -/
inductive Act where
  | receive (bytes : List UInt8) (last : Bool)
  | payload (sends : List Nat) (closed : Bool)

/-- A callback of the filter, with the channel's replies to its sends. -/
def State.called {E : Type*} (s : State E) (sends : List Nat) (closed : Bool) : State E :=
  { s with sends, closed }

variable {E : Type*} (enc : Encoder E)

/-- One event.  Nothing follows the last byte of the server, and no callback the end of the
message. -/
def step (s : State E) : Act → Option (State E)
  | .receive bytes last =>
      if s.last then none
      else
        some { s with
          input := s.input ++ bytes, received := s.received ++ bytes, last := last, eom := last }
  | .payload sends closed =>
      if s.ended then none else some (deliver ((s.called sends closed).httpPayload enc))

/-- The encoder was built with the response headers. -/
def start : State E where
  writer := some enc.start
  originalBytes := 0
  pendingOut := []
  pendingPos := 0
  eomFlushing := false
  flushChunk := eomSendChunk
  flushStalled := 0
  bytesSaved := 0
  input := []
  eom := false
  closed := false
  sends := []
  emitted := []
  received := []
  last := false
  written := []
  ended := false
  gaveUp := false

/-! ### Sends -/

section Sends

variable {s t u : State E}

/-- Some of what was pending was sent, and nothing else was touched. -/
def Sent (s t : State E) : Prop :=
  ∃ (n : Nat) (sends : List Nat) (chunk stalled : Nat), n ≤ s.pending.length ∧
    t = { s with
      sends
      emitted := s.emitted ++ s.pending.take n
      pendingPos := s.pendingPos + n
      flushChunk := chunk
      flushStalled := stalled }

theorem Sent.refl (s : State E) : Sent s s :=
  ⟨0, s.sends, s.flushChunk, s.flushStalled, Nat.zero_le _, by
    rw [List.take_zero, List.append_nil, Nat.add_zero]⟩

theorem Sent.trans (h : Sent s t) (h' : Sent t u) : Sent s u := by
  obtain ⟨n, sends, chunk, stalled, hn, rfl⟩ := h
  obtain ⟨m, sends', chunk', stalled', hm, rfl⟩ := h'
  have hpending : (s.pendingOut.drop (s.pendingPos + n)).take m = (s.pending.drop n).take m := by
    rw [State.pending, List.drop_drop]
  refine ⟨n + m, sends', chunk', stalled', ?_, ?_⟩
  · simp only [State.pending, List.length_drop] at hn hm ⊢
    omega
  · simp only [State.pending, Nat.add_assoc, List.append_assoc, State.mk.injEq, and_true,
      true_and]
    rw [List.take_add, List.drop_drop]

theorem outputLeft_iff : s.outputLeft = true ↔ s.pending ≠ [] := by
  rw [State.outputLeft, decide_eq_true_iff, State.pending, ne_eq, List.drop_eq_nil_iff,
    Nat.not_le]

theorem outputLeft_eq_false : s.outputLeft = false ↔ s.pending = [] := by
  rw [← not_iff_not, Bool.not_eq_false, outputLeft_iff]

/-- One send of some of what is pending. -/
theorem send_sent (s : State E) (n chunk : Nat) :
    Sent s { (s.send (s.pending.take n)).2 with
      pendingPos := s.pendingPos + (s.send (s.pending.take n)).1, flushChunk := chunk } := by
  refine ⟨(s.send (s.pending.take n)).1, s.sends.tail, chunk, s.flushStalled, ?_, ?_⟩
  · simp only [State.send, List.length_take]
    omega
  · have hle : (s.send (s.pending.take n)).1 ≤ n := by
      simp only [State.send, List.length_take]
      omega
    have htake : (s.pending.take n).take (s.send (s.pending.take n)).1 =
        s.pending.take (s.send (s.pending.take n)).1 := by
      rw [List.take_take, Nat.min_eq_left hle]
    rw [← htake]
    rfl

/-- The send loop sends what is pending, as far as the channel takes it. -/
theorem sendLoop_sent (s : State E) (attempts : Nat) : Sent s (s.sendLoop attempts) := by
  induction attempts generalizing s with
  | zero => exact Sent.refl s
  | succ attempts ih =>
      rw [State.sendLoop]
      split
      · have hone := send_sent s (min (s.pendingOut.length - s.pendingPos) s.flushChunk)
        dsimp only
        split
        · exact (hone eomSendChunk).trans (ih _)
        · next hsent =>
            simp only [Nat.eq_zero_of_not_pos hsent, Nat.add_zero] at hone
            split
            · exact (hone _).trans (ih _)
            · exact hone s.flushChunk
      · exact Sent.refl s

/-- A flush sends some of what is pending; in the flush phase it may give up. -/
theorem flushPending_sent (s : State E) :
    ∃ t, Sent s t ∧ (s.flushPending = t ∨ s.eomFlushing = true ∧ s.flushPending = t.giveUp) := by
  have hloop := sendLoop_sent s eomMaxSendAttempts
  have hstalled : ∀ stalled, Sent s { s.sendLoop eomMaxSendAttempts with
      flushStalled := stalled } := fun stalled => by
    obtain ⟨n, sends, chunk, stalled', hn, heq⟩ := hloop
    exact ⟨n, sends, chunk, stalled, hn, by rw [heq]⟩
  rw [State.flushPending]
  split
  · exact ⟨_, hstalled 0, .inl rfl⟩
  · split
    · next hflushing =>
        refine ⟨_, hstalled ((s.sendLoop eomMaxSendAttempts).flushStalled + 1), ?_⟩
        dsimp only
        split
        · refine .inr ⟨?_, rfl⟩
          obtain ⟨n, sends, chunk, stalled, -, heq⟩ := hloop
          rw [heq, Bool.and_eq_true] at hflushing
          exact hflushing.1
        · exact .inl rfl
    · exact ⟨_, hloop, .inl rfl⟩

theorem flushPending_active (h : s.eomFlushing = false) : Sent s s.flushPending := by
  obtain ⟨t, ht, heq | ⟨hflushing, -⟩⟩ := flushPending_sent s
  · exact heq ▸ ht
  · exact absurd (h.symm.trans hflushing) Bool.false_ne_true

end Sends

/-! ### What the encoder produced -/

section Core

variable {enc} {s t : State E} {e : E}

variable (enc) in
/-- The output of the encoder so far, with the final block once it is finished. -/
def produced (s : State E) : List UInt8 :=
  match s.writer with
  | some _ => (enc.feed s.written).2
  | none => enc.complete s.written

variable (enc) in
/-- Everything produced was emitted or is pending, and everything received was written or is
held. -/
structure Core (s : State E) : Prop where
  encoder : ∀ e ∈ s.writer, e = (enc.feed s.written).1
  staged : s.emitted ++ s.pending = produced enc s
  consumed : s.written.flatten ++ s.input = s.received
  bound : s.writer ≠ none → s.pendingPos ≤ s.pendingOut.length

/-- What the parts of a callback leave as it is. -/
structure Frame (s t : State E) : Prop where
  eom : t.eom = s.eom
  eomFlushing : t.eomFlushing = s.eomFlushing
  received : t.received = s.received
  last : t.last = s.last
  ended : t.ended = s.ended

theorem Frame.refl (s : State E) : Frame s s := ⟨rfl, rfl, rfl, rfl, rfl⟩

theorem Frame.trans {u : State E} (h : Frame s t) (h' : Frame t u) : Frame s u where
  eom := h'.eom.trans h.eom
  eomFlushing := h'.eomFlushing.trans h.eomFlushing
  received := h'.received.trans h.received
  last := h'.last.trans h.last
  ended := h'.ended.trans h.ended

theorem Sent.frame (h : Sent s t) : Frame s t := by
  obtain ⟨n, sends, chunk, stalled, -, rfl⟩ := h
  exact ⟨rfl, rfl, rfl, rfl, rfl⟩

theorem Sent.kept (h : Sent s t) : t.writer = s.writer ∧ t.input = s.input := by
  obtain ⟨n, sends, chunk, stalled, -, rfl⟩ := h
  exact ⟨rfl, rfl⟩

/-- Sending moves bytes from the pending to the emitted ones. -/
theorem Sent.core (h : Sent s t) (hs : Core enc s) : Core enc t := by
  obtain ⟨n, sends, chunk, stalled, hn, rfl⟩ := h
  refine ⟨hs.encoder, ?_, hs.consumed, fun hwriter => ?_⟩
  · show s.emitted ++ s.pending.take n ++ s.pendingOut.drop (s.pendingPos + n) = produced enc s
    rw [← List.drop_drop, List.append_assoc, ← State.pending, List.take_append_drop]
    exact hs.staged
  · have hbound := hs.bound hwriter
    simp only [State.pending, List.length_drop] at hn
    show s.pendingPos + n ≤ s.pendingOut.length
    omega

theorem clearPending_core (hs : Core enc s) (hleft : s.outputLeft = false) :
    Core enc s.clearPending := by
  refine ⟨hs.encoder, ?_, hs.consumed, fun _ => Nat.le_refl 0⟩
  rw [outputLeft_eq_false] at hleft
  have hstaged := hs.staged
  rw [hleft] at hstaged
  exact hstaged

theorem called_core (hs : Core enc s) (sends : List Nat) (closed : Bool) :
    Core enc (s.called sends closed) :=
  ⟨hs.encoder, hs.staged, hs.consumed, hs.bound⟩

theorem clearPending_frame (h : Frame s t) : Frame s t.clearPending :=
  ⟨h.eom, h.eomFlushing, h.received, h.last, h.ended⟩

theorem body_some {chunk : List UInt8} (h : s.body = some chunk) : chunk = s.input := by
  rw [State.body] at h
  split at h
  · cases h
  · exact (Option.some.inj h).symm

theorem body_none (h : s.body = none) : s.input = [] := by
  rw [State.body] at h
  split at h
  · next hempty => exact List.isEmpty_iff.mp (Bool.and_eq_true_iff.mp hempty).1
  · cases h

/-- The output of an earlier callback is drained, or some of it is left. -/
theorem drainEarlier_core (hs : Core enc s) (hflushing : s.eomFlushing = false) :
    Core enc s.drainEarlier ∧ Frame s s.drainEarlier ∧ s.drainEarlier.writer = s.writer ∧
      s.drainEarlier.input = s.input := by
  have hsent := flushPending_active hflushing
  rw [State.drainEarlier]
  split
  · split
    · exact ⟨hsent.core hs, hsent.frame, hsent.kept⟩
    · next hleft =>
        exact ⟨clearPending_core (hsent.core hs) (Bool.eq_false_iff.mpr hleft),
          clearPending_frame hsent.frame, hsent.kept⟩
  · exact ⟨hs, Frame.refl s, rfl, rfl⟩

/-- The held input is written to the encoder and removed. -/
theorem writeChunk_core (hs : Core enc s) (hwriter : s.writer = some e) :
    Core enc { s.writeChunk enc e s.input with input := [] } ∧
      (s.writeChunk enc e s.input).writer ≠ none := by
  obtain rfl := hs.encoder e hwriter
  have hproduced : s.emitted ++ s.pending = (enc.feed s.written).2 := by
    rw [hs.staged, produced, hwriter]
  rw [State.writeChunk]
  split
  · next hempty =>
      rw [List.isEmpty_iff] at hempty
      have hconsumed := hs.consumed
      rw [hempty] at hconsumed
      exact ⟨⟨hs.encoder, hs.staged, hconsumed, hs.bound⟩, hwriter ▸ Option.some_ne_none _⟩
  · have hbound : s.pendingPos ≤ s.pendingOut.length :=
      hs.bound (hwriter ▸ Option.some_ne_none _)
    refine ⟨⟨?_, ?_, ?_, fun _ => ?_⟩, Option.some_ne_none _⟩
    · intro e' he'
      rw [← Option.some.inj he', Encoder.feed_concat]
    · show s.emitted ++ (s.pendingOut ++ _).drop s.pendingPos = (enc.feed (s.written ++ [s.input])).2
      rw [Encoder.feed_concat, List.drop_append_of_le_length hbound, ← List.append_assoc,
        ← State.pending, hproduced]
    · show (s.written ++ [s.input]).flatten ++ [] = s.received
      rw [List.flatten_append, List.flatten_singleton, List.append_nil]
      exact hs.consumed
    · show s.pendingPos ≤ (s.pendingOut ++ _).length
      rw [List.length_append]
      exact Nat.le_add_right_of_le hbound

/-- What the callback has staged when it looks at the end of message: output of an earlier
callback that is left, or the output for the input. -/
def State.staged (enc : Encoder E) (s : State E) (encoder : E) : State E :=
  let t := s.drainEarlier
  if t.outputLeft then t
  else
    match t.body with
    | some chunk =>
        let t := (t.writeChunk enc encoder chunk).removeAndFlush
        if t.outputLeft then t else t.clearPending
    | none => t

theorem writeChunk_frame (s : State E) (e : E) (chunk : List UInt8) :
    Frame s { s.writeChunk enc e chunk with input := [] } := by
  rw [State.writeChunk]
  split <;> exact ⟨rfl, rfl, rfl, rfl, rfl⟩

/-- The held input is written and removed, and the output sent as far as the channel takes it. -/
theorem removeAndFlush_core (hs : Core enc s) (hflushing : s.eomFlushing = false)
    (hwriter : s.writer = some e) (ht : t = (s.writeChunk enc e s.input).removeAndFlush) :
    Core enc t ∧ Frame s t ∧ t.writer ≠ none ∧ t.input = [] := by
  obtain ⟨hcore, hsome⟩ := writeChunk_core hs hwriter
  have hframe : Frame s { s.writeChunk enc e s.input with input := [] } :=
    writeChunk_frame s e s.input
  have hsent : Sent { s.writeChunk enc e s.input with input := [] } t :=
    ht ▸ flushPending_active (hframe.eomFlushing.trans hflushing)
  refine ⟨hsent.core hcore, hframe.trans hsent.frame, ?_, hsent.kept.2⟩
  rw [hsent.kept.1]
  exact hsome

/-- The input is consumed unless output of an earlier callback is left. -/
theorem staged_core (hs : Core enc s) (hflushing : s.eomFlushing = false)
    (hwriter : s.writer = some e) :
    Core enc (s.staged enc e) ∧ Frame s (s.staged enc e) ∧ (s.staged enc e).writer ≠ none ∧
      ((s.staged enc e).outputLeft = false → (s.staged enc e).input = []) := by
  obtain ⟨hcore, hframe, hsame, hinput⟩ := drainEarlier_core hs hflushing
  rw [hwriter] at hsame
  have hsome : s.drainEarlier.writer ≠ none := hsame ▸ Option.some_ne_none _
  dsimp only [State.staged]
  split
  · next hleft =>
      exact ⟨hcore, hframe, hsome, fun h => absurd (h.symm.trans hleft) Bool.false_ne_true⟩
  · cases hbody : s.drainEarlier.body with
    | none => exact ⟨hcore, hframe, hsome, fun _ => body_none hbody⟩
    | some chunk =>
        obtain rfl := body_some hbody
        obtain ⟨hcore', hframe', hsome', hempty⟩ :=
          removeAndFlush_core hcore (hframe.eomFlushing.trans hflushing) hsame rfl
        dsimp only
        split
        · exact ⟨hcore', hframe.trans hframe', hsome', fun _ => hempty⟩
        · next hleft =>
            exact ⟨clearPending_core hcore' (Bool.eq_false_iff.mpr hleft),
              clearPending_frame (hframe.trans hframe'), hsome', fun _ => hempty⟩

/-- Outside the flush phase a callback holds what is staged, or looks at the end of message. -/
theorem httpPayload_active (hflushing : s.eomFlushing = false) (hwriter : s.writer = some e)
    (hs : Core enc s) :
    s.httpPayload enc =
      if (s.staged enc e).outputLeft then
        (if s.eom && (s.staged enc e).input.isEmpty then (s.staged enc e).hideEom
          else s.staged enc e, some 0)
      else (s.staged enc e).atEnd enc s.eom := by
  obtain ⟨hcore, hframe, hsame, -⟩ := drainEarlier_core hs hflushing
  rw [State.httpPayload, hflushing, hwriter]
  dsimp only [State.staged]
  rw [if_neg Bool.false_ne_true]
  split
  · rfl
  · next hleft =>
      cases hbody : s.drainEarlier.body with
      | none => rw [if_neg hleft]
      | some chunk =>
          obtain rfl := body_some hbody
          obtain ⟨-, -, -, hempty⟩ := removeAndFlush_core hcore
            (hframe.eomFlushing.trans hflushing) (hsame.trans hwriter) rfl
          dsimp only
          split
          · rw [hempty, List.isEmpty_nil, Bool.and_true]
          · exact (if_neg Bool.false_ne_true).symm

/-- Finishing the encoder produces its final block. -/
theorem finishEncoder_core (hs : Core enc s) (hflushing : s.eomFlushing = false)
    (hleft : s.outputLeft = false) (hwriter : s.writer = some e) :
    Core enc (s.finishEncoder enc e) ∧ Frame s (s.finishEncoder enc e) ∧
      (s.finishEncoder enc e).writer = none ∧ (s.finishEncoder enc e).input = s.input := by
  have hsent : Sent { s with
      writer := none
      bytesSaved := s.bytesSaved + (s.originalBytes - (enc.finish e).length)
      pendingOut := enc.finish e
      pendingPos := 0 } (s.finishEncoder enc e) := flushPending_active hflushing
  refine ⟨hsent.core ⟨nofun, ?_, hs.consumed, fun h => absurd rfl h⟩, ?_, hsent.kept⟩
  · obtain rfl := hs.encoder e hwriter
    have hemitted : s.emitted = (enc.feed s.written).2 := by
      have hstaged := hs.staged
      rwa [outputLeft_eq_false.mp hleft, List.append_nil, produced, hwriter] at hstaged
    show s.emitted ++ (enc.finish _).drop 0 = enc.complete s.written
    rw [hemitted, List.drop_zero, Encoder.complete]
  · obtain ⟨heom, hflush, hreceived, hlast, hended⟩ := hsent.frame
    exact ⟨heom, hflush, hreceived, hlast, hended⟩

end Core

/-! ### Runs of the filter -/

section Runs

variable {enc} {s t s' : State E}

variable (enc) in
/-- Where the message is: still arriving, hidden from the client, or over. -/
structure Inv (s : State E) : Prop where
  core : Core enc s
  flushing : s.eomFlushing = true →
    s.last = true ∧ s.eom = false ∧ s.input = [] ∧ s.ended = false
  running : s.eomFlushing = false → s.ended = false → s.writer ≠ none ∧ s.eom = s.last
  finished : s.ended = true → s.last = true ∧ s.input = [] ∧ s.pending = [] ∧ s.eomFlushing = false

/-- The end of message was hidden, or let through, without the final block. -/
def Slipped (s : State E) : Prop := s.writer ≠ none ∧ (s.eomFlushing = true ∨ s.ended = true)

variable (enc) in
/-- **No output is held back at the end of the message**: a callback outside the flush phase that
sees the end-of-message flag, and has no input left, has sent everything the encoder put out. -/
def Drained (s : State E) : Act → Prop
  | .receive _ _ => True
  | .payload sends closed => s.eomFlushing = false → s.eom = true → ∀ encoder ∈ s.writer,
      ((s.called sends closed).staged enc encoder).input = [] →
        ((s.called sends closed).staged enc encoder).outputLeft = false

theorem deliver_held (s : State E) : deliver (s, some 0) = release s := by
  rw [deliver, forward, List.take_zero, List.append_nil, List.drop_zero]

theorem deliver_consumed (h : s.input = []) : deliver (s, none) = release s := by
  rw [deliver, forward, h, List.append_nil, ← h]

theorem release_open (h : t.eom = true → t.input ≠ []) : release t = t := by
  have hopen : (t.eom && t.input.isEmpty && !t.httpEnd) = false := by
    cases heom : t.eom with
    | false => rfl
    | true => rw [List.isEmpty_eq_false_iff.mpr (h heom), Bool.and_false, Bool.false_and]
  rw [release, hopen, Bool.or_false]

theorem release_over (heom : t.eom = true) (hinput : t.input = [])
    (hflushing : t.eomFlushing = false) : release t = { t with ended := true } := by
  rw [release, State.httpEnd, heom, hinput, hflushing, List.isEmpty_nil, Bool.false_and,
    Bool.and_self, Bool.not_false, Bool.and_self, Bool.or_true]

theorem inv_hidden (hcore : Core enc t) (hlast : t.last = true) (heom : t.eom = false)
    (hflushing : t.eomFlushing = true) (hinput : t.input = []) (hended : t.ended = false) :
    Inv enc (release t) := by
  rw [release_open fun h => absurd (heom.symm.trans h) Bool.false_ne_true]
  exact ⟨hcore, fun _ => ⟨hlast, heom, hinput, hended⟩,
    fun h => absurd (h.symm.trans hflushing) Bool.false_ne_true,
    fun h => absurd (hended.symm.trans h) Bool.false_ne_true⟩

theorem inv_over (hcore : Core enc t) (hlast : t.last = true) (heom : t.eom = true)
    (hflushing : t.eomFlushing = false) (hinput : t.input = []) (hpending : t.pending = []) :
    Inv enc (release t) := by
  rw [release_over heom hinput hflushing]
  exact ⟨⟨hcore.encoder, hcore.staged, hcore.consumed, hcore.bound⟩,
    fun h => absurd (hflushing.symm.trans h) Bool.false_ne_true,
    fun _ h => absurd h.symm Bool.false_ne_true, fun _ => ⟨hlast, hinput, hpending, hflushing⟩⟩

theorem inv_running (hcore : Core enc t) (hwriter : t.writer ≠ none) (heom : t.eom = t.last)
    (hflushing : t.eomFlushing = false) (hended : t.ended = false)
    (hopen : t.eom = true → t.input ≠ []) : Inv enc (release t) := by
  rw [release_open hopen]
  exact ⟨hcore, fun h => absurd (hflushing.symm.trans h) Bool.false_ne_true,
    fun _ _ => ⟨hwriter, heom⟩, fun h => absurd (hended.symm.trans h) Bool.false_ne_true⟩

/-- In the flush phase a callback goes on sending, ends the message, or gives up. -/
theorem payload_flushing (h : Inv enc s) (hflushing : s.eomFlushing = true)
    (hs' : s' = deliver (s.httpPayload enc)) :
    (s'.gaveUp = true ∧ s'.ended = true ∨ Inv enc s') ∧ s'.writer = s.writer ∧
      (s'.eomFlushing = true ∨ s'.ended = true) := by
  obtain ⟨hlast, heom, hinput, hended⟩ := h.flushing hflushing
  obtain ⟨t, hsent, hflush⟩ := flushPending_sent s
  obtain ⟨hwriter, hinput'⟩ := hsent.kept
  have hframe := hsent.frame
  have hempty : t.input = [] := hinput'.trans hinput
  rw [State.httpPayload, if_pos hflushing] at hs'
  dsimp only at hs'
  rcases hflush with hflush | ⟨-, hflush⟩
  · rw [hflush] at hs'
    cases hleft : t.outputLeft with
    | true =>
        rw [hleft, if_pos rfl, deliver_held] at hs'
        subst hs'
        exact ⟨.inr (inv_hidden (hsent.core h.core) (hframe.last.trans hlast)
          (hframe.eom.trans heom) (hframe.eomFlushing.trans hflushing) hempty
          (hframe.ended.trans hended)), hwriter, .inl (hframe.eomFlushing.trans hflushing)⟩
    | false =>
        rw [hleft, if_neg Bool.false_ne_true, deliver_consumed (by exact hempty)] at hs'
        subst hs'
        have hcore := clearPending_core (hsent.core h.core) hleft
        refine ⟨.inr (inv_over ⟨hcore.encoder, hcore.staged, hcore.consumed, hcore.bound⟩
          (hframe.last.trans hlast) rfl rfl hempty rfl), hwriter, .inr ?_⟩
        rw [release_over rfl (by exact hempty) rfl]
  · rw [hflush, if_neg (by exact Bool.false_ne_true), deliver_consumed (by exact hempty),
      release_over rfl (by exact hempty) rfl] at hs'
    subst hs'
    exact ⟨.inl ⟨rfl, rfl⟩, hwriter, .inr rfl⟩

theorem atEnd_open (s : State E) : s.atEnd enc false = (s, none) := rfl

theorem atEnd_finish {e : E} (h : s.writer = some e) :
    s.atEnd enc true =
      if (s.finishEncoder enc e).outputLeft then ((s.finishEncoder enc e).hideEom, some 0)
      else ({ s.finishEncoder enc e with pendingOut := [] }, none) := by
  unfold State.atEnd
  rw [h]

/-- Once the input is consumed and its output sent, the encoder is finished with the message. -/
theorem atEnd_inv (hcore : Core enc t) (hwriter : t.writer ≠ none) (hlast : t.eom = t.last)
    (hflushing : t.eomFlushing = false) (hended : t.ended = false) (hinput : t.input = [])
    (hleft : t.outputLeft = false) (hs' : s' = deliver (t.atEnd enc t.eom)) :
    Inv enc s' ∧ ¬ Slipped s' := by
  obtain ⟨e, he⟩ := Option.ne_none_iff_exists'.mp hwriter
  cases heom : t.eom with
  | false =>
      have hopen : t.eom = true → t.input ≠ [] :=
        fun h => absurd (heom.symm.trans h) Bool.false_ne_true
      rw [heom, atEnd_open, deliver_consumed hinput] at hs'
      refine ⟨hs' ▸ inv_running hcore hwriter hlast hflushing hended hopen, ?_⟩
      rw [release_open hopen] at hs'
      rintro ⟨-, hslip | hslip⟩
      · exact absurd (hflushing.symm.trans (hs' ▸ hslip)) Bool.false_ne_true
      · exact absurd (hended.symm.trans (hs' ▸ hslip)) Bool.false_ne_true
  | true =>
      obtain ⟨hcore', hframe, hnone, hinput'⟩ := finishEncoder_core hcore hflushing hleft he
      have hlast' : (t.finishEncoder enc e).last = true :=
        hframe.last.trans (hlast.symm.trans heom)
      have hempty : (t.finishEncoder enc e).input = [] := hinput'.trans hinput
      rw [heom, atEnd_finish he] at hs'
      cases hleft' : (t.finishEncoder enc e).outputLeft with
      | true =>
          rw [hleft', if_pos rfl, deliver_held] at hs'
          subst hs'
          exact ⟨inv_hidden ⟨hcore'.encoder, hcore'.staged, hcore'.consumed, hcore'.bound⟩ hlast'
            rfl rfl hempty (hframe.ended.trans hended), fun h => h.1 hnone⟩
      | false =>
          rw [hleft', if_neg Bool.false_ne_true, deliver_consumed (by exact hempty)] at hs'
          subst hs'
          have hstaged := hcore'.staged
          rw [outputLeft_eq_false.mp hleft', List.append_nil] at hstaged
          refine ⟨inv_over ⟨hcore'.encoder, ?_, hcore'.consumed, fun h => absurd hnone h⟩ hlast'
            (hframe.eom.trans heom) (hframe.eomFlushing.trans hflushing) hempty List.drop_nil,
            fun h => h.1 hnone⟩
          show (t.finishEncoder enc e).emitted ++ [].drop _ = _
          rw [List.drop_nil, List.append_nil]
          exact hstaged

/-- Outside the flush phase a callback sends, hides the end of message with or without the final
block, or ends the message with it. -/
theorem payload_active {e : E} (h : Inv enc s) (hended : s.ended = false)
    (hflushing : s.eomFlushing = false) (hwriter : s.writer = some e)
    (hs' : s' = deliver (s.httpPayload enc)) :
    Inv enc s' ∧ (Slipped s' ↔ s.eom = true ∧ (s.staged enc e).input = [] ∧
      (s.staged enc e).outputLeft = true) := by
  obtain ⟨hsome, heom⟩ := h.running hflushing hended
  obtain ⟨hcore, hframe, hsome', hempty⟩ := staged_core h.core hflushing hwriter
  have hflushing' := hframe.eomFlushing.trans hflushing
  have hended' := hframe.ended.trans hended
  have hlast' : (s.staged enc e).eom = (s.staged enc e).last :=
    hframe.eom.trans (heom.trans hframe.last.symm)
  rw [httpPayload_active hflushing hwriter h.core] at hs'
  cases hleft : (s.staged enc e).outputLeft with
  | true =>
      rw [hleft, if_pos rfl, deliver_held] at hs'
      by_cases hhide : s.eom = true ∧ (s.staged enc e).input = []
      · rw [if_pos (by rw [hhide.1, hhide.2]; rfl)] at hs'
        subst hs'
        refine ⟨inv_hidden ⟨hcore.encoder, hcore.staged, hcore.consumed, hcore.bound⟩
          (hframe.last.trans (heom.symm.trans hhide.1)) rfl rfl hhide.2 hended', ?_⟩
        exact iff_of_true ⟨hsome', .inl rfl⟩ ⟨hhide.1, hhide.2, rfl⟩
      · have hopen : (s.staged enc e).eom = true → (s.staged enc e).input ≠ [] :=
          fun h hinput => hhide ⟨hframe.eom.symm.trans h, hinput⟩
        rw [if_neg (fun h => hhide (by simpa using h))] at hs'
        refine ⟨hs' ▸ inv_running hcore hsome' hlast' hflushing' hended' hopen, ?_⟩
        rw [release_open hopen] at hs'
        refine iff_of_false ?_ fun h => hhide ⟨h.1, h.2.1⟩
        rintro ⟨-, hslip | hslip⟩
        · exact absurd (hflushing'.symm.trans (hs' ▸ hslip)) Bool.false_ne_true
        · exact absurd (hended'.symm.trans (hs' ▸ hslip)) Bool.false_ne_true
  | false =>
      rw [hleft, if_neg Bool.false_ne_true, ← hframe.eom] at hs'
      obtain ⟨hinv, hslip⟩ := atEnd_inv hcore hsome' hlast' hflushing' hended' (hempty hleft) hleft hs'
      exact ⟨hinv, iff_of_false hslip fun h => Bool.false_ne_true h.2.2⟩

/-- A state that is given up, or keeps the invariant. -/
def Sound (enc : Encoder E) (s : State E) : Prop :=
  s.gaveUp = true ∧ s.ended = true ∨ Inv enc s

theorem called_inv (h : Inv enc s) (sends : List Nat) (closed : Bool) :
    Inv enc (s.called sends closed) :=
  ⟨called_core h.core sends closed, h.flushing, h.running, h.finished⟩

/-- An event keeps the invariant, and slips exactly when a callback holds output back. -/
theorem step_sound {a : Act} (h : Sound enc s) (hstep : step enc s a = some s') :
    Sound enc s' ∧ (¬ Slipped s → (Drained enc s a ↔ ¬ Slipped s')) := by
  cases a with
  | receive bytes last =>
      rw [step] at hstep
      split at hstep
      · cases hstep
      next hlast =>
      obtain rfl := Option.some.inj hstep
      refine ⟨?_, fun hslip => iff_of_true trivial hslip⟩
      refine h.imp id fun h => ⟨⟨h.core.encoder, h.core.staged, ?_, h.core.bound⟩, ?_, ?_, ?_⟩
      · show s.written.flatten ++ (s.input ++ bytes) = s.received ++ bytes
        rw [← List.append_assoc, h.core.consumed]
      · exact fun hflushing => absurd (h.flushing hflushing).1 hlast
      · exact fun hflushing hended => ⟨(h.running hflushing hended).1, rfl⟩
      · exact fun hended => absurd (h.finished hended).1 hlast
  | payload sends closed =>
      rw [step] at hstep
      split at hstep
      · cases hstep
      next hended =>
      replace hended : s.ended = false := Bool.eq_false_iff.mpr hended
      replace h : Inv enc (s.called sends closed) := by
        rcases h with ⟨-, hover⟩ | h
        · exact absurd (hended.symm.trans hover) Bool.false_ne_true
        · exact called_inv h sends closed
      have hs' := (Option.some.inj hstep).symm
      cases hflushing : s.eomFlushing with
      | true =>
          obtain ⟨hsound, hwriter, -⟩ := payload_flushing h hflushing hs'
          refine ⟨hsound, fun hslip => iff_of_true ?_ ?_⟩
          · exact fun hnot => absurd (hnot.symm.trans hflushing) Bool.false_ne_true
          · exact fun hslip' => hslip ⟨hwriter ▸ hslip'.1, .inl hflushing⟩
      | false =>
          obtain ⟨hsome, -⟩ := h.running hflushing hended
          obtain ⟨e, he⟩ := Option.ne_none_iff_exists'.mp hsome
          obtain ⟨hinv, hslips⟩ := payload_active h hended hflushing he hs'
          refine ⟨.inr hinv, fun _ => ?_⟩
          rw [hslips, not_and, not_and]
          constructor
          · exact fun hdrained heom hinput =>
              Bool.eq_false_iff.mp (hdrained hflushing heom e he hinput)
          · intro hdrained _ heom e' he' hinput
            obtain rfl := Option.some.inj (he.symm.trans he')
            exact Bool.eq_false_iff.mpr (hdrained heom hinput)

theorem start_inv : Inv enc (start enc) where
  core := ⟨fun _ h => (Option.some.inj h).symm, rfl, rfl, fun _ => Nat.le_refl 0⟩
  flushing := nofun
  running := fun _ _ => ⟨Option.some_ne_none _, rfl⟩
  finished := nofun

/-- What slipped stays so. -/
theorem step_slipped {a : Act} (h : Sound enc s) (hslip : Slipped s)
    (hstep : step enc s a = some s') : Slipped s' := by
  cases a with
  | receive bytes last =>
      rw [step] at hstep
      split at hstep
      · cases hstep
      · exact Option.some.inj hstep ▸ hslip
  | payload sends closed =>
      rw [step] at hstep
      split at hstep
      · cases hstep
      next hended =>
      have hflushing : s.eomFlushing = true := hslip.2.resolve_right hended
      have hinv : Inv enc s := h.resolve_left fun h => hended h.2
      obtain ⟨-, hwriter, hhidden⟩ :=
        payload_flushing (called_inv hinv sends closed) hflushing (Option.some.inj hstep).symm
      exact ⟨hwriter ▸ hslip.1, hhidden⟩

/-- A run slips exactly when one of its callbacks holds output back. -/
theorem along_drained_iff {as : List Act} (hrun : run (step enc) (start enc) as = some s) :
    Along (step enc) (Drained enc) (start enc) as ↔ ¬ Slipped s := by
  have hsound : Sound enc (start enc) := .inr start_inv
  have hstart : ¬ Slipped (start enc) := fun h => h.2.elim nofun nofun
  rw [along_iff_throughout (I := fun t => ¬ Slipped t) (J := Sound enc)
    (fun _ _ _ h hstep => (step_sound h hstep).1)
    (fun _ _ _ h hslip hstep => (step_sound h hstep).2 hslip) hsound hstart hrun]
  constructor
  · exact fun h => h as s (List.prefix_refl as) hrun
  · rintro h bs t ⟨cs, rfl⟩ hbs hslip
    obtain ⟨t', ht', hcs⟩ := run_append_iff.mp hrun
    obtain rfl := Option.some.inj (hbs.symm.trans ht')
    have ht : Sound enc t := run_preserves (fun _ _ _ h hstep => (step_sound h hstep).1) hsound hbs
    have hend : Sound enc s ∧ Slipped s := run_preserves (I := fun u => Sound enc u ∧ Slipped u)
      (fun _ _ _ h hstep => ⟨(step_sound h.1 hstep).1, step_slipped h.1 h.2 hstep⟩)
      ⟨ht, hslip⟩ hcs
    exact h hend.2

variable (enc) in
/-- Everything the server sent was compressed, and the output is complete. -/
def Complete (s : State E) : Prop :=
  s.written.flatten = s.received ∧ s.emitted = enc.complete s.written

/-- An ended message without the final block is not complete. -/
theorem complete_iff_not_slipped (hfinish : ∀ e, enc.finish e ≠ []) (h : Inv enc s)
    (hended : s.ended = true) : Complete enc s ↔ ¬ Slipped s := by
  obtain ⟨-, hinput, hpending, -⟩ := h.finished hended
  have hconsumed := h.core.consumed
  have hemitted := h.core.staged
  rw [hinput, List.append_nil] at hconsumed
  rw [hpending, List.append_nil, produced] at hemitted
  cases hwriter : s.writer with
  | none =>
      rw [hwriter] at hemitted
      exact iff_of_true ⟨hconsumed, hemitted⟩ fun hslip => hslip.1 hwriter
  | some e =>
      rw [hwriter] at hemitted
      refine iff_of_false ?_ fun hslip => hslip ⟨hwriter ▸ Option.some_ne_none e, .inr hended⟩
      rintro ⟨-, hcomplete⟩
      rw [hemitted, Encoder.complete, List.self_eq_append_right] at hcomplete
      exact hfinish _ hcomplete

/-- **A message is complete exactly when no output was held back at its end**: the message
ended, and the filter did not give up. -/
theorem complete_iff {as : List Act} (hfinish : ∀ e, enc.finish e ≠ [])
    (hrun : run (step enc) (start enc) as = some s) (hended : s.ended = true)
    (hgave : s.gaveUp = false) :
    Complete enc s ↔ Along (step enc) (Drained enc) (start enc) as := by
  have hsound : Sound enc s :=
    run_preserves (fun _ _ _ h hstep => (step_sound h hstep).1) (.inr start_inv) hrun
  have hinv : Inv enc s := hsound.resolve_left fun h =>
    absurd (hgave.symm.trans h.1) Bool.false_ne_true
  rw [along_drained_iff hrun, complete_iff_not_slipped hfinish hinv hended]

end Runs

/-! ### One byte -/

/-- The `br` encoder of quality 0, on chunks that do not compress: the stream header with the
first chunk, each chunk as an uncompressed meta-block, and an empty last one. -/
def stored : Encoder Bool where
  start := false
  write begun chunk :=
    let size := chunk.length - 1
    let head := if begun then size * 8 + 0x80000 else 11 + size * 128 + 0x800000
    (true, [UInt8.ofNat head, UInt8.ofNat (head / 0x100), UInt8.ofNat (head / 0x10000)] ++ chunk)
  finish begun := if begun then [3] else [59]

theorem stored_finish (begun : Bool) : stored.finish begun ≠ [] := by
  cases begun <;> exact List.cons_ne_nil _ _

/-- The channel takes the output of the only byte, and then the final block. -/
def taken : List Act := [.receive [97] true, .payload [4, 1] false]

theorem complete_taken :
    Complete stored ((run (step stored) (start stored) taken).get rfl) ↔
      Along (step stored) (Drained stored) (start stored) taken :=
  complete_iff stored_finish (Option.some_get _).symm rfl rfl

/-- The channel has no room in the callback that sees the end of message, and then it has. -/
def heldBack : List Act := [.receive [97] true, .payload [] false, .payload [4] false]

/-- The final block is not sent. -/
theorem truncated :
    ¬ ∀ s, run (step stored) (start stored) heldBack = some s → s.ended = true →
      s.gaveUp = false → Complete stored s := by
  intro h
  have hcomplete := h _ (Option.some_get (x := run (step stored) (start stored) heldBack) rfl).symm
    rfl rfl
  have hemitted : [11, 0, 128, 97] = [11, 0, 128, 97, (3 : UInt8)] := hcomplete.2
  cases hemitted

end CorexManager.Compression
