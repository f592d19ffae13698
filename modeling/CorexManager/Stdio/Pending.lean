import CorexManager.Gateway.Names
import CorexManager.Logic.Transition
import CorexManager.Rust.Serde

/-!
# Pending requests of a stdio process

One `StdioProcess`: `send_request` enters its request in the map of pending requests under an
id of its own and waits, and the reader takes from the map whatever id a line of the process
carries.

* `step` — the calls of `send_request`, part by part, and the lines of the process.
* `Correct` — a call is completed by the response to its own request, once, under its own id.
* `correct_iff` — this holds throughout exactly those runs in which every line with the id of a
  pending request is a response.
* `asked_back` — a request of the process completes a call.
-/

namespace CorexManager.Stdio

open Data (Json Text Dict.set Dict.lookup Dict.lookup_set_self Dict.lookup_set_other)
open Gateway (setField)
open Transition

/-! ### Messages -/

/-- The id the reader looks up. -/
def idOf (message : Json) : Option Int := Rust.field "id".toList Rust.i64 message

/-- A JSON-RPC response has a result or an error. -/
def isResponse (message : Json) : Bool :=
  (message.get "result".toList).isSome || (message.get "error".toList).isSome

/-- The error of a request that the gateway answers itself. -/
def failure (message : Text) : Json :=
  .obj [("code".toList, .num (.int (-32000))), ("message".toList, .str message)]

/-- `error_body`. -/
def errorBody (message : Text) : Json :=
  .obj [("jsonrpc".toList, .str "2.0".toList), ("error".toList, failure message)]

/-- A request in flight. -/
structure Exchange where
  message : Json
  internalId : Int
  /-- The line that the reader sent to the call, with its number. -/
  received : Option (Nat × Json)

/-- The id the client chose. -/
def Exchange.originalId (x : Exchange) : Option Json := x.message.get "id".toList

/-- The message as the process gets it. -/
def Exchange.request (x : Exchange) : Json :=
  setField "id".toList (.num (.int x.internalId)) x.message

/-- What the client gets when no response comes. -/
def Exchange.timeoutBody (x : Exchange) : Json :=
  .obj [("jsonrpc".toList, .str "2.0".toList), ("id".toList, x.originalId.getD .null),
    ("error".toList, failure "stdio request timeout".toList)]

/-- The response as the client gets it. -/
def Exchange.restore (x : Exchange) (response : Json) : Json :=
  match x.originalId with
  | some id => setField "id".toList id response
  | none => response

/-! ### Calls -/

/-- How far a call of `send_request` is. -/
inductive Phase where
  | absent
  /-- The request is in the map, and not written. -/
  | writing (x : Exchange)
  | waiting (x : Exchange)
  /-- The call returned what the process wrote. -/
  | completed (x : Exchange) (body : Json)
  /-- It returned an error of its own. -/
  | failed (x : Exchange) (body : Json)
  /-- It was given up by its caller. -/
  | dropped (x : Exchange)
  /-- There was no process. -/
  | refused (body : Json)

/-- The request of a call, once it has one. -/
def Phase.exchange : Phase → Option Exchange
  | absent => none
  | writing x => some x
  | waiting x => some x
  | completed x _ => some x
  | failed x _ => some x
  | dropped x => some x
  | refused _ => none

/-- The reader's end of a call's channel; the value is lost once the call is over. -/
def Phase.deliver (index : Nat) (message : Json) : Phase → Phase
  | writing x => writing { x with received := some (index, message) }
  | waiting x => waiting { x with received := some (index, message) }
  | p => p

/-- What a call or the process does. -/
inductive Act where
  /-- The call takes the lock and enters its request. -/
  | send (r : Nat) (message : Json)
  /-- It writes the request, or fails to. -/
  | write (r : Nat) (written : Bool)
  /-- Its channel has a value. -/
  | receive (r : Nat)
  /-- The time is over, or the sender is gone. -/
  | timeout (r : Nat)
  /-- The caller goes away. -/
  | drop (r : Nat)
  /-- The process writes a line: a message, or nothing that parses. -/
  | line (message : Option Json)
  | eof
  | stop

/-- The process. -/
structure State where
  phase : Nat → Phase
  nextId : Int
  pending : Int → Option Nat
  /-- Who has the lock of the process. -/
  holder : Option Nat
  child : Bool
  reading : Bool
  /-- The requests that were written, and the lines that were read. -/
  stdin : List Json
  lines : List (Option Json)

namespace State

variable (s : State)

def goto (r : Nat) (p : Phase) : State := { s with phase := Function.update s.phase r p }

/-- The call returns, and its guard is dropped. -/
def unlock : State := { s with holder := none }

/-- A request leaves the map. -/
def remove (id : Int) : State := { s with pending := Function.update s.pending id none }

/-- The map is cleared. -/
def clear : State := { s with pending := fun _ => none }

/-- A request enters the map under the next id. -/
def enter (r : Nat) (message : Json) : State :=
  { s with
    phase := Function.update s.phase r (.writing ⟨message, s.nextId, none⟩)
    nextId := s.nextId + 1
    pending := Function.update s.pending s.nextId (some r)
    holder := some r }

/-- The request is written. -/
def written (r : Nat) (x : Exchange) : State :=
  { s.goto r (.waiting x) with stdin := s.stdin ++ [x.request] }

/-- The reader looks a line up, and sends it to the call that waits for its id. -/
def read (message : Option Json) : State :=
  let t := { s with lines := s.lines ++ [message] }
  match message with
  | none => t
  | some m =>
      match idOf m with
      | none => t
      | some id =>
          match s.pending id with
          | none => t
          | some r => (t.remove id).goto r ((s.phase r).deliver s.lines.length m)

end State

/-- One act, when it is possible. -/
def step (s : State) : Act → Option State
  | .send r message =>
      match s.phase r, s.holder with
      | .absent, none =>
          some (if s.child then s.enter r message
            else s.goto r (.refused (errorBody "stdio process not available".toList)))
      | _, _ => none
  | .write r ok =>
      match s.phase r with
      | .writing x =>
          some (if ok then s.written r x
            else ((s.remove x.internalId).goto r
              (.failed x (errorBody "Failed to write to stdin".toList))).unlock)
      | _ => none
  | .receive r =>
      match s.phase r with
      | .waiting x =>
          x.received.map fun response => (s.goto r (.completed x (x.restore response.2))).unlock
      | _ => none
  | .timeout r =>
      match s.phase r with
      | .waiting x =>
          if x.received.isSome then none
          else some ((s.remove x.internalId).goto r (.failed x x.timeoutBody)).unlock
      | _ => none
  | .drop r =>
      match s.phase r with
      | .writing x => some (s.goto r (.dropped x)).unlock
      | .waiting x => some (s.goto r (.dropped x)).unlock
      | _ => none
  | .line message => if s.reading then some (s.read message) else none
  | .eof => if s.reading then some { s.clear with reading := false } else none
  | .stop => if s.holder = none then some { s.clear with child := false } else none

/-- The process as it was started. -/
def start : State := ⟨fun _ => .absent, 1, fun _ => none, none, true, true, [], []⟩

/-! ### What a request gets -/

variable {s s' : State} {a : Act}

/-- The requests in flight have ids of their own, and the map leads from an id to its call; what
a call received carries its id. -/
structure Inv (s : State) : Prop where
  ids : ∀ r x, (s.phase r).exchange = some x → x.internalId < s.nextId
  own : ∀ r r' x x', (s.phase r).exchange = some x → (s.phase r').exchange = some x' →
    x.internalId = x'.internalId → r = r'
  owner : ∀ id r, s.pending id = some r →
    ∃ x, (s.phase r).exchange = some x ∧ x.internalId = id ∧ x.received = none
  received : ∀ r x i m, (s.phase r).exchange = some x → x.received = some (i, m) →
    s.lines[i]? = some (some m) ∧ idOf m = some x.internalId
  restored : ∀ r x body, s.phase r = .completed x body →
    ∃ i m, x.received = some (i, m) ∧ body = x.restore m
  written : ∀ m ∈ s.stdin, ∃ r x, (s.phase r).exchange = some x ∧ m = x.request

/-- **A request is completed by its response**: the one line it got is a response, under the id
the request was written with and no other was, and the call returns it under the client's id. -/
structure Correct (s : State) : Prop where
  response : ∀ r x i m, (s.phase r).exchange = some x → x.received = some (i, m) →
    s.lines[i]? = some (some m) ∧ idOf m = some x.internalId ∧ isResponse m = true
  own : ∀ r r' x x', (s.phase r).exchange = some x → (s.phase r').exchange = some x' →
    x.internalId = x'.internalId → r = r'
  once : ∀ r r' x x' i m m', (s.phase r).exchange = some x → (s.phase r').exchange = some x' →
    x.received = some (i, m) → x'.received = some (i, m') → r = r'
  written : ∀ m ∈ s.stdin, ∃ r x, (s.phase r).exchange = some x ∧ m = x.request
  restored : ∀ r x body, s.phase r = .completed x body → ∃ i m, x.received = some (i, m) ∧
    (∀ id ∈ x.originalId, body.get "id".toList = some id) ∧
    ∀ key, key ≠ "id".toList → body.get key = m.get key

/-- **A line with the id of a pending request is a response.** -/
def Answers (s : State) : Act → Prop
  | .line (some m) => ∀ r x, s.phase r = .writing x ∨ s.phase r = .waiting x →
      s.pending x.internalId = some r → idOf m = some x.internalId → isResponse m = true
  | _ => True

/-- A call received nothing but responses. -/
def Answered (s : State) : Prop := ∀ r x i m, (s.phase r).exchange = some x →
  x.received = some (i, m) → isResponse m = true

/-- A response that has an id is an object, and is returned with the client's. -/
theorem restore_get {x : Exchange} {m : Json} {id : Int} (h : idOf m = some id) :
    (∀ original ∈ x.originalId, (x.restore m).get "id".toList = some original) ∧
      ∀ key, key ≠ "id".toList → (x.restore m).get key = m.get key := by
  obtain ⟨v, hv, -⟩ := Option.bind_eq_some_iff.mp h
  cases m with
  | obj fields =>
      rw [Exchange.restore]
      cases horiginal : x.originalId with
      | none => exact ⟨fun _ h => (Option.not_mem_none _ h).elim, fun _ _ => rfl⟩
      | some original =>
          dsimp only
          refine ⟨fun original' horiginal' => ?_, fun key hkey => ?_⟩
          · rw [← Option.some.inj horiginal', setField, Json.get_obj, Dict.lookup_set_self]
          · rw [setField, Json.get_obj, Json.get_obj, Dict.lookup_set_other _ _ hkey]
  | _ => cases hv

/-- **Correctness of the map** is what no line but a response adds to. -/
theorem correct_iff_answered (h : Inv s) : Correct s ↔ Answered s := by
  constructor
  · exact fun hcorrect r x i m hx hreceived => (hcorrect.response r x i m hx hreceived).2.2
  · intro hanswered
    refine ⟨fun r x i m hx hreceived => ?_, h.own, ?_, h.written, ?_⟩
    · obtain ⟨hline, hid⟩ := h.received r x i m hx hreceived
      exact ⟨hline, hid, hanswered r x i m hx hreceived⟩
    · intro r r' x x' i m m' hx hx' hreceived hreceived'
      obtain ⟨hline, hid⟩ := h.received r x i m hx hreceived
      obtain ⟨hline', hid'⟩ := h.received r' x' i m' hx' hreceived'
      obtain rfl := Option.some.inj (Option.some.inj (hline.symm.trans hline'))
      exact h.own r r' x x' hx hx' (Option.some.inj (hid.symm.trans hid'))
    · intro r x body hbody
      obtain ⟨i, m, hreceived, rfl⟩ := h.restored r x body hbody
      have hx : (s.phase r).exchange = some x := by rw [hbody]; rfl
      exact ⟨i, m, hreceived, restore_get (h.received r x i m hx hreceived).2⟩

/-! ### What an act does -/

/-- Most acts move a call without a change of its request. -/
theorem Inv.silent (h : Inv s) (hexchange : ∀ r, (s'.phase r).exchange = (s.phase r).exchange)
    (hnext : s'.nextId = s.nextId) (hlines : s.lines <+: s'.lines)
    (hpending : ∀ id r, s'.pending id = some r → s.pending id = some r)
    (hwritten : ∀ m ∈ s'.stdin, m ∈ s.stdin ∨ ∃ r x, (s.phase r).exchange = some x ∧ m = x.request)
    (hrestored : ∀ r x body, s'.phase r = .completed x body → s.phase r = .completed x body ∨
      ∃ i m, x.received = some (i, m) ∧ body = x.restore m) : Inv s' where
  ids := fun r x hx => hnext ▸ h.ids r x (hexchange r ▸ hx)
  own := fun r r' x x' hx hx' => h.own r r' x x' (hexchange r ▸ hx) (hexchange r' ▸ hx')
  owner := fun id r hid => by
    rw [hexchange r]
    exact h.owner id r (hpending id r hid)
  received := fun r x i m hx hreceived => by
    obtain ⟨hline, hid⟩ := h.received r x i m (hexchange r ▸ hx) hreceived
    obtain ⟨rest, hrest⟩ := hlines
    obtain ⟨hi, -⟩ := List.getElem?_eq_some_iff.mp hline
    exact ⟨by rw [← hrest, List.getElem?_append_left hi, hline], hid⟩
  restored := fun r x body hbody => (hrestored r x body hbody).elim (h.restored r x body) id
  written := fun m hm => by
    rcases hwritten m hm with hm | ⟨r, x, hx, rfl⟩
    · obtain ⟨r, x, hx, rfl⟩ := h.written m hm
      exact ⟨r, x, (hexchange r).trans hx, rfl⟩
    · exact ⟨r, x, (hexchange r).trans hx, rfl⟩

/-- What a call received is unchanged as well. -/
theorem answered_congr (h : ∀ r, (s'.phase r).exchange = (s.phase r).exchange) :
    Answered s' ↔ Answered s :=
  forall_congr' fun r => by rw [h r]

/-- A call that goes on with its request. -/
theorem goto_exchange {r : Nat} {p : Phase} (h : p.exchange = (s.phase r).exchange) (i : Nat) :
    ((s.goto r p).phase i).exchange = (s.phase i).exchange := by
  show (Function.update s.phase r p i).exchange = _
  by_cases hi : i = r
  · rw [hi, Function.update_self, h]
  · rw [Function.update_of_ne hi]

theorem goto_completed {r : Nat} {p : Phase} {i : Nat} {x : Exchange} {body : Json}
    (h : (s.goto r p).phase i = .completed x body) :
    p = .completed x body ∨ s.phase i = .completed x body :=
  (moved_cases h).elim (fun h => .inl h.2) fun h => .inr h.2

/-- A call goes on, or ends without a response. -/
theorem Inv.over {r : Nat} {p : Phase} (h : Inv s) (hp : p.exchange = (s.phase r).exchange)
    (hcompleted : ∀ x body, p ≠ .completed x body) (hphase : s'.phase = (s.goto r p).phase)
    (hnext : s'.nextId = s.nextId) (hlines : s'.lines = s.lines)
    (hwritten : ∀ m ∈ s'.stdin, m ∈ s.stdin ∨ ∃ r x, (s.phase r).exchange = some x ∧ m = x.request)
    (hpending : ∀ id r, s'.pending id = some r → s.pending id = some r) :
    Inv s' ∧ (Answered s' ↔ Answered s) := by
  have hexchange : ∀ i, (s'.phase i).exchange = (s.phase i).exchange := fun i => by
    rw [hphase]
    exact goto_exchange hp i
  refine ⟨h.silent hexchange hnext ⟨[], by rw [List.append_nil, hlines]⟩ hpending hwritten ?_,
    answered_congr hexchange⟩
  intro i x body hbody
  rw [hphase] at hbody
  exact .inl ((goto_completed hbody).resolve_left (hcompleted x body))

theorem remove_pending {id id' : Int} {r : Nat} (h : (s.remove id).pending id' = some r) :
    s.pending id' = some r :=
  (moved_cases h).elim (fun h => nomatch h.2) fun h => h.2

/-- A new request has an id that no other has, and waits for it. -/
theorem Inv.enter {r : Nat} {message : Json} (h : Inv s) (hr : (s.phase r).exchange = none) :
    Inv (s.enter r message) ∧ (Answered (s.enter r message) ↔ Answered s) := by
  have hself : ((s.enter r message).phase r).exchange = some ⟨message, s.nextId, none⟩ := by
    show (Function.update s.phase r _ r).exchange = _
    rw [Function.update_self]
    rfl
  have hother : ∀ i, i ≠ r → ((s.enter r message).phase i).exchange = (s.phase i).exchange := by
    intro i hi
    show (Function.update s.phase r _ i).exchange = _
    rw [Function.update_of_ne hi]
  have hphase : ∀ i x, ((s.enter r message).phase i).exchange = some x →
      i = r ∧ x = ⟨message, s.nextId, none⟩ ∨ i ≠ r ∧ (s.phase i).exchange = some x := by
    intro i x hx
    by_cases hi : i = r
    · rw [hi, hself] at hx
      exact .inl ⟨hi, (Option.some.inj hx).symm⟩
    · exact .inr ⟨hi, hother i hi ▸ hx⟩
  have hkept : ∀ i x, (s.phase i).exchange = some x →
      ((s.enter r message).phase i).exchange = some x := by
    intro i x hx
    have hi : i ≠ r := by
      rintro rfl
      rw [hr] at hx
      cases hx
    rw [hother i hi, hx]
  refine ⟨⟨?_, ?_, ?_, ?_, ?_, ?_⟩, ?_⟩
  · intro i x hx
    show x.internalId < s.nextId + 1
    rcases hphase i x hx with ⟨-, rfl⟩ | ⟨-, hx⟩
    · exact Int.lt_succ s.nextId
    · exact Int.lt_trans (h.ids i x hx) (Int.lt_succ s.nextId)
  · intro i i' x x' hx hx' hid
    rcases hphase i x hx with ⟨rfl, rfl⟩ | ⟨-, hold⟩ <;>
      rcases hphase i' x' hx' with ⟨hi', rfl⟩ | ⟨-, hold'⟩
    · exact hi'.symm
    · exact absurd (h.ids i' x' hold') (hid ▸ Int.lt_irrefl _)
    · exact absurd (h.ids i x hold) (hid ▸ Int.lt_irrefl _)
    · exact h.own i i' x x' hold hold' hid
  · intro id i hid
    rcases moved_cases (show Function.update s.pending s.nextId (some r) id = some i from hid) with
      ⟨rfl, hi⟩ | ⟨-, hid⟩
    · obtain rfl := Option.some.inj hi
      exact ⟨⟨message, s.nextId, none⟩, hself, rfl, rfl⟩
    · obtain ⟨x, hx, hxid, hreceived⟩ := h.owner id i hid
      exact ⟨x, hkept i x hx, hxid, hreceived⟩
  · intro i x n m hx hreceived
    rcases hphase i x hx with ⟨-, rfl⟩ | ⟨-, hx⟩
    · cases hreceived
    · exact h.received i x n m hx hreceived
  · intro i x body hbody
    rcases moved_cases (show Function.update s.phase r _ i = _ from hbody) with ⟨-, hp⟩ | ⟨-, hbody⟩
    · cases hp
    · exact h.restored i x body hbody
  · intro m hm
    obtain ⟨i, x, hx, rfl⟩ := h.written m hm
    exact ⟨i, x, hkept i x hx, rfl⟩
  · constructor
    · exact fun hanswered i x n m hx hreceived => hanswered i x n m (hkept i x hx) hreceived
    · intro hanswered i x n m hx hreceived
      rcases hphase i x hx with ⟨-, rfl⟩ | ⟨-, hx⟩
      · cases hreceived
      · exact hanswered i x n m hx hreceived

/-- The request of a call, with the line that the reader sent it. -/
theorem deliver_exchange {p : Phase} {x : Exchange} {i : Nat} {m : Json}
    (hlive : p = .writing x ∨ p = .waiting x) :
    p.exchange = some x ∧ (p.deliver i m).exchange = some { x with received := some (i, m) } := by
  rcases hlive with rfl | rfl <;> exact ⟨rfl, rfl⟩

theorem deliver_completed {p : Phase} {x y : Exchange} {i : Nat} {m body : Json}
    (hlive : p = .writing x ∨ p = .waiting x) : p.deliver i m ≠ .completed y body := by
  rcases hlive with rfl | rfl <;> exact nofun

/-- The line with the id of a pending request goes to its call. -/
theorem Inv.deliver {r : Nat} {x : Exchange} {m : Json} (h : Inv s)
    (hlive : s.phase r = .writing x ∨ s.phase r = .waiting x)
    (hid : idOf m = some x.internalId)
    (hs' : s' = ({ s with lines := s.lines ++ [some m] }.remove x.internalId).goto r
      ((s.phase r).deliver s.lines.length m)) :
    Inv s' ∧ (Answered s → (Answered s' ↔ isResponse m = true)) := by
  have hnow : (s.phase r).exchange = some x := (deliver_exchange hlive (i := 0) (m := m)).1
  have hself : (s'.phase r).exchange = some { x with received := some (s.lines.length, m) } := by
    rw [hs']
    show (Function.update s.phase r _ r).exchange = _
    rw [Function.update_self]
    exact (deliver_exchange hlive).2
  have hother : ∀ i, i ≠ r → (s'.phase i).exchange = (s.phase i).exchange := by
    intro i hi
    rw [hs']
    show (Function.update s.phase r _ i).exchange = _
    rw [Function.update_of_ne hi]
  have hphase : ∀ i y, (s'.phase i).exchange = some y →
      i = r ∧ y = { x with received := some (s.lines.length, m) } ∨
        i ≠ r ∧ (s.phase i).exchange = some y := by
    intro i y hy
    by_cases hi : i = r
    · rw [hi, hself] at hy
      exact .inl ⟨hi, (Option.some.inj hy).symm⟩
    · exact .inr ⟨hi, hother i hi ▸ hy⟩
  have hids : ∀ i y, (s'.phase i).exchange = some y →
      ∃ z, (s.phase i).exchange = some z ∧ z.internalId = y.internalId := by
    intro i y hy
    rcases hphase i y hy with ⟨rfl, rfl⟩ | ⟨-, hy⟩
    · exact ⟨x, hnow, rfl⟩
    · exact ⟨y, hy, rfl⟩
  have hlines : s'.lines = s.lines ++ [some m] := by rw [hs']; rfl
  refine ⟨⟨?_, ?_, ?_, ?_, ?_, ?_⟩, ?_⟩
  · intro i y hy
    obtain ⟨z, hz, hzid⟩ := hids i y hy
    rw [← hzid, hs']
    exact h.ids i z hz
  · intro i i' y y' hy hy' heq
    obtain ⟨z, hz, hzid⟩ := hids i y hy
    obtain ⟨z', hz', hzid'⟩ := hids i' y' hy'
    exact h.own i i' z z' hz hz' (hzid.trans (heq.trans hzid'.symm))
  · intro id i hi
    rw [hs'] at hi
    rcases moved_cases (show Function.update s.pending x.internalId none id = some i from hi) with
      ⟨-, hi⟩ | ⟨hne, hi⟩
    · cases hi
    · obtain ⟨y, hy, rfl, hreceived⟩ := h.owner id i hi
      have hir : i ≠ r := by
        rintro rfl
        exact hne (congrArg Exchange.internalId (Option.some.inj (hy.symm.trans hnow)))
      exact ⟨y, (hother i hir).trans hy, rfl, hreceived⟩
  · intro i y n m' hy hreceived
    rw [hlines]
    rcases hphase i y hy with ⟨-, rfl⟩ | ⟨-, hy⟩
    · obtain ⟨rfl, rfl⟩ := Prod.mk.inj (Option.some.inj hreceived)
      exact ⟨List.getElem?_concat_length, hid⟩
    · obtain ⟨hline, hid'⟩ := h.received i y n m' hy hreceived
      obtain ⟨hn, -⟩ := List.getElem?_eq_some_iff.mp hline
      exact ⟨by rw [List.getElem?_append_left hn, hline], hid'⟩
  · intro i y body hbody
    rw [hs'] at hbody
    exact h.restored i y body ((goto_completed hbody).resolve_left (deliver_completed hlive))
  · intro m' hm'
    rw [hs'] at hm'
    obtain ⟨i, y, hy, rfl⟩ := h.written m' hm'
    by_cases hi : i = r
    · subst hi
      obtain rfl := Option.some.inj (hnow.symm.trans hy)
      exact ⟨i, _, hself, rfl⟩
    · exact ⟨i, y, (hother i hi).trans hy, rfl⟩
  · intro hanswered
    constructor
    · exact fun hanswered' => hanswered' r _ s.lines.length m hself rfl
    · intro hresponse i y n m' hy hreceived
      rcases hphase i y hy with ⟨-, rfl⟩ | ⟨-, hy⟩
      · obtain ⟨-, rfl⟩ := Prod.mk.inj (Option.some.inj hreceived)
        exact hresponse
      · exact hanswered i y n m' hy hreceived

/-- A line that no call waits for is only read. -/
theorem Inv.unread {message : Option Json} (h : Inv s) (hphase : s'.phase = s.phase)
    (hnext : s'.nextId = s.nextId) (hstdin : s'.stdin = s.stdin)
    (hlines : s'.lines = s.lines ++ [message])
    (hpending : ∀ id r, s'.pending id = some r → s.pending id = some r) :
    Inv s' ∧ (Answered s' ↔ Answered s) := by
  have hexchange : ∀ r, (s'.phase r).exchange = (s.phase r).exchange := fun r => by rw [hphase]
  refine ⟨h.silent hexchange hnext ⟨[message], hlines.symm⟩ hpending ?_ ?_, answered_congr hexchange⟩
  · exact fun m hm => .inl (hstdin ▸ hm)
  · exact fun r x body hbody => .inl (hphase ▸ hbody)

/-- The reader keeps the invariant, and completes a call with a response exactly when the line
answers. -/
theorem read_inv {message : Option Json} (h : Inv s) :
    Inv (s.read message) ∧
      (Answered s → (Answers s (.line message) ↔ Answered (s.read message))) := by
  have hunread : ∀ {t : State}, Inv t ∧ (Answered t ↔ Answered s) → Answers s (.line message) →
      Inv t ∧ (Answered s → (Answers s (.line message) ↔ Answered t)) :=
    fun ht hanswers => ⟨ht.1, fun h => iff_of_true hanswers (ht.2.mpr h)⟩
  cases message with
  | none => exact hunread (h.unread rfl rfl rfl rfl fun _ _ => id) trivial
  | some m =>
      rw [State.read]
      cases hid : idOf m with
      | none =>
          refine hunread (h.unread rfl rfl rfl rfl fun _ _ => id) fun r x _ _ hm => ?_
          rw [hid] at hm
          cases hm
      | some id =>
          dsimp only
          cases hpending : s.pending id with
          | none =>
              refine hunread (h.unread rfl rfl rfl rfl fun _ _ h => h) fun r x _ hr hm => ?_
              rw [← Option.some.inj (hid.symm.trans hm), hpending] at hr
              cases hr
          | some r =>
              obtain ⟨x, hx, rfl, -⟩ := h.owner id r hpending
              dsimp only
              by_cases hlive : s.phase r = .writing x ∨ s.phase r = .waiting x
              · obtain ⟨hinv, hanswered⟩ := h.deliver hlive hid rfl
                refine ⟨hinv, fun hs => ?_⟩
                rw [hanswered hs]
                exact ⟨fun hanswers => hanswers r x hlive hpending hid, fun hm _ _ _ _ _ => hm⟩
              · -- the call is over, and the value is lost
                have hover : (s.phase r).deliver s.lines.length m = s.phase r := by
                  cases hphase : s.phase r with
                  | writing y =>
                      rw [hphase] at hx hlive
                      exact absurd (.inl (congrArg Phase.writing (Option.some.inj hx))) hlive
                  | waiting y =>
                      rw [hphase] at hx hlive
                      exact absurd (.inr (congrArg Phase.waiting (Option.some.inj hx))) hlive
                  | _ => rfl
                refine hunread (h.unread ?_ rfl rfl rfl fun _ _ => remove_pending) ?_
                · rw [hover]
                  exact Function.update_eq_self r s.phase
                · intro r' y hy hr' hm
                  have hxy : x.internalId = y.internalId := Option.some.inj (hid.symm.trans hm)
                  rw [← hxy, hpending] at hr'
                  obtain rfl := Option.some.inj hr'
                  have hy' : (s.phase r).exchange = some y := by rcases hy with hy | hy <;> rw [hy] <;> rfl
                  rw [hy'] at hx
                  exact absurd (Option.some.inj hx ▸ hy) hlive

/-- Clearing the map ends no call. -/
theorem Inv.clear (h : Inv s) (hphase : s'.phase = s.phase) (hnext : s'.nextId = s.nextId)
    (hstdin : s'.stdin = s.stdin) (hlines : s'.lines = s.lines) (hpending : ∀ id, s'.pending id = none) :
    Inv s' ∧ (Answered s' ↔ Answered s) := by
  have hexchange : ∀ r, (s'.phase r).exchange = (s.phase r).exchange := fun r => by rw [hphase]
  refine ⟨h.silent hexchange hnext ⟨[], by rw [List.append_nil, hlines]⟩ (fun id r hid => ?_)
    (fun m hm => .inl (hstdin ▸ hm)) fun r x body hbody => .inl (hphase ▸ hbody),
    answered_congr hexchange⟩
  rw [hpending id] at hid
  cases hid

/-- An act keeps the invariant, and completes a call with a response exactly when it answers. -/
theorem step_inv (h : Inv s) (hstep : step s a = some s') :
    Inv s' ∧ (Answered s → (Answers s a ↔ Answered s')) := by
  have hkept : ∀ {a : Act}, Answers s a → Inv s' ∧ (Answered s' ↔ Answered s) →
      Inv s' ∧ (Answered s → (Answers s a ↔ Answered s')) :=
    fun hanswers ht => ⟨ht.1, fun h => iff_of_true hanswers (ht.2.mpr h)⟩
  cases a with
  | send r message =>
      refine hkept trivial ?_
      unfold step at hstep
      dsimp only at hstep
      split at hstep
      · next hphase hholder =>
          obtain rfl := Option.some.inj hstep
          have hr : (s.phase r).exchange = none := by rw [hphase]; rfl
          split
          · exact h.enter hr
          · exact h.over (p := .refused _) hr.symm nofun rfl rfl rfl (fun _ hm => .inl hm) fun _ _ => id
      · cases hstep
  | write r written =>
      refine hkept trivial ?_
      unfold step at hstep
      dsimp only at hstep
      split at hstep
      · next x hphase =>
          obtain rfl := Option.some.inj hstep
          have hx : (s.phase r).exchange = some x := by rw [hphase]; rfl
          split
          · refine h.over (p := .waiting x) hx.symm nofun rfl rfl rfl (fun m hm => ?_) fun _ _ => id
            rcases List.mem_append.mp hm with hm | hm
            · exact .inl hm
            · exact .inr ⟨r, x, hx, List.mem_singleton.mp hm⟩
          · exact h.over (p := .failed x _) hx.symm nofun rfl rfl rfl (fun _ hm => .inl hm)
              fun _ _ => remove_pending
      · cases hstep
  | receive r =>
      refine hkept trivial ?_
      unfold step at hstep
      dsimp only at hstep
      split at hstep
      · next x hphase =>
          obtain ⟨⟨i, m⟩, hreceived, rfl⟩ := Option.map_eq_some_iff.mp hstep
          have hx : (s.phase r).exchange = some x := by rw [hphase]; rfl
          have hexchange := goto_exchange (s := s) (r := r) (p := .completed x (x.restore m)) hx.symm
          refine ⟨h.silent hexchange rfl (List.prefix_refl _) (fun _ _ => id) (fun _ hm => .inl hm)
            fun j y body hbody => ?_, answered_congr hexchange⟩
          rcases goto_completed hbody with hbody | hbody
          · obtain ⟨rfl, rfl⟩ := Phase.completed.inj hbody
            exact .inr ⟨i, m, hreceived, rfl⟩
          · exact .inl hbody
      · cases hstep
  | timeout r =>
      refine hkept trivial ?_
      unfold step at hstep
      dsimp only at hstep
      split at hstep
      · next x hphase =>
          split at hstep
          · cases hstep
          · obtain rfl := Option.some.inj hstep
            have hx : (s.phase r).exchange = some x := by rw [hphase]; rfl
            exact h.over (p := .failed x _) hx.symm nofun rfl rfl rfl (fun _ hm => .inl hm)
              fun _ _ => remove_pending
      · cases hstep
  | drop r =>
      refine hkept trivial ?_
      unfold step at hstep
      dsimp only at hstep
      split at hstep
      · next x hphase =>
          obtain rfl := Option.some.inj hstep
          have hx : (s.phase r).exchange = some x := by rw [hphase]; rfl
          exact h.over (p := .dropped x) hx.symm nofun rfl rfl rfl (fun _ hm => .inl hm) fun _ _ => id
      · next x hphase =>
          obtain rfl := Option.some.inj hstep
          have hx : (s.phase r).exchange = some x := by rw [hphase]; rfl
          exact h.over (p := .dropped x) hx.symm nofun rfl rfl rfl (fun _ hm => .inl hm) fun _ _ => id
      · cases hstep
  | line message =>
      unfold step at hstep
      dsimp only at hstep
      split at hstep
      · exact Option.some.inj hstep ▸ read_inv h
      · cases hstep
  | eof =>
      refine hkept trivial ?_
      unfold step at hstep
      dsimp only at hstep
      split at hstep
      · exact Option.some.inj hstep ▸ h.clear rfl rfl rfl rfl fun _ => rfl
      · cases hstep
  | stop =>
      refine hkept trivial ?_
      unfold step at hstep
      dsimp only at hstep
      split at hstep
      · exact Option.some.inj hstep ▸ h.clear rfl rfl rfl rfl fun _ => rfl
      · cases hstep

theorem start_inv : Inv start where
  ids := nofun
  own := nofun
  owner := nofun
  received := nofun
  restored := nofun
  written := nofun

/-- **Requests are completed by their responses exactly in runs whose lines answer.** -/
theorem correct_iff {as : List Act} (hrun : run step start as = some s) :
    (∀ bs t, bs <+: as → run step start bs = some t → Correct t) ↔
      Along step Answers start as := by
  have hanswered : Answered start := nofun
  rw [along_iff_throughout (J := Inv) (I := Answered) (fun _ _ _ h hstep => (step_inv h hstep).1)
    (fun _ _ _ h hs hstep => (step_inv h hstep).2 hs) start_inv hanswered hrun]
  refine forall₂_congr fun bs t => forall₂_congr fun _ hbs => correct_iff_answered ?_
  exact run_preserves (fun _ _ _ h hstep => (step_inv h hstep).1) start_inv hbs

/-! ### A process that asks -/

/-- A call of a tool. -/
def callRequest : Json :=
  .obj [("jsonrpc".toList, .str "2.0".toList), ("id".toList, .str "a".toList),
    ("method".toList, .str "tools/call".toList)]

/-- The response of the process. -/
def callResponse : Json :=
  .obj [("jsonrpc".toList, .str "2.0".toList), ("id".toList, .num (.int 1)),
    ("result".toList, .obj [])]

/-- A request of the process, under an id of its own. -/
def processRequest : Json :=
  .obj [("jsonrpc".toList, .str "2.0".toList), ("id".toList, .num (.int 1)),
    ("method".toList, .str "roots/list".toList)]

/-- The process answers, after a line that is no message. -/
def answered : List Act :=
  [.send 0 callRequest, .write 0 true, .line none, .line (some callResponse), .receive 0]

theorem correct_answered :
    (∀ bs t, bs <+: answered → run step start bs = some t → Correct t) ↔
      Along step Answers start answered :=
  correct_iff (Option.some_get (x := run step start answered) rfl).symm

/-- The process asks for the roots of the client before it answers. -/
def asking : List Act :=
  [.send 0 callRequest, .write 0 true, .line (some processRequest), .receive 0]

/-- The client gets the request of the process as the response to its own. -/
theorem asked_back : ¬ ∀ t, run step start asking = some t → Correct t := by
  intro h
  have hcorrect := h _ (Option.some_get (x := run step start asking) rfl).symm
  have hresponse : isResponse processRequest = true :=
    (hcorrect.response 0 ⟨callRequest, 1, some (0, processRequest)⟩ 0 processRequest rfl rfl).2.2
  cases hresponse

end CorexManager.Stdio
