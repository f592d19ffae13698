import CorexManager.Gateway.Sessions

/-!
# Sessions of other identities

Whose sessions the messages of a client reach, in both gateways: `gateway/protocol.rs` and the
`protocol.py`, `sessions.py` and `upstream.py` of `mcp-gateway`.  Both compare the identity of
a request with that of its session, and neither does so for a notification.

* `PythonGateway.step` — a request reads its session twice; the servers of a session are
  initialized one by one; a call is in flight until it is answered or cancelled.
* `Untouched` — what a client leaves alone of a session it did not create.
* `sessions_owned` — the Rust gateway always does, the Python gateway in exactly the runs in
  which no message finds something to use in a session of another identity.
-/

namespace CorexManager.Gateway

open Data (Json Store Text intText)

/-- The methods of HTTP but `POST`; both gateways answer them without a session. -/
inductive Verb where
  | get | delete | options
  deriving DecidableEq, Repr

/-! ### The Rust gateway -/

/-- The sessions, and who created them. -/
structure RustGateway where
  sessions : SessionStore
  creator : Text → Option Int

/-- What happens to the Rust gateway. -/
inductive RustEvent where
  | message (m : Incoming)
  | other (verb : Verb) (auth : AuthContext) (sessionId : Text)
  | expire (id : Text)

namespace RustGateway

/-- Before the first message. -/
def start : RustGateway := ⟨fun _ => none, fun _ => none⟩

variable (P : Platform) (s : RustGateway)

/-- One step; the id of a new session is a new one. -/
def step : RustEvent → Option RustGateway
  | .message m =>
      if opensSession m.body then
        if s.creator m.fresh = none then
          some ⟨s.sessions.create m.fresh m.auth.identityId m.auth.teamId,
            Function.update s.creator m.fresh (some m.auth.identityId)⟩
        else none
      else some s
  | .other _ _ _ => some s
  | .expire id => some { s with sessions := s.sessions.delete id }

/-- The message leaves the sessions of other identities alone. -/
def Respects : RustEvent → Prop
  | .message m => ∀ id owner, s.creator id = some owner → owner ≠ m.auth.identityId →
      (lookupSession m.sessionId m.body = id →
        ∀ post ∈ m.posts P s.sessions, post.upstreamSid = none) ∧
      ∀ s', s.step (.message m) = some s' → s'.sessions id = s.sessions id
  | .other verb auth sessionId => ∀ s', s.step (.other verb auth sessionId) = some s' → s' = s
  | .expire _ => True

variable {P s}

theorem step_bare {e : RustEvent} {s' : RustGateway} (h : s.sessions.Bare)
    (hstep : s.step e = some s') : s'.sessions.Bare := by
  cases e with
  | message m =>
      rw [step] at hstep
      split at hstep
      · split at hstep
        · rw [← Option.some.inj hstep]
          exact h.create m.fresh m.auth.identityId m.auth.teamId
        · cases hstep
      · rw [← Option.some.inj hstep]
        exact h
  | other verb auth sessionId =>
      rw [← Option.some.inj hstep]
      exact h
  | expire id =>
      rw [← Option.some.inj hstep]
      exact h.delete id

theorem respects (h : s.sessions.Bare) (e : RustEvent) : s.Respects P e := by
  cases e with
  | message m =>
      intro id owner howner _
      refine ⟨fun _ post hpost => Incoming.posts_bare h hpost, fun s' hstep => ?_⟩
      rw [step] at hstep
      split at hstep
      · split at hstep
        case isTrue hfresh =>
          have hid : id ≠ m.fresh := by
            rintro rfl
            rw [hfresh] at howner
            cases howner
          rw [← Option.some.inj hstep]
          exact Store.write_other _ _ hid
        · cases hstep
      · rw [← Option.some.inj hstep]
  | other verb auth sessionId => exact fun s' hstep => (Option.some.inj hstep).symm
  | expire id => trivial

end RustGateway

/-! ### The Python gateway -/

/-- The truth of a value in Python. -/
def truth : Json → Bool
  | .null => false
  | .bool b => b
  | .num (.int n) => n != 0
  | .num (.float bits) => bits != 0 && bits != 0x8000000000000000
  | .str t => !t.isEmpty
  | .arr items => !items.isEmpty
  | .obj fields => !fields.isEmpty

/-- A message of an authenticated client, and what it is handled with. -/
structure PythonMessage where
  /-- `get_enabled_servers`. -/
  servers : List ServerConfig
  auth : AuthContext
  /-- The `Mcp-Session-Id`, empty if it is missing. -/
  sessionId : Text
  body : Json
  /-- The id that `create_session` generates. -/
  fresh : Text
  /-- `is_token_valid`. -/
  tokenValid : Bool
  /-- What `_route_call` forwards and to which server, if it does not answer by itself. -/
  route : Option (ServerConfig × Json)

/-- What `handle_mcp_post` takes a message for. -/
inductive MessageKind where
  | refused | notification | opening | request
  deriving DecidableEq, Repr

namespace PythonMessage

variable (m : PythonMessage)

/-- The method. -/
def method : Json := (m.body.get "method".toList).getD .null

/-- The parameters. -/
def params : Json := (m.body.get "params".toList).getD (.obj [])

/-- What the message is; a notification without a session or a method goes nowhere. -/
def kind : MessageKind :=
  if m.body.asObject.isNone then .refused
  else if isNotification m.body || isResponse m.body then
    if !m.sessionId.isEmpty && truth m.method then .notification else .refused
  else if !truth m.method then .refused
  else if m.method = .str "initialize".toList then .opening
  else .request

/-- The method is one that `_route_call` handles. -/
def isCall : Bool :=
  m.method = .str "tools/call".toList ∨ m.method = .str "resources/read".toList ∨
    m.method = .str "prompts/get".toList

/-- `_get_team_servers`. -/
def teamServers : List ServerConfig := m.servers.filter fun s => s.teamId == m.auth.teamId

/-- The notification is a cancellation. -/
def cancels : Bool := m.method = .str "notifications/cancelled".toList

/-- The id of the request a cancellation is for. -/
def cancelledId : Option Json := (m.params.get "requestId".toList).filter (· ≠ .null)

/-- The notification as it is sent to the servers. -/
def notification : Json :=
  .obj [("jsonrpc".toList, .str "2.0".toList), ("method".toList, m.method),
    ("params".toList, m.params)]

end PythonMessage

/-- The upstream session a message goes out with: `_build_headers` leaves out an empty one. -/
def sessionHeader (server : ServerConfig) (upstreamSid : Option Text) : Option Text :=
  if server.transportType = "stdio".toList then none else upstreamSid.filter (· ≠ [])

/-- How far the handling of a message is. -/
inductive Phase (K : Type) where
  /-- Not there yet. -/
  | absent
  /-- `validate_session` has found the session. -/
  | validated (m : PythonMessage)
  /-- The session is created, and these servers are still to be initialized. -/
  | opening (session : Text) (identityId : Int) (servers : List ServerConfig)
  /-- A call is in flight, tracked under its session and its message id. -/
  | calling (session : Text) (key : K) (identityId : Int)
  | cancelled
  | done

/-- What happens to the Python gateway. -/
inductive PythonEvent where
  | post (r : Nat) (m : PythonMessage)
  /-- The session of a request is read again. -/
  | proceed (r : Nat)
  /-- The next server of a new session has answered `initialize`. -/
  | opened (r : Nat) (upstreamSid : Option Text)
  /-- A call has come back. -/
  | answered (r : Nat)
  | other (verb : Verb) (auth : AuthContext) (sessionId : Text)
  | expire (id : Text)

/-- The sessions, `_inflight`, the handlers, and who created the sessions. -/
structure PythonGateway (K : Type) where
  sessions : SessionStore
  inflight : Store (Text × K) Nat
  phase : Nat → Phase K
  creator : Text → Option Int

namespace PythonGateway

variable {K : Type}

/-- Before the first message. -/
def start : PythonGateway K := ⟨fun _ => none, fun _ => none, fun _ => .absent, fun _ => none⟩

section Steps

variable [DecidableEq K] (key : Json → Option K) (s : PythonGateway K)

/-- A handler moves on. -/
def goto (r : Nat) (p : Phase K) : PythonGateway K :=
  { s with phase := Function.update s.phase r p }

/-- The task `cancel_inflight` cancels, if it is not done. -/
def inFlight (session : Text) (k : K) : Option Nat :=
  (s.inflight (session, k)).filter fun r =>
    match s.phase r with
    | .calling _ _ _ => true
    | _ => false

/-- `cancel_inflight`. -/
def cancelInflight (session : Text) (k : K) : PythonGateway K :=
  match s.inFlight session k with
  | some r => { s.goto r .cancelled with inflight := s.inflight.keep (· != (session, k)) }
  | none => s

/-- `_handle_notification`, but for what it sends. -/
def handleNotification (m : PythonMessage) : PythonGateway K :=
  if m.cancels then
    match m.cancelledId.bind key with
    | some k => s.cancelInflight m.sessionId k
    | none => s
  else s

/-- The upstream session with which something is sent to a server for a session. -/
def upstreamSid (session : Text) (server : ServerConfig) : Option Text :=
  sessionHeader server (SessionStore.getUpstreamSession s.sessions session server.id)

/-- The checks of a request whose session was there: a session that is gone by now passes. -/
def admits (m : PythonMessage) : Bool :=
  (SessionStore.get s.sessions m.sessionId).all fun data =>
    data.identityId == m.auth.identityId && m.tokenValid

/-- What a call sends and the key under which it is tracked, once it is admitted; an id that is
no key is an error. -/
def routed (m : PythonMessage) : Option (K × ServerConfig × Json) :=
  if m.isCall then
    m.route.bind fun (server, message) =>
      (key ((m.body.get "id".toList).getD .null)).map fun k => (k, server, message)
  else none

/-- What a request sends. -/
def call (m : PythonMessage) : Option (K × ServerConfig × Json) :=
  if s.admits m then routed key m else none

/-- What is sent, with the session whose upstream session it carries. -/
def posts : PythonEvent → List (Text × Post)
  | .post r m =>
      match s.phase r, m.kind with
      | .absent, .notification =>
          if m.cancels then []
          else m.teamServers.map fun server =>
            (m.sessionId, ⟨server, m.notification, s.upstreamSid m.sessionId server⟩)
      | _, _ => []
  | .proceed r =>
      match s.phase r with
      | .validated m =>
          (s.call key m).toList.map fun (_, server, message) =>
            (m.sessionId, ⟨server, message, s.upstreamSid m.sessionId server⟩)
      | _ => []
  | _ => []

/-- One step; the id of a new session is a new one. -/
def step : PythonEvent → Option (PythonGateway K)
  | .post r m =>
      match s.phase r with
      | .absent =>
          match m.kind with
          | .refused => some s
          | .notification => some (s.handleNotification key m)
          | .opening =>
              if s.creator m.fresh = none then
                some { s.goto r (.opening m.fresh m.auth.identityId m.teamServers) with
                  sessions := s.sessions.create m.fresh m.auth.identityId m.auth.teamId
                  creator := Function.update s.creator m.fresh (some m.auth.identityId) }
              else none
          | .request =>
              if (SessionStore.get s.sessions m.sessionId).isSome then
                some (s.goto r (.validated m))
              else some s
      | _ => none
  | .proceed r =>
      match s.phase r with
      | .validated m =>
          match s.call key m with
          | some (k, _, _) =>
              some { s.goto r (.calling m.sessionId k m.auth.identityId) with
                inflight := s.inflight.write (m.sessionId, k) r }
          | none => some (s.goto r .done)
      | _ => none
  | .opened r upstreamSid =>
      match s.phase r with
      | .opening session identityId (server :: servers) =>
          let opened := s.goto r (.opening session identityId servers)
          some (match upstreamSid with
            | some sid =>
                { opened with sessions := s.sessions.setUpstreamSession session server.id sid }
            | none => opened)
      | _ => none
  | .answered r =>
      match s.phase r with
      | .calling session k _ =>
          some { s.goto r .done with inflight := s.inflight.keep (· != (session, k)) }
      | _ => none
  | .other _ _ _ => some s
  | .expire id => some { s with sessions := s.sessions.delete id }

/-! #### What a client leaves alone -/

/-- The identity whose message makes a step happen. -/
def actor : PythonEvent → Option Int
  | .post _ m => some m.auth.identityId
  | .proceed r =>
      match s.phase r with
      | .validated m => some m.auth.identityId
      | _ => none
  | .opened r _ =>
      match s.phase r with
      | .opening _ identityId _ => some identityId
      | _ => none
  | .answered r =>
      match s.phase r with
      | .calling _ _ identityId => some identityId
      | _ => none
  | .other _ auth _ => some auth.identityId
  | .expire _ => none

/-- Nothing under a session is changed: not its data, not the requests that are tracked under
it, and none of them is begun or ended. -/
structure Untouched (id : Text) (s s' : PythonGateway K) : Prop where
  session : s'.sessions id = s.sessions id
  tracked : ∀ k, s'.inflight (id, k) = s.inflight (id, k)
  calls : ∀ r k identityId,
    s'.phase r = .calling id k identityId ↔ s.phase r = .calling id k identityId

/-- Whoever makes a step happen, it leaves the sessions of other identities alone and sends
none of their upstream sessions. -/
def Respects (e : PythonEvent) : Prop :=
  ∀ b, s.actor e = some b → ∀ id owner, s.creator id = some owner → owner ≠ b →
    (∀ sent ∈ s.posts key e, sent.1 = id → sent.2.upstreamSid = none) ∧
    ∀ s', s.step key e = some s' → Untouched id s s'

/-- The session of a message was created by another identity. -/
def Foreign (m : PythonMessage) : Prop :=
  ∃ owner, s.creator m.sessionId = some owner ∧ owner ≠ m.auth.identityId

/-- A notification under a session of another identity finds nothing in it: no request in
flight that it cancels, no upstream session of a server it goes to; and a call under such a
session, which was there when it came, does not find it gone. -/
def Apart : PythonEvent → Prop
  | .post r m =>
      match s.phase r, m.kind with
      | .absent, .notification => s.Foreign m →
          if m.cancels then ∀ k, m.cancelledId.bind key = some k → s.inFlight m.sessionId k = none
          else ∀ server ∈ m.teamServers, s.upstreamSid m.sessionId server = none
      | _, _ => True
  | .proceed r =>
      match s.phase r with
      | .validated m => s.Foreign m → SessionStore.get s.sessions m.sessionId = none →
          routed key m = none
      | _ => True
  | _ => True

end Steps

/-! #### Invariants -/

variable {key : Json → Option K} {s s' : PythonGateway K}

theorem Untouched.refl (id : Text) (s : PythonGateway K) : Untouched id s s :=
  ⟨rfl, fun _ => rfl, fun _ _ _ => Iff.rfl⟩

theorem goto_self (r : Nat) (p : Phase K) : (s.goto r p).phase r = p := by
  unfold goto
  exact Function.update_self r p s.phase

theorem goto_other {r j : Nat} (p : Phase K) (h : j ≠ r) : (s.goto r p).phase j = s.phase j := by
  unfold goto
  exact Function.update_of_ne h p s.phase

/-- A handler that does no call under a session, before and after it moves on. -/
theorem calls_goto {id : Text} {r : Nat} {p : Phase K}
    (hr : ∀ k i, s.phase r ≠ .calling id k i) (hp : ∀ k i, p ≠ .calling id k i) (r' : Nat) (k : K)
    (i : Int) : (s.goto r p).phase r' = .calling id k i ↔ s.phase r' = .calling id k i := by
  by_cases h : r' = r
  · subst h
    rw [goto_self]
    exact iff_of_false (hp k i) (hr k i)
  · rw [goto_other p h]

/-- What is known of the session a handler works for. -/
def Sound (creator : Text → Option Int) : Phase K → Prop
  | .validated m => (creator m.sessionId).isSome
  | .opening session identityId _ => creator session = some identityId
  | .calling session _ identityId => creator session = some identityId
  | _ => True

/-- A handler that is, or was, tracked under a session and a message id. -/
def Tracks (session : Text) (k : K) : Phase K → Prop
  | .calling session' k' _ => session' = session ∧ k' = k
  | .cancelled => True
  | .done => True
  | _ => False

/-- What steps apart from the sessions of other identities preserve. -/
structure Inv (s : PythonGateway K) : Prop where
  owner : ∀ id data, s.sessions id = some data → s.creator id = some data.identityId
  sound : ∀ r, Sound s.creator (s.phase r)
  tracks : ∀ session k r, s.inflight (session, k) = some r → Tracks session k (s.phase r)

theorem start_inv : Inv (start : PythonGateway K) where
  owner := fun _ _ h => by cases h
  sound := fun _ => trivial
  tracks := fun _ _ _ h => by cases h

/-- A session created under a new id leaves what is known. -/
theorem Sound.create {creator : Text → Option Int} {fresh : Text} (hfresh : creator fresh = none)
    (i : Int) {p : Phase K} (h : Sound creator p) :
    Sound (Function.update creator fresh (some i)) p := by
  have hold : ∀ id, (creator id).isSome → Function.update creator fresh (some i) id = creator id :=
    fun id hid => Function.update_of_ne (fun heq => by rw [heq, hfresh] at hid; cases hid) _ _
  cases p with
  | validated m =>
      show (Function.update creator fresh (some i) m.sessionId).isSome
      rw [hold m.sessionId h]
      exact h
  | opening session identityId servers =>
      show Function.update creator fresh (some i) session = some identityId
      rw [hold session (by rw [show creator session = some identityId from h]; rfl)]
      exact h
  | calling session k identityId =>
      show Function.update creator fresh (some i) session = some identityId
      rw [hold session (by rw [show creator session = some identityId from h]; rfl)]
      exact h
  | absent => trivial
  | cancelled => trivial
  | done => trivial

namespace Inv

/-- A handler moves on, and is tracked no worse. -/
theorem goto (h : Inv s) {r : Nat} {p : Phase K} (hsound : Sound s.creator p)
    (htracks : ∀ session k, Tracks session k (s.phase r) → Tracks session k p) :
    Inv (s.goto r p) where
  owner := h.owner
  sound := by
    intro j
    by_cases hj : j = r
    · subst hj
      rw [goto_self]
      exact hsound
    · rw [goto_other p hj]
      exact h.sound j
  tracks := by
    intro session k j hj
    by_cases hjr : j = r
    · subst hjr
      rw [goto_self]
      exact htracks session k (h.tracks session k j hj)
    · rw [goto_other p hjr]
      exact h.tracks session k j hj

/-- Other sessions. -/
theorem withSessions (h : Inv s) {sessions : SessionStore}
    (howner : ∀ id data, sessions id = some data → s.creator id = some data.identityId) :
    Inv { s with sessions := sessions } := ⟨howner, h.sound, h.tracks⟩

theorem inFlight_calling {session : Text} {k : K} {r : Nat} (h : s.inFlight session k = some r) :
    s.inflight (session, k) = some r ∧ ∃ session' k' i, s.phase r = .calling session' k' i := by
  obtain ⟨htracked, hcalling⟩ := Option.filter_eq_some_iff.mp h
  refine ⟨htracked, ?_⟩
  split at hcalling
  · exact ⟨_, _, _, ‹_›⟩
  · cases hcalling

/-- Upstream sessions are stored with the sessions as they are. -/
theorem setUpstreamSession (h : Inv s) (session : Text) (serverId : Int) (sid : Text) :
    Inv { s with sessions := s.sessions.setUpstreamSession session serverId sid } := by
  refine h.withSessions fun id data hdata => ?_
  obtain ⟨old, hold, hidentity⟩ := SessionStore.setUpstreamSession_identity hdata
  rw [← hidentity]
  exact h.owner id old hold

/-- A session that is there has a creator. -/
theorem creator_of_get (h : Inv s) {id : Text} (hid : (SessionStore.get s.sessions id).isSome) :
    (s.creator id).isSome := by
  obtain ⟨data, hdata⟩ := Option.isSome_iff_exists.mp hid
  rw [h.owner id data (SessionStore.of_get hdata)]
  rfl

/-- A request under a session of another identity is refused, unless the session is gone. -/
theorem call_eq_none_iff (h : Inv s) {m : PythonMessage} (hforeign : s.Foreign m) :
    s.call key m = none ↔
      (SessionStore.get s.sessions m.sessionId = none → routed key m = none) := by
  obtain ⟨owner, howner, hne⟩ := hforeign
  rw [call, admits]
  cases hget : SessionStore.get s.sessions m.sessionId with
  | none => exact ⟨fun hcall _ => hcall, fun hrouted => hrouted rfl⟩
  | some data =>
      have hdata := h.owner _ data (SessionStore.of_get hget)
      have hidentity : (data.identityId == m.auth.identityId) = false := by
        rw [beq_eq_false_iff_ne, ← Option.some.inj (howner.symm.trans hdata)]
        exact hne
      rw [Option.all_some, hidentity, Bool.false_and, if_neg Bool.false_ne_true]
      exact iff_of_true rfl nofun

/-- A new session. -/
theorem openSession (h : Inv s) {r : Nat} (hr : s.phase r = .absent) {fresh : Text}
    (hfresh : s.creator fresh = none) (i team : Int) (servers : List ServerConfig) :
    Inv { s.goto r (.opening fresh i servers) with
      sessions := s.sessions.create fresh i team
      creator := Function.update s.creator fresh (some i) } where
  owner := by
    intro id data hdata
    dsimp only [SessionStore.create] at hdata ⊢
    by_cases hid : id = fresh
    · subst hid
      rw [Store.write_self] at hdata
      rw [Function.update_self, ← Option.some.inj hdata]
    · rw [Store.write_other _ _ hid] at hdata
      rw [Function.update_of_ne hid]
      exact h.owner id data hdata
  sound := by
    intro j
    show Sound (Function.update s.creator fresh (some i)) ((s.goto r _).phase j)
    by_cases hj : j = r
    · subst hj
      rw [goto_self]
      exact Function.update_self fresh (some i) s.creator
    · rw [goto_other _ hj]
      exact (h.sound j).create hfresh i
  tracks := by
    intro session k j hj
    show Tracks session k ((s.goto r _).phase j)
    have htracks := h.tracks session k j hj
    have hne : j ≠ r := by
      rintro rfl
      rw [hr] at htracks
      exact htracks
    rw [goto_other _ hne]
    exact htracks

variable [DecidableEq K]

/-- Fewer requests are tracked. -/
theorem untrack (h : Inv s) (entry : Text × K) :
    Inv { s with inflight := s.inflight.keep (· != entry) } := by
  refine ⟨h.owner, h.sound, fun session k r hr => h.tracks session k r ?_⟩
  dsimp only [Store.keep] at hr
  split at hr
  · exact hr
  · cases hr

theorem cancelInflight (h : Inv s) (session : Text) (k : K) : Inv (s.cancelInflight session k) := by
  rw [PythonGateway.cancelInflight]
  split
  · have hmoved : Inv (s.goto ‹Nat› .cancelled) := h.goto trivial fun _ _ _ => trivial
    exact hmoved.untrack (session, k)
  · exact h

theorem handleNotification (h : Inv s) (m : PythonMessage) :
    Inv (s.handleNotification key m) := by
  rw [PythonGateway.handleNotification]
  split
  · split
    · exact h.cancelInflight _ _
    · exact h
  · exact h

/-- A call that is sent is tracked. -/
theorem track (h : Inv s) {r : Nat} {session : Text} {k : K} {i : Int}
    (hr : ∀ session k, ¬ Tracks session k (s.phase r)) (hcreator : s.creator session = some i) :
    Inv { s.goto r (.calling session k i) with
      inflight := s.inflight.write (session, k) r } where
  owner := h.owner
  sound := by
    have hmoved : Inv (s.goto r (.calling session k i)) :=
      h.goto hcreator fun session k htracks => absurd htracks (hr session k)
    exact hmoved.sound
  tracks := by
    intro session' k' j hj
    show Tracks session' k' ((s.goto r _).phase j)
    dsimp only at hj
    by_cases hentry : (session', k') = (session, k)
    · rw [hentry, Store.write_self] at hj
      cases hj
      cases hentry
      rw [goto_self]
      exact ⟨rfl, rfl⟩
    · rw [Store.write_other _ _ hentry] at hj
      have htracks := h.tracks session' k' j hj
      have hne : j ≠ r := by
        rintro rfl
        exact hr session' k' htracks
      rw [goto_other _ hne]
      exact htracks

/-- **Every step apart preserves the invariant.** -/
theorem step (h : Inv s) {e : PythonEvent} (hapart : s.Apart key e)
    (hstep : s.step key e = some s') : Inv s' := by
  cases e with
  | post r m =>
      rw [PythonGateway.step] at hstep
      split at hstep
      case h_2 => cases hstep
      case h_1 hr =>
        have htracks : ∀ session k, ¬ Tracks session k (s.phase r) := fun _ _ => by
          rw [hr]
          exact id
        split at hstep
        · rw [← Option.some.inj hstep]
          exact h
        · rw [← Option.some.inj hstep]
          exact h.handleNotification m
        · split at hstep
          case isTrue hfresh =>
            rw [← Option.some.inj hstep]
            exact h.openSession hr hfresh _ _ _
          · cases hstep
        · split at hstep
          case isTrue hsome =>
            rw [← Option.some.inj hstep]
            exact h.goto (h.creator_of_get hsome) fun session k ht => absurd ht (htracks session k)
          · rw [← Option.some.inj hstep]
            exact h
  | proceed r =>
      rw [PythonGateway.step] at hstep
      split at hstep
      case h_2 => cases hstep
      case h_1 m hr =>
        have htracks : ∀ session k, ¬ Tracks session k (s.phase r) := fun _ _ => by
          rw [hr]
          exact id
        split at hstep
        case h_1 hcall =>
          rw [← Option.some.inj hstep]
          refine h.track htracks ?_
          -- The call was let through, so the session is not one of another identity.
          have hsound := h.sound r
          rw [hr] at hsound
          obtain ⟨owner, howner⟩ := Option.isSome_iff_exists.mp hsound
          by_contra hother
          rw [Apart, hr] at hapart
          have hforeign : s.Foreign m := ⟨owner, howner, fun heq => hother (heq ▸ howner)⟩
          rw [(h.call_eq_none_iff hforeign).mpr (hapart hforeign)] at hcall
          cases hcall
        · rw [← Option.some.inj hstep]
          exact h.goto trivial fun session k ht => absurd ht (htracks session k)
  | opened r upstreamSid =>
      rw [PythonGateway.step] at hstep
      split at hstep
      case h_2 => cases hstep
      case h_1 session i server servers hr =>
        have hsound := h.sound r
        rw [hr] at hsound
        have hmoved : Inv (s.goto r (.opening session i servers)) :=
          h.goto hsound fun session k ht => by
            rw [hr] at ht
            exact ht.elim
        rw [← Option.some.inj hstep]
        cases upstreamSid with
        | none => exact hmoved
        | some sid => exact hmoved.setUpstreamSession session server.id sid
  | answered r =>
      rw [PythonGateway.step] at hstep
      split at hstep
      case h_2 => cases hstep
      case h_1 session k i hr =>
        have hmoved : Inv (s.goto r .done) := h.goto trivial fun _ _ _ => trivial
        rw [← Option.some.inj hstep]
        exact hmoved.untrack (session, k)
  | other verb auth sessionId =>
      rw [← Option.some.inj hstep]
      exact h
  | expire id =>
      rw [← Option.some.inj hstep]
      refine h.withSessions fun k data hdata => ?_
      rw [SessionStore.delete, Store.keep] at hdata
      split at hdata
      · exact h.owner k data hdata
      · cases hdata

end Inv

/-! #### Who touches what -/

section Owners

variable [DecidableEq K] {id : Text}

theorem untracked_other {inflight : Store (Text × K) Nat} {session : Text} {k k' : K}
    (h : id ≠ session) : inflight.keep (· != (session, k)) (id, k') = inflight (id, k') :=
  Store.keep_of_kept inflight (bne_iff_ne.mpr fun heq => h (congrArg Prod.fst heq))

theorem untracked_self {inflight : Store (Text × K) Nat} {session : Text} {k : K} :
    inflight.keep (· != (session, k)) (session, k) = none := by
  unfold Store.keep
  exact if_neg (by simp)

/-- A cancellation that reaches no request under a session. -/
theorem Untouched.cancelInflight (h : Inv s) {session : Text} (k : K)
    (hk : id = session → s.inFlight session k = none) :
    Untouched id s (s.cancelInflight session k) := by
  rw [PythonGateway.cancelInflight]
  cases hflight : s.inFlight session k with
  | none => exact .refl id s
  | some r =>
      have hid : id ≠ session := fun heq => by
        rw [hk heq] at hflight
        cases hflight
      obtain ⟨htracked, session', k', i, hr⟩ := Inv.inFlight_calling hflight
      -- What is cancelled is a call under the session.
      have htracks := h.tracks session k r htracked
      rw [hr] at htracks
      refine ⟨rfl, fun _ => untracked_other hid, calls_goto (fun k'' i' hcalling => ?_) nofun⟩
      rw [hr] at hcalling
      cases hcalling
      exact hid htracks.1

/-- A step of an identity leaves the sessions of others alone. -/
theorem untouched_of_apart (h : Inv s) {e : PythonEvent} (hapart : s.Apart key e) {b owner : Int}
    (hactor : s.actor e = some b) (howner : s.creator id = some owner) (hne : owner ≠ b)
    (hstep : s.step key e = some s') : Untouched id s s' := by
  cases e with
  | post r m =>
      cases hactor
      rw [step] at hstep
      rw [Apart] at hapart
      split at hstep
      case h_2 => cases hstep
      case h_1 hr =>
        split at hstep
        · rw [← Option.some.inj hstep]
          exact .refl id s
        case h_2 hkind =>
          rw [← Option.some.inj hstep, handleNotification]
          split
          case isTrue hcancels =>
            split
            case h_1 k hk =>
              refine .cancelInflight h k fun heq => ?_
              rw [hr, hkind] at hapart
              have hforeign := hapart ⟨owner, heq ▸ howner, hne⟩
              rw [if_pos hcancels] at hforeign
              exact hforeign k hk
            · exact .refl id s
          · exact .refl id s
        · split at hstep
          case isTrue hfresh =>
            have hid : id ≠ m.fresh := by
              rintro rfl
              rw [hfresh] at howner
              cases howner
            rw [← Option.some.inj hstep]
            refine ⟨Store.write_other _ _ hid, fun _ => rfl, calls_goto (fun k i => ?_) nofun⟩
            rw [hr]
            exact nofun
          · cases hstep
        · split at hstep
          · rw [← Option.some.inj hstep]
            refine ⟨rfl, fun _ => rfl, calls_goto (fun k i => ?_) nofun⟩
            rw [hr]
            exact nofun
          · rw [← Option.some.inj hstep]
            exact .refl id s
  | proceed r =>
      rw [step] at hstep
      rw [actor] at hactor
      rw [Apart] at hapart
      split at hstep
      case h_2 => cases hstep
      case h_1 m hr =>
        rw [hr] at hactor hapart
        cases hactor
        have hphase : ∀ k i, s.phase r ≠ .calling id k i := fun k i => by
          rw [hr]
          exact nofun
        split at hstep
        case h_1 k _ _ hcall =>
          have hid : id ≠ m.sessionId := by
            rintro rfl
            have hforeign : s.Foreign m := ⟨owner, howner, hne⟩
            rw [(h.call_eq_none_iff hforeign).mpr (hapart hforeign)] at hcall
            cases hcall
          rw [← Option.some.inj hstep]
          refine ⟨rfl, fun k' => Store.write_other _ _ fun heq => hid ?_,
            calls_goto hphase fun k' i heq => hid ?_⟩
          · exact congrArg Prod.fst heq
          · cases heq
            rfl
        · rw [← Option.some.inj hstep]
          exact ⟨rfl, fun _ => rfl, calls_goto hphase nofun⟩
  | opened r upstreamSid =>
      rw [step] at hstep
      rw [actor] at hactor
      split at hstep
      case h_2 => cases hstep
      case h_1 session i server servers hr =>
        rw [hr] at hactor
        cases hactor
        have hsound := h.sound r
        rw [hr] at hsound
        have hid : id ≠ session := by
          rintro rfl
          exact hne (Option.some.inj (howner.symm.trans hsound))
        have hphase : ∀ k i, s.phase r ≠ .calling id k i := fun k i => by
          rw [hr]
          exact nofun
        rw [← Option.some.inj hstep]
        cases upstreamSid with
        | none => exact ⟨rfl, fun _ => rfl, calls_goto hphase nofun⟩
        | some sid =>
            exact ⟨SessionStore.setUpstreamSession_other hid, fun _ => rfl,
              calls_goto hphase nofun⟩
  | answered r =>
      rw [step] at hstep
      rw [actor] at hactor
      split at hstep
      case h_2 => cases hstep
      case h_1 session k i hr =>
        rw [hr] at hactor
        cases hactor
        have hsound := h.sound r
        rw [hr] at hsound
        have hid : id ≠ session := by
          rintro rfl
          exact hne (Option.some.inj (howner.symm.trans hsound))
        rw [← Option.some.inj hstep]
        refine ⟨rfl, fun _ => untracked_other hid, calls_goto (fun k' i' hcalling => hid ?_) nofun⟩
        rw [hr] at hcalling
        cases hcalling
        rfl
  | other verb auth sessionId =>
      rw [← Option.some.inj hstep]
      exact .refl id s
  | expire id => cases hactor

omit [DecidableEq K] in
/-- What a step sends carries no upstream session of others. -/
theorem posts_of_apart (h : Inv s) {e : PythonEvent} (hapart : s.Apart key e) {b owner : Int}
    (hactor : s.actor e = some b) (howner : s.creator id = some owner) (hne : owner ≠ b)
    {sent : Text × Post} (hsent : sent ∈ s.posts key e) (hid : sent.1 = id) :
    sent.2.upstreamSid = none := by
  cases e with
  | post r m =>
      cases hactor
      rw [posts] at hsent
      rw [Apart] at hapart
      split at hsent
      case h_1 hr hkind =>
        split at hsent
        · cases hsent
        case isFalse hcancels =>
          obtain ⟨server, hserver, rfl⟩ := List.mem_map.mp hsent
          rw [hr, hkind] at hapart
          cases hid
          have hforeign := hapart ⟨owner, howner, hne⟩
          rw [if_neg hcancels] at hforeign
          exact hforeign server hserver
      · cases hsent
  | proceed r =>
      rw [posts] at hsent
      rw [Apart] at hapart
      rw [actor] at hactor
      split at hsent
      case h_1 m hr =>
        rw [hr] at hactor hapart
        cases hactor
        obtain ⟨sent', hcall, rfl⟩ := List.mem_map.mp hsent
        cases hid
        have hforeign : s.Foreign m := ⟨owner, howner, hne⟩
        rw [(h.call_eq_none_iff hforeign).mpr (hapart hforeign)] at hcall
        cases hcall
      · cases hsent
  | _ => cases hsent

/-- **A step respects the sessions of other identities** exactly when it is apart from them. -/
theorem respects_iff (h : Inv s) (e : PythonEvent) : s.Apart key e ↔ s.Respects key e := by
  constructor
  · intro hapart b hactor id owner howner hne
    exact ⟨fun sent hsent hid => posts_of_apart h hapart hactor howner hne hsent hid,
      fun s' hstep => untouched_of_apart h hapart hactor howner hne hstep⟩
  intro hrespects
  cases e with
  | post r m =>
      rw [Apart]
      split
      case h_1 hr hkind =>
        rintro ⟨owner, howner, hne⟩
        obtain ⟨hsent, hstep⟩ := hrespects _ rfl m.sessionId owner howner hne
        by_cases hcancels : m.cancels = true
        · rw [if_pos hcancels]
          intro k hk
          by_contra hflight
          obtain ⟨r', hr'⟩ := Option.ne_none_iff_exists'.mp hflight
          have hnext : s.step key (.post r m) =
              some { s.goto r' .cancelled with
                inflight := s.inflight.keep (· != (m.sessionId, k)) } := by
            rw [step, hr, hkind]
            dsimp only
            rw [handleNotification, if_pos hcancels, hk]
            dsimp only
            rw [cancelInflight, hr']
          have htracked := (hstep _ hnext).tracked k
          rw [(Inv.inFlight_calling hr').1] at htracked
          cases untracked_self.symm.trans htracked
        · rw [if_neg hcancels]
          intro server hserver
          refine hsent (m.sessionId, ⟨server, m.notification, s.upstreamSid m.sessionId server⟩)
            ?_ rfl
          rw [posts, hr, hkind]
          dsimp only
          rw [if_neg hcancels]
          exact List.mem_map.mpr ⟨server, hserver, rfl⟩
      · trivial
  | proceed r =>
      rw [Apart]
      split
      case h_1 m hr =>
        intro hforeign
        refine (h.call_eq_none_iff hforeign).mp ?_
        obtain ⟨owner, howner, hne⟩ := hforeign
        have hactor : s.actor (.proceed r) = some m.auth.identityId := by
          rw [actor, hr]
        obtain ⟨-, hstep⟩ := hrespects _ hactor m.sessionId owner howner hne
        by_contra hcall
        obtain ⟨⟨k, server, message⟩, hcall⟩ := Option.ne_none_iff_exists'.mp hcall
        have hnext : s.step key (.proceed r) =
            some { s.goto r (.calling m.sessionId k m.auth.identityId) with
              inflight := s.inflight.write (m.sessionId, k) r } := by
          rw [step, hr]
          dsimp only
          rw [hcall]
        have hbegun := ((hstep _ hnext).calls r k m.auth.identityId).mp (goto_self _ _)
        rw [hr] at hbegun
        cases hbegun
      · trivial
  | _ => trivial

end Owners

end PythonGateway

/-- **Sessions are their creators'.**  In the Rust gateway no message reaches the sessions of
other identities; in the Python gateway that is so in exactly the runs in which no notification
finds something to use under such a session, and no call finds it gone. -/
theorem sessions_owned {K : Type} [DecidableEq K] (P : Platform) (key : Json → Option K)
    (rustEvents : List RustEvent) (pythonEvents : List PythonEvent) :
    Transition.Along RustGateway.step (RustGateway.Respects P) .start rustEvents ∧
    (Transition.Along (PythonGateway.step key) (PythonGateway.Respects key) .start pythonEvents ↔
      Transition.Along (PythonGateway.step key) (PythonGateway.Apart key) .start
        pythonEvents) := by
  constructor
  · have hstart : RustGateway.start.sessions.Bare := fun id data h => by cases h
    have htrue : Transition.Along RustGateway.step (fun _ _ => True) .start rustEvents :=
      Transition.along_true fun _ _ => trivial
    exact (Transition.along_congr (I := fun s => s.sessions.Bare)
      (fun s e s' h _ hstep => RustGateway.step_bare h hstep)
      (fun s e h => iff_of_true trivial (RustGateway.respects h e)) hstart).mp htrue
  · exact (Transition.along_congr (I := PythonGateway.Inv)
      (fun s e s' h hapart hstep => h.step hapart hstep)
      (fun s e h => PythonGateway.respects_iff h e) PythonGateway.start_inv).symm

/-! ### A session of another identity -/

/-- Integers are keys. -/
def integerKey : Json → Option Int
  | .num (.int n) => some n
  | _ => none

/-- A client of the team opens a session. -/
def clientOpens : PythonMessage where
  servers := [jira]
  auth := ci
  sessionId := []
  body := request "initialize" (.obj [])
  fresh := "s".toList
  tokenValid := true
  route := none

/-- It calls a tool. -/
def clientCalls : PythonMessage :=
  { clientOpens with
    sessionId := "s".toList
    body := createRequest
    route := some (jira, upstreamBody .tool "create".toList createParams) }

/-- Another identity of the team sends a notification under the session. -/
def otherNotifies (method : String) : PythonMessage :=
  { clientOpens with
    auth := { ci with identityId := 2 }
    sessionId := "s".toList
    body := .obj [("method".toList, .str method.toList),
      ("params".toList, .obj [("requestId".toList, .num (.int 7))])] }

/-- What comes before: the session, its upstream session, and a call in flight. -/
def clientEvents : List PythonEvent :=
  [.post 0 clientOpens, .opened 0 (some "u1".toList), .post 1 clientCalls, .proceed 1]

theorem other_identity_reaches :
    ¬ Transition.Along (PythonGateway.step integerKey) (PythonGateway.Respects integerKey) .start
      (clientEvents.concat (.post 2 (otherNotifies "notifications/cancelled"))) ∧
    ¬ Transition.Along (PythonGateway.step integerKey) (PythonGateway.Respects integerKey) .start
      (clientEvents.concat (.post 2 (otherNotifies "notifications/progress"))) := by
  constructor
  · intro h
    have hlast := ((((h.2 _ rfl).2 _ rfl).2 _ rfl).2 _ rfl).1
    have htracked := ((hlast 2 rfl "s".toList 1 rfl (by decide)).2 _ rfl).tracked 7
    cases htracked
  · intro h
    have hlast := ((((h.2 _ rfl).2 _ rfl).2 _ rfl).2 _ rfl).1
    have hsent := (hlast 2 rfl "s".toList 1 rfl (by decide)).1 _ (List.mem_singleton_self _) rfl
    cases hsent

end CorexManager.Gateway
