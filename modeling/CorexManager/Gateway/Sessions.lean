import CorexManager.Data.Store
import CorexManager.Gateway.Mediation
import CorexManager.Logic.Transition

/-!
# Upstream sessions

`sessions.rs` stores with every session of the gateway the ids of its upstream sessions, and
the handlers look them up when they send something to a server.  A run is a list of messages,
each handled under a configuration, a world and a network of its own.

* `handleMessage_carrying` — `carried` is the upstream session with which the handlers send.
* `upstream_sessions_kept_iff` — the ids that servers return are kept in exactly those runs in
  which nothing is sent to a server that returned one.
* `returned_id_dropped` — an id is returned, and the next call does without it.
-/

namespace CorexManager.Gateway

open Data (Dict.lookup Dict.set Json Store Text intText)

/-! ### The session store -/

/-- `SessionData`. -/
structure SessionData where
  identityId : Int
  teamId : Int
  upstreams : List (Text × Text)

/-- The sessions in Valkey, by their ids. -/
abbrev SessionStore := Store Text SessionData

namespace SessionStore

variable (sessions : SessionStore) (id : Text) (serverId : Int)

/-- `create`, under the id it generates. -/
def create (identityId teamId : Int) : SessionStore := sessions.write id ⟨identityId, teamId, []⟩

/-- `get`. -/
def get : Option SessionData := if id = [] then none else sessions id

/-- `delete`, and the end of the time to live. -/
def delete : SessionStore := sessions.keep (· != id)

/-- `set_upstream_session`. -/
def setUpstreamSession (upstreamSid : Text) : SessionStore :=
  match get sessions id with
  | some data => sessions.write id
      { data with upstreams := Dict.set data.upstreams (intText serverId) upstreamSid }
  | none => sessions

/-- `get_upstream_session`. -/
def getUpstreamSession : Option Text :=
  (get sessions id).bind fun data => Dict.lookup data.upstreams (intText serverId)

variable {sessions id serverId}

theorem of_get {data : SessionData} (h : get sessions id = some data) :
    sessions id = some data := by
  rw [get] at h
  split at h
  · cases h
  · exact h

/-- An upstream session is stored in its session only. -/
theorem setUpstreamSession_other {k upstreamSid : Text} (h : k ≠ id) :
    setUpstreamSession sessions id serverId upstreamSid k = sessions k := by
  cases hget : get sessions id with
  | none => rw [setUpstreamSession, hget]
  | some data =>
      rw [setUpstreamSession, hget]
      exact Store.write_other _ _ h

/-- A session keeps its identity. -/
theorem setUpstreamSession_identity {k upstreamSid : Text} {data : SessionData}
    (h : setUpstreamSession sessions id serverId upstreamSid k = some data) :
    ∃ old, sessions k = some old ∧ old.identityId = data.identityId := by
  by_cases hk : k = id
  · subst hk
    cases hget : get sessions k with
    | none =>
        rw [setUpstreamSession, hget] at h
        exact ⟨data, h, rfl⟩
    | some old =>
        rw [setUpstreamSession, hget] at h
        refine ⟨old, of_get hget, ?_⟩
        rw [← Option.some.inj ((Store.write_self _ _ _).symm.trans h)]
  · rw [setUpstreamSession_other hk] at h
    exact ⟨data, h, rfl⟩

variable (sessions id serverId)

/-- No session has an upstream session. -/
def Bare : Prop := ∀ id data, sessions id = some data → data.upstreams = []

variable {sessions}

theorem Bare.create (h : Bare sessions) (identityId teamId : Int) :
    Bare (create sessions id identityId teamId) := by
  intro k data hdata
  by_cases hk : k = id
  · rw [SessionStore.create, hk, Store.write_self] at hdata
    rw [← Option.some.inj hdata]
  · rw [SessionStore.create, Store.write_other _ _ hk] at hdata
    exact h k data hdata

theorem Bare.delete (h : Bare sessions) : Bare (delete sessions id) := by
  intro k data hdata
  rw [SessionStore.delete, Store.keep] at hdata
  split at hdata
  · exact h k data hdata
  · cases hdata

theorem Bare.getUpstreamSession (h : Bare sessions) :
    getUpstreamSession sessions id serverId = none := by
  rw [SessionStore.getUpstreamSession, get]
  split
  · rfl
  cases hdata : sessions id with
  | none => rfl
  | some data =>
      rw [Option.bind_some, h id data hdata]
      rfl

end SessionStore

/-! ### What goes over the network -/

/-- `UpstreamResponse`: what the gateway could know of upstream sessions from it. -/
structure UpstreamResponse where
  status : Nat
  upstreamSessionId : Option Text

/-- The network while a message is handled. -/
structure Network where
  /-- The URL of the server is there and safe, and its circuit breaker lets the message through. -/
  admits : ServerConfig → Bool
  /-- What comes back of the server, if something does. -/
  response : ServerConfig → Option UpstreamResponse

namespace Network

variable (network : Network) (server : ServerConfig)

/-- `UpstreamClient::initialize`: the id of the upstream session, empty for a server without
sessions. -/
def initializeUpstream : Option Text :=
  if network.admits server then
    (network.response server).bind fun r =>
      if r.status = 200 then some (r.upstreamSessionId.getD []) else none
  else none

/-- The id a server returned in its response to `initialize`. -/
def returned : Option Text :=
  if server.transportType = "stdio".toList then none
  else (network.initializeUpstream server).filter (· ≠ [])

/-- A server returns another id. -/
def renews (u : Text) : Bool :=
  (network.response server).any fun r => r.upstreamSessionId.any (· != u)

end Network

/-- The message opens a session. -/
def opensSession (body : Json) : Bool :=
  !(isNotification body || isResponse body) && toolText "method" body = "initialize".toList

/-- The session in which the upstream sessions for a message are looked up: completions ask for
the empty one. -/
def lookupSession (sessionId : Text) (body : Json) : Text :=
  if !(isNotification body || isResponse body) &&
      toolText "method" body = "completion/complete".toList then []
  else sessionId

/-- The upstream session with which the handlers send something to a server. -/
def carried (w : World) (sessionId : Text) (body : Json) (server : ServerConfig) : Option Text :=
  if server.transportType = "stdio".toList then none
  else w.upstreamSession (lookupSession sessionId body) server.id

section Carried

variable (P : Platform) (w : World) (st : GatewayState) (auth : AuthContext)

/-- The world in which the servers are told the session `carried`, whatever the handlers look
up. -/
def World.carrying (sessionId : Text) (body : Json) : World :=
  { w with
    upstreamSession := fun _ _ => none
    answer := fun server message _ => w.answer server message (carried w sessionId body server) }

variable {w st}

theorem sendRequest_carrying {sessionId session : Text} {body message : Json}
    {server : ServerConfig} (h : lookupSession sessionId body = session) :
    sendRequest (w.carrying sessionId body) server message none =
      sendRequest w server message (w.upstreamSession session server.id) := by
  unfold sendRequest
  have hanswer : (w.carrying sessionId body).answer server message
      (if server.transportType = "stdio".toList then none else none) =
      w.answer server message (if server.transportType = "stdio".toList then none
        else w.upstreamSession session server.id) := by
    rw [← h]
    rfl
  rw [hanswer]

theorem handleCall_carrying {sessionId : Text} {body : Json}
    (h : lookupSession sessionId body = sessionId) (msgId params : Json) (kind : CallKind) :
    handleCall P (w.carrying sessionId body) st sessionId msgId params auth kind =
      handleCall P w st sessionId msgId params auth kind := by
  have hforward : ∀ server original pr params,
      forwardCall P (w.carrying sessionId body) st sessionId msgId auth kind server original pr
        params = forwardCall P w st sessionId msgId auth kind server original pr params := by
    intro server original pr params
    unfold forwardCall
    rw [show (w.carrying sessionId body).upstreamSession sessionId server.id = none from rfl,
      sendRequest_carrying h]
    rfl
  unfold handleCall
  simp only [hforward]
  rfl

theorem handleCompletion_carrying {sessionId : Text} {body : Json}
    (h : lookupSession sessionId body = []) (msgId params : Json) :
    handleCompletion (w.carrying sessionId body) st msgId params auth =
      handleCompletion w st msgId params auth := by
  have hnone : ∀ id, (w.carrying sessionId body).upstreamSession [] id = none := fun _ => rfl
  unfold handleCompletion
  simp only [hnone, sendRequest_carrying h]

theorem mergeLists_catalog_congr {w' : World} (h : w'.catalog = w.catalog)
    (list : ServerConfig → Catalog → Option (List Json)) (servers : List ServerConfig) :
    mergeLists w' list servers = mergeLists w list servers := by
  induction servers with
  | nil => rfl
  | cons s servers ih => rw [mergeLists, mergeLists, h, ih]

/-- The handlers of requests, given how calls and completions are handled. -/
theorem handleRequest_congr {w' : World} {sessionId : Text} {msgId params : Json} {method : Text}
    (h : w'.catalog = w.catalog)
    (hcall : ∀ kind : CallKind, method = kind.method →
      handleCall P w' st sessionId msgId params auth kind =
        handleCall P w st sessionId msgId params auth kind)
    (hcompletion : method = "completion/complete".toList →
      handleCompletion w' st msgId params auth = handleCompletion w st msgId params auth) :
    handleRequest P w' st sessionId msgId params auth method =
      handleRequest P w st sessionId msgId params auth method := by
  have hlists := mergeLists_catalog_congr (w := w) h
  have htools : handleToolsList P w' st msgId auth = handleToolsList P w st msgId auth := by
    rw [handleToolsList, handleToolsList, hlists]
  have hresources : handleResourcesList P w' st msgId auth =
      handleResourcesList P w st msgId auth := by
    rw [handleResourcesList, handleResourcesList, hlists]
  have htemplates : handleResourcesTemplatesList w' st msgId auth =
      handleResourcesTemplatesList w st msgId auth := by
    rw [handleResourcesTemplatesList, handleResourcesTemplatesList, h]
  have hprompts : handlePromptsList P w' st msgId auth = handlePromptsList P w st msgId auth := by
    rw [handlePromptsList, handlePromptsList, hlists]
  unfold handleRequest
  rw [htools, hresources, htemplates, hprompts]
  refine ite_congr rfl (fun _ => rfl) fun _ => ?_
  refine ite_congr rfl (fun _ => rfl) fun _ => ?_
  refine ite_congr rfl (fun _ => rfl) fun _ => ?_
  refine ite_congr rfl (fun _ => rfl) fun _ => ?_
  refine ite_congr rfl (fun _ => rfl) fun _ => ?_
  refine ite_congr rfl (hcall .tool) fun _ => ?_
  refine ite_congr rfl (hcall .resource) fun _ => ?_
  refine ite_congr rfl (hcall .prompt) fun _ => ?_
  refine ite_congr rfl (fun _ => rfl) fun _ => ?_
  exact ite_congr rfl hcompletion fun _ => rfl

theorem handleRequest_carrying {sessionId : Text} {body : Json}
    (hrequest : (isNotification body || isResponse body) = false) (msgId params : Json) :
    handleRequest P (w.carrying sessionId body) st sessionId msgId params auth
        (toolText "method" body) =
      handleRequest P w st sessionId msgId params auth (toolText "method" body) := by
  refine handleRequest_congr P auth rfl (fun kind hkind => ?_) fun hcompletion => ?_
  · refine handleCall_carrying P auth ?_ msgId params kind
    rw [lookupSession, hrequest, hkind]
    cases kind <;> rfl
  · refine handleCompletion_carrying auth ?_ msgId params
    rw [lookupSession, hrequest, hcompletion]
    rfl

/-- **What the handlers send** goes out with the upstream session `carried`. -/
theorem handleMessage_carrying (sessionId : Text) (body : Json) :
    handleMessage P (w.carrying sessionId body) st auth sessionId body =
      handleMessage P w st auth sessionId body := by
  unfold handleMessage
  dsimp only
  refine ite_congr rfl (fun _ => rfl) fun hrequest => ?_
  refine ite_congr rfl (fun _ => rfl) fun _ => ?_
  refine ite_congr rfl (fun _ => rfl) fun _ => ?_
  refine ite_congr rfl (fun _ => rfl) fun _ => ?_
  rw [handleRequest_carrying P auth (Bool.eq_false_iff.mpr hrequest)]
  rfl

end Carried

/-! ### Runs -/

/-- A message of an authenticated client, and what it is handled with. -/
structure Incoming where
  state : GatewayState
  world : World
  network : Network
  /-- Valkey answers the check of the session, and the lookup for a server. -/
  reads : Option Int → Bool
  auth : AuthContext
  sessionId : Text
  body : Json
  /-- The id that `create` generates. -/
  fresh : Text

/-- A message that is sent to a server, and the upstream session it is sent with. -/
structure Post where
  server : ServerConfig
  message : Json
  upstreamSid : Option Text

namespace Incoming

variable (P : Platform) (m : Incoming) (sessions : SessionStore)

/-- The world with the sessions of the store. -/
def worldOver : World :=
  { m.world with
    sessionIdentity := fun id =>
      if m.reads none then (SessionStore.get sessions id).map SessionData.identityId else none
    upstreamSession := fun id serverId =>
      if m.reads (some serverId) then SessionStore.getUpstreamSession sessions id serverId
      else none
    createSession := fun _ _ => m.fresh }

/-- What the gateway does. -/
def handle : Run Response := handleMessage P (m.worldOver sessions) m.state m.auth m.sessionId m.body

/-- What it sends on behalf of the session. -/
def posts : List Post :=
  (m.handle P sessions).forwarded.filterMap fun (server, message) =>
    if m.network.admits server then
      some ⟨server, message, carried (m.worldOver sessions) m.sessionId m.body server⟩
    else none

/-- The id a server returned in its response to `initialize`. -/
def returned (serverId : Int) : Option Text :=
  ((m.state.teamServers m.auth.teamId).find? fun s => s.id == serverId).bind m.network.returned

end Incoming

/-- What happens. -/
inductive SessionEvent where
  | message (m : Incoming)
  | expire (id : Text)

/-- The store, and the ids in force: those that servers returned when a session was initialized,
until the session is gone or the server returns another one. -/
structure Sessions where
  store : SessionStore
  inForce : Text → Int → Option Text

namespace Sessions

/-- Before the first message. -/
def start : Sessions := ⟨fun _ => none, fun _ _ => none⟩

variable (P : Platform) (s : Sessions)

/-- What a message leaves in force. -/
def kept (m : Incoming) (id : Text) (serverId : Int) : Option Text :=
  (s.inForce id serverId).filter fun u =>
    !(id == m.sessionId && (m.posts P s.store).any fun post =>
      post.server.id == serverId && m.network.renews post.server u)

/-- One step; the ids the servers return are in the history only. -/
def step : SessionEvent → Option Sessions
  | .message m =>
      if opensSession m.body then
        some ⟨s.store.create m.fresh m.auth.identityId m.auth.teamId,
          fun id => if id = m.fresh then m.returned else s.inForce id⟩
      else some ⟨s.store, s.kept P m⟩
  | .expire id =>
      some ⟨s.store.delete id, fun k => if k = id then fun _ => none else s.inForce k⟩

/-- What is sent carries the id in force. -/
def Loyal : SessionEvent → Prop
  | .message m => ∀ post ∈ m.posts P s.store, ∀ u,
      s.inForce m.sessionId post.server.id = some u → post.upstreamSid = some u
  | .expire _ => True

/-- Nothing is sent to a server with an id in force. -/
def Stateless : SessionEvent → Prop
  | .message m => ∀ post ∈ m.posts P s.store, s.inForce m.sessionId post.server.id = none
  | .expire _ => True

end Sessions

section Runs

variable {P : Platform} {s s' : Sessions} {e : SessionEvent}

/-- No step stores an upstream session. -/
theorem Sessions.step_bare (h : s.store.Bare) (hstep : s.step P e = some s') : s'.store.Bare := by
  cases e with
  | message m =>
      rw [step] at hstep
      split at hstep
      · rw [← Option.some.inj hstep]
        exact h.create m.fresh m.auth.identityId m.auth.teamId
      · rw [← Option.some.inj hstep]
        exact h
  | expire id =>
      rw [← Option.some.inj hstep]
      exact h.delete id

/-- Without stored sessions everything is sent without one. -/
theorem Incoming.posts_bare {m : Incoming} {sessions : SessionStore} (h : sessions.Bare)
    {post : Post} (hpost : post ∈ m.posts P sessions) : post.upstreamSid = none := by
  obtain ⟨sent, -, hsent⟩ := List.mem_filterMap.mp hpost
  dsimp only at hsent
  split at hsent
  · rw [← Option.some.inj hsent]
    show carried _ _ _ _ = none
    unfold carried Incoming.worldOver
    dsimp only
    rw [h.getUpstreamSession, ite_self, ite_self]
  · cases hsent

theorem Sessions.loyal_iff (h : s.store.Bare) (e : SessionEvent) :
    s.Loyal P e ↔ s.Stateless P e := by
  cases e with
  | message m =>
      refine forall₂_congr fun post hpost => ?_
      rw [Incoming.posts_bare h hpost]
      constructor
      · intro hloyal
        exact Option.eq_none_iff_forall_ne_some.mpr fun u hu => nomatch hloyal u hu
      · intro hnone u hu
        rw [hnone] at hu
        cases hu
  | expire id => exact Iff.rfl

/-- **Upstream sessions are kept** in exactly the runs in which nothing is sent, on behalf of a
session, to a server that returned an id when the session was initialized. -/
theorem upstream_sessions_kept_iff (P : Platform) (events : List SessionEvent) :
    Transition.Along (Sessions.step P) (Sessions.Loyal P) .start events ↔
      Transition.Along (Sessions.step P) (Sessions.Stateless P) .start events := by
  have hstart : Sessions.start.store.Bare := fun id data h => by cases h
  exact Transition.along_congr (I := fun s => s.store.Bare)
    (fun s e s' h _ hstep => Sessions.step_bare h hstep) (fun s e h => Sessions.loyal_iff h e) hstart

end Runs

/-! ### A session id that is dropped -/

/-- A network in which every server returns a session id. -/
def assigningNetwork : Network where
  admits _ := true
  response _ := some ⟨200, some "u1".toList⟩

/-- The client opens a session. -/
def opening : Incoming where
  state := .ofBundle .plain (jiraBundle [])
  world := calmWorld
  network := assigningNetwork
  reads _ := true
  auth := ci
  sessionId := []
  body := request "initialize" (.obj [])
  fresh := "s".toList

/-- The client calls a tool in its session. -/
def calling : Incoming := { opening with sessionId := "s".toList, body := createRequest }

/-- The server has returned an id, and the call is sent without it. -/
theorem returned_id_dropped :
    ¬ Transition.Along (Sessions.step .plain) (Sessions.Loyal .plain) .start
      [.message opening, .message calling] := by
  intro h
  have hcall := (h.2 _ rfl).1
  have hposts : calling.posts .plain (SessionStore.create (fun _ => none) "s".toList 1 1) =
      [⟨jira, upstreamBody .tool "create".toList createParams, none⟩] := rfl
  have hsent := hcall ⟨jira, upstreamBody .tool "create".toList createParams, none⟩
    (hposts ▸ List.mem_singleton_self _) "u1".toList rfl
  cases hsent

end CorexManager.Gateway
