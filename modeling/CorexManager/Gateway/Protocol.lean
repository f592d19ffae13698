import CorexManager.Gateway.Discovery
import CorexManager.Gateway.Scan
import CorexManager.Gateway.Skills
import CorexManager.Rust.Serde

/-!
# The protocol handler

`protocol.rs`: what the gateway answers to the message of an authenticated client, and what it
sends to the upstream servers on the way.  A handler is a *run*: the effects it has, in order,
and how it ends.  What the handlers ask of the stores, of the rate limiter and of the upstream
servers is the `World`.
-/

namespace CorexManager.Gateway

open Data (Dict.lookup Dict.set Json Text intText)

/-! ### Configuration and state -/

/-- `TeamConfig`. -/
structure TeamConfig where
  id : Int
  discoveryMode : Option Text

/-- `ConfigBundle`. -/
structure ConfigBundle where
  servers : List ServerConfig
  teams : List TeamConfig
  policies : List PolicyConfig
  dlpRules : List DlpRuleConfig
  guardrails : List GuardrailConfig
  skills : List SkillConfig
  defaultRpm : Nat
  concurrentLimit : Nat
  teamRpmOverrides : Json

/-- `GatewayState`. -/
structure GatewayState where
  config : ConfigBundle
  policyEngine : PolicyEngine
  dlpRules : List CompiledDlpRule
  guardrailRules : List CompiledGuardrailRule
  skills : SkillsRegistry

/-- The state `main` builds from a bundle. -/
def GatewayState.ofBundle (P : Platform) (bundle : ConfigBundle) : GatewayState where
  config := bundle
  policyEngine := .loadSorted P bundle.policies
  dlpRules := compileDlpRules P bundle.dlpRules
  guardrailRules := compileGuardrailRules P bundle.guardrails
  skills := .load P bundle.skills

namespace GatewayState

/-- `team_servers`. -/
def teamServers (st : GatewayState) (teamId : Int) : List ServerConfig :=
  st.config.servers.filter fun s => s.enabled && s.teamId == teamId

/-- `discovery_mode`. -/
def discoveryMode (st : GatewayState) (teamId : Int) : DiscoveryMode :=
  match (st.config.teams.find? fun t => t.id == teamId).bind TeamConfig.discoveryMode with
  | some mode => .parse mode
  | none => .passthrough

/-- `server_by_namespace`. -/
def serverByNamespace (st : GatewayState) (ns : Text) (teamId : Int) : Option ServerConfig :=
  st.config.servers.find? fun s => s.serverNamespace == ns && s.teamId == teamId && s.enabled

/-- The servers a team sees. -/
def visible (st : GatewayState) (teamId : Int) : List ServerConfig :=
  visibleServers (st.teamServers teamId) (st.discoveryMode teamId)

end GatewayState

/-- What the handlers ask of the rest of the system: the stored catalogs, the identity of a
session and its upstream sessions, a new session, the sliding window and the slots of the rate
limiter, and the answers of the upstream servers. -/
structure World where
  catalog : Int → Option Catalog
  sessionIdentity : Text → Option Int
  upstreamSession : Text → Int → Option Text
  createSession : Int → Int → Text
  slidingWindow : Int → Text → Int → Bool
  slot : Int → Int → Bool
  answer : ServerConfig → Json → Option Text → Nat × Json

/-! ### Runs -/

/-- What a handler does besides answering. -/
inductive Effect where
  /-- The access policy was evaluated for a method and a name. -/
  | evaluated (method name : Text) (r : PolicyResult)
  /-- The rate limit of an identity was checked for a name. -/
  | rateChecked (identityId : Int) (name : Text) (allowed : Bool)
  /-- Parameters were scanned by the DLP rules. -/
  | dlpScanned (params : Json) (blocked : Bool)
  /-- Parameters were scanned by the guardrail rules. -/
  | guardrailScanned (params : Json) (blocked : Bool)
  /-- The gateway opened a session with a server. -/
  | handshake (server : ServerConfig)
  /-- A message of the client was forwarded. -/
  | sent (server : ServerConfig) (message : Json)

/-- A response. -/
structure Response where
  status : Nat
  body : Option Json
  sessionId : Option Text

/-- How a run ends: with a value to go on with, with a response, or in a panic. -/
inductive Exit (α : Type) where
  | value (a : α)
  | reply (r : Response)
  | panic

/-- A run. -/
structure Run (α : Type) where
  effects : List Effect
  exit : Exit α

namespace Run

/-- A run without effects. -/
def pure {α : Type} (a : α) : Run α := ⟨[], .value a⟩

/-- A run that has one effect. -/
def tell (e : Effect) : Run Unit := ⟨[e], .value ()⟩

/-- A run that ends with a response. -/
def reply {α : Type} (r : Response) : Run α := ⟨[], .reply r⟩

/-- Go on with a value that is there, or panic. -/
def orPanic {α : Type} : Option α → Run α
  | some a => pure a
  | none => ⟨[], .panic⟩

/-- Go on with a value that is there, or end with a response. -/
def orReply {α : Type} (r : Response) : Option α → Run α
  | some a => pure a
  | none => reply r

/-- One run after another. -/
def bind {α β : Type} (x : Run α) (f : α → Run β) : Run β :=
  match x.exit with
  | .value a => ⟨x.effects ++ (f a).effects, (f a).exit⟩
  | .reply r => ⟨x.effects, .reply r⟩
  | .panic => ⟨x.effects, .panic⟩

instance : Monad Run where
  pure := Run.pure
  bind := Run.bind

/-- What the client gets: nothing if the run panics. -/
def response (x : Run Response) : Option Response :=
  match x.exit with
  | .value r => some r
  | .reply r => some r
  | .panic => none

/-- What is forwarded upstream. -/
def forwarded {α : Type} (x : Run α) : List (ServerConfig × Json) :=
  x.effects.filterMap fun e =>
    match e with
    | .sent server message => some (server, message)
    | _ => none

variable {α β : Type}

theorem bind_value {x : Run α} (f : α → Run β) {a : α} (h : x.exit = .value a) :
    x >>= f = ⟨x.effects ++ (f a).effects, (f a).exit⟩ := by
  show Run.bind x f = _
  rw [Run.bind, h]

theorem bind_reply {x : Run α} (f : α → Run β) {r : Response} (h : x.exit = .reply r) :
    x >>= f = ⟨x.effects, .reply r⟩ := by
  show Run.bind x f = _
  rw [Run.bind, h]

theorem bind_panic {x : Run α} (f : α → Run β) (h : x.exit = .panic) :
    x >>= f = ⟨x.effects, .panic⟩ := by
  show Run.bind x f = _
  rw [Run.bind, h]

/-- A run that goes on with a value has gone through both its parts. -/
theorem value_bind {x : Run α} {f : α → Run β} {b : β} (h : (x >>= f).exit = .value b) :
    ∃ a, x.exit = .value a ∧ (f a).exit = .value b ∧
      (x >>= f).effects = x.effects ++ (f a).effects := by
  cases hx : x.exit with
  | value a =>
      rw [bind_value f hx] at h ⊢
      exact ⟨a, rfl, h, rfl⟩
  | reply r =>
      rw [bind_reply f hx] at h
      cases h
  | panic =>
      rw [bind_panic f hx] at h
      cases h

@[simp] theorem pure_effects (a : α) : (Run.pure a).effects = [] := rfl

@[simp] theorem pure_exit (a : α) : (Run.pure a).exit = .value a := rfl

@[simp] theorem tell_effects (e : Effect) : (tell e).effects = [e] := rfl

@[simp] theorem tell_exit (e : Effect) : (tell e).exit = .value () := rfl

@[simp] theorem reply_effects (r : Response) : (reply r : Run α).effects = [] := rfl

@[simp] theorem reply_exit (r : Response) : (reply r : Run α).exit = .reply r := rfl

@[simp] theorem orPanic_effects (a : Option α) : (orPanic a).effects = [] := by
  cases a <;> rfl

@[simp] theorem orReply_effects (r : Response) (a : Option α) : (orReply r a).effects = [] := by
  cases a <;> rfl

theorem orPanic_value {o : Option α} {a : α} : (orPanic o).exit = .value a ↔ o = some a := by
  cases o <;> simp [orPanic]

theorem orReply_value {r : Response} {o : Option α} {a : α} :
    (orReply r o).exit = .value a ↔ o = some a := by
  cases o <;> simp [orReply]

end Run

/-! ### Responses -/

/-- `error_response`. -/
def errorResponse (id : Json) (code : Int) (message : Text) (status : Nat) : Response where
  status := status
  body := some (.obj [("jsonrpc".toList, .str "2.0".toList), ("id".toList, id),
    ("error".toList, .obj [("code".toList, .num (.int code)), ("message".toList, .str message)])])
  sessionId := none

/-- `success_response`. -/
def successResponse (id result : Json) : Response where
  status := 200
  body := some (.obj [("jsonrpc".toList, .str "2.0".toList), ("id".toList, id),
    ("result".toList, result)])
  sessionId := none

/-- `JSONRPC_INVALID_REQUEST` and the other codes. -/
def invalidRequest : Int := -32600
def methodNotFound : Int := -32601
def gatewayError : Int := -32000
def policyDenied : Int := -32010
def rateLimited : Int := -32029
def dlpBlocked : Int := -32020
def guardrailBlocked : Int := -32021

/-- The answer of an upstream server, under the id of the client. -/
def relayed (id : Json) (status : Nat) (body : Json) : Response where
  status :=
    if status = 200 then 200
    else if 100 ≤ status ∧ status < 1000 then status
    else 502
  body := some (setField "jsonrpc".toList (.str "2.0".toList) (setField "id".toList id body))
  sessionId := none

/-! ### Lists -/

/-- A list over the visible servers: what each of them contributes, and a warning for every
server without a catalog. -/
def mergeLists (w : World) (list : ServerConfig → Catalog → Option (List Json)) :
    List ServerConfig → Option (List Json × List Json)
  | [] => some ([], [])
  | s :: servers =>
      match w.catalog s.id with
      | none => do
          let (merged, warnings) ← mergeLists w list servers
          some (merged, .obj [("server".toList, .str s.serverNamespace),
            ("error".toList, .str "catalog not available".toList)] :: warnings)
      | some catalog => do
          let items ← list s catalog
          let (merged, warnings) ← mergeLists w list servers
          some (items ++ merged, warnings)

/-- The result of a list request. -/
def listResult (key : Text) (items warnings : List Json) : Json :=
  .obj ((key, .arr items) ::
    if warnings = [] then []
    else [("_meta".toList, .obj [("warnings".toList, .arr warnings)])])

section Handlers

variable (P : Platform) (w : World) (st : GatewayState)

/-- What a server contributes to `tools/list`. -/
def listTools (auth : AuthContext) (s : ServerConfig) (catalog : Catalog) : Option (List Json) :=
  filterToolList P (prefixListItems catalog.tools s.serverNamespace) s.serverNamespace auth []
    st.policyEngine

/-- What a server contributes to `resources/list`. -/
def listResources (auth : AuthContext) (s : ServerConfig) (catalog : Catalog) :
    Option (List Json) :=
  filterResourceList P (wrapListItems catalog.resources s.serverNamespace) s.serverNamespace auth
    [] st.policyEngine

/-- What a server contributes to `prompts/list`. -/
def listPrompts (auth : AuthContext) (s : ServerConfig) (catalog : Catalog) : Option (List Json) :=
  filterPromptList P (prefixListItems catalog.prompts s.serverNamespace) s.serverNamespace auth []
    st.policyEngine

/-- `handle_tools_list`. -/
def handleToolsList (msgId : Json) (auth : AuthContext) : Run Response := do
  let (merged, warnings) ← Run.orPanic (mergeLists w (listTools P st auth) (st.visible auth.teamId))
  let injected := if st.discoveryMode auth.teamId = .passthrough then [] else metaToolDefinitions
  Run.pure (successResponse msgId (listResult "tools".toList (merged ++ injected) warnings))

/-- `handle_resources_list`. -/
def handleResourcesList (msgId : Json) (auth : AuthContext) : Run Response := do
  let (merged, warnings) ← Run.orPanic
    (mergeLists w (listResources P st auth) (st.visible auth.teamId))
  Run.pure (successResponse msgId (listResult "resources".toList merged warnings))

/-- A resource template of a server. -/
def resourceTemplate (ns : Text) (res : Json) : Option Json :=
  ((res.get "uriTemplate".toList).bind Json.asStr).map fun template =>
    let metadata := ((res.get "_meta".toList).bind Json.asObject).getD []
    setField "_meta".toList (.obj (Dict.set metadata "mcp_server".toList (.str ns)))
      (setField "uriTemplate".toList (.str (wrapResourceUri ns template)) res)

/-- `handle_resources_templates_list`. -/
def handleResourcesTemplatesList (msgId : Json) (auth : AuthContext) : Run Response :=
  let merged := (st.visible auth.teamId).flatMap fun s =>
    ((w.catalog s.id).map Catalog.resources).getD [] |>.filterMap
      (resourceTemplate s.serverNamespace)
  Run.pure (successResponse msgId (.obj [("resourceTemplates".toList, .arr merged)]))

/-- `handle_prompts_list`. -/
def handlePromptsList (msgId : Json) (auth : AuthContext) : Run Response := do
  let (merged, warnings) ← Run.orPanic
    (mergeLists w (listPrompts P st auth) (st.visible auth.teamId))
  let skills ← Run.orPanic
    (if st.skills.hasSkills then SkillsRegistry.getEnabledSkills P auth st.skills.skills
      else some [])
  Run.pure (successResponse msgId
    (listResult "prompts".toList (merged ++ skills.map SkillsRegistry.buildPromptEntry) warnings))

/-! ### Calls -/

/-- The three kinds of call. -/
inductive CallKind where
  | tool | resource | prompt
  deriving DecidableEq, Repr

namespace CallKind

/-- The word for a kind. -/
def text : CallKind → Text
  | tool => "tool".toList
  | resource => "resource".toList
  | prompt => "prompt".toList

/-- The method of a kind. -/
def method : CallKind → Text
  | tool => "tools/call".toList
  | resource => "resources/read".toList
  | prompt => "prompts/get".toList

end CallKind

/-- The name or URI a call is for. -/
def callName (params : Json) : Text :=
  (((match params.get "name".toList with
    | some v => some v
    | none => params.get "uri".toList)).bind Json.asStr).getD []

/-- The namespace and the original name in the name of a call. -/
def callTarget (kind : CallKind) (name : Text) : Option (Text × Text) :=
  match kind with
  | .resource =>
      match unwrapResourceUri name with
      | (some ns, uri) => some (ns, uri)
      | (none, _) => Rust.splitOncePair '_' name
  | _ => Rust.splitOncePair '_' name

/-- The response to a name without a namespace. -/
def missingNamespace (msgId : Json) (kind : CallKind) : Response :=
  errorResponse msgId methodNotFound
    (if kind = .resource then "Missing namespace in resource URI".toList
      else "Missing namespace prefix in ".toList ++ kind.text ++ " name".toList) 200

/-- The access check of a call. -/
def checkAccess (auth : AuthContext) (kind : CallKind) (ns name : Text) (params : Json) :
    Option PolicyResult :=
  match kind with
  | .tool => checkToolAccess P kind.method name ns auth (params.get "arguments".toList) []
      st.policyEngine
  | .resource => checkResourceAccess P kind.method name ns auth [] st.policyEngine
  | .prompt => checkPromptAccess P kind.method name ns auth [] st.policyEngine

/-- `get_team_rpm`. -/
def getTeamRpm (overrides : Json) (teamId default : Int) : Int :=
  ((overrides.get (intText teamId)).bind Rust.i64).getD default

/-- `check_rate_limit`; a limit of zero is none. -/
def checkRateLimit (identityId : Int) (name : Text) (maxRpm : Int) : Bool :=
  if maxRpm ≤ 0 then true else w.slidingWindow identityId name maxRpm

/-- `acquire_concurrent_slot`. -/
def acquireConcurrentSlot (identityId limit : Int) : Bool :=
  if limit ≤ 0 then true else w.slot identityId limit

/-- The policy check. -/
def admitByPolicy (msgId : Json) (auth : AuthContext) (kind : CallKind) (ns name : Text)
    (params : Json) : Run PolicyResult := do
  let pr ← Run.orPanic (checkAccess P st auth kind ns name params)
  Run.tell (.evaluated kind.method name pr)
  if pr.denied then
    Run.reply (errorResponse msgId policyDenied ("Policy denied: ".toList ++ pr.ruleName) 200)
  else Run.pure pr

/-- The rate limit. -/
def admitByRate (msgId : Json) (auth : AuthContext) (name : Text) (pr : PolicyResult) :
    Run Unit :=
  if pr.skipRatelimit then Run.pure ()
  else do
    let allowed := checkRateLimit w auth.identityId name
      (getTeamRpm st.config.teamRpmOverrides auth.teamId st.config.defaultRpm)
    let refused := errorResponse msgId rateLimited ("Rate limit exceeded for ".toList ++ name) 200
    Run.tell (.rateChecked auth.identityId name allowed)
    if allowed then Run.pure () else Run.reply refused

/-- A scan of what is sent or received: data that is blocked is answered with an error, and
data that is modified is replaced. -/
def admitByScan (scan : Option ScanResult) (effect : Bool → Effect) (blocked : Response)
    (data : Json) : Run Json := do
  let result ← Run.orPanic scan
  Run.tell (effect result.blocked)
  if result.blocked then Run.reply blocked
  else Run.pure (if result.modified then result.modifiedData else data)

/-- The DLP scan of the parameters. -/
def admitByDlp (msgId : Json) (pr : PolicyResult) (params : Json) : Run Json :=
  if pr.skipDlp || st.dlpRules.isEmpty then Run.pure params
  else admitByScan (dlpScan P .request params st.dlpRules) (.dlpScanned params)
    (errorResponse msgId dlpBlocked "DLP blocked in request".toList 200) params

/-- The guardrail scan of the parameters. -/
def admitByGuardrails (msgId params : Json) : Run Json :=
  if st.guardrailRules.isEmpty then Run.pure params
  else admitByScan (guardrailScan P .request params st.guardrailRules) (.guardrailScanned params)
    (errorResponse msgId guardrailBlocked "Guardrail blocked in request".toList 200) params

/-- A field that is there, replaced. -/
def replaceField (key : Text) (v : Json) (j : Json) : Json :=
  if (j.get key).isSome then setField key v j else j

/-- The message that is forwarded for a call, with the prefix stripped. -/
def upstreamBody (kind : CallKind) (original : Text) (params : Json) : Json :=
  .obj [("jsonrpc".toList, .str "2.0".toList), ("id".toList, .num (.int 1)),
    ("method".toList, .str kind.method),
    ("params".toList, replaceField "uri".toList (.str original)
      (replaceField "name".toList (.str original) params))]

/-- A request to a server: its transport decides whether there is an upstream session. -/
def sendRequest (server : ServerConfig) (message : Json) (upstreamSid : Option Text) :
    Run (Nat × Json) := do
  Run.tell (.sent server message)
  Run.pure (w.answer server message
    (if server.transportType = "stdio".toList then none else upstreamSid))

/-- The scan of a response by a rule set: a body that is no object is not scanned. -/
def scanResponse (rulesEmpty : Bool) (scan : Option ScanResult) (blocked : Response)
    (body : Json) : Run Json :=
  if rulesEmpty || body.asObject.isNone then Run.pure body
  else do
    let result ← Run.orPanic scan
    if result.blocked then Run.reply blocked
    else Run.pure (if result.modified then result.modifiedData else body)

/-- The part of `handle_call` that forwards. -/
def forwardCall (sessionId : Text) (msgId : Json) (auth : AuthContext) (kind : CallKind)
    (server : ServerConfig) (original : Text) (pr : PolicyResult) (params : Json) :
    Run Response :=
  if acquireConcurrentSlot w auth.identityId st.config.concurrentLimit then do
    let (status, body) ← sendRequest w server (upstreamBody kind original params)
      (w.upstreamSession sessionId server.id)
    let body ← scanResponse (pr.skipDlp || st.dlpRules.isEmpty)
      (dlpScan P .response body st.dlpRules)
      (errorResponse msgId dlpBlocked "DLP blocked in response".toList 200) body
    let body ← scanResponse st.guardrailRules.isEmpty
      (guardrailScan P .response body st.guardrailRules)
      (errorResponse msgId guardrailBlocked "Guardrail blocked in response".toList 200) body
    Run.pure (relayed msgId status body)
  else Run.reply
    (errorResponse msgId rateLimited "Concurrent request limit exceeded".toList 200)

/-- `handle_meta_tool_call`. -/
def handleMetaToolCall (msgId params : Json) (auth : AuthContext) : Run Response := do
  let catalogs := (st.visible auth.teamId).filterMap fun s =>
    (w.catalog s.id).map fun c => (s.id, c)
  let result ← Run.orPanic (executeMetaTool P.unicode (toolText "name" params)
    ((params.get "arguments".toList).getD (.obj [])) (st.teamServers auth.teamId) catalogs)
  Run.pure (successResponse msgId result)

/-- A skill, rendered by the gateway. -/
def skillPrompt (msgId : Json) (name : Text) : Response :=
  match st.skills.getSkillByName name with
  | some skill =>
      if skill.config.publishedVersionId.isNone then
        errorResponse msgId methodNotFound ("Skill not published: ".toList ++ name) 200
      else ⟨200, some (setField "id".toList msgId (SkillsRegistry.renderSkillPrompt skill)), none⟩
  | none => errorResponse msgId methodNotFound ("Unknown skill: ".toList ++ name) 200

/-- `handle_call`. -/
def handleCall (sessionId : Text) (msgId params : Json) (auth : AuthContext) (kind : CallKind) :
    Run Response :=
  let name := callName params
  if kind = .tool ∧ isMetaTool name then handleMetaToolCall P w st msgId params auth
  else do
    let (ns, original) ← Run.orReply (missingNamespace msgId kind) (callTarget kind name)
    if ns = skillNamespace ∧ kind = .prompt then Run.pure (skillPrompt st msgId original)
    else
      let server ← Run.orReply
        (errorResponse msgId methodNotFound ("Unknown namespace: ".toList ++ ns) 200)
        (st.serverByNamespace ns auth.teamId)
      let pr ← admitByPolicy P st msgId auth kind ns name params
      admitByRate w st msgId auth name pr
      let params ← admitByDlp P st msgId pr params
      let params ← admitByGuardrails P st msgId params
      forwardCall P w st sessionId msgId auth kind server original pr params

/-! ### Completions and notifications -/

/-- The namespace of what a completion refers to. -/
def completionNamespace (reference : Json) : Option Text :=
  let name := (((match reference.get "name".toList with
    | some v => some v
    | none => reference.get "uri".toList)).bind Json.asStr).getD []
  if toolText "type" reference = "ref/resource".toList then (unwrapResourceUri name).1
  else (Rust.splitOncePair '_' name).map Prod.fst

/-- `handle_completion`. -/
def handleCompletion (msgId params : Json) (auth : AuthContext) : Run Response := do
  let reference ← Run.orReply (errorResponse msgId invalidRequest "Missing ref".toList 200)
    (params.get "ref".toList)
  let ns ← Run.orReply
    (errorResponse msgId methodNotFound "Missing namespace in completion ref".toList 200)
    (completionNamespace reference)
  let server ← Run.orReply
    (errorResponse msgId methodNotFound ("Unknown namespace: ".toList ++ ns) 200)
    (st.serverByNamespace ns auth.teamId)
  let message := .obj [("jsonrpc".toList, .str "2.0".toList), ("id".toList, .num (.int 1)),
    ("method".toList, .str "completion/complete".toList), ("params".toList, params)]
  let (status, body) ← sendRequest w server message (w.upstreamSession [] server.id)
  Run.pure (relayed msgId status body)

/-- `handle_notification`: every notification but a cancellation goes to all servers of the
team. -/
def handleNotification (method : Text) (params : Json) (auth : AuthContext) : Run Unit :=
  if method = "notifications/cancelled".toList then Run.pure ()
  else
    let notification := .obj [("jsonrpc".toList, .str "2.0".toList),
      ("method".toList, .str method), ("params".toList, params)]
    ⟨(st.teamServers auth.teamId).map fun s => .sent s notification, .value ()⟩

/-- `handle_initialize`. -/
def handleInitialize (msgId : Json) (auth : AuthContext) : Run Response :=
  let servers := st.teamServers auth.teamId
  let lists := fun (items : Catalog → List Json) => servers.any fun s =>
    (w.catalog s.id).any fun c => !(items c).isEmpty
  let capability := fun (key : Text) (entries : List (Text × Json)) (there : Bool) =>
    if there then [(key, Json.obj entries)] else []
  let changed := ("listChanged".toList, Json.bool true)
  let capabilities :=
    capability "tools".toList [changed]
      (lists Catalog.tools || st.discoveryMode auth.teamId != .passthrough) ++
    capability "resources".toList [changed, ("subscribe".toList, .bool true)]
      (lists Catalog.resources) ++
    capability "prompts".toList [changed] (lists Catalog.prompts || st.skills.hasSkills) ++
    capability "logging".toList [] true
  let result := .obj [("protocolVersion".toList, .str "2025-11-25".toList),
    ("capabilities".toList, .obj capabilities),
    ("serverInfo".toList, .obj [("name".toList, .str "mcp-gateway".toList),
      ("version".toList, .str "0.2.0".toList)])]
  ⟨servers.map .handshake, .value { successResponse msgId result with
    sessionId := some (w.createSession auth.identityId auth.teamId) }⟩

/-! ### Messages -/

/-- `is_notification`. -/
def isNotification (body : Json) : Bool := (body.get "id".toList).isNone

/-- `is_response`. -/
def isResponse (body : Json) : Bool :=
  body.asObject.isSome && (body.get "method".toList).isNone &&
    ((body.get "result".toList).isSome || (body.get "error".toList).isSome)

/-- The handlers of the requests that need a session. -/
def handleRequest (sessionId : Text) (msgId params : Json) (auth : AuthContext)
    (method : Text) : Run Response :=
  if method = "ping".toList ∨ method = "logging/setLevel".toList then
    Run.pure (successResponse msgId (.obj []))
  else if method = "tools/list".toList then handleToolsList P w st msgId auth
  else if method = "resources/list".toList then handleResourcesList P w st msgId auth
  else if method = "resources/templates/list".toList then
    handleResourcesTemplatesList w st msgId auth
  else if method = "prompts/list".toList then handlePromptsList P w st msgId auth
  else if method = "tools/call".toList then handleCall P w st sessionId msgId params auth .tool
  else if method = "resources/read".toList then
    handleCall P w st sessionId msgId params auth .resource
  else if method = "prompts/get".toList then handleCall P w st sessionId msgId params auth .prompt
  else if method = "resources/subscribe".toList ∨ method = "resources/unsubscribe".toList then
    Run.pure (successResponse msgId (.obj []))
  else if method = "completion/complete".toList then handleCompletion w st msgId params auth
  else Run.pure
    (errorResponse msgId methodNotFound ("Method not found: ".toList ++ method) 200)

/-- The response without a session. -/
def noSession (msgId : Json) : Response :=
  errorResponse msgId gatewayError "Invalid or missing session. Call initialize first.".toList 400

/-- `handle_post`, once the client is authenticated; `sessionId` is the `Mcp-Session-Id` header,
empty if it is missing. -/
def handleMessage (auth : AuthContext) (sessionId : Text) (body : Json) : Run Response :=
  let msgId := (body.get "id".toList).getD .null
  let method := toolText "method" body
  let params := (body.get "params".toList).getD (.obj [])
  if isNotification body || isResponse body then do
    if !sessionId.isEmpty && !method.isEmpty then handleNotification st method params auth
    Run.pure ⟨202, none, none⟩
  else if method = [] then
    Run.reply (errorResponse msgId invalidRequest "Invalid Request".toList 400)
  else if method = "initialize".toList then handleInitialize w st msgId auth
  else if sessionId = [] then Run.reply (noSession msgId)
  else do
    let identity ← Run.orReply (noSession msgId) (w.sessionIdentity sessionId)
    if identity != auth.identityId then
      Run.reply (errorResponse msgId gatewayError "Session identity mismatch".toList 403)
    else handleRequest P w st sessionId msgId params auth method

end Handlers

end CorexManager.Gateway
