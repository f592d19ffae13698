import CorexManager.Gateway.Protocol

/-!
# Mediation

What the gateway has checked when it forwards a message.  A call is forwarded after the
policy, the rate limit, the DLP scan and the guardrail scan, each of which may end the run, and
a policy may waive the rate limit or the DLP scan (`sent_admitted`).  Completions and
notifications are forwarded without any of them.
-/

namespace CorexManager.Gateway

open Data (Json Text)

/-! ### Runs that send at their end -/

/-- No message is sent. -/
def Quiet (effects : List Effect) : Prop := ∀ s m, Effect.sent s m ∉ effects

namespace Quiet

variable {es rest before after : List Effect} {server : ServerConfig} {message : Json}

theorem nil : Quiet [] := fun _ _ => List.not_mem_nil

theorem append (hes : Quiet es) (hrest : Quiet rest) : Quiet (es ++ rest) := fun s m h =>
  (List.mem_append.mp h).elim (hes s m) (hrest s m)

theorem not_sent (hes : Quiet es) : es ≠ before ++ .sent server message :: after := by
  rintro rfl
  exact hes server message (by simp)

/-- A message that is sent after a quiet list is sent in the rest. -/
theorem sent_append (hes : Quiet es)
    (h : es ++ rest = before ++ .sent server message :: after) :
    ∃ before', before = es ++ before' ∧ rest = before' ++ .sent server message :: after := by
  rcases List.append_eq_append_iff.mp h with ⟨mid, rfl, hrest⟩ | ⟨mid, hes', hmid⟩
  · exact ⟨mid, rfl, hrest⟩
  · cases mid with
    | nil => exact ⟨[], by simpa using hes'.symm, hmid.symm⟩
    | cons e mid =>
        obtain ⟨rfl, -⟩ := List.cons.inj hmid
        exact absurd (hes' ▸ by simp) (hes server message)

end Quiet

namespace Run

variable {α β : Type} {x : Run α} {f : α → Run β} {before after : List Effect}
  {server : ServerConfig} {message : Json}

/-- A run is quiet if both its parts are. -/
theorem quiet_bind (hx : Quiet x.effects) (hf : ∀ a, x.exit = .value a → Quiet (f a).effects) :
    Quiet (x >>= f).effects := by
  cases hexit : x.exit with
  | value a =>
      rw [bind_value f hexit]
      exact hx.append (hf a hexit)
  | reply r =>
      rw [bind_reply f hexit]
      exact hx
  | panic =>
      rw [bind_panic f hexit]
      exact hx

/-- If the first part of a run is quiet, what is sent is sent by the second. -/
theorem sent_bind (hquiet : Quiet x.effects)
    (h : (x >>= f).effects = before ++ .sent server message :: after) :
    ∃ a before', x.exit = .value a ∧ before = x.effects ++ before' ∧
      (f a).effects = before' ++ .sent server message :: after := by
  cases hx : x.exit with
  | value a =>
      rw [bind_value f hx] at h
      obtain ⟨before', hbefore, hrest⟩ := hquiet.sent_append h
      exact ⟨a, before', rfl, hbefore, hrest⟩
  | reply r =>
      rw [bind_reply f hx] at h
      exact absurd h hquiet.not_sent
  | panic =>
      rw [bind_panic f hx] at h
      exact absurd h hquiet.not_sent

theorem quiet_orPanic (o : Option α) : Quiet (orPanic o).effects := by
  rw [orPanic_effects]
  exact .nil

theorem quiet_orReply (r : Response) (o : Option α) : Quiet (orReply r o).effects := by
  rw [orReply_effects]
  exact .nil

end Run

section Handlers

variable {P : Platform} {w : World} {st : GatewayState} {auth : AuthContext} {msgId : Json}

/-! ### The checks of a call -/

theorem admitByPolicy_quiet (kind : CallKind) (ns name : Text) (params : Json) :
    Quiet (admitByPolicy P st msgId auth kind ns name params).effects := by
  refine Run.quiet_bind (Run.quiet_orPanic _) fun pr _ => Run.quiet_bind ?_ fun _ _ => ?_
  · intro s m h
    simp at h
  · split <;> exact .nil

/-- The policy lets a call through: it was evaluated for the call, and did not deny it. -/
theorem admitByPolicy_value {kind : CallKind} {ns name : Text} {params : Json} {pr : PolicyResult}
    (h : (admitByPolicy P st msgId auth kind ns name params).exit = .value pr) :
    checkAccess P st auth kind ns name params = some pr ∧ pr.denied = false ∧
      (admitByPolicy P st msgId auth kind ns name params).effects =
        [.evaluated kind.method name pr] := by
  obtain ⟨pr', hpr', h, heffects⟩ := Run.value_bind h
  obtain ⟨_, -, h, hrest⟩ := Run.value_bind h
  cases hdenied : pr'.denied with
  | true =>
      rw [if_pos hdenied] at h
      cases h
  | false =>
      have hnot : ¬ pr'.denied = true := by simp [hdenied]
      rw [if_neg hnot] at h
      cases h
      refine ⟨Run.orPanic_value.mp hpr', hdenied, ?_⟩
      rw [admitByPolicy, heffects, hrest, if_neg hnot]
      simp

theorem admitByRate_quiet (name : Text) (pr : PolicyResult) :
    Quiet (admitByRate w st msgId auth name pr).effects := by
  unfold admitByRate
  split
  · exact .nil
  · refine Run.quiet_bind ?_ fun _ _ => ?_
    · intro s m h
      simp at h
    · split <;> exact .nil

/-- The rate limit lets a call through: it was checked and passed, unless it was waived. -/
theorem admitByRate_value {name : Text} {pr : PolicyResult} {u : Unit}
    (h : (admitByRate w st msgId auth name pr).exit = .value u) (hskip : pr.skipRatelimit = false) :
    .rateChecked auth.identityId name true ∈ (admitByRate w st msgId auth name pr).effects := by
  unfold admitByRate at h ⊢
  rw [if_neg (by simp [hskip])] at h ⊢
  obtain ⟨_, -, h, heffects⟩ := Run.value_bind h
  rw [heffects]
  split at h
  · next hallowed =>
      rw [hallowed]
      simp
  · cases h

theorem admitByScan_quiet {scan : Option ScanResult} {effect : Bool → Effect} {blocked : Response}
    {data : Json} (heffect : ∀ b, Quiet [effect b]) :
    Quiet (admitByScan scan effect blocked data).effects := by
  refine Run.quiet_bind (Run.quiet_orPanic _) fun result _ => Run.quiet_bind (heffect _) fun _ _ => ?_
  split <;> exact .nil

/-- A scan lets data through: it was made, and did not block. -/
theorem admitByScan_value {scan : Option ScanResult} {effect : Bool → Effect} {blocked : Response}
    {data out : Json} (h : (admitByScan scan effect blocked data).exit = .value out) :
    effect false ∈ (admitByScan scan effect blocked data).effects := by
  obtain ⟨result, -, h, heffects⟩ := Run.value_bind h
  obtain ⟨_, -, h, hrest⟩ := Run.value_bind h
  unfold admitByScan
  rw [heffects, hrest]
  cases hblocked : result.blocked with
  | true =>
      rw [if_pos hblocked] at h
      cases h
  | false => simp

theorem admitByDlp_quiet (pr : PolicyResult) (params : Json) :
    Quiet (admitByDlp P st msgId pr params).effects := by
  unfold admitByDlp
  split
  · exact .nil
  · exact admitByScan_quiet fun b s m h => by simp at h

theorem admitByDlp_value {pr : PolicyResult} {params out : Json}
    (h : (admitByDlp P st msgId pr params).exit = .value out) (hskip : pr.skipDlp = false)
    (hrules : st.dlpRules ≠ []) :
    .dlpScanned params false ∈ (admitByDlp P st msgId pr params).effects := by
  have hnot : ¬ (pr.skipDlp || st.dlpRules.isEmpty) = true := by simp [hskip, hrules]
  unfold admitByDlp at h ⊢
  rw [if_neg hnot] at h ⊢
  exact admitByScan_value h

theorem admitByGuardrails_quiet (params : Json) :
    Quiet (admitByGuardrails P st msgId params).effects := by
  unfold admitByGuardrails
  split
  · exact .nil
  · exact admitByScan_quiet fun b s m h => by simp at h

theorem admitByGuardrails_value {params out : Json}
    (h : (admitByGuardrails P st msgId params).exit = .value out)
    (hrules : st.guardrailRules ≠ []) :
    .guardrailScanned params false ∈ (admitByGuardrails P st msgId params).effects := by
  have hnot : ¬ st.guardrailRules.isEmpty = true := by simp [hrules]
  unfold admitByGuardrails at h ⊢
  rw [if_neg hnot] at h ⊢
  exact admitByScan_value h

/-! ### Forwarded calls -/

/-- How a call is admitted: its target, the decision of the policy, and the parameters the DLP
scan and then the guardrail scan leave. -/
structure Admission where
  ns : Text
  original : Text
  decision : PolicyResult
  scanned : Json
  cleared : Json

/-- What was checked, in `before`, of a call that is forwarded to `server` as `message`. -/
structure Admission.Covers (a : Admission) (P : Platform) (st : GatewayState)
    (auth : AuthContext) (kind : CallKind) (msgId params : Json) (before : List Effect)
    (server : ServerConfig) (message : Json) : Prop where
  target : callTarget kind (callName params) = some (a.ns, a.original)
  server : st.serverByNamespace a.ns auth.teamId = some server
  decided : checkAccess P st auth kind a.ns (callName params) params = some a.decision
  allowed : a.decision.denied = false
  evaluated : .evaluated kind.method (callName params) a.decision ∈ before
  rate : a.decision.skipRatelimit = false →
    .rateChecked auth.identityId (callName params) true ∈ before
  dlp : a.decision.skipDlp = false → st.dlpRules ≠ [] → .dlpScanned params false ∈ before
  scanned : (admitByDlp P st msgId a.decision params).exit = .value a.scanned
  guardrails : st.guardrailRules ≠ [] → .guardrailScanned a.scanned false ∈ before
  cleared : (admitByGuardrails P st msgId a.scanned).exit = .value a.cleared
  message : message = upstreamBody kind a.original a.cleared

variable {sessionId : Text} {before after : List Effect} {server : ServerConfig} {message : Json}

/-- What is forwarded of an admitted call is its message, and nothing is before it. -/
theorem sent_forwardCall {kind : CallKind} {target : ServerConfig} {original : Text}
    {pr : PolicyResult} {params : Json}
    (h : (forwardCall P w st sessionId msgId auth kind target original pr params).effects =
      before ++ .sent server message :: after) :
    before = [] ∧ server = target ∧ message = upstreamBody kind original params := by
  have hquiet : ∀ (b : Bool) (scan : Option ScanResult) (r : Response) (body : Json),
      Quiet (scanResponse b scan r body).effects := by
    intro b scan r body
    unfold scanResponse
    split
    · exact .nil
    · refine Run.quiet_bind (Run.quiet_orPanic _) fun result _ => ?_
      split <;> exact .nil
  unfold forwardCall at h
  split at h
  · rw [Run.bind_value _ (a := _) rfl] at h
    have hsend : ∀ rest : List Effect, Quiet rest →
        Effect.sent target (upstreamBody kind original params) :: rest =
          before ++ .sent server message :: after →
        before = [] ∧ server = target ∧ message = upstreamBody kind original params := by
      intro rest hrest heq
      cases before with
      | nil =>
          obtain ⟨hsent, -⟩ := List.cons.inj heq
          cases hsent
          exact ⟨rfl, rfl, rfl⟩
      | cons e before => exact absurd (List.cons.inj heq).2 hrest.not_sent
    refine hsend _ ?_ h
    exact Run.quiet_bind (hquiet _ _ _ _) fun _ _ =>
      Run.quiet_bind (hquiet _ _ _ _) fun _ _ => .nil
  · exact absurd h Quiet.nil.not_sent

/-- **A call is forwarded only after its checks.** -/
theorem sent_handleCall {kind : CallKind} {params : Json}
    (h : (handleCall P w st sessionId msgId params auth kind).effects =
      before ++ .sent server message :: after) :
    ∃ a : Admission, a.Covers P st auth kind msgId params before server message := by
  unfold handleCall at h
  dsimp only at h
  split at h
  · refine absurd h (Quiet.not_sent ?_)
    exact Run.quiet_bind (Run.quiet_orPanic _) fun _ _ => .nil
  obtain ⟨⟨ns, original⟩, _, htarget, rfl, h₁⟩ := Run.sent_bind (Run.quiet_orReply _ _) h
  split at h₁
  · exact absurd h₁ Quiet.nil.not_sent
  obtain ⟨target, _, hserver, rfl, h₂⟩ := Run.sent_bind (Run.quiet_orReply _ _) h₁
  obtain ⟨pr, _, hpr, rfl, h₃⟩ := Run.sent_bind (admitByPolicy_quiet _ _ _ _) h₂
  obtain ⟨_, _, hrate, rfl, h₄⟩ := Run.sent_bind (admitByRate_quiet _ _) h₃
  obtain ⟨scanned, _, hdlp, rfl, h₅⟩ := Run.sent_bind (admitByDlp_quiet _ _) h₄
  obtain ⟨cleared, _, hguard, rfl, h₆⟩ := Run.sent_bind (admitByGuardrails_quiet _) h₅
  obtain ⟨rfl, rfl, rfl⟩ := sent_forwardCall h₆
  obtain ⟨hdecided, hallowed, heffects⟩ := admitByPolicy_value hpr
  refine ⟨⟨ns, original, pr, scanned, cleared⟩, Run.orReply_value.mp htarget,
    Run.orReply_value.mp hserver, hdecided, hallowed, ?_, fun hskip => ?_, fun hskip hrules => ?_,
    hdlp, fun hrules => ?_, hguard, rfl⟩
  · simp [heffects]
  · have hmem := admitByRate_value hrate hskip
    simp [hmem]
  · have hmem := admitByDlp_value hdlp hskip hrules
    simp [hmem]
  · have hmem := admitByGuardrails_value hguard hrules
    simp [hmem]

/-! ### Messages -/

/-- A response of the client has no method. -/
theorem method_of_isResponse {body : Json} (h : isResponse body = true) :
    toolText "method" body = [] := by
  unfold isResponse at h
  rw [Bool.and_eq_true, Bool.and_eq_true] at h
  have hnone : body.get "method".toList = none := Option.isNone_iff_eq_none.mp h.1.2
  rw [toolText, hnone]
  rfl

/-- The requests that are forwarded are calls and completions. -/
theorem sent_handleRequest {method : Text} {params : Json}
    (h : (handleRequest P w st sessionId msgId params auth method).effects =
      before ++ .sent server message :: after)
    (hmethod : method ≠ "completion/complete".toList) :
    ∃ (kind : CallKind) (a : Admission), method = kind.method ∧
      a.Covers P st auth kind msgId params before server message := by
  have hlist : ∀ (o : Option (List Json × List Json)) (f : List Json × List Json → Run Response),
      (∀ r, Quiet (f r).effects) → Quiet (Run.orPanic o >>= f).effects := fun o f hf =>
    Run.quiet_bind (Run.quiet_orPanic o) fun r _ => hf r
  unfold handleRequest at h
  split at h
  · exact absurd h Quiet.nil.not_sent
  split at h
  · exact absurd h (hlist _ _ fun _ => .nil).not_sent
  split at h
  · exact absurd h (hlist _ _ fun _ => .nil).not_sent
  split at h
  · exact absurd h Quiet.nil.not_sent
  split at h
  · refine absurd h (hlist _ _ fun r => ?_).not_sent
    exact Run.quiet_bind (Run.quiet_orPanic _) fun _ _ => .nil
  split at h
  · next hcall => exact ⟨.tool, (sent_handleCall h).imp fun a ha => ⟨hcall, ha⟩⟩
  split at h
  · next hcall => exact ⟨.resource, (sent_handleCall h).imp fun a ha => ⟨hcall, ha⟩⟩
  split at h
  · next hcall => exact ⟨.prompt, (sent_handleCall h).imp fun a ha => ⟨hcall, ha⟩⟩
  split at h
  · exact absurd h Quiet.nil.not_sent
  · exact absurd h Quiet.nil.not_sent

/-- **Complete mediation of calls.**  A request that is forwarded, unless it is a completion, is
a call, and everything was checked before: the policy was evaluated and did not deny it, and the
rate limit and the scans were passed, unless the policy waives them or there are no rules. -/
theorem sent_admitted {body : Json}
    (h : (handleMessage P w st auth sessionId body).effects =
      before ++ .sent server message :: after)
    (hrequest : isNotification body = false)
    (hmethod : toolText "method" body ≠ "completion/complete".toList) :
    ∃ (kind : CallKind) (a : Admission), toolText "method" body = kind.method ∧
      a.Covers P st auth kind ((body.get "id".toList).getD .null)
        ((body.get "params".toList).getD (.obj [])) before server message := by
  unfold handleMessage at h
  dsimp only at h
  rw [hrequest, Bool.false_or] at h
  split at h
  · next hresponse =>
      rw [method_of_isResponse hresponse, if_neg (by simp)] at h
      exact absurd h Quiet.nil.not_sent
  split at h
  · exact absurd h Quiet.nil.not_sent
  split at h
  · refine absurd h (Quiet.not_sent fun s m hmem => ?_)
    obtain ⟨_, -, heq⟩ := List.mem_map.mp hmem
    cases heq
  split at h
  · exact absurd h Quiet.nil.not_sent
  obtain ⟨identity, before', _, hbefore, h₁⟩ := Run.sent_bind (Run.quiet_orReply _ _) h
  rw [Run.orReply_effects, List.nil_append] at hbefore
  rw [hbefore]
  split at h₁
  · exact absurd h₁ Quiet.nil.not_sent
  · exact sent_handleRequest h₁ hmethod

end Handlers

/-! ### A gateway with one server -/

/-- A server of team 1. -/
def jira : ServerConfig where
  id := 1
  teamId := 1
  name := "jira".toList
  serverNamespace := "jira".toList
  displayName := none
  description := none
  enabled := true
  transportType := "streamable_http".toList
  expose := none

/-- The bundle with that server and some policies. -/
def jiraBundle (policies : List PolicyConfig) : ConfigBundle where
  servers := [jira]
  teams := []
  policies := policies
  dlpRules := []
  guardrails := []
  skills := []
  defaultRpm := 600
  concurrentLimit := 0
  teamRpmOverrides := .null

/-- An identity of team 1. -/
def ci : AuthContext := ⟨1, 1, "ci".toList, "pat".toList, .null⟩

/-- A world in which every session is that of the identity and every limit holds. -/
def calmWorld : World where
  catalog _ := none
  sessionIdentity _ := some 1
  upstreamSession _ _ := none
  createSession _ _ := []
  slidingWindow _ _ _ := true
  slot _ _ := true
  answer _ _ _ := (200, .obj [])

/-- A request. -/
def request (method : String) (params : Json) : Json :=
  .obj [("id".toList, .num (.int 7)), ("method".toList, .str method.toList),
    ("params".toList, params)]

/-- The parameters of a call. -/
def createParams : Json := .obj [("name".toList, .str "jira__create".toList)]

/-- A call without policies. -/
def createRequest : Json := request "tools/call" createParams

/-- Its run. -/
theorem createRequest_effects :
    (handleMessage .plain calmWorld (.ofBundle .plain (jiraBundle [])) ci "s".toList
      createRequest).effects =
    [.evaluated "tools/call".toList "jira__create".toList noPolicies,
      .rateChecked 1 "jira__create".toList true] ++
      .sent jira (upstreamBody .tool "create".toList createParams) :: [] := rfl

theorem sent_admitted_create :
    ∃ (kind : CallKind) (a : Admission), toolText "method" createRequest = kind.method ∧
      a.Covers .plain (.ofBundle .plain (jiraBundle [])) ci kind
        ((createRequest.get "id".toList).getD .null)
        ((createRequest.get "params".toList).getD (.obj []))
        [.evaluated "tools/call".toList "jira__create".toList noPolicies,
          .rateChecked 1 "jira__create".toList true]
        jira (upstreamBody .tool "create".toList createParams) :=
  sent_admitted createRequest_effects rfl (by decide)

/-! ### Messages that are not mediated -/

/-- Before every message that is sent, the policy allowed it, its rate limit was passed, and it
was scanned by the DLP and the guardrail rules without being blocked. -/
def Mediated (effects : List Effect) : Prop :=
  ∀ before server message after, effects = before ++ .sent server message :: after →
    (∃ method name r, .evaluated method name r ∈ before ∧ r.denied = false) ∧
    (∃ identityId name, .rateChecked identityId name true ∈ before) ∧
    (∃ params, .dlpScanned params false ∈ before) ∧
    (∃ params, .guardrailScanned params false ∈ before)

/-- A policy that waives the rate limit. -/
def waivingPolicy : PolicyConfig :=
  ⟨1, "unlimited".toList, true, 0, "true".toList, "skip_ratelimit".toList⟩

/-- A completion for a tool. -/
def completionRequest : Json :=
  request "completion/complete" (.obj [("ref".toList, .obj [("name".toList,
    .str "jira__create".toList)])])

/-- A call under a policy that waives the rate limit is forwarded without its check, and a
completion is forwarded under a policy that denies everything, without any check. -/
theorem waived_call_not_mediated :
    ¬ Mediated (handleMessage .plain calmWorld (.ofBundle .plain (jiraBundle [waivingPolicy])) ci
        "s".toList createRequest).effects ∧
    ¬ Mediated (handleMessage .plain calmWorld
        (.ofBundle .plain (jiraBundle [{ waivingPolicy with action := "deny".toList }])) ci
        "s".toList completionRequest).effects := by
  constructor
  · intro h
    have heffects : (handleMessage .plain calmWorld
        (.ofBundle .plain (jiraBundle [waivingPolicy])) ci "s".toList createRequest).effects =
        [.evaluated "tools/call".toList "jira__create".toList
          ⟨.skipRateLimit, "unlimited".toList, false, true⟩] ++
          .sent jira (upstreamBody .tool "create".toList createParams) :: [] := rfl
    obtain ⟨-, ⟨identityId, name, hmem⟩, -⟩ := h _ _ _ _ heffects
    cases List.mem_singleton.mp hmem
  · intro h
    have heffects : (handleMessage .plain calmWorld
        (.ofBundle .plain (jiraBundle [{ waivingPolicy with action := "deny".toList }])) ci
        "s".toList completionRequest).effects =
        [] ++ .sent jira (.obj [("jsonrpc".toList, .str "2.0".toList),
          ("id".toList, .num (.int 1)), ("method".toList, .str "completion/complete".toList),
          ("params".toList, .obj [("ref".toList, .obj [("name".toList,
            .str "jira__create".toList)])])]) :: [] := rfl
    obtain ⟨⟨method, name, r, hmem, -⟩, -⟩ := h _ _ _ _ heffects
    cases hmem

end CorexManager.Gateway
