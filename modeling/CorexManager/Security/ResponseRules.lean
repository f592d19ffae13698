import CorexManager.Frontend.Sanitize
import CorexManager.HAProxy.Transaction
import CorexManager.Security.Correct

/-!
# Security rules and the response

`emit_security_rules`, with the emitters of both phases, and the `http-response` lines run
on a response.  In the request phase every line is guarded by `txn.sec.done`; the lines of
the response phase have no guard, so a rule keeps the later ones from running only by
ending the response.

* `emitSecurityRules` — the lines of a listener.
* `run_rules` — a run of the response lines applies the matching rules in order, up to the
  first that ends the response.
* `first_match_iff` — when that is the effect of the first matching rule alone.
-/

namespace CorexManager.Security

open Data
open Expression
open HAProxy (Verdict View)

/-! ### Rules -/

/-- The actions of `SecurityRuleBase`. -/
inductive RuleAction where
  | block | allow | redirect | customResponse | challenge | log
  | skipRules | skipRulesRatelimit | skipRulesWaf | skipAll
  deriving DecidableEq, Repr

namespace RuleAction

/-- The name of an action. -/
def text : RuleAction → Text
  | block => "block".toList
  | allow => "allow".toList
  | redirect => "redirect".toList
  | customResponse => "custom_response".toList
  | challenge => "challenge".toList
  | log => "log".toList
  | skipRules => "skip_rules".toList
  | skipRulesRatelimit => "skip_rules_ratelimit".toList
  | skipRulesWaf => "skip_rules_waf".toList
  | skipAll => "skip_all".toList

/-- `_SKIP_ACTIONS`: the flags an action sets. -/
def skipFlags : RuleAction → Option (List Text)
  | skipRules => some []
  | skipRulesRatelimit => some ["skip_ratelimit".toList]
  | skipRulesWaf => some ["skip_waf".toList]
  | skipAll => some ["skip_ratelimit".toList, "skip_waf".toList]
  | _ => none

end RuleAction

/-- `SecurityRule`. -/
structure SecurityRule where
  id : Nat
  name : Text
  enabled : Bool
  listenerIds : List Nat
  expression : Text
  action : RuleAction
  log : Bool
  noLog : Bool
  statusCode : Option Nat
  redirectUrl : Option Text
  redirectCode : Option Nat
  errorPageId : Option Nat
  deriving DecidableEq, Repr

/-- What the emitter reads of the settings and the listener. -/
structure Site where
  env : Env
  /-- `SECURITY_RULES_BLOCK_STATUS`. -/
  blockStatus : Nat
  /-- `CAPTCHA_CHALLENGE_URL`. -/
  challengeUrl : Text
  listenerId : Nat
  forceHttps : Bool
  sslEnabled : Bool
  /-- `_resolve_error_page`: the path of the file written and its content type. -/
  resolveErrorPage : SecurityRule → Option (Text × Text)

/-! ### Lines -/

/-- What an `http-response` line does. -/
inductive ResponseAction where
  | setLogLevel (level : Text)
  /-- `set-var(name) str(value)`. -/
  | setVar (name value : Text)
  | stop (v : Verdict)
  deriving DecidableEq, Repr

/-- An `http-response` line. -/
structure ResponseLine where
  action : ResponseAction
  cond : Text
  deriving DecidableEq, Repr

/-- A line of the frontend; those of the request phase are texts here. -/
inductive SecurityLine where
  | request (text : Text)
  | response (line : ResponseLine)
  deriving DecidableEq, Repr

/-- The line as an `http-response` line. -/
def SecurityLine.response? : SecurityLine → Option ResponseLine
  | response line => some line
  | request _ => none

/-- `_LOG_VALUE_RE`. -/
def logDrops (c : Char) : Bool := c ∈ ['\r', '\n', ';', '\\', '"', '\'']

/-- `_safe_log_value`. -/
def safeLogValue (value : Text) : Text := '"' :: (value.filter (!logDrops ·) ++ ['"'])

/-- `x or default` of a number. -/
def orNumber (x : Option Nat) (default : Nat) : Nat :=
  match x with
  | none | some 0 => default
  | some n => n

/-- `x or default` of a text. -/
def orText (x : Option Text) (default : Text) : Text :=
  match x with
  | none | some [] => default
  | some t => t

/-! ### The request phase -/

/-- `_DONE_GUARD`. -/
def doneGuard : Text := "!\x7b var(txn.sec.done) -m found \x7d".toList

/-- `_API_ARMOR_VAR_RE.search`. -/
def readsApiArmor (cond : Text) : Bool :=
  ["var(txn.gql_", "var(txn.api_", "var(txn.auth_", "var(txn.api.profile_anomaly"].any
    fun s => decide (s.toList <:+: cond)

/-- `condition.split(" or ")`. -/
def splitOr : Text → List Text
  | ' ' :: 'o' :: 'r' :: ' ' :: cs => [] :: splitOr cs
  | [] => [[]]
  | c :: cs => (splitOr cs).modifyHead (c :: ·)

/-- The condition of a request rule. -/
def guardedCondition (cond : Text) : Text :=
  if readsApiArmor cond then
    (" or ".toList).intercalate ((splitOr cond).map fun g =>
      "is_api_armor ".toList ++ g ++ ' ' :: doneGuard)
  else cond ++ ' ' :: doneGuard

/-- A line of the request phase. -/
def requestLine (body cond : Text) : SecurityLine :=
  .request ("http-request ".toList ++ body ++ " if ".toList ++ cond)

/-- `_emit_challenge_redirect` for a security rule. -/
def emitChallengeRedirect (site : Site) (rule : SecurityRule) (cond : Text) : List SecurityLine :=
  let cond := cond ++ " !\x7b var(txn.is_varnish_fetch) -m found \x7d".toList
  let safeName := if rule.name = [] then ['-']
    else (Frontend.safeToken site.env.unicode rule.name).map fun c => if c = ' ' then '_' else c
  let url := Frontend.safeToken site.env.unicode (orText rule.redirectUrl site.challengeUrl)
  [requestLine "allow".toList ("\x7b var(txn.captcha_cookie_valid) -m found \x7d ".toList ++ cond),
    .request "http-request set-var(txn.captcha_request_id) unique-id".toList,
    .request "http-request set-var(txn.captcha_scheme) str(https) if \x7b ssl_fc \x7d".toList,
    .request "http-request set-var(txn.captcha_scheme) str(http) unless \x7b ssl_fc \x7d".toList,
    .request ("http-request set-var-fmt(txn.captcha_redirect) ".toList ++
      "%[var(txn.captcha_scheme)]://%[req.hdr(host)]%[pathq]".toList),
    requestLine ("lua.captcha_store_ctx ".toList ++ natText rule.id ++ " security ".toList ++
      safeName) cond,
    requestLine ("redirect location ".toList ++ url ++
      "?cid=%[var(txn.captcha_cid_token)] code 302".toList) cond]

/-- What a request rule does, once it is logged. -/
def requestEffect (site : Site) (rule : SecurityRule) (cond : Text) : List SecurityLine :=
  let done := requestLine "set-var(txn.sec.done) bool(1)".toList cond
  let deny := requestLine ("deny deny_status ".toList ++
    natText (orNumber rule.statusCode site.blockStatus) ++ " default-errorfiles".toList) cond
  match rule.action with
  | .block => [deny]
  | .allow => [done]
  | .redirect => [requestLine ("redirect location ".toList ++ orText rule.redirectUrl ['/'] ++
      " code ".toList ++ natText (orNumber rule.redirectCode 302)) cond]
  | .challenge => emitChallengeRedirect site rule cond ++ [done]
  | .customResponse =>
      match (if orNumber rule.errorPageId 0 = 0 then none else site.resolveErrorPage rule) with
      | some (path, contentType) =>
          [requestLine ("return status ".toList ++
            natText (orNumber rule.statusCode site.blockStatus) ++ " content-type \"".toList ++
            contentType ++ "\" lf-file ".toList ++ path) cond]
      | none => [deny]
  | action => (action.skipFlags.getD []).map (fun flag =>
      requestLine ("set-var(txn.sec.".toList ++ flag ++ ") bool(1)".toList) cond) ++ [done]

/-- `_emit_request_rule`. -/
def emitRequestRule (site : Site) (rule : SecurityRule) (cond : Text) : List SecurityLine :=
  let cond := guardedCondition cond
  (if rule.noLog then [requestLine "set-log-level silent".toList cond] else []) ++
    (if rule.log then
      [requestLine ("set-var(txn.sec.action) str(".toList ++ rule.action.text ++ [')']) cond,
        requestLine ("set-var(txn.action) str(".toList ++ rule.action.text ++ [')']) cond,
        requestLine ("set-var(txn.sec.rule) str(".toList ++ safeLogValue rule.name ++ [')']) cond]
    else []) ++ requestEffect site rule cond

/-! ### The response phase -/

/-- What a response rule writes into the log. -/
def logLines (rule : SecurityRule) (cond : Text) : List ResponseLine :=
  (if rule.noLog then [⟨.setLogLevel "silent".toList, cond⟩] else []) ++
    (if rule.log then
      [⟨.setVar "txn.sec.action".toList rule.action.text, cond⟩,
        ⟨.setVar "txn.action".toList rule.action.text, cond⟩,
        ⟨.setVar "txn.sec.rule".toList (safeLogValue rule.name), cond⟩]
    else [])

/-- How a response rule ends the response. -/
def SecurityRule.verdict (site : Site) (rule : SecurityRule) : Option Verdict :=
  match rule.action with
  | .block => some (.deny ("deny_status ".toList ++
      natText (orNumber rule.statusCode site.blockStatus) ++ " default-errorfiles".toList))
  | .redirect => some (.redirect ("location ".toList ++ orText rule.redirectUrl ['/'] ++
      " code ".toList ++ natText (orNumber rule.redirectCode 302)))
  | _ => none

/-- `_emit_response_rule`. -/
def emitResponseRule (site : Site) (rule : SecurityRule) (cond : Text) : List ResponseLine :=
  logLines rule cond ++
    match rule.verdict site with
    | some v => [⟨.setVar "txn.status_source".toList "haproxy".toList, cond⟩, ⟨.stop v, cond⟩]
    | none => []

/-! ### All rules -/

/-- `rules_for_listener`, of the rules by priority. -/
def rulesForListener (rules : List SecurityRule) (listenerId : Nat) : List SecurityRule :=
  rules.filter fun r => r.enabled && (r.listenerIds.isEmpty || decide (listenerId ∈ r.listenerIds))

/-- The condition of a rule and its phase; `none` is a rule that is passed over. -/
def compiled (site : Site) (rule : SecurityRule) : Option (Text × Phase) :=
  match parseExpression site.env.unicode boolFieldsSet rule.expression with
  | .error _ => none
  | .ok ast =>
      match translate site.env ast with
      | .error _ => none
      | .ok r => some r

/-- `force_https_redirect`. -/
def Site.redirects (site : Site) : Bool := site.forceHttps && !site.sslEnabled

/-- The lines of one rule. -/
def ruleLines (site : Site) (rule : SecurityRule) : List SecurityLine :=
  match compiled site rule with
  | none => []
  | some (cond, phase) =>
      if phase = .response ∧ rule.action.skipFlags.isSome then []
      else if site.redirects ∧ rule.action = .challenge then []
      else if phase = .response then (emitResponseRule site rule cond).map .response
      else emitRequestRule site rule cond

/-- `emit_security_rules`, of the rules by priority. -/
def emitSecurityRules (site : Site) (rules : List SecurityRule) : List SecurityLine :=
  (rulesForListener rules site.listenerId).flatMap (ruleLines site)

/-! ### Running the response lines -/

/-- What the lines change: the variables of the transaction and the level of its log line. -/
@[ext] structure ResponseState where
  vars : Text → Option Text
  logLevel : Option Text

namespace ResponseState

/-- Assign a variable. -/
def setVar (s : ResponseState) (name value : Text) : ResponseState :=
  { s with vars := fun n => if n = name then some value else s.vars n }

/-- The state after a line. -/
def apply : ResponseAction → ResponseState → ResponseState
  | .setLogLevel level, s => { s with logLevel := some level }
  | .setVar name value, s => s.setVar name value
  | .stop _, s => s

end ResponseState

/-- The verdict of a line. -/
def ResponseAction.verdict : ResponseAction → Option Verdict
  | .stop v => some v
  | _ => none

/-- **The `http-response` lines**, run in order on a response.  The conditions see the
response; no field of the expressions is one of the variables the lines assign. -/
def responseLines (v : View) : RuleChain.Machine ResponseState ResponseLine Verdict where
  fires _ line := v.holds line.cond == some true
  effect line := ResponseState.apply line.action
  verdict line := line.action.verdict

/-- What a run leaves: the state and the verdict. -/
def outcome (v : View) (lines : List SecurityLine) (s : ResponseState) :
    ResponseState × Option Verdict :=
  let o := (responseLines v).run (lines.filterMap SecurityLine.response?) s
  (o.state, o.verdict)

/-- The rule is one of the response phase, with its condition. -/
def responseCondition (site : Site) (rule : SecurityRule) : Option Text :=
  match compiled site rule with
  | some (cond, .response) =>
      if rule.action.skipFlags.isSome ∨ (site.redirects ∧ rule.action = .challenge) then none
      else some cond
  | _ => none

/-- **The rules whose condition holds**, in order. -/
def matchingRules (site : Site) (v : View) (rules : List SecurityRule) : List SecurityRule :=
  (rulesForListener rules site.listenerId).filter fun r =>
    (responseCondition site r).any fun cond => v.holds cond == some true

/-- What a rule writes on record. -/
def SecurityRule.record (rule : SecurityRule) (s : ResponseState) : ResponseState :=
  ((s.setVar "txn.sec.action".toList rule.action.text).setVar "txn.action".toList
    rule.action.text).setVar "txn.sec.rule".toList (safeLogValue rule.name)

/-- The state a rule's log lines leave. -/
def SecurityRule.logged (rule : SecurityRule) (s : ResponseState) : ResponseState :=
  let s := if rule.noLog then { s with logLevel := some "silent".toList } else s
  if rule.log then rule.record s else s

/-- The outcome of a rule whose condition holds. -/
def SecurityRule.outcome (site : Site) (rule : SecurityRule) (s : ResponseState) :
    ResponseState × Option Verdict :=
  match rule.verdict site with
  | some v => ((rule.logged s).setVar "txn.status_source".toList "haproxy".toList, some v)
  | none => (rule.logged s, none)

/-- The outcome of rules one after the other, up to the first that ends the response. -/
def outcomes (site : Site) : List SecurityRule → ResponseState → ResponseState × Option Verdict
  | [], s => (s, none)
  | r :: rs, s =>
      match r.outcome site s with
      | (s, some v) => (s, some v)
      | (s, none) => outcomes site rs s

section

variable {site : Site} {v : View}

theorem requestEffect_request {rule : SecurityRule} {cond : Text} {line : SecurityLine}
    (h : line ∈ requestEffect site rule cond) : ∃ text, line = .request text := by
  unfold requestEffect at h
  dsimp only at h
  split at h
  · exact ⟨_, List.mem_singleton.mp h⟩
  · exact ⟨_, List.mem_singleton.mp h⟩
  · exact ⟨_, List.mem_singleton.mp h⟩
  · rcases List.mem_append.mp h with h | h
    · simp only [emitChallengeRedirect, requestLine, List.mem_cons, List.not_mem_nil, or_false] at h
      rcases h with h | h | h | h | h | h | h <;> exact ⟨_, h⟩
    · exact ⟨_, List.mem_singleton.mp h⟩
  · split at h
    · exact ⟨_, List.mem_singleton.mp h⟩
    · exact ⟨_, List.mem_singleton.mp h⟩
  · rcases List.mem_append.mp h with h | h
    · obtain ⟨flag, -, rfl⟩ := List.mem_map.mp h
      exact ⟨_, rfl⟩
    · exact ⟨_, List.mem_singleton.mp h⟩

/-- The request emitter writes lines of the request phase. -/
theorem emitRequestRule_request {rule : SecurityRule} {cond : Text} {line : SecurityLine}
    (h : line ∈ emitRequestRule site rule cond) : ∃ text, line = .request text := by
  rcases List.mem_append.mp h with h | h
  · rcases List.mem_append.mp h with h | h
    · split at h
      · exact ⟨_, List.mem_singleton.mp h⟩
      · cases h
    · split at h
      · simp only [requestLine, List.mem_cons, List.not_mem_nil, or_false] at h
        rcases h with h | h | h <;> exact ⟨_, h⟩
      · cases h
  · exact requestEffect_request h

/-- The response lines of a rule. -/
theorem ruleLines_response (site : Site) (rule : SecurityRule) :
    (ruleLines site rule).filterMap SecurityLine.response? =
      ((responseCondition site rule).map (emitResponseRule site rule)).getD [] := by
  have hresponse : ∀ lines : List ResponseLine,
      (lines.map SecurityLine.response).filterMap SecurityLine.response? = lines := by
    intro lines
    rw [List.filterMap_map]
    exact List.filterMap_some
  have hrequest : ∀ cond, (emitRequestRule site rule cond).filterMap SecurityLine.response? = [] := by
    intro cond
    refine List.filterMap_eq_nil_iff.mpr fun line hline => ?_
    obtain ⟨text, rfl⟩ := emitRequestRule_request hline
    rfl
  unfold ruleLines responseCondition
  rcases compiled site rule with _ | ⟨cond, phase⟩
  · rfl
  · cases phase with
    | request =>
        by_cases hredirect : site.redirects = true ∧ rule.action = .challenge
        · simp [hredirect]
        · simp [hredirect, hrequest]
    | response =>
        by_cases hskip : rule.action.skipFlags.isSome = true
        · simp [hskip]
        · by_cases hredirect : site.redirects = true ∧ rule.action = .challenge
          · simp [hredirect]
          · simp [hskip, hredirect, hresponse]

theorem cond_of_mem {rule : SecurityRule} {cond : Text} {line : ResponseLine}
    (h : line ∈ emitResponseRule site rule cond) : line.cond = cond := by
  unfold emitResponseRule logLines at h
  rcases List.mem_append.mp h with h | h
  · rcases List.mem_append.mp h with h | h
    · split at h
      · rw [List.mem_singleton.mp h]
      · cases h
    · split at h
      · simp only [List.mem_cons, List.not_mem_nil, or_false] at h
        rcases h with rfl | rfl | rfl <;> rfl
      · cases h
  · split at h
    · simp only [List.mem_cons, List.not_mem_nil, or_false] at h
      rcases h with rfl | rfl <;> rfl
    · cases h

/-- **A rule whose condition holds** has its outcome. -/
theorem run_rule {rule : SecurityRule} {cond : Text} (h : v.holds cond = some true)
    (s : ResponseState) :
    (responseLines v).run (emitResponseRule site rule cond) s =
      ⟨(rule.outcome site s).1, emitResponseRule site rule cond, (rule.outcome site s).2⟩ := by
  have hfires : ∀ (action : ResponseAction) (s : ResponseState),
      (responseLines v).fires s ⟨action, cond⟩ = true := fun _ _ => beq_iff_eq.mpr h
  have hlog : (responseLines v).run (logLines rule cond) s =
      ⟨rule.logged s, logLines rule cond, none⟩ := by
    rw [RuleChain.Machine.run_effects]
    · congr 1
      unfold logLines SecurityRule.logged
      cases rule.noLog <;> cases rule.log <;> rfl
    · intro line hline
      have hcond : line.cond = cond :=
        cond_of_mem (List.mem_append_left _ hline : line ∈ emitResponseRule site rule cond)
      obtain ⟨action, c⟩ := line
      obtain rfl : c = cond := hcond
      refine ⟨hfires action, ?_⟩
      unfold logLines at hline
      rcases List.mem_append.mp hline with hline | hline
      · split at hline
        · cases List.mem_singleton.mp hline
          rfl
        · cases hline
      · split at hline
        · simp only [List.mem_cons, List.not_mem_nil, or_false] at hline
          rcases hline with hline | hline | hline <;> cases hline <;> rfl
        · cases hline
  rw [emitResponseRule, RuleChain.Machine.run_append, hlog, RuleChain.Outcome.andThen_none rfl,
    SecurityRule.outcome]
  cases rule.verdict site with
  | none => rfl
  | some verdict =>
      rw [RuleChain.Machine.run_cons_fire (hfires _ _) rfl,
        RuleChain.Machine.run_cons_stop (hfires _ _) rfl]
      rfl

/-- **A run of the response lines** has the outcome of the rules whose condition holds. -/
theorem outcome_emit (site : Site) (v : View) (rules : List SecurityRule) (s : ResponseState) :
    outcome v (emitSecurityRules site rules) s = outcomes site (matchingRules site v rules) s := by
  unfold outcome emitSecurityRules matchingRules
  dsimp only
  generalize rulesForListener rules site.listenerId = rs
  rw [List.filterMap_flatMap]
  induction rs generalizing s with
  | nil => rfl
  | cons r rs ih =>
      rw [List.flatMap_cons, ruleLines_response]
      cases hcond : responseCondition site r with
      | none =>
          rw [List.filter_cons_of_neg (by simp [hcond])]
          exact ih s
      | some cond =>
          rw [Option.map_some, Option.getD_some]
          by_cases hmet : v.holds cond = some true
          · rw [List.filter_cons_of_pos (by simp [hcond, hmet]), outcomes,
              RuleChain.Machine.run_append, run_rule hmet]
            cases hout : r.outcome site s with
            | mk t verdict =>
                cases verdict with
                | none =>
                    rw [RuleChain.Outcome.andThen_none rfl]
                    exact ih t
                | some verdict => rfl
          · rw [List.filter_cons_of_neg (by simp [hcond, hmet]),
              RuleChain.Machine.run_append_quiet]
            · exact ih s
            · intro line hline
              show (v.holds line.cond == some true) = false
              rw [cond_of_mem hline]
              exact beq_eq_false_iff_ne.mpr hmet

/-! ### The first matching rule alone -/

/-- The outcome of the first rule whose condition holds. -/
def firstOutcome (site : Site) (rules : List SecurityRule) (s : ResponseState) :
    ResponseState × Option Verdict :=
  match rules with
  | [] => (s, none)
  | r :: _ => r.outcome site s

/-- What a rule would log is on record. -/
def SecurityRule.OnRecord (rule : SecurityRule) (s : ResponseState) : Prop :=
  s.vars "txn.sec.action".toList = some rule.action.text ∧
    s.vars "txn.action".toList = some rule.action.text ∧
    s.vars "txn.sec.rule".toList = some (safeLogValue rule.name)

/-- The rules behind the first one change nothing: it ends the response, or none of them
does, none silences a log line that it leaves, and the last of them that logs writes what
is on record. -/
def Settled (site : Site) (s : ResponseState) : List SecurityRule → Prop
  | [] => True
  | r :: later => (r.verdict site).isSome = true ∨
      (∀ q ∈ later, q.verdict site = none) ∧
      (∀ q ∈ later, q.noLog = true → r.noLog = true ∨ s.logLevel = some "silent".toList) ∧
      ∀ q ∈ (later.filter SecurityRule.log).getLast?,
        if r.log then q.action.text = r.action.text ∧ safeLogValue q.name = safeLogValue r.name
        else q.OnRecord s

theorem record_vars (rule : SecurityRule) (s : ResponseState) (n : Text) :
    (rule.record s).vars n =
      if n = "txn.sec.rule".toList then some (safeLogValue rule.name)
      else if n = "txn.action".toList then some rule.action.text
      else if n = "txn.sec.action".toList then some rule.action.text
      else s.vars n := rfl

/-- A record is kept when it is the one on record. -/
theorem record_eq_iff (rule : SecurityRule) (s : ResponseState) :
    rule.record s = s ↔ rule.OnRecord s := by
  have hrule : "txn.sec.rule".toList ≠ "txn.action".toList := by decide
  have hsec : "txn.sec.rule".toList ≠ "txn.sec.action".toList := by decide
  have haction : "txn.action".toList ≠ "txn.sec.action".toList := by decide
  constructor
  · intro h
    have hvars : ∀ n, s.vars n = (rule.record s).vars n := fun n => by rw [h]
    refine ⟨?_, ?_, ?_⟩
    · rw [hvars, record_vars, if_neg hsec.symm, if_neg haction.symm, if_pos rfl]
    · rw [hvars, record_vars, if_neg hrule.symm, if_pos rfl]
    · rw [hvars, record_vars, if_pos rfl]
  · rintro ⟨h₁, h₂, h₃⟩
    refine ResponseState.ext (funext fun n => ?_) rfl
    rw [record_vars]
    split
    · next h => rw [h, h₃]
    · split
      · next h => rw [h, h₂]
      · split
        · next h => rw [h, h₁]
        · rfl

/-- A record takes the place of the one before. -/
theorem record_vars_congr (rule : SecurityRule) {s t : ResponseState}
    (h : s.vars = t.vars ∨ ∃ q : SecurityRule, s.vars = (q.record t).vars) :
    (rule.record s).vars = (rule.record t).vars := by
  funext n
  rw [record_vars, record_vars]
  split
  · rfl
  · split
    · rfl
    · split
      · rfl
      · next h₁ h₂ h₃ =>
          rcases h with h | ⟨q, h⟩
          · rw [h]
          · rw [h, record_vars, if_neg h₁, if_neg h₂, if_neg h₃]

theorem logged_vars (rule : SecurityRule) (s : ResponseState) :
    (rule.logged s).vars = if rule.log then (rule.record s).vars else s.vars := by
  unfold SecurityRule.logged
  cases rule.noLog <;> cases rule.log <;> rfl

theorem logged_logLevel (rule : SecurityRule) (s : ResponseState) :
    (rule.logged s).logLevel = if rule.noLog then some "silent".toList else s.logLevel := by
  unfold SecurityRule.logged
  cases rule.noLog <;> cases rule.log <;> rfl

/-- The state rules leave that do not end the response. -/
def loggedAll (rules : List SecurityRule) (s : ResponseState) : ResponseState :=
  rules.foldl (fun s q => q.logged s) s

theorem loggedAll_concat (rules : List SecurityRule) (q : SecurityRule) (s : ResponseState) :
    loggedAll (rules ++ [q]) s = q.logged (loggedAll rules s) := by
  rw [loggedAll, List.foldl_append]
  rfl

/-- **The record** is that of the last rule that logs. -/
theorem loggedAll_vars (rules : List SecurityRule) (s : ResponseState) :
    (loggedAll rules s).vars =
      match (rules.filter SecurityRule.log).getLast? with
      | none => s.vars
      | some q => (q.record s).vars := by
  induction rules using List.reverseRecOn with
  | nil => rfl
  | append_singleton rules q ih =>
      rw [loggedAll_concat, logged_vars, List.filter_append]
      cases hlog : q.log with
      | false =>
          rw [List.filter_cons_of_neg (by simp [hlog]), List.filter_nil, List.append_nil, ← ih]
          rfl
      | true =>
          rw [List.filter_cons_of_pos hlog, List.filter_nil, List.getLast?_concat, if_pos rfl]
          refine record_vars_congr q ?_
          rw [ih]
          cases (rules.filter SecurityRule.log).getLast? with
          | none => exact .inl rfl
          | some p => exact .inr ⟨p, rfl⟩

/-- **The log line** is silent if a rule silences it. -/
theorem loggedAll_logLevel (rules : List SecurityRule) (s : ResponseState) :
    (loggedAll rules s).logLevel =
      if rules.any SecurityRule.noLog then some "silent".toList else s.logLevel := by
  induction rules using List.reverseRecOn with
  | nil => rfl
  | append_singleton rules q ih =>
      rw [loggedAll_concat, logged_logLevel, ih, List.any_append, List.any_cons, List.any_nil,
        Bool.or_false]
      cases q.noLog <;> cases rules.any SecurityRule.noLog <;> rfl

theorem outcome_of_none {rule : SecurityRule} (h : rule.verdict site = none) (s : ResponseState) :
    rule.outcome site s = (rule.logged s, none) := by
  rw [SecurityRule.outcome, h]

/-- Rules leave the response as it is when none ends it and their records change nothing. -/
theorem outcomes_eq_iff (rules : List SecurityRule) (t s : ResponseState) :
    outcomes site rules s = (t, none) ↔
      (∀ q ∈ rules, q.verdict site = none) ∧ loggedAll rules s = t := by
  induction rules generalizing s with
  | nil => simp [outcomes, loggedAll]
  | cons r rs ih =>
      cases hr : r.verdict site with
      | none =>
          rw [outcomes, outcome_of_none hr, ih, List.forall_mem_cons]
          simp [hr, loggedAll]
      | some verdict => simp [outcomes, SecurityRule.outcome, hr]

/-- Records change nothing when they silence nothing new and the last is on record. -/
theorem loggedAll_eq_iff (rules : List SecurityRule) (t : ResponseState) :
    loggedAll rules t = t ↔
      (∀ q ∈ rules, q.noLog = true → t.logLevel = some "silent".toList) ∧
        ∀ q ∈ (rules.filter SecurityRule.log).getLast?, q.OnRecord t := by
  have hlevel : (loggedAll rules t).logLevel = t.logLevel ↔
      ∀ q ∈ rules, q.noLog = true → t.logLevel = some "silent".toList := by
    rw [loggedAll_logLevel]
    cases hany : rules.any SecurityRule.noLog with
    | true =>
        obtain ⟨q, hq, hsilent⟩ := List.any_eq_true.mp hany
        rw [if_pos rfl]
        exact ⟨fun h _ _ _ => h.symm, fun h => (h q hq hsilent).symm⟩
    | false =>
        rw [if_neg Bool.false_ne_true]
        refine iff_of_true rfl fun q hq hsilent => ?_
        exact absurd hsilent (List.any_eq_false.mp hany q hq)
  have hvars : (loggedAll rules t).vars = t.vars ↔
      ∀ q ∈ (rules.filter SecurityRule.log).getLast?, q.OnRecord t := by
    rw [loggedAll_vars]
    cases (rules.filter SecurityRule.log).getLast? with
    | none => exact iff_of_true rfl nofun
    | some q =>
        have hrecord : (q.record t).vars = t.vars ↔ q.record t = t :=
          ⟨fun h => ResponseState.ext h rfl, fun h => congrArg ResponseState.vars h⟩
        rw [hrecord, record_eq_iff]
        simp
  rw [ResponseState.ext_iff, hlevel, hvars]
  exact and_comm

/-- What the first rule leaves of the log level. -/
theorem logged_silent_iff (r : SecurityRule) (s : ResponseState) :
    (r.logged s).logLevel = some "silent".toList ↔
      r.noLog = true ∨ s.logLevel = some "silent".toList := by
  rw [logged_logLevel]
  cases r.noLog <;> simp

/-- What the first rule leaves on record. -/
theorem onRecord_logged_iff (q r : SecurityRule) (s : ResponseState) :
    q.OnRecord (r.logged s) ↔
      if r.log then q.action.text = r.action.text ∧ safeLogValue q.name = safeLogValue r.name
      else q.OnRecord s := by
  have hrule : "txn.sec.rule".toList ≠ "txn.action".toList := by decide
  have hsec : "txn.sec.rule".toList ≠ "txn.sec.action".toList := by decide
  have haction : "txn.action".toList ≠ "txn.sec.action".toList := by decide
  rw [SecurityRule.OnRecord, logged_vars]
  cases r.log with
  | false => exact Iff.rfl
  | true =>
      simp only [if_true, record_vars, if_neg hsec.symm, if_neg haction.symm, if_neg hrule.symm,
        Option.some.injEq]
      constructor
      · rintro ⟨h, -, hname⟩
        exact ⟨h.symm, hname.symm⟩
      · rintro ⟨h, hname⟩
        exact ⟨h.symm, h.symm, hname.symm⟩

/-- **The lines of the response phase have the effect of the first matching rule alone**
exactly when the rules behind it change nothing. -/
theorem first_match_iff (site : Site) (v : View) (rules : List SecurityRule) (s : ResponseState) :
    outcome v (emitSecurityRules site rules) s = firstOutcome site (matchingRules site v rules) s ↔
      Settled site s (matchingRules site v rules) := by
  rw [outcome_emit]
  rcases matchingRules site v rules with _ | ⟨r, later⟩
  · exact iff_of_true rfl trivial
  · cases hr : r.verdict site with
    | some verdict =>
        have hsame : outcomes site (r :: later) s = firstOutcome site (r :: later) s := by
          rw [outcomes, firstOutcome, SecurityRule.outcome, hr]
        exact iff_of_true hsame (.inl (by rw [hr]; rfl))
    | none =>
        have hsettled : Settled site s (r :: later) ↔ (∀ q ∈ later, q.verdict site = none) ∧
            loggedAll later (r.logged s) = r.logged s := by
          rw [loggedAll_eq_iff, logged_silent_iff]
          simp only [onRecord_logged_iff]
          simp [Settled, hr]
        rw [hsettled, ← outcomes_eq_iff, firstOutcome, outcomes, outcome_of_none hr]

end

/-- A frontend whose only listener has the number 1. -/
def Site.plain : Site where
  env := .plain
  blockStatus := 403
  challengeUrl := "/captcha".toList
  listenerId := 1
  forceHttps := false
  sslEnabled := false
  resolveErrorPage _ := none

/-- Rules on the status of the response: the first allows 404, the second blocks every
error. -/
def errorRules : List SecurityRule :=
  [⟨1, "missing".toList, true, [], "http.response.status_code = 404".toList, .allow, false, false,
      none, none, none, none⟩,
    ⟨2, "errors".toList, true, [],
      "http.response.status_code = 404 or http.response.status_code = 500".toList, .block, false,
      false, none, none, none, none⟩]

/-- A response with the status 404. -/
def missingView : View where
  engine := .simple
  samples fetch := if fetch = "status".toList then [.int 404] else []
  named _ := false

/-- The allowed response is denied. -/
theorem allowed_denied :
    (outcome missingView (emitSecurityRules .plain errorRules) ⟨fun _ => none, none⟩).2 =
        some (.deny "deny_status 403 default-errorfiles".toList) ∧
      outcome missingView (emitSecurityRules .plain errorRules) ⟨fun _ => none, none⟩ ≠
        firstOutcome .plain (matchingRules .plain missingView errorRules) ⟨fun _ => none, none⟩ := by
  have hdenied : (outcome missingView (emitSecurityRules .plain errorRules)
      ⟨fun _ => none, none⟩).2 = some (.deny "deny_status 403 default-errorfiles".toList) := by
    decide +kernel
  have hfirst : (firstOutcome .plain (matchingRules .plain missingView errorRules)
      ⟨fun _ => none, none⟩).2 = none := by
    decide +kernel
  refine ⟨hdenied, fun h => ?_⟩
  rw [h, hfirst] at hdenied
  cases hdenied

end CorexManager.Security
