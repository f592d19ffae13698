import CorexManager.Security.Alternatives
import CorexManager.Security.ResponseRules

/-!
# Security rules and the request

The `http-request` lines of `emit_security_rules`, run on a request.  A rule that applied ends the
request or marks it as done, and the lines of the later rules are guarded by the mark: behind every
alternative when they read variables of API Armor, behind the last alternative otherwise.

* `emitRequestRule_eq` — the lines as actions with conditions.
* `run_requestRule` — what the lines of a rule do to a request.
* `first_rule_iff` — when the first rule whose expression holds is the only one that applies.
* `challenge_allow_iff` — which requests a challenge lets through.

The variables with which a challenge prepares its page are left out: no condition reads them.
-/

namespace CorexManager.Security

open Data
open Expression
open HAProxy (Cond SpeltGroup Verdict View pasteFirst pasteLast)

/-! ### Lines -/

/-- What an `http-request` line does. -/
inductive RequestAction where
  | setLogLevel (level : Text)
  | setVar (name expr : Text)
  /-- A directive that prepares the page of a challenge. -/
  | context (body : Text)
  | stop (v : Verdict)
  deriving DecidableEq, Repr

namespace RequestAction

/-- The words of an action. -/
def text : RequestAction → Text
  | setLogLevel level => "set-log-level ".toList ++ level
  | setVar name expr => "set-var(".toList ++ name ++ ") ".toList ++ expr
  | context body => body
  | stop .allow => "allow".toList
  | stop (.deny args) => "deny ".toList ++ args
  | stop (.redirect args) => "redirect ".toList ++ args
  | stop (.respond args) => "return ".toList ++ args

/-- The verdict of an action. -/
def verdict : RequestAction → Option Verdict
  | stop v => some v
  | _ => none

end RequestAction

/-- An `http-request` line. -/
structure RequestLine where
  action : RequestAction
  cond : Cond
  deriving DecidableEq, Repr

/-- The text of a condition. -/
def condText : Cond → Text
  | .always => []
  | .when c => " if ".toList ++ c
  | .unless c => " unless ".toList ++ c

/-- The line in the file. -/
def RequestLine.text (l : RequestLine) : Text :=
  "http-request ".toList ++ l.action.text ++ condText l.cond

/-- The line as a text of the request phase. -/
def SecurityLine.request? : SecurityLine → Option Text
  | request text => some text
  | response _ => none

/-- `txn.sec.done`. -/
def doneVar : Text := "txn.sec.done".toList

/-- The location of a challenge. -/
def challengeUrl (site : Site) (rule : SecurityRule) : Text :=
  "location ".toList ++ Frontend.safeToken site.env.unicode (orText rule.redirectUrl site.challengeUrl)
    ++ "?cid=%[var(txn.captcha_cid_token)] code 302".toList

/-- The condition of the lines of a challenge: fetches of the cache are not challenged. -/
def challengeCondition (cond : Text) : Text :=
  cond ++ ' ' :: "!\x7b var(txn.is_varnish_fetch) -m found \x7d".toList

/-- What a client with a solved challenge meets. -/
def solvedTest : Text := "\x7b var(txn.captcha_cookie_valid) -m found \x7d".toList

/-- What a challenge stores of its rule. -/
def challengeStore (site : Site) (rule : SecurityRule) : Text :=
  "lua.captcha_store_ctx ".toList ++ natText rule.id ++ " security ".toList ++
    if rule.name = [] then ['-']
    else (Frontend.safeToken site.env.unicode rule.name).map fun c => if c = ' ' then '_' else c

/-- The lines that prepare the page of a challenge. -/
def challengePage (site : Site) (rule : SecurityRule) (cond : Text) : List RequestLine :=
  [⟨.context "set-var(txn.captcha_request_id) unique-id".toList, .always⟩,
    ⟨.context "set-var(txn.captcha_scheme) str(https)".toList, .when "\x7b ssl_fc \x7d".toList⟩,
    ⟨.context "set-var(txn.captcha_scheme) str(http)".toList, .unless "\x7b ssl_fc \x7d".toList⟩,
    ⟨.context ("set-var-fmt(txn.captcha_redirect) ".toList ++
      "%[var(txn.captcha_scheme)]://%[req.hdr(host)]%[pathq]".toList), .always⟩,
    ⟨.context (challengeStore site rule), .when cond⟩]

/-- The lines of a challenge. -/
def challengeLines (site : Site) (rule : SecurityRule) (cond : Text) : List RequestLine :=
  let cond := challengeCondition cond
  ⟨.stop .allow, .when (solvedTest ++ ' ' :: cond)⟩ :: (challengePage site rule cond ++
    [⟨.stop (.redirect (challengeUrl site rule)), .when cond⟩])

/-- How a rule ends the request. -/
def SecurityRule.ending (site : Site) (rule : SecurityRule) : Option Verdict :=
  let deny := Verdict.deny ("deny_status ".toList ++
    natText (orNumber rule.statusCode site.blockStatus) ++ " default-errorfiles".toList)
  match rule.action with
  | .block => some deny
  | .redirect => some (.redirect ("location ".toList ++ orText rule.redirectUrl ['/'] ++
      " code ".toList ++ natText (orNumber rule.redirectCode 302)))
  | .customResponse =>
      match (if orNumber rule.errorPageId 0 = 0 then none else site.resolveErrorPage rule) with
      | some (path, contentType) => some (.respond ("status ".toList ++
          natText (orNumber rule.statusCode site.blockStatus) ++ " content-type \"".toList ++
          contentType ++ "\" lf-file ".toList ++ path))
      | none => some deny
  | _ => none

/-- The variable of a flag. -/
def flagVar (flag : Text) : Text := "txn.sec.".toList ++ flag

/-- What a rule writes into the log. -/
def requestLogLines (rule : SecurityRule) (cond : Text) : List RequestLine :=
  (if rule.noLog then [⟨.setLogLevel "silent".toList, .when cond⟩] else []) ++
    (if rule.log then
      [⟨.setVar "txn.sec.action".toList ("str(".toList ++ rule.action.text ++ [')']), .when cond⟩,
        ⟨.setVar "txn.action".toList ("str(".toList ++ rule.action.text ++ [')']), .when cond⟩,
        ⟨.setVar "txn.sec.rule".toList ("str(".toList ++ safeLogValue rule.name ++ [')']),
          .when cond⟩]
    else [])

/-- What a rule that does not end the request sets. -/
def flagLines (rule : SecurityRule) (cond : Text) : List RequestLine :=
  (rule.action.skipFlags.getD []).map fun flag =>
    ⟨.setVar (flagVar flag) "bool(1)".toList, .when cond⟩

/-- The line that marks the request. -/
def doneLine (cond : Text) : RequestLine := ⟨.setVar doneVar "bool(1)".toList, .when cond⟩

/-- The line that ends the request. -/
def stopLine (v : Verdict) (cond : Text) : RequestLine := ⟨.stop v, .when cond⟩

/-- What a rule does before its last line. -/
def preparingLines (site : Site) (rule : SecurityRule) (cond : Text) : List RequestLine :=
  match rule.ending site with
  | some _ => []
  | none => if rule.action = .challenge then challengeLines site rule cond else flagLines rule cond

/-- The last line of a rule: it ends the request or marks it. -/
def lastLine (site : Site) (rule : SecurityRule) (cond : Text) : RequestLine :=
  match rule.ending site with
  | some v => stopLine v cond
  | none => doneLine cond

/-- The lines of a rule, as actions with conditions. -/
def requestLines (site : Site) (rule : SecurityRule) (cond : Text) : List RequestLine :=
  requestLogLines rule cond ++ preparingLines site rule cond ++ [lastLine site rule cond]

/-! ### The texts -/

/-- A line under a condition. -/
theorem requestLine_text (action : RequestAction) (cond : Text) :
    requestLine action.text cond = .request (RequestLine.text ⟨action, .when cond⟩) := by
  unfold requestLine RequestLine.text
  exact congrArg SecurityLine.request (List.append_assoc _ _ _)

/-- A line under a condition, by the text of its action. -/
theorem requestLine_eq {body : Text} {action : RequestAction} (h : body = action.text)
    (cond : Text) : requestLine body cond = .request (RequestLine.text ⟨action, .when cond⟩) :=
  (congrArg (requestLine · cond) h).trans (requestLine_text action cond)

/-- The text that assigns a string. -/
theorem setVar_str_text {head name : Text} (value : Text)
    (h : head = "set-var(".toList ++ name ++ ") ".toList ++ "str(".toList) :
    head ++ value ++ [')'] = (RequestAction.setVar name ("str(".toList ++ value ++ [')'])).text := by
  unfold RequestAction.text
  rw [h]
  simp only [List.append_assoc]

theorem requestLogLines_text (rule : SecurityRule) (cond : Text) :
    (requestLogLines rule cond).map (fun l => SecurityLine.request l.text) =
      (if rule.noLog then [requestLine "set-log-level silent".toList cond] else []) ++
        (if rule.log then
          [requestLine ("set-var(txn.sec.action) str(".toList ++ rule.action.text ++ [')']) cond,
            requestLine ("set-var(txn.action) str(".toList ++ rule.action.text ++ [')']) cond,
            requestLine ("set-var(txn.sec.rule) str(".toList ++ safeLogValue rule.name ++ [')']) cond]
        else []) := by
  have hsilent : "set-log-level silent".toList =
      (RequestAction.setLogLevel "silent".toList).text := by decide
  have hsec : "set-var(txn.sec.action) str(".toList =
      "set-var(".toList ++ "txn.sec.action".toList ++ ") ".toList ++ "str(".toList := by
    decide
  have haction : "set-var(txn.action) str(".toList =
      "set-var(".toList ++ "txn.action".toList ++ ") ".toList ++ "str(".toList := by decide
  have hrule : "set-var(txn.sec.rule) str(".toList =
      "set-var(".toList ++ "txn.sec.rule".toList ++ ") ".toList ++ "str(".toList := by
    decide
  rw [requestLine_eq hsilent, requestLine_eq (setVar_str_text _ hsec),
    requestLine_eq (setVar_str_text _ haction), requestLine_eq (setVar_str_text _ hrule),
    requestLogLines, List.map_append]
  congr 1
  · split
    · rw [List.map_singleton]
    · rw [List.map_nil]
  · split
    · simp only [List.map_cons, List.map_nil]
    · rw [List.map_nil]

theorem doneLine_text (cond : Text) : SecurityLine.request (doneLine cond).text =
    requestLine "set-var(txn.sec.done) bool(1)".toList cond := by
  have hdone : "set-var(txn.sec.done) bool(1)".toList =
      (RequestAction.setVar doneVar "bool(1)".toList).text := by decide
  exact (requestLine_eq hdone cond).symm

/-- The text that sets a flag. -/
theorem flag_text (flag : Text) : "set-var(txn.sec.".toList ++ flag ++ ") bool(1)".toList =
    (RequestAction.setVar (flagVar flag) "bool(1)".toList).text := by
  have hhead : "set-var(txn.sec.".toList = "set-var(".toList ++ "txn.sec.".toList := by
    decide
  have htail : ") bool(1)".toList = ") ".toList ++ "bool(1)".toList := by decide
  unfold RequestAction.text flagVar
  rw [hhead, htail]
  simp only [List.append_assoc]

theorem flagLines_text (rule : SecurityRule) (cond : Text) :
    (flagLines rule cond).map (fun l => SecurityLine.request l.text) =
      (rule.action.skipFlags.getD []).map fun flag =>
        requestLine ("set-var(txn.sec.".toList ++ flag ++ ") bool(1)".toList) cond := by
  rw [flagLines, List.map_map]
  exact List.map_congr_left fun flag _ => (requestLine_eq (flag_text flag) cond).symm

theorem challengeLines_text (site : Site) (rule : SecurityRule) (cond : Text) :
    (challengeLines site rule cond).map (fun l => SecurityLine.request l.text) =
      emitChallengeRedirect site rule cond := by
  have hvarnish : cond ++ " !\x7b var(txn.is_varnish_fetch) -m found \x7d".toList =
      challengeCondition cond := congrArg (cond ++ ·) (by decide)
  have hsolved : "\x7b var(txn.captcha_cookie_valid) -m found \x7d ".toList =
      solvedTest ++ [' '] := by decide
  have hallow : "allow".toList = (RequestAction.stop .allow).text := rfl
  have hid : "http-request set-var(txn.captcha_request_id) unique-id".toList =
      RequestLine.text ⟨.context "set-var(txn.captcha_request_id) unique-id".toList, .always⟩ := by
    decide
  have https : "http-request set-var(txn.captcha_scheme) str(https) if \x7b ssl_fc \x7d".toList =
      RequestLine.text ⟨.context "set-var(txn.captcha_scheme) str(https)".toList,
        .when "\x7b ssl_fc \x7d".toList⟩ := by decide
  have http : "http-request set-var(txn.captcha_scheme) str(http) unless \x7b ssl_fc \x7d".toList =
      RequestLine.text ⟨.context "set-var(txn.captcha_scheme) str(http)".toList,
        .unless "\x7b ssl_fc \x7d".toList⟩ := by decide
  have hback : "http-request set-var-fmt(txn.captcha_redirect) ".toList ++
        "%[var(txn.captcha_scheme)]://%[req.hdr(host)]%[pathq]".toList =
      RequestLine.text ⟨.context ("set-var-fmt(txn.captcha_redirect) ".toList ++
        "%[var(txn.captcha_scheme)]://%[req.hdr(host)]%[pathq]".toList), .always⟩ := by
    decide
  have hlocation : "redirect location ".toList = "redirect ".toList ++ "location ".toList := by
    decide
  have hredirect : "redirect location ".toList ++ Frontend.safeToken site.env.unicode
        (orText rule.redirectUrl site.challengeUrl) ++
        "?cid=%[var(txn.captcha_cid_token)] code 302".toList =
      (RequestAction.stop (.redirect (challengeUrl site rule))).text := by
    unfold RequestAction.text challengeUrl
    rw [hlocation]
    simp only [List.append_assoc]
  have hjoin : solvedTest ++ [' '] ++ challengeCondition cond =
      solvedTest ++ ' ' :: challengeCondition cond := by
    simp only [List.append_assoc, List.singleton_append]
  have hstore : challengeStore site rule =
      (RequestAction.context (challengeStore site rule)).text := rfl
  unfold emitChallengeRedirect challengeLines challengePage
  dsimp only
  rw [hvarnish, hsolved, hjoin, requestLine_eq hallow, hid, https, http, hback,
    requestLine_eq hredirect]
  simp only [List.map_cons, List.map_nil, List.cons_append, List.nil_append, List.cons.injEq,
    true_and, and_true]
  exact (requestLine_eq hstore _).symm

theorem deny_text (status : Text) :
    "deny deny_status ".toList ++ status ++ " default-errorfiles".toList =
      (RequestAction.stop (.deny ("deny_status ".toList ++ status ++
        " default-errorfiles".toList))).text := by
  have hhead : "deny deny_status ".toList = "deny ".toList ++ "deny_status ".toList := by
    decide
  unfold RequestAction.text
  rw [hhead]
  simp only [List.append_assoc]

theorem redirect_text (url code : Text) :
    "redirect location ".toList ++ url ++ " code ".toList ++ code =
      (RequestAction.stop (.redirect ("location ".toList ++ url ++ " code ".toList ++ code))).text := by
  have hhead : "redirect location ".toList = "redirect ".toList ++ "location ".toList := by
    decide
  unfold RequestAction.text
  rw [hhead]
  simp only [List.append_assoc]

theorem respond_text (status contentType path : Text) :
    "return status ".toList ++ status ++ " content-type \"".toList ++ contentType ++
        "\" lf-file ".toList ++ path =
      (RequestAction.stop (.respond ("status ".toList ++ status ++ " content-type \"".toList ++
        contentType ++ "\" lf-file ".toList ++ path))).text := by
  have hhead : "return status ".toList = "return ".toList ++ "status ".toList := by decide
  unfold RequestAction.text
  rw [hhead]
  simp only [List.append_assoc]

/-- The lines of a rule, once it is logged. -/
theorem requestEffect_eq (site : Site) (rule : SecurityRule) (cond : Text) :
    requestEffect site rule cond =
      (preparingLines site rule cond ++ [lastLine site rule cond]).map
        fun l => SecurityLine.request l.text := by
  have hdone := doneLine_text cond
  have hflags := flagLines_text rule cond
  have hchallenge := challengeLines_text site rule cond
  rw [List.map_append, List.map_singleton]
  unfold requestEffect preparingLines lastLine SecurityRule.ending
  cases haction : rule.action with
  | block =>
      simp only [List.map_nil, List.nil_append, stopLine]
      rw [requestLine_eq (deny_text _)]
  | allow =>
      rw [haction] at hflags
      simp only [reduceCtorEq, if_false, hdone, hflags]
      rfl
  | redirect =>
      simp only [List.map_nil, List.nil_append, stopLine]
      rw [requestLine_eq (redirect_text _ _)]
  | customResponse =>
      dsimp only
      split
      · next path contentType hpage =>
          simp only [hpage, List.map_nil, List.nil_append, stopLine]
          rw [requestLine_eq (respond_text _ _ _)]
      · next hpage =>
          simp only [hpage, List.map_nil, List.nil_append, stopLine]
          rw [requestLine_eq (deny_text _)]
  | challenge => simp only [if_true, hdone, hchallenge]
  | log | skipRules | skipRulesRatelimit | skipRulesWaf | skipAll =>
      rw [haction] at hflags
      simp only [reduceCtorEq, if_false, hdone, hflags]

/-- **The emitted lines** are the lines of the rule under its guarded condition. -/
theorem emitRequestRule_eq (site : Site) (rule : SecurityRule) (cond : Text) :
    emitRequestRule site rule cond =
      (requestLines site rule (guardedCondition cond)).map fun l => SecurityLine.request l.text := by
  have hlog := requestLogLines_text rule (guardedCondition cond)
  have heffect := requestEffect_eq site rule (guardedCondition cond)
  rw [requestLines, List.append_assoc, List.map_append, hlog, ← heffect]
  rfl

end CorexManager.Security
