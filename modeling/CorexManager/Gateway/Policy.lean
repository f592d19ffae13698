import CorexManager.Gateway.Evaluate
import CorexManager.Logic.Priority

/-!
# The policy engine

`policy.rs`: the policies of a bundle are compiled in the order of their priority, and the
first whose expression holds decides.  A policy whose expression does not parse is logged and
left out.

The engine decides as the bundle says, and fails closed, except where the evaluation of a
policy panics or an unreadable `deny` stands before the policy that decides
(`follows_bundle_iff`).
-/

namespace CorexManager.Gateway

open Data (Dict.lookup Json Text intText)
open Priority (Before IsFirst sortByKey)

/-! ### Policies -/

/-- `PolicyConfig`. -/
structure PolicyConfig where
  teamId : Int
  name : Text
  enabled : Bool
  priority : Int
  expression : Text
  action : Text

/-- `PolicyAction`. -/
inductive PolicyAction where
  | allow | deny | skipDlp | skipRateLimit
  deriving DecidableEq, Repr

/-- `PolicyAction::parse`. -/
def PolicyAction.parse (s : Text) : PolicyAction :=
  if s = "deny".toList then .deny
  else if s = "skip_dlp".toList then .skipDlp
  else if s = "skip_ratelimit".toList then .skipRateLimit
  else .allow

/-- `PolicyResult`. -/
structure PolicyResult where
  action : PolicyAction
  ruleName : Text
  skipDlp : Bool
  skipRatelimit : Bool
  deriving DecidableEq, Repr

/-- `PolicyResult::denied`. -/
def PolicyResult.denied (r : PolicyResult) : Bool := r.action == .deny

/-- `PolicyResult::allowed`. -/
def PolicyResult.allowed (r : PolicyResult) : Bool := r.action == .allow

/-- `CompiledPolicy`. -/
structure CompiledPolicy where
  name : Text
  ast : Expr
  action : PolicyAction

/-- `PolicyEngine`. -/
structure PolicyEngine where
  policies : List CompiledPolicy
  hasPoliciesConfigured : Bool

/-- A policy whose expression parses, compiled. -/
def PolicyConfig.compile (P : Platform) (p : PolicyConfig) : Option CompiledPolicy :=
  (parseExpression P.regex P.unicode p.expression).map fun ast =>
    ⟨p.name, ast, .parse p.action⟩

/-- `PolicyEngine::load_sorted`. -/
def PolicyEngine.loadSorted (P : Platform) (raw : List PolicyConfig) : PolicyEngine where
  policies := (sortByKey PolicyConfig.priority (raw.filter PolicyConfig.enabled)).filterMap
    (PolicyConfig.compile P)
  hasPoliciesConfigured := !raw.isEmpty

/-- The result of a policy that matches. -/
def CompiledPolicy.result (p : CompiledPolicy) : PolicyResult where
  action := p.action
  ruleName := p.name
  skipDlp := p.action == .skipDlp
  skipRatelimit := p.action == .skipRateLimit

/-- The result without policies. -/
def noPolicies : PolicyResult := ⟨.allow, "<default: no policies>".toList, false, false⟩

/-- The result when no policy matches. -/
def noMatch : PolicyResult := ⟨.deny, "<default: no match>".toList, false, false⟩

/-- The loop of `PolicyEngine::evaluate`. -/
def firstMatch (P : Platform) (ctx : EvalContext) : List CompiledPolicy → Option PolicyResult
  | [] => some noMatch
  | p :: ps =>
      match evaluate P ctx p.ast with
      | none => none
      | some true => some p.result
      | some false => firstMatch P ctx ps

/-- `PolicyEngine::evaluate`. -/
def PolicyEngine.evaluate (P : Platform) (engine : PolicyEngine) (ctx : EvalContext) :
    Option PolicyResult :=
  if !engine.hasPoliciesConfigured then some noPolicies
  else firstMatch P ctx engine.policies

/-! ### The access of an identity -/

/-- `AuthContext`. -/
structure AuthContext where
  identityId : Int
  teamId : Int
  name : Text
  kind : Text
  claims : Json

/-- `check_tool_access`. -/
def checkToolAccess (P : Platform) (method toolName serverNamespace : Text) (auth : AuthContext)
    (args : Option Json) (ipSrc : Text) (engine : PolicyEngine) : Option PolicyResult :=
  engine.evaluate P (buildMcpContext P method serverNamespace toolName [] [] auth.name auth.kind
    (intText auth.teamId) args (some auth.claims) ipSrc)

/-- `check_resource_access`. -/
def checkResourceAccess (P : Platform) (method resourceUri serverNamespace : Text)
    (auth : AuthContext) (ipSrc : Text) (engine : PolicyEngine) : Option PolicyResult :=
  engine.evaluate P (buildMcpContext P method serverNamespace [] resourceUri [] auth.name auth.kind
    (intText auth.teamId) none (some auth.claims) ipSrc)

/-- `check_prompt_access`. -/
def checkPromptAccess (P : Platform) (method promptName serverNamespace : Text)
    (auth : AuthContext) (ipSrc : Text) (engine : PolicyEngine) : Option PolicyResult :=
  engine.evaluate P (buildMcpContext P method serverNamespace [] [] promptName auth.name auth.kind
    (intText auth.teamId) none (some auth.claims) ipSrc)

/-- What is listed. -/
def PolicyResult.listed (r : PolicyResult) : Bool :=
  r.allowed || r.action == .skipDlp || r.action == .skipRateLimit

theorem PolicyResult.listed_eq (r : PolicyResult) : r.listed = !r.denied := by
  unfold listed allowed denied
  cases r.action <;> rfl

/-- The items of a list that a check lets through. -/
def filterList (check : Json → Option PolicyResult) : List Json → Option (List Json)
  | [] => some []
  | item :: items => do
      let pr ← check item
      let rest ← filterList check items
      some (if pr.listed then item :: rest else rest)

/-- A text of an item, empty if it is missing. -/
def itemText (key : Text) (item : Json) : Text := ((item.get key).bind Json.asStr).getD []

/-- `filter_tool_list`. -/
def filterToolList (P : Platform) (tools : List Json) (ns : Text) (auth : AuthContext)
    (ipSrc : Text) (engine : PolicyEngine) : Option (List Json) :=
  filterList (fun tool => checkToolAccess P "tools/call".toList (itemText "name".toList tool) ns
    auth none ipSrc engine) tools

/-- `filter_resource_list`. -/
def filterResourceList (P : Platform) (resources : List Json) (ns : Text) (auth : AuthContext)
    (ipSrc : Text) (engine : PolicyEngine) : Option (List Json) :=
  filterList (fun res => checkResourceAccess P "resources/read".toList
    (itemText "uri".toList res) ns auth ipSrc engine) resources

/-- `filter_prompt_list`. -/
def filterPromptList (P : Platform) (prompts : List Json) (ns : Text) (auth : AuthContext)
    (ipSrc : Text) (engine : PolicyEngine) : Option (List Json) :=
  filterList (fun prompt => checkPromptAccess P "prompts/get".toList
    (itemText "name".toList prompt) ns auth ipSrc engine) prompts

/-- A list that was filtered holds the items that are let through, in their order. -/
theorem filterList_eq_some {check : Json → Option PolicyResult} {items out : List Json}
    (h : filterList check items = some out) :
    out = items.filter (fun item => (check item).any PolicyResult.listed) := by
  induction items generalizing out with
  | nil =>
      cases h
      rfl
  | cons item items ih =>
      rw [filterList] at h
      cases hpr : check item with
      | none =>
          rw [hpr] at h
          cases h
      | some pr =>
          rw [hpr] at h
          cases hrest : filterList check items with
          | none =>
              rw [hrest] at h
              cases h
          | some rest =>
              rw [hrest] at h
              obtain rfl := Option.some.inj h
              rw [List.filter_cons, hpr, ih hrest]
              rfl

/-- Filtering panics when a check does. -/
theorem filterList_eq_none_iff {check : Json → Option PolicyResult} {items : List Json} :
    filterList check items = none ↔ ∃ item ∈ items, check item = none := by
  induction items with
  | nil => simp [filterList]
  | cons item items ih =>
      rw [filterList, List.exists_mem_cons_iff, ← ih]
      cases hpr : check item with
      | none => simp
      | some pr => cases hrest : filterList check items <;> simp

/-! ### What the bundle says -/

section Bundle

variable (P : Platform) (ctx : EvalContext) (raw : List PolicyConfig)

/-- What the expression of a policy evaluates to; the outer `none` is one that does not
parse. -/
def PolicyConfig.value (p : PolicyConfig) : Option (Option Bool) :=
  (parseExpression P.regex P.unicode p.expression).map (Gateway.evaluate P ctx)

/-- An enabled policy whose expression holds in the context. -/
def PolicyConfig.holds (p : PolicyConfig) : Bool :=
  p.enabled && p.value P ctx == some (some true)

/-- An enabled policy whose evaluation panics. -/
def PolicyConfig.panics (p : PolicyConfig) : Bool :=
  p.enabled && p.value P ctx == some none

/-- An enabled `deny` policy. -/
def PolicyConfig.denies (p : PolicyConfig) : Bool :=
  p.enabled && PolicyAction.parse p.action == .deny

/-- The first enabled policy that holds, by priority and then by place in the bundle. -/
abbrev Decider (i : ℕ) (p : PolicyConfig) : Prop :=
  IsFirst PolicyConfig.priority (PolicyConfig.holds P ctx) raw i p

/-- No policy that holds comes before the policy `p` at `i`. -/
def Reached (i : ℕ) (p : PolicyConfig) : Prop :=
  ∀ j q, raw[j]? = some q → q.holds P ctx = true → ¬ Before PolicyConfig.priority j q i p

/-- The default: everything is open without policies, and nothing is with some. -/
def defaultAction : PolicyAction := if raw = [] then .allow else .deny

/-- **What is claimed of a decision.**  The first policy that holds decides, or the default
does; and a `deny` that cannot be read is not skipped in favour of anything but a denial. -/
structure FollowsBundle (r : PolicyResult) : Prop where
  first : ∀ i p, Decider P ctx raw i p → r.action = .parse p.action
  otherwise : (∀ p ∈ raw, p.holds P ctx = false) → r.action = defaultAction raw
  closed : ∀ i p, raw[i]? = some p → p.denies = true →
    p.value P ctx = none ∨ p.value P ctx = some none → Reached P ctx raw i p → r.action = .deny

variable {P ctx raw}

/-! ### The engine and the sorted bundle -/

/-- The loop stops at this policy. -/
private def PolicyConfig.stops (P : Platform) (ctx : EvalContext) (p : PolicyConfig) : Bool :=
  p.holds P ctx || p.panics P ctx

/-- The result of a policy the loop stops at. -/
private def PolicyConfig.outcome (P : Platform) (ctx : EvalContext) (p : PolicyConfig) :
    Option PolicyResult :=
  if p.panics P ctx then none else some (CompiledPolicy.result ⟨p.name, .literal true, .parse p.action⟩)

private theorem value_eq_none {p : PolicyConfig}
    (h : parseExpression P.regex P.unicode p.expression = none) : p.value P ctx = none := by
  rw [PolicyConfig.value, h]
  rfl

private theorem value_eq_some {p : PolicyConfig} {ast : Expr}
    (h : parseExpression P.regex P.unicode p.expression = some ast) :
    p.value P ctx = some (evaluate P ctx ast) := by
  rw [PolicyConfig.value, h]
  rfl

private theorem firstMatch_eq {l : List PolicyConfig} (hl : ∀ p ∈ l, p.enabled = true) :
    firstMatch P ctx (l.filterMap (PolicyConfig.compile P)) =
      match l.find? (PolicyConfig.stops P ctx) with
      | some p => p.outcome P ctx
      | none => some noMatch := by
  induction l with
  | nil => rfl
  | cons p l ih =>
      obtain ⟨hp, hl⟩ := List.forall_mem_cons.mp hl
      rw [List.filterMap_cons, List.find?_cons]
      cases hparse : parseExpression P.regex P.unicode p.expression with
      | none =>
          have hstops : p.stops P ctx = false := by
            simp [PolicyConfig.stops, PolicyConfig.holds, PolicyConfig.panics, value_eq_none hparse]
          rw [PolicyConfig.compile, hparse, hstops]
          exact ih hl
      | some ast =>
          rw [PolicyConfig.compile, hparse]
          show (match evaluate P ctx ast with
            | none => none
            | some true => some _
            | some false => firstMatch P ctx _) = _
          have hvalue : p.value P ctx = some (evaluate P ctx ast) := value_eq_some hparse
          cases heval : evaluate P ctx ast with
          | none =>
              rw [heval] at hvalue
              simp [PolicyConfig.stops, PolicyConfig.outcome, PolicyConfig.panics, hp, hvalue]
          | some b =>
              rw [heval] at hvalue
              cases b with
              | true =>
                  simp [PolicyConfig.stops, PolicyConfig.outcome, PolicyConfig.holds,
                    PolicyConfig.panics, hp, hvalue, CompiledPolicy.result]
              | false =>
                  have hstops : p.stops P ctx = false := by
                    simp [PolicyConfig.stops, PolicyConfig.holds, PolicyConfig.panics, hvalue]
                  rw [hstops]
                  exact ih hl

private theorem evaluate_loadSorted (hraw : raw ≠ []) :
    (PolicyEngine.loadSorted P raw).evaluate P ctx =
      match (sortByKey PolicyConfig.priority raw).find? (PolicyConfig.stops P ctx) with
      | some p => p.outcome P ctx
      | none => some noMatch := by
  have hconfigured : (PolicyEngine.loadSorted P raw).hasPoliciesConfigured = true := by
    cases raw with
    | nil => exact absurd rfl hraw
    | cons p raw => rfl
  have hstops : (fun p : PolicyConfig => decide (p.enabled = true ∧ p.stops P ctx = true)) =
      PolicyConfig.stops P ctx := by
    funext p
    have henabled : p.stops P ctx = true → p.enabled = true := by
      unfold PolicyConfig.stops PolicyConfig.holds PolicyConfig.panics
      cases p.enabled <;> simp
    exact Bool.eq_iff_iff.mpr (by rw [decide_eq_true_iff]; exact and_iff_right_of_imp henabled)
  rw [PolicyEngine.evaluate, hconfigured]
  show firstMatch P ctx ((sortByKey PolicyConfig.priority
    (raw.filter PolicyConfig.enabled)).filterMap _) = _
  rw [Priority.sortByKey_filter, firstMatch_eq fun p hp => (List.mem_filter.mp hp).2,
    List.find?_filter, hstops]

private theorem stops_of_holds {p : PolicyConfig} (h : p.holds P ctx = true) :
    p.stops P ctx = true := by
  rw [PolicyConfig.stops, h, Bool.true_or]

private theorem stops_of_panics {p : PolicyConfig} (h : p.panics P ctx = true) :
    p.stops P ctx = true := by
  rw [PolicyConfig.stops, h, Bool.or_true]

/-- A policy that panics is out of reach, and a `deny` that does not parse is, or leaves the
decision to another `deny`. -/
structure Readable (P : Platform) (ctx : EvalContext) (raw : List PolicyConfig) : Prop where
  evaluates : ∀ i p, raw[i]? = some p → p.panics P ctx = true → ¬ Reached P ctx raw i p
  parses : ∀ i p, raw[i]? = some p → p.denies = true → p.value P ctx = none →
    Reached P ctx raw i p → ∀ j q, Decider P ctx raw j q → PolicyAction.parse q.action = .deny

/-- Without policies that stop the loop, the default is what the bundle says. -/
private theorem followsBundle_noMatch (hraw : raw ≠ [])
    (hnone : ∀ p ∈ raw, p.stops P ctx = false) : FollowsBundle P ctx raw noMatch where
  first i p hp := by
    have hstops := stops_of_holds hp.passes
    rw [hnone p (List.mem_of_getElem? hp.here)] at hstops
    cases hstops
  otherwise _ := by
    rw [defaultAction, if_neg hraw]
    rfl
  closed _ _ _ _ _ _ := rfl

/-- The loop stops at a policy that holds: what is left of the claim are the unreadable
policies before it. -/
private theorem followsBundle_decider {i : ℕ} {p : PolicyConfig} {r : PolicyResult}
    (hfirst : IsFirst PolicyConfig.priority (PolicyConfig.stops P ctx) raw i p)
    (hholds : p.holds P ctx = true) (hpanics : p.panics P ctx = false)
    (haction : r.action = .parse p.action) :
    FollowsBundle P ctx raw r ↔ Readable P ctx raw := by
  have hdecider : Decider P ctx raw i p :=
    ⟨hfirst.here, hholds, fun j q hq hq' => hfirst.least j q hq (stops_of_holds hq')⟩
  -- a policy that panics would have stopped the loop, unless the decider comes before it
  have hevaluates : ∀ j q, raw[j]? = some q → q.panics P ctx = true → ¬ Reached P ctx raw j q := by
    intro j q hq hq' hreached
    rcases hfirst.eq_or_before hq (stops_of_panics hq') with ⟨-, rfl⟩ | hbefore
    · rw [hpanics] at hq'
      cases hq'
    · exact hreached i p hfirst.here hholds hbefore
  constructor
  · intro h
    refine ⟨hevaluates, fun j q hq hdenies hvalue hreached k q' hq' => ?_⟩
    obtain ⟨-, rfl⟩ := hdecider.unique hq'
    rw [← haction]
    exact h.closed j q hq hdenies (.inl hvalue) hreached
  · intro h
    refine ⟨fun j q hq => ?_, fun hnone => ?_, fun j q hq hdenies hvalue hreached => ?_⟩
    · obtain ⟨-, rfl⟩ := hdecider.unique hq
      exact haction
    · rw [hnone p (List.mem_of_getElem? hfirst.here)] at hholds
      cases hholds
    · rcases hvalue with hvalue | hvalue
      · rw [haction]
        exact h.parses j q hq hdenies hvalue hreached i p hdecider
      · have hq' : q.panics P ctx = true := by
          rw [PolicyConfig.denies, Bool.and_eq_true] at hdenies
          simp [PolicyConfig.panics, hdenies.1, hvalue]
        exact absurd hreached (hevaluates j q hq hq')

/-- **When the engine decides as its bundle says.** -/
theorem followsBundle_iff (P : Platform) (raw : List PolicyConfig) (ctx : EvalContext) :
    (∃ r, (PolicyEngine.loadSorted P raw).evaluate P ctx = some r ∧ FollowsBundle P ctx raw r) ↔
      Readable P ctx raw := by
  rcases eq_or_ne raw [] with rfl | hraw
  · refine iff_of_true ⟨noPolicies, rfl, ?_, fun _ => rfl, ?_⟩ ⟨?_, ?_⟩
    · intro i p hp
      cases hp.here
    all_goals
      intro i p hp
      cases hp
  rw [evaluate_loadSorted hraw]
  cases hfind : (sortByKey PolicyConfig.priority raw).find? (PolicyConfig.stops P ctx) with
  | none =>
      have hnone := Priority.find?_sortByKey_eq_none.mp hfind
      have hfollows := followsBundle_noMatch hraw hnone
      refine iff_of_true ⟨noMatch, rfl, hfollows⟩ ⟨fun i p hp hpanics => ?_, ?_⟩
      · have hstops := stops_of_panics hpanics
        rw [hnone p (List.mem_of_getElem? hp)] at hstops
        cases hstops
      · intro i p _ _ _ _ j q hq
        exact (hfollows.first j q hq).symm
  | some p =>
      obtain ⟨i, hfirst⟩ := Priority.find?_sortByKey hfind
      cases hpanics : p.panics P ctx with
      | true =>
          have houtcome : p.outcome P ctx = none := if_pos hpanics
          dsimp only
          rw [houtcome]
          refine iff_of_false (fun ⟨r, h, _⟩ => nomatch h) fun h => ?_
          refine h.evaluates i p hfirst.here hpanics fun j q hq hholds => ?_
          exact hfirst.not_before hq (stops_of_holds hholds)
      | false =>
          have hholds : p.holds P ctx = true := by
            have hstops := hfirst.passes
            rwa [PolicyConfig.stops, hpanics, Bool.or_false] at hstops
          have houtcome : p.outcome P ctx =
              some (CompiledPolicy.result ⟨p.name, .literal true, .parse p.action⟩) :=
            if_neg (by rw [hpanics]; decide)
          dsimp only
          rw [houtcome]
          have hiff := followsBundle_decider hfirst hholds hpanics
            (r := CompiledPolicy.result ⟨p.name, .literal true, .parse p.action⟩) rfl
          rw [← hiff]
          exact ⟨fun ⟨r, hr, h⟩ => Option.some.inj hr ▸ h, fun h => ⟨_, rfl, h⟩⟩

end Bundle

/-! ### A `deny` that the gateway cannot read -/

/-- A platform whose patterns are words. -/
def Platform.plain : Platform where
  regex := .words
  unicode := .ascii
  parseF64 _ := none
  floatAsI64 _ := 0
  floatText _ := []
  json := Data.printer []
  dlpMaxScanLength := 100000
  guardrailMaxScanLength := 100000

/-- A `deny` with a number that is no `i64`, before an `allow` for everything. -/
def overflowingPolicies : List PolicyConfig :=
  [⟨1, "large".toList, true, 0, "mcp.arg[\"n\"] >= 9223372036854775808".toList, "deny".toList⟩,
    ⟨1, "rest".toList, true, 1, "true".toList, "allow".toList⟩]

/-- The call is allowed. -/
theorem overflowing_deny_skipped :
    ¬ ∃ r, (PolicyEngine.loadSorted .plain overflowingPolicies).evaluate .plain
      (buildMcpContext .plain "tools/call".toList "jira".toList "jira__t".toList [] [] "ci".toList
        "pat".toList "1".toList (some (.obj [("n".toList, .num (.int 9223372036854775808))])) none
        []) = some r ∧
      FollowsBundle .plain (buildMcpContext .plain "tools/call".toList "jira".toList
        "jira__t".toList [] [] "ci".toList "pat".toList "1".toList
        (some (.obj [("n".toList, .num (.int 9223372036854775808))])) none [])
        overflowingPolicies r := by
  generalize buildMcpContext .plain _ _ _ _ _ _ _ _ _ _ _ = ctx
  rintro ⟨r, hr, h⟩
  have hparse : parseExpression .words .ascii
      "mcp.arg[\"n\"] >= 9223372036854775808".toList = none := by decide +kernel
  have hrest : parseExpression .words .ascii "true".toList = some (.literal true) := rfl
  have hsort : sortByKey PolicyConfig.priority (overflowingPolicies.filter PolicyConfig.enabled) =
      overflowingPolicies := rfl
  have hlist : (PolicyEngine.loadSorted .plain overflowingPolicies).policies =
      [⟨"rest".toList, .literal true, .allow⟩] := by
    show (sortByKey PolicyConfig.priority (overflowingPolicies.filter PolicyConfig.enabled)).filterMap
      (PolicyConfig.compile .plain) = _
    rw [hsort]
    unfold overflowingPolicies
    rw [List.filterMap_cons_none (by rw [PolicyConfig.compile]; exact congrArg _ hparse),
      List.filterMap_cons_some (by rw [PolicyConfig.compile]; exact congrArg _ hrest)]
    rfl
  have hallow : r.action = .allow := by
    rw [PolicyEngine.evaluate, hlist] at hr
    rw [← Option.some.inj hr]
    rfl
  have hvalue : PolicyConfig.value .plain ctx
      ⟨1, "large".toList, true, 0, "mcp.arg[\"n\"] >= 9223372036854775808".toList,
        "deny".toList⟩ = none := by
    rw [PolicyConfig.value]
    exact congrArg _ hparse
  have hdeny : r.action = .deny := by
    refine h.closed 0 _ rfl rfl (.inl hvalue) fun j q hq hholds hbefore => ?_
    rcases hbefore with hlt | ⟨-, hlt⟩
    · have hpriority : 0 ≤ q.priority := by
        rcases List.mem_pair.mp (List.mem_of_getElem? hq) with rfl | rfl <;> decide
      exact absurd hlt (not_lt.mpr hpriority)
    · exact absurd hlt (Nat.not_lt_zero j)
  rw [hallow] at hdeny
  cases hdeny

end CorexManager.Gateway
