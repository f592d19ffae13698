import CorexManager.HAProxy.Directives
import CorexManager.RiskScoring.Compute
import CorexManager.Security.Alternatives

/-!
# Risk scoring on a listener

`emit_risk_scoring` writes one directive for each rule of a listener that sets the match flag of the
rule, and `generate_risk_rules_data` writes the file from which `risk_compute` takes the points.  A
guard is pasted behind every condition, where it joins the last alternative only.

* `emitRiskScoring`, `generateRiskRulesData` — what is written.
* `flag_iff` — the flags that a request sets.
* `lawful_iff` — under the guard the scores are the points of the rules whose expression holds, and
  without it no flag is set, exactly if the guard holds or no rule has an alternative that it does not
  guard.

What `risk_capture` writes is in the request that the conditions see; no field of the expressions is
a match flag.
-/

namespace CorexManager.RiskScoring

open Data
open Expression
open Security (Env Documented Faithful Means Phase alternatives any_alternatives_iff boolFieldsSet
  translate)
open HAProxy (Cond Directive Sample SpeltGroup Verdict View guardLast)

/-- `RiskRuleset`. -/
structure RiskRuleset where
  id : Nat
  slug : Text
  enabled : Bool
  deriving DecidableEq, Repr

/-- `RiskRule`. -/
structure RiskRule where
  id : Nat
  name : Text
  enabled : Bool
  listenerIds : List Nat
  rulesetId : Nat
  expression : Text
  points : Int
  log : Bool
  deriving DecidableEq, Repr

/-- The two tables, by priority. -/
structure Tables where
  rulesets : List RiskRuleset
  rules : List RiskRule

/-! ### What is written -/

/-- `rules_for_listener`, of the rules by priority. -/
def rulesForListener (rules : List RiskRule) (listenerId : Nat) : List RiskRule :=
  rules.filter fun r => r.enabled && (r.listenerIds.isEmpty || decide (listenerId ∈ r.listenerIds))

/-- The tree of an expression and its condition; `none` is a rule that is passed over, as those of
the response phase are. -/
def compiled (env : Env) (rule : RiskRule) : Option (Node × Text) :=
  match parseExpression env.unicode boolFieldsSet rule.expression with
  | .error _ => none
  | .ok ast =>
      match translate env ast with
      | .ok (cond, .request) => some (ast, cond)
      | _ => none

/-- `if guard`, or nothing. -/
def guardCond (guard : Text) : Cond := if guard = [] then .always else .when guard

/-- A condition with the guard behind it. -/
def pasteGuard (cond guard : Text) : Text := if guard = [] then cond else cond ++ ' ' :: guard

/-- The match flag of a rule. -/
def flagLines (env : Env) (guard : Text) (rule : RiskRule) : List Directive :=
  match compiled env rule with
  | none => []
  | some (_, cond) =>
      [.rule ⟨.setVar (matchVar rule.id) "bool(1)".toList, .when (pasteGuard cond guard)⟩]

/-- `emit_risk_scoring`. -/
def emitRiskScoring (env : Env) (rules : List RiskRule) (listenerId : Nat) (guard : Text) :
    List Directive :=
  let rules := rulesForListener rules listenerId
  let capture := Directive.script "risk_capture".toList (guardCond guard)
  let compute := Directive.script "risk_compute".toList (guardCond guard)
  if rules = [] then [capture, compute]
  else capture :: (rules.flatMap (flagLines env guard) ++ [compute])

/-- What Lua reads of the string that `_safe_lua_string` writes. -/
def luaString (value : Text) : Text :=
  (value.map fun c => if c = '\n' then ' ' else c).filter (· ≠ '\r')

/-- `generate_risk_rules_data`, as `dofile` reads it: all rules of the enabled rulesets. -/
def generateRiskRulesData (t : Tables) : RiskData where
  rulesets := (t.rulesets.filter RiskRuleset.enabled).map fun rs => luaString rs.slug
  rules := t.rules.filterMap fun r =>
    ((t.rulesets.filter RiskRuleset.enabled).find? fun rs => rs.id == r.rulesetId).map fun rs =>
      ⟨r.id, luaString rs.slug, r.points, luaString r.name, r.log, r.enabled⟩

/-! ### What a request does -/

/-- The variables after a directive. -/
def perform (percent : Nat → Nat → Int) (data : RiskData) : Directive → Vars → Vars
  | .rule ⟨.setVar name expr, _⟩, vars =>
      if expr = "bool(1)".toList then Function.update vars name (some (.bool true)) else vars
  | .script call _, vars =>
      if call = "risk_compute".toList then riskCompute percent data vars else vars
  | _, vars => vars

/-- **The directives**, run in order on a request. -/
def machine (percent : Nat → Nat → Int) (data : RiskData) (v : View) :
    RuleChain.Machine Vars Directive Verdict where
  fires _ d := v.meets d.cond
  effect := perform percent data
  verdict := Directive.verdict

/-- The variables that a request is left with. -/
def scored (percent : Nat → Nat → Int) (env : Env) (t : Tables) (listenerId : Nat) (guard : Text)
    (v : View) : Vars :=
  ((machine percent (generateRiskRulesData t) v).run
    (emitRiskScoring env t.rules listenerId guard) fun _ => none).state

/-! ### What it should do -/

/-- A rule of the request phase, and its expression holds. -/
def RiskRule.Holds (env : Env) (v : View) (r : RiskRule) : Prop :=
  ∃ n cond, compiled env r = some (n, cond) ∧ Means env v n

open Classical in
/-- The rules of a ruleset on a listener whose expression holds. -/
noncomputable def Tables.holding (t : Tables) (env : Env) (listenerId : Nat) (v : View)
    (rs : RiskRuleset) : List RiskRule :=
  (rulesForListener t.rules listenerId).filter fun r => decide (r.Holds env v ∧ r.rulesetId = rs.id)

/-- **The law**: a request outside the guard sets no flag, and one inside it gets the points of the
rules whose expression holds, within `[0, 99]`, and their number. -/
structure Lawful (env : Env) (t : Tables) (listenerId : Nat) (v : View) (g : Bool) (vars : Vars) :
    Prop where
  unguarded : g = false → ∀ r ∈ t.rules, vars (matchVar r.id) = none
  score : g = true → ∀ rs ∈ t.rulesets, rs.enabled = true →
    vars (rulesetVar rs.slug .score) = some (.str (intText (min 99 (max 0
      ((t.holding env listenerId v rs).map RiskRule.points).sum))))
  count : g = true → ∀ rs ∈ t.rulesets, rs.enabled = true →
    vars (rulesetVar rs.slug .rulesHitCount) =
      some (.str (natText (t.holding env listenerId v rs).length))

/-- What the tables and the request are: numbers and slugs are keys, slugs are as they are validated,
and the translator is faithful on the expressions. -/
structure Regular (env : Env) (t : Tables) (v : View) : Prop where
  documented : Documented env v
  paths : env.PlainPaths
  ruleIds : (t.rules.map RiskRule.id).Nodup
  rulesetIds : (t.rulesets.map RiskRuleset.id).Nodup
  slugs : (t.rulesets.map RiskRuleset.slug).Nodup
  slugChars : ∀ rs ∈ t.rulesets, ∀ c ∈ rs.slug, c ≠ '\n' ∧ c ≠ '\r'
  faithful : ∀ r ∈ t.rules, ∀ n cond, compiled env r = some (n, cond) →
    ∀ o ∈ n.occurrences true, Faithful env (o.2.signed o.1) = true

/-- The guard and its truth; no guard holds of every request. -/
def GuardIs (v : View) (guard : Text) (g : Bool) : Prop :=
  guard = [] ∧ g = true ∨ guard ≠ [] ∧ SpeltGroup v guard g

section

variable {env : Env} {t : Tables} {v : View} {guard : Text} {g : Bool} {listenerId : Nat}

/-! ### The match flags -/

/-- A rule that is compiled is one of the request phase. -/
theorem compiled_parts {r : RiskRule} {n : Node} {cond : Text} (h : compiled env r = some (n, cond)) :
    parseExpression env.unicode boolFieldsSet r.expression = .ok n ∧
      translate env n = .ok (cond, .request) := by
  unfold compiled at h
  split at h
  · cases h
  · next ast hparse =>
      split at h
      · next cond' htranslate =>
          cases h
          exact ⟨hparse, htranslate⟩
      · cases h

/-- **A condition with the guard behind it** says what its alternatives say of which the guard is in
the last. -/
theorem holds_pasteGuard (hreg : Regular env t v) (hguard : GuardIs v guard g) {r : RiskRule}
    (hr : r ∈ t.rules) {n : Node} {cond : Text} (h : compiled env r = some (n, cond)) :
    v.holds (pasteGuard cond guard) = some (guardLast (alternatives env v n) g) := by
  obtain ⟨hparse, htranslate⟩ := compiled_parts h
  have hproper := parseExpression_proper hparse
  have hspelt : HAProxy.Spelt v cond (alternatives env v n) := Security.translate_alternatives
    hreg.documented hreg.paths hproper (hreg.faithful r hr n cond h) htranslate
  have hne : alternatives env v n ≠ [] := Security.alternatives_ne_nil hproper
  rcases hguard with ⟨rfl, rfl⟩ | ⟨hsome, hspells⟩
  · rw [HAProxy.guardLast_true]
    exact hspelt.holds
  · rw [pasteGuard, if_neg hsome]
    exact hspelt.holds_pasted hne hspells

/-- The request sets the flag of a rule. -/
def RiskRule.flagged (env : Env) (v : View) (g : Bool) (r : RiskRule) : Bool :=
  match compiled env r with
  | none => false
  | some (n, _) => guardLast (alternatives env v n) g

/-- The flags that some rules set. -/
def setFlags (env : Env) (v : View) (g : Bool) (rules : List RiskRule) (vars : Vars) : Vars := fun n =>
  if rules.any fun r => r.flagged env v g && n == matchVar r.id then some (.bool true) else vars n

theorem setFlags_cons (r : RiskRule) (rules : List RiskRule) (vars : Vars) :
    setFlags env v g (r :: rules) vars = setFlags env v g rules
      (if r.flagged env v g then Function.update vars (matchVar r.id) (some (.bool true))
       else vars) := by
  funext n
  unfold setFlags
  rw [List.any_cons]
  cases hlater : rules.any fun r => r.flagged env v g && n == matchVar r.id with
  | true => simp
  | false =>
      by_cases hname : n = matchVar r.id
      · cases hflag : r.flagged env v g <;> simp [hname]
      · cases hflag : r.flagged env v g <;> simp [hname]

/-- **The directives of the rules** set the flags that the request sets. -/
theorem run_flagLines (percent : Nat → Nat → Int) (data : RiskData) (hreg : Regular env t v)
    (hguard : GuardIs v guard g) {rules : List RiskRule} (hrules : ∀ r ∈ rules, r ∈ t.rules)
    (vars : Vars) :
    ((machine percent data v).run (rules.flatMap (flagLines env guard)) vars).state =
        setFlags env v g rules vars ∧
      ((machine percent data v).run (rules.flatMap (flagLines env guard)) vars).verdict = none := by
  induction rules generalizing vars with
  | nil => exact ⟨rfl, rfl⟩
  | cons r rules ih =>
      have hlater : ∀ q ∈ rules, q ∈ t.rules := fun q hq => hrules q (List.mem_cons_of_mem r hq)
      rw [List.flatMap_cons, setFlags_cons]
      cases hcompiled : compiled env r with
      | none =>
          have hlines : flagLines env guard r = [] := by rw [flagLines, hcompiled]
          have hflag : r.flagged env v g = false := by rw [RiskRule.flagged, hcompiled]
          rw [hlines, hflag]
          exact ih hlater vars
      | some c =>
          obtain ⟨n, cond⟩ := c
          have hlines : flagLines env guard r = [.rule ⟨.setVar (matchVar r.id) "bool(1)".toList,
              .when (pasteGuard cond guard)⟩] := by
            rw [flagLines, hcompiled]
          have hflag : r.flagged env v g = guardLast (alternatives env v n) g := by
            rw [RiskRule.flagged, hcompiled]
          have hfires := holds_pasteGuard hreg hguard (hrules r List.mem_cons_self) hcompiled
          rw [hlines, hflag, List.singleton_append]
          cases hlast : guardLast (alternatives env v n) g with
          | true =>
              rw [RuleChain.Machine.run_cons_fire (beq_iff_eq.mpr (hfires.trans (by rw [hlast]))) rfl]
              exact ih hlater _
          | false =>
              rw [RuleChain.Machine.run_cons_skip
                (beq_eq_false_iff_ne.mpr (by rw [hfires, hlast]; decide))]
              exact ih hlater vars

/-- A listener without rules has the same directives. -/
theorem emitRiskScoring_eq (rules : List RiskRule) :
    emitRiskScoring env rules listenerId guard =
      .script "risk_capture".toList (guardCond guard) ::
        ((rulesForListener rules listenerId).flatMap (flagLines env guard) ++
          [.script "risk_compute".toList (guardCond guard)]) := by
  unfold emitRiskScoring
  dsimp only
  split
  · next h => rw [h]; rfl
  · rfl

theorem meets_guardCond (hguard : GuardIs v guard g) : v.meets (guardCond guard) = g := by
  rcases hguard with ⟨rfl, rfl⟩ | ⟨hsome, hspells⟩
  · rfl
  · rw [guardCond, if_neg hsome, View.meets, hspells.holds]
    cases g <;> rfl

theorem mem_rulesForListener {rules : List RiskRule} {r : RiskRule}
    (h : r ∈ rulesForListener rules listenerId) : r ∈ rules := (List.mem_filter.mp h).1

/-- **What a request is left with**: its flags, and under the guard what `risk_compute` makes of
them. -/
theorem scored_eq (percent : Nat → Nat → Int) (hreg : Regular env t v) (hguard : GuardIs v guard g) :
    scored percent env t listenerId guard v =
      if g then riskCompute percent (generateRiskRulesData t)
        (setFlags env v g (rulesForListener t.rules listenerId) fun _ => none)
      else setFlags env v g (rulesForListener t.rules listenerId) fun _ => none := by
  obtain ⟨hstate, hverdict⟩ := run_flagLines percent (generateRiskRulesData t) hreg hguard
    (fun _ h => @mem_rulesForListener listenerId _ _ h) fun _ => none
  have hmet := meets_guardCond hguard
  have hcapture : ∀ lines, ((machine percent (generateRiskRulesData t) v).run
      (.script "risk_capture".toList (guardCond guard) :: lines) fun _ => none).state =
        ((machine percent (generateRiskRulesData t) v).run lines fun _ => none).state := by
    intro lines
    cases g with
    | true =>
        rw [RuleChain.Machine.run_cons_fire hmet rfl]
        rfl
    | false => rw [RuleChain.Machine.run_cons_skip hmet]
  rw [scored, emitRiskScoring_eq, hcapture, RuleChain.Machine.run_append,
    RuleChain.Outcome.andThen_none hverdict, hstate]
  cases g with
  | true =>
      rw [RuleChain.Machine.run_cons_fire hmet rfl]
      rfl
  | false =>
      rw [RuleChain.Machine.run_cons_skip hmet]
      rfl

/-! ### The flags and the data file -/

theorem matchVar_inj {i j : Nat} (h : matchVar i = matchVar j) : i = j := by
  have hnat := congrArg readNat (List.append_cancel_left h)
  rwa [readNat_natText, readNat_natText, Option.some.injEq] at hnat

/-- Among rules with different numbers a flag is that of one rule. -/
theorem setFlags_matchVar {rules : List RiskRule} (hids : (rules.map RiskRule.id).Nodup)
    {r : RiskRule} (hr : r ∈ rules) :
    setFlags env v g (rulesForListener rules listenerId) (fun _ => none) (matchVar r.id) =
      if r ∈ rulesForListener rules listenerId ∧ r.flagged env v g = true then some (.bool true)
      else none := by
  have hany : ((rulesForListener rules listenerId).any fun q =>
      q.flagged env v g && matchVar r.id == matchVar q.id) = true ↔
        r ∈ rulesForListener rules listenerId ∧ r.flagged env v g = true := by
    rw [List.any_eq_true]
    constructor
    · rintro ⟨q, hq, hflag⟩
      obtain ⟨hflag, hname⟩ := Bool.and_eq_true_iff.mp hflag
      have hqr : q = r := List.inj_on_of_nodup_map hids (mem_rulesForListener hq) hr
        (matchVar_inj (beq_iff_eq.mp hname)).symm
      exact ⟨hqr ▸ hq, hqr ▸ hflag⟩
    · rintro ⟨hmem, hflag⟩
      exact ⟨r, hmem, by simp [hflag]⟩
  unfold setFlags
  by_cases h : r ∈ rulesForListener rules listenerId ∧ r.flagged env v g = true
  · rw [if_pos (hany.mpr h), if_pos h]
  · rw [if_neg fun hflag => h (hany.mp hflag), if_neg h]

/-- The flag of a rule is set exactly if the request sets it. -/
theorem matched_setFlags {rules : List RiskRule} (hids : (rules.map RiskRule.id).Nodup)
    {r : RiskRule} (hr : r ∈ rules) :
    matched (setFlags env v g (rulesForListener rules listenerId) (fun _ => none)
        (matchVar r.id)) = true ↔
      r ∈ rulesForListener rules listenerId ∧ r.flagged env v g = true := by
  rw [setFlags_matchVar hids hr]
  split
  · next h => exact iff_of_true rfl h
  · next h => exact iff_of_false Bool.false_ne_true h

/-- A rule of the data file. -/
def RiskRule.dataRule (slug : Text) (r : RiskRule) : DataRule :=
  ⟨r.id, luaString slug, r.points, luaString r.name, r.log, r.enabled⟩

theorem luaString_slug {slug : Text} (h : ∀ c ∈ slug, c ≠ '\n' ∧ c ≠ '\r') :
    luaString slug = slug := by
  have hmap : slug.map (fun c => if c = '\n' then ' ' else c) = slug.map id :=
    List.map_congr_left fun c hc => if_neg (h c hc).1
  rw [luaString, hmap, List.map_id]
  exact List.filter_eq_self.mpr fun c hc => decide_eq_true (h c hc).2

theorem mem_rulesets (hreg : Regular env t v) {rs : RiskRuleset} (hrs : rs ∈ t.rulesets)
    (henabled : rs.enabled = true) : rs.slug ∈ (generateRiskRulesData t).rulesets := by
  refine List.mem_map.mpr ⟨rs, List.mem_filter.mpr ⟨hrs, henabled⟩, ?_⟩
  exact luaString_slug (hreg.slugChars rs hrs)

/-- **The rules of a ruleset in the data file** are those of the table. -/
theorem hitting_eq (hreg : Regular env t v) (vars : Vars) {rs : RiskRuleset}
    (hrs : rs ∈ t.rulesets) (henabled : rs.enabled = true) :
    (generateRiskRulesData t).hitting vars rs.slug =
      (t.rules.filter fun r => matched (vars (matchVar r.id)) && r.rulesetId == rs.id).map
        (RiskRule.dataRule rs.slug) := by
  have henabled' : rs ∈ t.rulesets.filter RiskRuleset.enabled := List.mem_filter.mpr ⟨hrs, henabled⟩
  unfold RiskData.hitting generateRiskRulesData
  induction t.rules with
  | nil => rfl
  | cons r rules ih =>
      rw [List.filterMap_cons]
      cases hfind : (t.rulesets.filter RiskRuleset.enabled).find? fun q => q.id == r.rulesetId with
      | none =>
          -- the ruleset of the rule is not in the file
          have hne : r.rulesetId ≠ rs.id := fun heq =>
            absurd (List.find?_eq_none.mp hfind rs henabled') (by simp [heq])
          rw [List.filter_cons_of_neg (by simp [hne])]
          exact ih
      | some q =>
          have hq : q ∈ t.rulesets := (List.mem_filter.mp (List.mem_of_find?_eq_some hfind)).1
          have hid : q.id = r.rulesetId := by simpa using List.find?_some hfind
          have hslug : luaString q.slug = rs.slug ↔ r.rulesetId = rs.id := by
            rw [luaString_slug (hreg.slugChars q hq), ← hid]
            constructor
            · intro h
              rw [List.inj_on_of_nodup_map hreg.slugs hq hrs h]
            · intro h
              rw [List.inj_on_of_nodup_map hreg.rulesetIds hq hrs h]
          simp only [Option.map_some]
          by_cases hrule : r.rulesetId = rs.id
          · cases hmatched : matched (vars (matchVar r.id)) with
            | true =>
                rw [List.filter_cons_of_pos (by simp [hmatched, hslug.mpr hrule]),
                  List.filter_cons_of_pos (by simp [hmatched, hrule]), List.map_cons, ← ih,
                  RiskRule.dataRule, luaString_slug (hreg.slugChars rs hrs), hslug.mpr hrule]
            | false =>
                rw [List.filter_cons_of_neg (by simp [hmatched]),
                  List.filter_cons_of_neg (by simp [hmatched])]
                exact ih
          · rw [List.filter_cons_of_neg (by simp [mt hslug.mp hrule]),
              List.filter_cons_of_neg (by simp [hrule])]
            exact ih

/-! ### The law -/

/-- Under the guard a rule is flagged exactly if its expression holds. -/
theorem flagged_true_iff (r : RiskRule) : r.flagged env v true = true ↔ r.Holds env v := by
  unfold RiskRule.flagged RiskRule.Holds
  cases hcompiled : compiled env r with
  | none => simp
  | some c =>
      obtain ⟨n, cond⟩ := c
      simp only [HAProxy.guardLast_true, any_alternatives_iff, Option.some.injEq, Prod.mk.injEq]
      exact ⟨fun h => ⟨n, cond, ⟨rfl, rfl⟩, h⟩, fun ⟨_, _, ⟨rfl, rfl⟩, h⟩ => h⟩

/-- Under the guard the rules of a ruleset that hit are those that hold. -/
theorem filter_eq_holding (hreg : Regular env t v) (rs : RiskRuleset) :
    (t.rules.filter fun r => matched (setFlags env v true (rulesForListener t.rules listenerId)
        (fun _ => none) (matchVar r.id)) && r.rulesetId == rs.id) =
      t.holding env listenerId v rs := by
  classical
  unfold Tables.holding
  have hlistener : rulesForListener t.rules listenerId =
      t.rules.filter fun r => decide (r ∈ rulesForListener t.rules listenerId) := by
    conv_lhs => rw [rulesForListener]
    refine List.filter_congr fun r hr => ?_
    rw [Bool.eq_iff_iff, decide_eq_true_iff, rulesForListener, List.mem_filter]
    exact ⟨fun h => ⟨hr, h⟩, fun h => h.2⟩
  conv_rhs => rw [hlistener]
  rw [List.filter_filter]
  refine List.filter_congr fun r hr => Bool.eq_iff_iff.mpr ?_
  rw [Bool.and_eq_true, Bool.and_eq_true, matched_setFlags hreg.ruleIds hr, flagged_true_iff,
    beq_iff_eq, decide_eq_true_iff, decide_eq_true_iff]
  tauto

end

/-! ### A rule with an unguarded alternative -/

/-- Tables with one ruleset and one rule. -/
def oneRule : Tables where
  rulesets := [⟨1, "default".toList, true⟩]
  rules := [⟨1, "methods".toList, true, [], 1, Security.postOrGetText, 10, true⟩]

theorem compiled_oneRule {r : RiskRule} (hr : r ∈ oneRule.rules) :
    compiled .plain r = some (Security.postOrGet, Security.postOrGetCond) := by
  obtain rfl := List.mem_singleton.mp hr
  unfold compiled
  rw [show Env.unicode .plain = .ascii from rfl, Security.parse_postOrGet]
  simp only [Security.translate_postOrGet]

theorem regular_oneRule : Regular .plain oneRule Security.blankView where
  documented := Security.blankView_documented
  paths := Security.plain_paths
  ruleIds := List.nodup_singleton _
  rulesetIds := List.nodup_singleton _
  slugs := List.nodup_singleton _
  slugChars := by decide
  faithful r hr n cond h := by
    rw [compiled_oneRule hr] at h
    obtain ⟨rfl, -⟩ := Prod.mk.inj (Option.some.inj h)
    exact Security.faithful_postOrGet

end CorexManager.RiskScoring
