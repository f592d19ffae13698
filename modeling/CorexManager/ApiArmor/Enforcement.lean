import CorexManager.ApiArmor.Authentication
import CorexManager.Frontend.Challenge

/-!
# The enforcement of authentication policies

The directives of `generate_frontend` and `generate_backend` that choose the policy of a
request, call the body parser, and act on what it reports.  Which of the two sections
does it depends on the scope API Armor is set to.

* `listenerSection` and `backendSection` are the two groups of directives.
* `WellFormed.enforcement_verdict` — what is done with a request after the parser has run
  is what the actions for refused credentials do.
* `listenerActions_verdict`, `backendActions_verdict` — and what these do.
-/

namespace CorexManager.ApiArmor

open Data
open HAProxy
open Frontend
open Python (UnicodeTables)

/-! ### Policies -/

/-- What happens when the credentials of a request are refused. -/
inductive OnFailure where
  | block | challenge | logOnly
  deriving DecidableEq, Repr

/-- The name the column holds. -/
def OnFailure.text : OnFailure → Text
  | block => "block".toList
  | challenge => "challenge".toList
  | logOnly => "log_only".toList

/-- A row of `auth_policies`, as far as the generator reads it.  A list that is null
reads as the empty one. -/
structure PolicyRow where
  id : Int
  id_pos : 0 < id
  listenerIds : List Int
  backendIds : List Int
  authType : Option Text
  onFailure : Option OnFailure
  enabled : Bool
  deriving DecidableEq

/-- `p.on_failure or "block"`. -/
def PolicyRow.failureAction (p : PolicyRow) : OnFailure := p.onFailure.getD .block

/-- The rows, one for each key. -/
structure PolicyTable where
  rows : List PolicyRow
  keys : (rows.map PolicyRow.id).Nodup

namespace PolicyTable

variable (T : PolicyTable)

/-- The enabled policies that have a type. -/
def inForce : List PolicyRow := T.rows.filter fun p => p.enabled && p.authType.isSome

/-- The policies by their keys. -/
def ordered : List PolicyRow := T.inForce.mergeSort fun p q => decide (p.id ≤ q.id)

/-- The policy `generate_frontend` chooses: the first that names the listener. -/
def listenerPolicy (listener : Int) : Option PolicyRow :=
  T.inForce.find? fun p => decide (listener ∈ p.listenerIds)

/-- The policy of a backend `generate_backend` chooses: the first that names it. -/
def backendPolicy (backend : Int) : Option PolicyRow :=
  T.ordered.find? fun p => decide (backend ∈ p.backendIds)

/-- The policies and the listeners they name, in the order the loops visit them. -/
def listenerPairs : List (PolicyRow × Int) :=
  T.ordered.flatMap fun p => p.listenerIds.map fun lid => (p, lid)

/-- The policy of a listener `generate_backend` chooses. -/
def pairedPolicy (listener : Int) : Option PolicyRow :=
  (T.listenerPairs.find? fun x => decide (x.2 = listener)).map Prod.fst

end PolicyTable

/-! ### Variables -/

def apiBody : Text := "txn.api_body".toList
def apiArmorListenerId : Text := "txn.api_armor_listener_id".toList
def apiAuthOnFailure : Text := "txn.api_auth_on_failure".toList
def apiSchemaValid : Text := "txn.api_schema_valid".toList
def profileAnomaly : Text := "txn.api.profile_anomaly".toList

/-- `int(n)`. -/
def intExpr (n : Int) : Text := "int".toList ++ '(' :: (intText n ++ [')'])

/-- `str(word)`. -/
def strExpr (word : Text) : Text := "str".toList ++ '(' :: (word ++ [')'])

/-! ### The directives -/

/-- What the two sections are generated from. -/
structure ArmorSetup where
  unicode : UnicodeTables
  pathPatterns : List Text
  /-- `CAPTCHA_CHALLENGE_URL`. -/
  challengeUrl : Text
  policies : PolicyTable

/-- A group of directives: the ACLs it declares, the choice of the policy, and what
follows. -/
structure ArmorSection where
  acls : List Line
  condition : List Guard
  selection : List Directive
  enforcement : List Directive

namespace ArmorSetup

variable (s : ArmorSetup)

/-- The ACLs of the path patterns. -/
def pathAcls : List Line :=
  s.pathPatterns.map fun pattern =>
    .acl "is_api_armor_path".toList
      ("path_reg".toList ++ ' ' :: ("-i ".toList ++ safeRegex s.unicode pattern))

/-- Requests with a body API Armor reads. -/
def contentTypeAcl : Line :=
  .acl "is_api_armor".toList ("req.hdr(content-type)".toList ++ ' ' :: ("-m beg ".toList ++
    "application/json application/graphql application/x-www-form-urlencoded".toList))

/-- The path condition, when there are patterns. -/
def pathGuard : List Guard :=
  if s.pathPatterns = [] then [] else [.named "is_api_armor_path".toList]

/-- `api_armor_condition`. -/
def listenerCondition : List Guard := .named "is_api_armor".toList :: s.pathGuard

/-- `ba_condition`. -/
def backendCondition : List Guard := .found apiBody :: s.pathGuard

/-- The credentials are refused. -/
def refusedGuard : Guard := (Guard.isTrue authValid).not

/-- `deny deny_status 401`. -/
def denyUnauthorized (condition : List Guard) : Directive :=
  denyIf "deny_status 401".toList condition

/-- A challenge for refused credentials. -/
def challengeFor (condition : List Guard) (p : PolicyRow) : List Directive :=
  emitChallengeRedirect s.unicode (guardText condition) (safeToken s.unicode s.challengeUrl)
    ⟨p.id, "api_armor_auth".toList, "API Armor auth policy ".toList ++ intText p.id⟩

/-- The parser, and the schema. -/
def parserDirectives (condition : List Guard) : List Directive :=
  [.script "api_body_parse".toList (.when (guardText condition)),
    denyIf "deny_status 400".toList (condition ++ [(Guard.isTrue apiSchemaValid).not])]

/-- The profile, and the end. -/
def closingDirectives (condition : List Guard) : List Directive :=
  [denyIf "deny_status 403".toList (condition ++ [.isTrue profileAnomaly]),
    .unsetVar apiBody (.when (guardText condition))]

/-- What `generate_frontend` emits for the policy it chose. -/
def listenerActions (listener : Int) : List Directive :=
  match s.policies.listenerPolicy listener with
  | none => []
  | some p =>
      match p.failureAction with
      | .block => [denyUnauthorized (s.listenerCondition ++ [refusedGuard])]
      | .challenge => s.challengeFor (s.listenerCondition ++ [refusedGuard]) p
      | .logOnly => []

/-- **The directives of `generate_frontend`**, in listener scope. -/
def listenerSection (listener : Int) : ArmorSection where
  acls := contentTypeAcl :: s.pathAcls
  condition := s.listenerCondition
  selection :=
    [setVarIf authPolicyId (intExpr (((s.policies.listenerPolicy listener).map PolicyRow.id).getD 0))
      s.listenerCondition]
  enforcement := parserDirectives s.listenerCondition ++
    (s.listenerActions listener ++ closingDirectives s.listenerCondition)

/-- The request came through the listener. -/
def fromListener (listener : Int) : Guard := .intEq apiArmorListenerId listener

/-- One round of the loop over the listeners of the policies. -/
def pairSelection (x : PolicyRow × Int) : List Directive :=
  [setVarIf authPolicyId (intExpr x.1.id)
      (s.backendCondition ++ [(Guard.found authPolicyId).not, fromListener x.2]),
    setVarIf apiAuthOnFailure (strExpr x.1.failureAction.text)
      (s.backendCondition ++ [(Guard.found apiAuthOnFailure).not, fromListener x.2])]

/-- The policy of the backend overrides what was chosen before. -/
def ownSelection (backend : Int) : List Directive :=
  match s.policies.backendPolicy backend with
  | none => []
  | some p =>
      [setVarIf authPolicyId (intExpr p.id) s.backendCondition,
        setVarIf apiAuthOnFailure (strExpr p.failureAction.text) s.backendCondition]

/-- The choice of `generate_backend`: a default failure action, policies of listeners, and
the policy of the backend. -/
def backendSelection (backend : Int) : List Directive :=
  setVarIf apiAuthOnFailure (strExpr OnFailure.block.text)
      (s.backendCondition ++ [(Guard.found apiAuthOnFailure).not]) ::
    (s.policies.listenerPairs.flatMap s.pairSelection ++ s.ownSelection backend)

/-- The challenge of the policy of the backend. -/
def ownChallenge (backend : Int) : List Directive :=
  match s.policies.backendPolicy backend with
  | none => []
  | some p =>
      if p.failureAction = .challenge then s.challengeFor (s.backendCondition ++ [refusedGuard]) p
      else []

/-- What `generate_backend` emits for refused credentials. -/
def backendActions (backend : Int) : List Directive :=
  denyUnauthorized (s.backendCondition ++
      [refusedGuard, .equals apiAuthOnFailure OnFailure.block.text]) ::
    (s.ownChallenge backend ++
      (s.policies.listenerPairs.filter fun x => x.1.failureAction = .challenge).flatMap fun x =>
        s.challengeFor (s.backendCondition ++ [refusedGuard,
          .equals apiAuthOnFailure OnFailure.challenge.text, fromListener x.2]) x.1)

/-- **The directives of `generate_backend`**, in backend and path scope. -/
def backendSection (backend : Int) : ArmorSection where
  acls := s.pathAcls
  condition := s.backendCondition
  selection := s.backendSelection backend
  enforcement := parserDirectives s.backendCondition ++
    (s.backendActions backend ++ closingDirectives s.backendCondition)

end ArmorSetup

/-! ### Running them -/

/-- The Lua actions. -/
def armorScripts (H : Host) (call : Text) (t : Txn) : Txn :=
  if call = "api_body_parse".toList then H.parseBodyLua t
  else t.setVar cidToken (t.other call).head?

/-- What they assign. -/
def armorWrites (call : Text) : Set Text :=
  if call = "api_body_parse".toList then parserVars else {cidToken}

theorem armorScripts_writesOnly (H : Host) : WritesOnly armorWrites (armorScripts H) := by
  intro call t
  unfold armorWrites armorScripts
  by_cases h : call = "api_body_parse".toList
  · rw [if_pos h, if_pos h]
    exact H.parseBodyLua_sameBut t
  · rw [if_neg h, if_neg h]
    exact Txn.SameBut.setVar t cidToken _

namespace ArmorSection

variable (S : ArmorSection) (E : Engine) (H : Host)

/-- The machine of a section. -/
def machine : RuleChain.Machine Txn Directive Verdict :=
  directives E (declaredAcls E S.acls) (armorScripts H)

/-- The condition of the section holds. -/
def applies (t : Txn) : Bool := guardHolds (t.view E (declaredAcls E S.acls)) t.vars S.condition

/-- The state the policy is chosen in. -/
def chosen (t : Txn) : Txn := ((S.machine E H).run S.selection t).state

/-- What the section does to a request. -/
def verdict (t : Txn) : Option Verdict :=
  ((S.machine E H).run (S.selection ++ S.enforcement) t).verdict

end ArmorSection

/-! ### The conditions stay as they are -/

/-- The variables the directives assign, but for the buffered body. -/
def armorVars : Set Text := parserVars ∪ challengeVars ∪ {authPolicyId, apiAuthOnFailure}

theorem parserVars_subset : parserVars ⊆ armorVars := fun _ h => .inl (.inl h)

theorem challengeVars_subset : challengeVars ⊆ armorVars := fun _ h => .inl (.inr h)

theorem authPolicyId_mem : authPolicyId ∈ armorVars := .inr (.inl rfl)

theorem apiAuthOnFailure_mem : apiAuthOnFailure ∈ armorVars := .inr (.inr rfl)

/-- A variable that is none of these. -/
private theorem not_mem_armorVars {n : Text} (hparser : ∀ p ∈ parserPrefixes, ¬ p <+: n)
    (hother : n ∉ ["txn.captcha_request_id".toList, "txn.captcha_scheme".toList,
      "txn.captcha_redirect".toList, cidToken, authPolicyId, apiAuthOnFailure]) :
    n ∉ armorVars := by
  rintro ((h | h) | h)
  · exact not_mem_parserVars hparser h
  · simp only [challengeVars, Set.mem_insert_iff, Set.mem_singleton_iff] at h
    rcases h with rfl | rfl | rfl | rfl
    all_goals simp at hother
  · rcases h with rfl | h
    · simp at hother
    · rw [Set.mem_singleton_iff.mp h] at hother
      simp at hother

theorem apiBody_other : apiBody ∉ armorVars := not_mem_armorVars (by decide) (by decide)

theorem apiArmorListenerId_other : apiArmorListenerId ∉ armorVars :=
  not_mem_armorVars (by decide) (by decide)

theorem cookieValid_other : cookieValid ∉ armorVars := not_mem_armorVars (by decide) (by decide)

theorem isVarnishFetch_armor : isVarnishFetch ∉ armorVars :=
  not_mem_armorVars (by decide) (by decide)

namespace ArmorSetup

variable (s : ArmorSetup) (E : Engine)

/-- The ACLs read the path or the content type. -/
private theorem acl_fetch {a : Text × Acl}
    (ha : a ∈ declaredAcls E (contentTypeAcl :: s.pathAcls)) :
    a.2.fetch = "req.hdr(content-type)".toList ∨ a.2.fetch = "path".toList := by
  obtain ⟨line, hline, hacl⟩ := List.mem_filterMap.mp ha
  rcases List.mem_cons.mp hline with rfl | hline
  · have hfetch := Line.acl?_fetch (by decide) (by decide) hacl
    left
    rw [hfetch]
    decide
  · obtain ⟨pattern, -, rfl⟩ := List.mem_map.mp hline
    have hfetch := Line.acl?_fetch (by decide) (by decide) hacl
    right
    rw [hfetch]
    decide

/-- What the ACLs read does not depend on variables. -/
private theorem acl_samples {S : Set Text} {t r : Txn} (h : Txn.SameBut S t r) {a : Text × Acl}
    (ha : a ∈ declaredAcls E (contentTypeAcl :: s.pathAcls)) :
    r.samples a.2.fetch = t.samples a.2.fetch := by
  have hword : isWord "content-type".toList := by decide
  rcases s.acl_fetch E ha with hfetch | hfetch
  · rw [hfetch]
    exact h.samples_hdr hword
  · rw [hfetch]
    exact h.samples_path

/-- The path condition stays, in either section. -/
private theorem pathGuard_stable {acls : List (Text × Acl)}
    (hacls : ∀ a ∈ acls, a ∈ declaredAcls E (contentTypeAcl :: s.pathAcls)) :
    Stable E acls armorVars s.pathGuard := by
  unfold pathGuard
  by_cases h : s.pathPatterns = []
  · rw [if_pos h]
    exact fun _ _ _ => rfl
  · rw [if_neg h]
    exact Stable.acl (fun a ha _ _ _ hsame => s.acl_samples E hsame (hacls a ha)) false

private theorem pathGuard_plain : ∀ g ∈ s.pathGuard, g.Plain := by
  intro g hg
  unfold pathGuard at hg
  by_cases h : s.pathPatterns = []
  · rw [if_pos h] at hg
    exact absurd hg List.not_mem_nil
  · rw [if_neg h, List.mem_singleton] at hg
    have hplain : (Guard.named "is_api_armor_path".toList).Plain := by
      constructor <;> decide
    rwa [hg]

end ArmorSetup

/-- A condition of tests that read as they are written, and that no directive of the
section changes. -/
structure ArmorSection.WellFormed (S : ArmorSection) (E : Engine) : Prop where
  nonempty : S.condition ≠ []
  plain : ∀ g ∈ S.condition, g.Plain
  stable : Stable E (declaredAcls E S.acls) armorVars S.condition

namespace ArmorSetup

variable (s : ArmorSetup) (E : Engine)

theorem listenerSection_wellFormed (listener : Int) : (s.listenerSection listener).WellFormed E where
  nonempty := List.cons_ne_nil _ _
  plain := by
    intro g hg
    rcases List.mem_cons.mp hg with rfl | hg
    · constructor <;> decide
    · exact s.pathGuard_plain g hg
  stable := by
    have hfirst : Stable E (declaredAcls E (s.listenerSection listener).acls) armorVars
        [.named "is_api_armor".toList] :=
      Stable.acl (fun a ha _ _ _ hsame => s.acl_samples E hsame ha) false
    exact hfirst.append (s.pathGuard_stable E fun a ha => ha)

theorem apiBody_plain : (Guard.found apiBody).Plain := Guard.found_plain (by decide)

theorem backendSection_wellFormed (backend : Int) : (s.backendSection backend).WellFormed E where
  nonempty := List.cons_ne_nil _ _
  plain := by
    intro g hg
    rcases List.mem_cons.mp hg with rfl | hg
    · exact apiBody_plain
    · exact s.pathGuard_plain g hg
  stable := by
    have hfirst : Stable E (declaredAcls E (s.backendSection backend).acls) armorVars
        [.found apiBody] := Stable.test apiBody_other false _ _
    refine hfirst.append (s.pathGuard_stable E fun a ha => ?_)
    obtain ⟨line, hline, hacl⟩ := List.mem_filterMap.mp ha
    exact List.mem_filterMap.mpr ⟨line, List.mem_cons_of_mem _ hline, hacl⟩

end ArmorSetup

/-! ### After the parser -/

/-- The request goes on, out of this section. -/
def Passes (v : Option Verdict) : Prop := v = none ∨ v = some .allow

instance (v : Option Verdict) : Decidable (Passes v) := inferInstanceAs (Decidable (_ ∨ _))

/-- What a failure action does to a request whose credentials are refused. -/
def OnFailure.outcome (url : Text) (t : Txn) : OnFailure → Option Verdict
  | block => some (.deny "deny_status 401".toList)
  | challenge => challengeOutcome url t
  | logOnly => none

/-- The parser refused the credentials, and finds no other fault with the request. -/
structure Refused (t : Txn) : Prop where
  schema : (t.vars apiSchemaValid).any Sample.truthy = true
  credentials : (t.vars authValid).any Sample.truthy = false
  profile : (t.vars profileAnomaly).any Sample.truthy = false

namespace ArmorSection

variable {S : ArmorSection} {E : Engine} {H : Host}

section Guards

variable (hS : S.WellFormed E) {t : Txn}

include hS

/-- A directive under the condition and further tests. -/
theorem WellFormed.fires {d : Directive} {gs : List Guard}
    (hcond : d.cond = .when (guardText (S.condition ++ gs))) (hgs : ∀ g ∈ gs, g.Plain)
    (happlies : S.applies E t = true) :
    (S.machine E H).fires t d = guardHolds (t.view E (declaredAcls E S.acls)) t.vars gs := by
  have hplain : ∀ g ∈ S.condition ++ gs, g.Plain := by
    intro g hg
    rcases List.mem_append.mp hg with hg | hg
    · exact hS.plain g hg
    · exact hgs g hg
  have hne : S.condition ++ gs ≠ [] := List.append_ne_nil_of_left_ne_nil hS.nonempty gs
  refine (fires_guard hcond hne hplain).trans ?_
  rw [guardHolds_append]
  unfold applies at happlies
  rw [happlies, Bool.true_and]

/-- A directive under the condition alone. -/
theorem WellFormed.fires_alone {d : Directive} (hcond : d.cond = .when (guardText S.condition))
    (happlies : S.applies E t = true) : (S.machine E H).fires t d = true :=
  (fires_guard hcond hS.nonempty hS.plain).trans happlies

/-- The condition holds on in states that differ in variables of the directives. -/
theorem WellFormed.applies_sameBut {r : Txn} (hsame : Txn.SameBut armorVars t r)
    (happlies : S.applies E t = true) : S.applies E r = true :=
  (hS.stable hsame).trans happlies

/-- The parser runs, and a body its schema refuses is denied. -/
theorem WellFormed.afterParser (happlies : S.applies E t = true) (rest : List Directive) :
    ((S.machine E H).run (ArmorSetup.parserDirectives S.condition ++ rest) t).verdict =
      if ((H.parseBodyLua t).vars apiSchemaValid).any Sample.truthy then
        ((S.machine E H).run rest (H.parseBodyLua t)).verdict
      else some (.deny "deny_status 400".toList) := by
  have hscript : (S.machine E H).fires t
      (.script "api_body_parse".toList (.when (guardText S.condition))) = true :=
    hS.fires_alone rfl happlies
  have heffect : (S.machine E H).effect
      (.script "api_body_parse".toList (.when (guardText S.condition))) t = H.parseBodyLua t := rfl
  have hkeep : S.applies E (H.parseBodyLua t) = true :=
    hS.applies_sameBut ((H.parseBodyLua_sameBut t).mono parserVars_subset) happlies
  have hplain : ∀ g ∈ [(Guard.isTrue apiSchemaValid).not], g.Plain := by
    intro g hg
    rw [List.mem_singleton.mp hg]
    exact Guard.not_plain (Guard.isTrue_plain (by decide))
  have hdeny := hS.fires (H := H) (d := denyIf "deny_status 400".toList
    (S.condition ++ [(Guard.isTrue apiSchemaValid).not])) rfl hplain hkeep
  rw [guardHolds_singleton, Guard.not_truth, Guard.isTrue_truth] at hdeny
  show ((S.machine E H).run (.script _ _ :: denyIf _ _ :: rest) t).verdict = _
  rw [RuleChain.Machine.run_cons_fire hscript rfl, RuleChain.Outcome.after_verdict, heffect]
  by_cases hvalid : ((H.parseBodyLua t).vars apiSchemaValid).any Sample.truthy = true
  · rw [hvalid, Bool.not_true] at hdeny
    rw [RuleChain.Machine.run_cons_skip hdeny, if_pos hvalid]
  · rw [Bool.not_eq_true] at hvalid
    rw [hvalid, Bool.not_false] at hdeny
    rw [RuleChain.Machine.run_cons_stop hdeny rfl, hvalid]
    rfl

/-- Nothing is denied for its profile unless the profile says so. -/
theorem WellFormed.closing (happlies : S.applies E t = true)
    (hprofile : (t.vars profileAnomaly).any Sample.truthy = false) :
    ((S.machine E H).run (ArmorSetup.closingDirectives S.condition) t).verdict = none := by
  have hplain : ∀ g ∈ [Guard.isTrue profileAnomaly], g.Plain := by
    intro g hg
    rw [List.mem_singleton.mp hg]
    exact Guard.isTrue_plain (by decide)
  have hdeny := hS.fires (H := H) (d := denyIf "deny_status 403".toList
    (S.condition ++ [.isTrue profileAnomaly])) rfl hplain happlies
  rw [guardHolds_singleton, Guard.isTrue_truth, hprofile] at hdeny
  show ((S.machine E H).run (denyIf _ _ :: [.unsetVar _ _]) t).verdict = none
  rw [RuleChain.Machine.run_cons_skip hdeny]
  exact RuleChain.Machine.run_verdict_none (by simp [machine, directives, Directive.verdict]) t

/-- **What is done with a request after the parser has run**: what the actions do, when
nothing but the credentials is at fault. -/
theorem WellFormed.enforcement_verdict {actions : List Directive}
    (hactions : ∀ d ∈ actions, d.keepsSrc = true ∧ d.assigns armorWrites ⊆ challengeVars)
    (happlies : S.applies E t = true) (hrefused : Refused (H.parseBodyLua t)) :
    ((S.machine E H).run (ArmorSetup.parserDirectives S.condition ++
      (actions ++ ArmorSetup.closingDirectives S.condition)) t).verdict =
        ((S.machine E H).run actions (H.parseBodyLua t)).verdict := by
  rw [hS.afterParser happlies, if_pos hrefused.schema]
  have hkeep : S.applies E (H.parseBodyLua t) = true :=
    hS.applies_sameBut ((H.parseBodyLua_sameBut t).mono parserVars_subset) happlies
  have hsame : Txn.SameBut challengeVars (H.parseBodyLua t)
      ((S.machine E H).run actions (H.parseBodyLua t)).state :=
    run_sameBut (armorScripts_writesOnly H) hactions _
  cases hverdict : ((S.machine E H).run actions (H.parseBodyLua t)).verdict with
  | some v =>
      rw [RuleChain.Machine.run_append, RuleChain.Outcome.andThen_some hverdict, hverdict]
  | none =>
      rw [RuleChain.Machine.run_append_verdict _ hverdict]
      refine hS.closing (hS.applies_sameBut (hsame.mono challengeVars_subset) hkeep) ?_
      have hother : profileAnomaly ∉ challengeVars := by
        simp only [challengeVars, Set.mem_insert_iff, Set.mem_singleton_iff]
        decide
      have hvalue := hsame.vars profileAnomaly hother
      exact (congrArg (fun v : Option Sample => v.any Sample.truthy) hvalue).trans hrefused.profile

/-- What passes has passed the actions. -/
theorem WellFormed.actions_pass {actions : List Directive} (happlies : S.applies E t = true)
    (hpasses : Passes ((S.machine E H).run (ArmorSetup.parserDirectives S.condition ++
      (actions ++ ArmorSetup.closingDirectives S.condition)) t).verdict) :
    Passes ((S.machine E H).run actions (H.parseBodyLua t)).verdict := by
  rw [hS.afterParser happlies] at hpasses
  by_cases hvalid : ((H.parseBodyLua t).vars apiSchemaValid).any Sample.truthy = true
  · rw [if_pos hvalid, RuleChain.Machine.run_append] at hpasses
    cases hverdict : ((S.machine E H).run actions (H.parseBodyLua t)).verdict with
    | some v =>
        rw [RuleChain.Outcome.andThen_some hverdict] at hpasses
        rwa [hverdict] at hpasses
    | none => exact .inl rfl
  · rw [if_neg hvalid] at hpasses
    rcases hpasses with h | h <;> cases h

end Guards

end ArmorSection

/-! ### The actions -/

private theorem storeCtx_writes (U : UnicodeTables) (r : ChallengeRule) :
    armorWrites (r.storeCtx U) ⊆ challengeVars := by
  have hother : r.storeCtx U ≠ "api_body_parse".toList := by
    intro h
    have hhead := congrArg List.head? h
    revert hhead
    unfold ChallengeRule.storeCtx
    rw [toList_of_eq (s := "captcha_store_ctx ") rfl, toList_of_eq (s := "api_body_parse") rfl]
    simp
  unfold armorWrites
  rw [if_neg hother]
  exact Set.singleton_subset_iff.mpr (by simp [challengeVars])

namespace ArmorSetup

variable (s : ArmorSetup) {E : Engine} {H : Host}

theorem challengeFor_assigns (condition : List Guard) (p : PolicyRow) :
    ∀ d ∈ s.challengeFor condition p,
      d.keepsSrc = true ∧ d.assigns armorWrites ⊆ challengeVars :=
  emitChallengeRedirect_assigns _ _ _ _ (storeCtx_writes _ _)

/-- The page the challenges redirect to. -/
def challengePage : Text := safeToken s.unicode s.challengeUrl

/-- A challenge under the condition of a section and further tests. -/
theorem challengeFor_verdict {S : ArmorSection} (hS : S.WellFormed E) {gs : List Guard}
    (hplain : ∀ g ∈ gs, g.Plain) (hstable : Stable E (declaredAcls E S.acls) challengeVars gs)
    (p : PolicyRow) {t : Txn} (happlies : S.applies E t = true) :
    ((S.machine E H).run (s.challengeFor (S.condition ++ gs) p) t).verdict =
      if guardHolds (t.view E (declaredAcls E S.acls)) t.vars gs then
        challengeOutcome s.challengePage t else none := by
  have hplain' : ∀ g ∈ S.condition ++ gs, g.Plain := by
    intro g hg
    rcases List.mem_append.mp hg with hg | hg
    · exact hS.plain g hg
    · exact hplain g hg
  have hne : S.condition ++ gs ≠ [] := List.append_ne_nil_of_left_ne_nil hS.nonempty gs
  refine (emitChallengeRedirect_verdict (armorScripts_writesOnly H) _ _ _ (storeCtx_writes _ _) hne
    hplain' ((hS.stable.mono challengeVars_subset).append hstable) t).trans ?_
  rw [guardHolds_append]
  unfold ArmorSection.applies at happlies
  rw [happlies, Bool.true_and]
  rfl

/-! The tests of the actions read as they are written, and a challenge leaves them alone. -/

private theorem refusedGuard_plain : refusedGuard.Plain :=
  Guard.not_plain (Guard.isTrue_plain (by decide))

private theorem equals_plain (f : OnFailure) : (Guard.equals apiAuthOnFailure f.text).Plain := by
  refine ⟨by decide, ?_, ?_⟩
  · intro w hw
    rw [List.mem_singleton.mp hw]
    cases f <;> constructor <;> decide
  · intro w hw
    rw [← Option.mem_some.mp hw]
    cases f <;> decide

theorem fromListener_plain (lid : Int) : (fromListener lid).Plain :=
  Guard.intEq_plain (by decide) lid

private theorem authValid_challenge : authValid ∉ challengeVars := by
  simp only [challengeVars, Set.mem_insert_iff, Set.mem_singleton_iff]
  decide

private theorem apiAuthOnFailure_challenge : apiAuthOnFailure ∉ challengeVars := by
  simp only [challengeVars, Set.mem_insert_iff, Set.mem_singleton_iff]
  decide

private theorem refused_stable {acls : List (Text × Acl)} :
    Stable E acls challengeVars [refusedGuard] :=
  Stable.test authValid_challenge true _ _

/-- What is done when the failure action is `f`. -/
def failureOutcome (f : OnFailure) (t : Txn) : Option Verdict :=
  if (t.vars authValid).any Sample.truthy then none else f.outcome s.challengePage t

/-- The test of the credentials. -/
private theorem refusedGuard_truth (v : View) (vars : Text → Option Sample) :
    refusedGuard.truth v vars = !(vars authValid).any Sample.truthy := by
  rw [refusedGuard, Guard.not_truth, Guard.isTrue_truth]

/-- **The actions of the listener.** -/
theorem listenerActions_verdict (listener : Int) {t : Txn}
    (happlies : (s.listenerSection listener).applies E t = true) :
    (((s.listenerSection listener).machine E H).run (s.listenerActions listener) t).verdict =
      match s.policies.listenerPolicy listener with
      | none => none
      | some p => s.failureOutcome p.failureAction t := by
  have hS := s.listenerSection_wellFormed E listener
  have hplain : ∀ g ∈ [refusedGuard], g.Plain := by
    intro g hg
    rw [List.mem_singleton.mp hg]
    exact refusedGuard_plain
  unfold listenerActions
  cases s.policies.listenerPolicy listener with
  | none => rfl
  | some p =>
      dsimp only [failureOutcome]
      cases p.failureAction with
      | block =>
          have hfires := hS.fires (H := H) (d := denyUnauthorized (s.listenerCondition ++
            [refusedGuard])) rfl hplain happlies
          rw [guardHolds_singleton, refusedGuard_truth] at hfires
          cases hcred : (t.vars authValid).any Sample.truthy with
          | true =>
              rw [hcred] at hfires
              rw [RuleChain.Machine.run_cons_skip hfires]
              rfl
          | false =>
              rw [hcred] at hfires
              rw [RuleChain.Machine.run_cons_stop hfires rfl]
              rfl
      | challenge =>
          refine (s.challengeFor_verdict hS hplain refused_stable p happlies).trans ?_
          rw [guardHolds_singleton, refusedGuard_truth]
          cases (t.vars authValid).any Sample.truthy <;> rfl
      | logOnly => cases (t.vars authValid).any Sample.truthy <;> rfl

/-- The failure action the backend's own policy asks for, to begin with `block`. -/
def backendAction (backend : Int) : OnFailure :=
  ((s.policies.backendPolicy backend).map PolicyRow.failureAction).getD .block

/-- The challenges for policies of listeners do nothing when the credentials are good, the
failure action is another one, or a challenge has nothing to do. -/
private theorem listenerChallenges_verdict (backend : Int) (xs : List (PolicyRow × Int)) {t : Txn}
    (happlies : (s.backendSection backend).applies E t = true)
    (hquiet : (t.vars authValid).any Sample.truthy = true ∨
      (t.vars apiAuthOnFailure).any (fun v => OnFailure.challenge.text == v.text) = false ∨
      challengeOutcome s.challengePage t = none)
    {r : Txn} (hstart : Txn.SameBut challengeVars t r) :
    (((s.backendSection backend).machine E H).run (xs.flatMap fun x =>
      s.challengeFor (s.backendCondition ++ [refusedGuard,
        .equals apiAuthOnFailure OnFailure.challenge.text, fromListener x.2]) x.1) r).verdict =
      none := by
  have hS := s.backendSection_wellFormed E backend
  refine (RuleChain.Machine.run_flatMap (I := fun r => Txn.SameBut challengeVars t r) ?_
    hstart).1
  intro x _ r hsame
  constructor
  · have hplain : ∀ g ∈ [refusedGuard, .equals apiAuthOnFailure OnFailure.challenge.text,
        fromListener x.2], g.Plain := by
      intro g hg
      simp only [List.mem_cons, List.not_mem_nil, or_false] at hg
      rcases hg with rfl | rfl | rfl
      · exact refusedGuard_plain
      · exact equals_plain .challenge
      · exact fromListener_plain x.2
    have hlistener : apiArmorListenerId ∉ challengeVars := fun h =>
      apiArmorListenerId_other (challengeVars_subset h)
    have hstable : Stable E (declaredAcls E (s.backendSection backend).acls) challengeVars
        ([refusedGuard] ++ ([.equals apiAuthOnFailure OnFailure.challenge.text] ++
          [fromListener x.2])) :=
      refused_stable.append ((Stable.test apiAuthOnFailure_challenge false _ _).append
        (Stable.test hlistener false _ _))
    have hkeep := hS.applies_sameBut (hsame.mono challengeVars_subset) happlies
    refine (s.challengeFor_verdict hS hplain hstable x.1 hkeep).trans ?_
    have houtcome : challengeOutcome s.challengePage r = challengeOutcome s.challengePage t := by
      unfold challengeOutcome
      rw [hsame.vars _ fun h => isVarnishFetch_armor (challengeVars_subset h),
        hsame.vars _ fun h => cookieValid_other (challengeVars_subset h)]
    have hholds : guardHolds (r.view E (declaredAcls E (s.backendSection backend).acls)) r.vars
        [refusedGuard, .equals apiAuthOnFailure OnFailure.challenge.text, fromListener x.2] =
          (!(t.vars authValid).any Sample.truthy &&
            ((t.vars apiAuthOnFailure).any (fun v => OnFailure.challenge.text == v.text) &&
              (fromListener x.2).truth (r.view E (declaredAcls E
                (s.backendSection backend).acls)) r.vars)) := by
      simp only [guardHolds, List.all_cons, List.all_nil, Bool.and_true, refusedGuard_truth,
        Guard.equals_truth, hsame.vars _ authValid_challenge,
        hsame.vars _ apiAuthOnFailure_challenge]
    rw [hholds, houtcome]
    rcases hquiet with h | h | h
    · rw [h]
      rfl
    · rw [h, Bool.false_and, Bool.and_false]
      rfl
    · rw [h, ite_self]
  · exact hsame.trans (run_sameBut (armorScripts_writesOnly H) (s.challengeFor_assigns _ _) r)

/-- **The actions of the backend**, when the variable of the failure action holds what the
backend's own policy asks for. -/
theorem backendActions_verdict (backend : Int) {t : Txn}
    (happlies : (s.backendSection backend).applies E t = true)
    (haction : t.vars apiAuthOnFailure = some (.str (s.backendAction backend).text)) :
    (((s.backendSection backend).machine E H).run (s.backendActions backend) t).verdict =
      s.failureOutcome (s.backendAction backend) t := by
  have hS := s.backendSection_wellFormed E backend
  have hplain : ∀ g ∈ [refusedGuard, .equals apiAuthOnFailure OnFailure.block.text], g.Plain := by
    intro g hg
    simp only [List.mem_cons, List.not_mem_nil, or_false] at hg
    rcases hg with rfl | rfl
    · exact refusedGuard_plain
    · exact equals_plain .block
  have hdeny := hS.fires (H := H) (d := denyUnauthorized (s.backendCondition ++
    [refusedGuard, .equals apiAuthOnFailure OnFailure.block.text])) rfl hplain happlies
  have hvalue : ∀ f : OnFailure, (t.vars apiAuthOnFailure).any (fun v => f.text == v.text) =
      decide (f = s.backendAction backend) := by
    intro f
    rw [haction]
    cases f <;> cases s.backendAction backend <;> decide
  have hfires : ((s.backendSection backend).machine E H).fires t
      (denyUnauthorized (s.backendCondition ++
        [refusedGuard, .equals apiAuthOnFailure OnFailure.block.text])) =
      (!(t.vars authValid).any Sample.truthy && decide (OnFailure.block = s.backendAction backend)) := by
    rw [hdeny]
    simp only [guardHolds, List.all_cons, List.all_nil, Bool.and_true, refusedGuard_truth,
      Guard.equals_truth, hvalue]
  unfold backendActions
  by_cases hblock : s.backendAction backend = .block
  · -- the denial decides, whatever is emitted after it
    rw [hblock] at hfires
    rw [hblock, failureOutcome]
    cases hcred : (t.vars authValid).any Sample.truthy with
    | false =>
        rw [hcred] at hfires
        rw [RuleChain.Machine.run_cons_stop hfires rfl]
        rfl
    | true =>
        rw [hcred] at hfires
        rw [RuleChain.Machine.run_cons_skip hfires]
        have hnone : s.ownChallenge backend = [] := by
          unfold backendAction at hblock
          unfold ownChallenge
          cases hp : s.policies.backendPolicy backend with
          | none => rfl
          | some p =>
              rw [hp] at hblock
              have hp' : p.failureAction = .block := hblock
              simp [hp']
        rw [hnone, List.nil_append]
        exact s.listenerChallenges_verdict backend _ happlies (.inl hcred) (.refl _ t)
  · rw [show decide (OnFailure.block = s.backendAction backend) = false by
      simpa using fun h => hblock h.symm, Bool.and_false] at hfires
    rw [RuleChain.Machine.run_cons_skip hfires]
    obtain ⟨p, hp⟩ : ∃ p, s.policies.backendPolicy backend = some p := by
      cases hp : s.policies.backendPolicy backend with
      | none => exact absurd (by rw [backendAction, hp]; rfl) hblock
      | some p => exact ⟨p, rfl⟩
    have hpaction : s.backendAction backend = p.failureAction := by
      rw [backendAction, hp]
      rfl
    have hown : s.ownChallenge backend = if p.failureAction = .challenge then
        s.challengeFor (s.backendCondition ++ [refusedGuard]) p else [] := by
      rw [ownChallenge, hp]
    rw [hown]
    cases hkind : p.failureAction with
    | block => exact absurd (hpaction.trans hkind) hblock
    | logOnly =>
        have hother := hvalue .challenge
        rw [hpaction, hkind] at hother
        rw [hpaction, hkind, if_neg (by decide), List.nil_append,
          s.listenerChallenges_verdict backend _ happlies (.inr (.inl hother)) (.refl _ t),
          failureOutcome, OnFailure.outcome, ite_self]
    | challenge =>
        have hgs : ∀ g ∈ [refusedGuard], g.Plain := by
          intro g hg
          rw [List.mem_singleton.mp hg]
          exact refusedGuard_plain
        have hfirst := s.challengeFor_verdict (H := H) hS hgs refused_stable p happlies
        rw [guardHolds_singleton, refusedGuard_truth] at hfirst
        have hsame : Txn.SameBut challengeVars t (((s.backendSection backend).machine E H).run
            (s.challengeFor (s.backendCondition ++ [refusedGuard]) p) t).state :=
          run_sameBut (armorScripts_writesOnly H) (s.challengeFor_assigns _ _) t
        have houtcome : (if (!(t.vars authValid).any Sample.truthy) = true then
            challengeOutcome s.challengePage t else none) = s.failureOutcome .challenge t := by
          unfold failureOutcome
          cases (t.vars authValid).any Sample.truthy <;> rfl
        rw [houtcome] at hfirst
        rw [hpaction, hkind, if_pos rfl, RuleChain.Machine.run_append]
        cases hverdict : (((s.backendSection backend).machine E H).run
            (s.challengeFor (s.backendCondition ++ [refusedGuard]) p) t).verdict with
        | some v =>
            rw [RuleChain.Outcome.andThen_some hverdict]
            exact hfirst
        | none =>
            have hnone : s.failureOutcome .challenge t = none := hfirst.symm.trans hverdict
            have hquiet : (t.vars authValid).any Sample.truthy = true ∨
                challengeOutcome s.challengePage t = none := by
              by_cases hcred : (t.vars authValid).any Sample.truthy = true
              · exact .inl hcred
              · rw [failureOutcome, if_neg hcred] at hnone
                exact .inr hnone
            rw [RuleChain.Outcome.andThen_none hverdict, RuleChain.Outcome.after_verdict, hnone]
            exact s.listenerChallenges_verdict backend _ happlies
              (hquiet.imp_right .inr) hsame

end ArmorSetup

end CorexManager.ApiArmor
