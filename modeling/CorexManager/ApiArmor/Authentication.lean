import CorexManager.ApiArmor.BodyParser
import CorexManager.HAProxy.Directives

/-!
# What the body parser reports about credentials

* `parseBodyLua_sameBut` — the action assigns variables of its own and nothing else.
* `parseBodyLua_authValid_iff` — the variable `auth_valid` is true exactly when the
  policy is in the bundle and its credentials check out (`Authentic`).
-/

namespace CorexManager.ApiArmor

open Data
open HAProxy

/-- The policy the rules pass to the parser. -/
def authPolicyId : Text := "txn.api_auth_policy_id".toList

/-- What the parser reports about the credentials. -/
def authValid : Text := "txn.auth_valid".toList

/-! ### The variables of the parser -/

/-- How their names begin. -/
def parserPrefixes : List Text :=
  ["txn.gql_".toList, "txn.api_schema".toList, "txn.auth".toList, "txn.api.".toList]

/-- The variables of the parser. -/
def parserVars : Set Text := {n | ∃ p ∈ parserPrefixes, p <+: n}

/-- A name with none of the beginnings is no variable of the parser. -/
theorem not_mem_parserVars {n : Text} (h : ∀ p ∈ parserPrefixes, ¬ p <+: n) : n ∉ parserVars := by
  rintro ⟨p, hp, hprefix⟩
  exact h p hp hprefix

/-- The names of a run of assignments decide how the variables begin. -/
private theorem vars_of_names {as : Assignments} {p : Text} (names : List Text)
    (hnames : as.map Prod.fst = names) (h : ∀ n ∈ names, p <+: varName n) :
    ∀ a ∈ as, p <+: varName a.1 := by
  intro a ha
  have hmem : a.1 ∈ as.map Prod.fst := List.mem_map_of_mem ha
  rw [hnames] at hmem
  exact h a.1 hmem

private theorem authOutcome_vars (valid : Bool) (type error : Text) :
    ∀ a ∈ authOutcome valid type error, "txn.auth".toList <+: varName a.1 :=
  vars_of_names ["auth_valid".toList, "auth_type".toList, "auth_error".toList] rfl (by decide)

theorem varName_claimVar (claim : Text) :
    varName (claimVar claim) = "txn.auth.claim_".toList ++ claim := by
  unfold claimVar
  rw [toList_of_eq (s := "auth.claim_") rfl, List.cons_append, varName_prefixed (by decide)]
  rfl

private theorem claimVar_vars (claim : Text) : "txn.auth".toList <+: varName (claimVar claim) := by
  rw [varName_claimVar]
  exact ⟨".claim_".toList ++ claim, rfl⟩

/-- A run of assignments changes the variables it names. -/
theorem tsetAll_sameBut {S : Set Text} {as : Assignments} (h : ∀ a ∈ as, varName a.1 ∈ S)
    (t : Txn) : Txn.SameBut S t (tsetAll t as) := by
  induction as generalizing t with
  | nil => exact Txn.SameBut.refl S t
  | cons a as ih =>
      have hfirst : Txn.SameBut S t (tset t a.1 a.2) :=
        (Txn.SameBut.setVar t _ _).mono (Set.singleton_subset_iff.mpr (h a List.mem_cons_self))
      exact hfirst.trans (ih (fun b hb => h b (List.mem_cons_of_mem a hb)) _)

/-- A run of assignments whose names begin alike changes variables of the parser. -/
private theorem tsetAll_parserVars {as : Assignments} {p : Text} (hp : p ∈ parserPrefixes)
    (h : ∀ a ∈ as, p <+: varName a.1) (t : Txn) : Txn.SameBut parserVars t (tsetAll t as) :=
  tsetAll_sameBut (fun a ha => show varName a.1 ∈ parserVars from ⟨p, hp, h a ha⟩) t

namespace Host

variable (H : Host)

private theorem validateJwtPolicy_vars (policy : AuthPolicy) (authHeader : Text) :
    ∀ a ∈ H.validateJwtPolicy policy authHeader, "txn.auth".toList <+: varName a.1 := by
  unfold validateJwtPolicy
  split
  · exact authOutcome_vars _ _ _
  · dsimp only
    split
    · exact authOutcome_vars _ _ _
    · intro a ha
      rcases List.mem_append.mp ha with ha | ha
      · exact authOutcome_vars _ _ _ a ha
      · obtain ⟨c, -, rfl⟩ := List.mem_map.mp ha
        exact claimVar_vars c.1

/-- The names the credentials check assigns begin alike. -/
theorem validateAndSetAuth_vars (t : Txn) :
    ∀ a ∈ H.validateAndSetAuth t, "txn.auth".toList <+: varName a.1 := by
  intro a ha
  unfold validateAndSetAuth at ha
  rcases List.mem_append.mp ha with ha | ha
  · rcases List.mem_append.mp ha with ha | ha
    · exact authOutcome_vars _ _ _ a ha
    · obtain ⟨claim, -, rfl⟩ := List.mem_map.mp ha
      exact claimVar_vars claim
  · split at ha
    · exact absurd ha List.not_mem_nil
    · split at ha
      · exact authOutcome_vars _ _ _ a ha
      · next policy _ =>
        dsimp only at ha
        split at ha
        · exact H.validateJwtPolicy_vars policy _ a ha
        · split at ha
          · exact authOutcome_vars _ _ _ a ha
          · exact authOutcome_vars _ _ _ a ha

private theorem analysisVars_vars (a : Analysis) :
    ∀ b ∈ analysisVars a, "txn.gql_".toList <+: varName b.1 := by
  intro b hb
  unfold analysisVars at hb
  rcases List.mem_append.mp hb with hb | hb
  · refine vars_of_names (graphqlDefaults.map Prod.fst) ?_ (by decide) b hb
    rfl
  · split at hb
    · exact absurd hb List.not_mem_nil
    · rw [List.mem_singleton.mp hb]
      show "txn.gql_".toList <+: varName "gql_error".toList
      decide

private theorem graphqlVars_vars (body : Text) (parsed : ParsedBody) :
    ∀ a ∈ H.graphqlVars body parsed, "txn.gql_".toList <+: varName a.1 := by
  unfold graphqlVars
  dsimp only
  by_cases h : (parsed.isGraphql ||
      (parsed.isJson && (parsed.getJsonField "query".toList).isSome)) = true
  · rw [if_pos h]
    exact analysisVars_vars _
  · rw [if_neg h]
    decide

private theorem schemaVars_vars (method path : Text) (parsed : ParsedBody) :
    ∀ a ∈ H.schemaVars method path parsed, "txn.api_schema".toList <+: varName a.1 := by
  intro a ha
  unfold schemaVars at ha
  dsimp only at ha
  refine vars_of_names ["api_schema".toList, "api_schema_valid".toList,
    "api_schema_errors".toList] ?_ (by decide) a ha
  rfl

/-- The state the credentials check reads. -/
def checked (t : Txn) : Txn :=
  let parsed := ParsedBody.parse H ((H.body t).getD []) (H.contentType t)
  tsetAll (tsetAll t (H.graphqlVars ((H.body t).getD []) parsed))
    (H.schemaVars (H.method t) (H.path t) parsed)

theorem checked_sameBut (t : Txn) : Txn.SameBut parserVars t (H.checked t) := by
  unfold checked
  dsimp only
  have hgraphql := tsetAll_parserVars List.mem_cons_self
    (H.graphqlVars_vars ((H.body t).getD []) (ParsedBody.parse H ((H.body t).getD [])
      (H.contentType t))) t
  exact hgraphql.trans (tsetAll_parserVars (List.mem_cons_of_mem _ List.mem_cons_self)
    (H.schemaVars_vars _ _ _) _)

/-- **The action** assigns variables of its own. -/
theorem parseBodyLua_sameBut (t : Txn) : Txn.SameBut parserVars t (H.parseBodyLua t) := by
  have hauth := (H.checked_sameBut t).trans (tsetAll_parserVars (p := "txn.auth".toList) (by
    simp only [parserPrefixes, List.mem_cons, true_or, or_true]) (H.validateAndSetAuth_vars
      (H.checked t)) _)
  refine hauth.trans ((Txn.SameBut.setVar _ _ _).mono (Set.singleton_subset_iff.mpr ?_))
  have hlast : "txn.api.".toList ∈ parserPrefixes :=
    List.mem_cons_of_mem _ (List.mem_cons_of_mem _ (List.mem_cons_of_mem _ List.mem_cons_self))
  exact ⟨"txn.api.".toList, hlast, by decide⟩

/-! ### Credentials that check out -/

/-- The request carries a token that validates. -/
def HasToken (t : Txn) (policy : AuthPolicy) : Prop :=
  let secret := (policy.jwtSecretEnv.bind H.envVar).getD []
  ∃ token, extractBearerToken (H.header t "Authorization".toList) = some token ∧ secret ≠ [] ∧
    (H.validateJwtWithClaims token secret policy.jwtIssuer policy.jwtAudience).valid = true

/-- The request carries a key of the list. -/
def HasKey (t : Txn) (policy : AuthPolicy) : Prop :=
  H.header t (policy.apiKeyHeader.getD "Authorization".toList) ∈
    (H.data.apiKeys (policy.apiKeyListName.getD [])).getD []

theorem validateApiKey_valid (key : Text) (validKeys : List Text) :
    (validateApiKey key validKeys).valid = true ↔ key ∈ validKeys := by
  unfold validateApiKey
  split_ifs with h <;> simp [h]

/-- The credentials of a request check out; those of an unknown type always do. -/
def Authentic (t : Txn) (policy : AuthPolicy) : Prop :=
  if policy.authType = some "jwt".toList then H.HasToken t policy
  else if policy.authType = some "api_key".toList then H.HasKey t policy
  else True

/-- After an outcome, and variables of claims, `auth_valid` is what the outcome says. -/
private theorem tsetAll_authValid (as : Assignments) (valid : Bool) (type error : Text)
    {claims : Assignments} (hclaims : ∀ b ∈ claims, ∃ c, b.1 = claimVar c) (t : Txn) :
    (tsetAll t (as ++ (authOutcome valid type error ++ claims))).vars authValid =
      some (.bool valid) := by
  have hname : authValid = varName "auth_valid".toList := by decide
  rw [hname]
  refine tsetAll_vars_last as (fun b hb => ?_) t
  rcases List.mem_append.mp hb with hb | hb
  · simp only [List.mem_cons, List.not_mem_nil, or_false] at hb
    rcases hb with rfl | rfl
    · show varName "auth_type".toList ≠ _
      decide
    · show varName "auth_error".toList ≠ _
      decide
  · obtain ⟨c, hc⟩ := hclaims b hb
    rw [hc, varName_claimVar]
    intro heq
    have hprefix : "txn.auth.claim_".toList <+: varName "auth_valid".toList := ⟨c, heq⟩
    exact absurd hprefix (by decide)

private theorem tsetAll_outcome (as : Assignments) (valid : Bool) (type error : Text) (t : Txn) :
    (tsetAll t (as ++ authOutcome valid type error)).vars authValid = some (.bool valid) := by
  have hrun := tsetAll_authValid as valid type error
    (fun b hb => absurd hb List.not_mem_nil) t
  rwa [List.append_nil] at hrun

private theorem claimVars_names (claims : Json) :
    ∀ b ∈ H.claimVars claims, ∃ c, b.1 = claimVar c := by
  intro b hb
  obtain ⟨c, -, rfl⟩ := List.mem_map.mp hb
  exact ⟨c.1, rfl⟩

/-- The `jwt` branch reports the token. -/
private theorem validateJwtPolicy_authValid (as : Assignments) (policy : AuthPolicy) (t s : Txn) :
    ∃ b, (tsetAll s (as ++ H.validateJwtPolicy policy (H.header t "Authorization".toList))).vars
      authValid = some (.bool b) ∧ (b = true ↔ H.HasToken t policy) := by
  unfold validateJwtPolicy HasToken
  cases htoken : extractBearerToken (H.header t "Authorization".toList) with
  | none =>
      refine ⟨false, tsetAll_outcome as false _ _ s, ?_⟩
      simp
  | some token =>
      dsimp only
      by_cases hsecret : (policy.jwtSecretEnv.bind H.envVar).getD [] = []
      · rw [if_pos hsecret]
        refine ⟨false, tsetAll_outcome as false _ _ s, ?_⟩
        simp [hsecret]
      · rw [if_neg hsecret]
        refine ⟨_, tsetAll_authValid as _ _ _ (H.claimVars_names _) s, ?_⟩
        simp [hsecret]

/-- **What the check of the credentials reports.** -/
theorem validateAndSetAuth_authValid (t : Txn) (hid : tgetInt t "api_auth_policy_id".toList ≠ 0) :
    ∃ b, (tsetAll t (H.validateAndSetAuth t)).vars authValid = some (.bool b) ∧ (b = true ↔
      ∃ policy, H.data.authPolicies (tgetInt t "api_auth_policy_id".toList) = some policy ∧
        H.Authentic t policy) := by
  unfold validateAndSetAuth
  dsimp only
  rw [if_neg hid]
  generalize authOutcome true ['n'] [] ++ _ = as
  cases hpolicy : H.data.authPolicies (tgetInt t "api_auth_policy_id".toList) with
  | none =>
      refine ⟨false, tsetAll_outcome as false _ _ t, ?_⟩
      simp
  | some policy =>
      dsimp only
      have hex : (∃ p, some policy = some p ∧ H.Authentic t p) ↔ H.Authentic t policy := by simp
      rw [hex, Authentic]
      by_cases hjwt : policy.authType = some "jwt".toList
      · rw [if_pos hjwt, if_pos hjwt]
        exact H.validateJwtPolicy_authValid as policy t t
      · rw [if_neg hjwt, if_neg hjwt]
        by_cases hkey : policy.authType = some "api_key".toList
        · rw [if_pos hkey, if_pos hkey, HasKey]
          refine ⟨_, tsetAll_outcome as _ _ _ t, ?_⟩
          cases policy.apiKeyHeader with
          | none => exact validateApiKey_valid _ _
          | some name => exact validateApiKey_valid _ _
        · rw [if_neg hkey, if_neg hkey]
          exact ⟨true, tsetAll_outcome as true _ _ t, by simp⟩

/-- Credentials are read off the headers. -/
theorem authentic_sameBut {S : Set Text} {t s : Txn} (h : Txn.SameBut S t s) (policy : AuthPolicy) :
    H.Authentic s policy ↔ H.Authentic t policy := by
  have hheader : ∀ name, H.header s name = H.header t name := by
    intro name
    unfold header reqHdrs
    rw [h.headers]
  unfold Authentic HasToken HasKey
  simp only [hheader]

/-- The policy the rules passed is the one the check reads. -/
theorem tgetInt_sameBut {t s : Txn} (h : Txn.SameBut parserVars t s) :
    tgetInt s "api_auth_policy_id".toList = tgetInt t "api_auth_policy_id".toList := by
  have hname : varName "api_auth_policy_id".toList ∉ parserVars := not_mem_parserVars (by decide)
  unfold tgetInt
  rw [h.vars _ hname]

/-- **What the action reports about credentials**, under a policy. -/
theorem parseBodyLua_authValid_iff (t : Txn)
    (hid : tgetInt t "api_auth_policy_id".toList ≠ 0) :
    ((H.parseBodyLua t).vars authValid).any Sample.truthy = true ↔
      ∃ policy, H.data.authPolicies (tgetInt t "api_auth_policy_id".toList) = some policy ∧
        H.Authentic t policy := by
  have hsame := H.checked_sameBut t
  have hid' := tgetInt_sameBut hsame
  have hanomaly : authValid ≠ varName "api.profile_anomaly".toList := by decide
  have hlast : (H.parseBodyLua t).vars authValid =
      (tsetAll (H.checked t) (H.validateAndSetAuth (H.checked t))).vars authValid :=
    Txn.setVar_vars_other _ _ hanomaly
  obtain ⟨b, hb, hcheck⟩ := H.validateAndSetAuth_authValid (H.checked t) (hid' ▸ hid)
  rw [hlast, hb]
  show b = true ↔ _
  rw [hcheck, hid']
  refine exists_congr fun policy => and_congr_right fun _ => ?_
  exact H.authentic_sameBut hsame policy

end Host

end CorexManager.ApiArmor
