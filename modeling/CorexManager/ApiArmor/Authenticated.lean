import CorexManager.ApiArmor.PolicyChoice

/-!
# Requests that get past a policy

`authenticated_of_passes`: a request that meets the condition of API Armor and gets past
the section has valid credentials, or has passed a challenge where the policy asks for one.
The condition is part of the design: API Armor reads bodies of three content types, on the
configured paths, and every other request passes unread (`untyped_passes`).
-/

namespace CorexManager.ApiArmor

open Data
open HAProxy
open Frontend

/-- The bundle was written from the rows: its policies are enabled ones, each with the type
of its row. -/
def WrittenFrom (T : PolicyTable) (data : ApiArmorData) : Prop :=
  ∀ n q, data.authPolicies n = some q →
    ∃ p ∈ T.rows, p.enabled = true ∧ p.id = n ∧ q.authType = p.authType

/-- The credentials a type asks for. -/
def Host.HasCredentials (H : Host) (t : Txn) (q : AuthPolicy) (type : Option Text) : Prop :=
  if type = some "jwt".toList then H.HasToken t q else H.HasKey t q

/-- The types whose credentials are checked. -/
def checkedTypes : List (Option Text) := [some "jwt".toList, some "api_key".toList]

/-- A challenge lets pass who solved one, and the cache. -/
theorem challengeOutcome_passes {url : Text} {t : Txn} (h : Passes (challengeOutcome url t)) :
    (t.vars cookieValid).isSome = true ∨ (t.vars isVarnishFetch).isSome = true := by
  by_cases hfetch : (t.vars isVarnishFetch).isSome = true
  · exact .inr hfetch
  · by_cases hsolved : (t.vars cookieValid).isSome = true
    · exact .inl hsolved
    · unfold challengeOutcome at h
      rw [if_neg hfetch, if_neg hsolved] at h
      rcases h with h | h
      · cases h
      · cases h

namespace Site

variable (s : ArmorSetup) {E : Engine} {H : Host} {t : Txn}

/-- The section denies, or does what the policy says. -/
theorem action_of_choice {site : Site} {p : PolicyRow} (h : site.choice s = some p) :
    site.action s = some p.failureAction ∨ site.action s = some .block := by
  cases site with
  | listener l => 
      have hkeeps : KeepsAction s (.listener l) := trivial
      exact .inl (action_of_keeps s hkeeps h)
  | backend b l =>
      by_cases hown : ∃ q ∈ s.policies.inForce, b ∈ q.backendIds
      · have hkeeps : KeepsAction s (.backend b l) := .inl hown
        exact .inl (action_of_keeps s hkeeps h)
      · right
        refine action_default s ?_
        by_contra hsome
        obtain ⟨q, hq⟩ := Option.ne_none_iff_exists'.mp hsome
        exact hown ⟨q, s.policies.backendPolicy_mem hq⟩

/-- Credentials the parser accepts under the policy that is chosen. -/
theorem credentials_of_valid {site : Site} (h : site.Arrives s E t) {p : PolicyRow}
    (hchoice : site.choice s = some p) (hwritten : WrittenFrom s.policies H.data)
    (htype : p.authType ∈ checkedTypes)
    (hvalid : ((H.parseBodyLua ((site.armor s).chosen E H t)).vars authValid).any
      Sample.truthy = true) :
    ∃ q, H.data.authPolicies p.id = some q ∧ H.HasCredentials t q p.authType := by
  have hid : Host.tgetInt ((site.armor s).chosen E H t) "api_auth_policy_id".toList = p.id := by
    have heq := passed_eq (H := H) s h
    rwa [hchoice] at heq
  have hmem := (choice_mem s hchoice).1
  have hcheck := (H.parseBodyLua_authValid_iff _ (hid ▸ p.id_pos.ne')).mp hvalid
  rw [hid] at hcheck
  obtain ⟨q, hq, hauth⟩ := hcheck
  obtain ⟨p', hp', -, hid', hsame⟩ := hwritten p.id q hq
  have heq : p' = p :=
    List.inj_on_of_nodup_map s.policies.keys hp' (List.mem_of_mem_filter hmem) hid'
  rw [heq] at hsame
  refine ⟨q, hq, ?_⟩
  have hauth' := (H.authentic_sameBut (chosen_sameBut s h) q).mp hauth
  unfold Host.Authentic at hauth'
  unfold Host.HasCredentials
  rw [hsame] at hauth'
  by_cases hjwt : p.authType = some "jwt".toList
  · rw [if_pos hjwt] at hauth' ⊢
    exact hauth'
  · have hkey : p.authType = some "api_key".toList := by
      simp only [checkedTypes, List.mem_cons, List.not_mem_nil, or_false] at htype
      exact htype.resolve_left hjwt
    rw [if_neg hjwt, if_pos hkey] at hauth'
    rw [if_neg hjwt]
    exact hauth'

end Site

/-- **Requests that get past a policy** that blocks or challenges have valid credentials; a
challenge also lets pass who solved one, and fetches of the cache. -/
theorem authenticated_of_passes (s : ArmorSetup) (E : Engine) (H : Host) (site : Site) (t : Txn)
    (p : PolicyRow) (h : site.Arrives s E t) (hchoice : site.choice s = some p)
    (haction : p.failureAction ≠ .logOnly) (htype : p.authType ∈ checkedTypes)
    (hwritten : WrittenFrom s.policies H.data)
    (hpasses : Passes ((site.armor s).verdict E H t)) :
    (∃ q, H.data.authPolicies p.id = some q ∧ H.HasCredentials t q p.authType) ∨
      (p.failureAction = .challenge ∧
        ((t.vars cookieValid).isSome = true ∨ (t.vars isVarnishFetch).isSome = true)) := by
  have hblock : ¬ Passes (OnFailure.block.outcome s.challengePage t) := by
    rintro (hdeny | hdeny)
    · cases hdeny
    · cases hdeny
  rcases Site.action_of_choice s hchoice with hf | hf
  · rcases Site.accepted_of_passes s h hpasses hf with hvalid | hout
    · exact .inl (Site.credentials_of_valid s h hchoice hwritten htype hvalid)
    · right
      cases hkind : p.failureAction with
      | block =>
          rw [hkind] at hout
          exact absurd hout hblock
      | challenge =>
          rw [hkind] at hout
          exact ⟨rfl, challengeOutcome_passes hout⟩
      | logOnly => exact absurd hkind haction
  · rcases Site.accepted_of_passes s h hpasses hf with hvalid | hout
    · exact .inl (Site.credentials_of_valid s h hchoice hwritten htype hvalid)
    · exact absurd hout hblock

/-! ### A challenge that was solved -/

/-- A policy of a backend that challenges. -/
def challengingPolicy : PolicyRow where
  id := 1
  id_pos := Int.one_pos
  listenerIds := []
  backendIds := [2]
  authType := some "jwt".toList
  onFailure := some .challenge
  enabled := true

/-- A configuration with this policy alone. -/
def challengingSetup : ArmorSetup where
  unicode := .ascii
  pathPatterns := []
  challengeUrl := []
  policies := ⟨[challengingPolicy], by simp⟩

/-- A request whose client has solved a challenge. -/
def solvedRequest : Txn where
  headers := []
  src := []
  vars n := if n = apiBody then some (.str []) else if n = apiArmorListenerId then some (.int 1)
    else if n = cookieValid then some (.bool true) else none
  logLevel := none
  convert _ _ := []
  other _ := []

theorem solvedRequest_arrives :
    (Site.backend 2 1).Arrives challengingSetup Engine.simple solvedRequest :=
  ⟨by decide, by decide, by decide, by decide⟩

theorem challengingSetup_own :
    challengingSetup.policies.backendPolicy 2 = some challengingPolicy := by
  have hin : challengingSetup.policies.inForce = [challengingPolicy] := by decide
  rw [PolicyTable.backendPolicy, PolicyTable.ordered, hin, List.mergeSort_singleton]
  decide

theorem challengingSetup_choice :
    (Site.backend 2 1).choice challengingSetup = some challengingPolicy := by
  show (challengingSetup.policies.backendPolicy 2).or _ = _
  rw [challengingSetup_own]
  rfl

theorem solvedRequest_passes :
    Passes (((Site.backend 2 1).armor challengingSetup).verdict Engine.simple emptyHost
      solvedRequest) := by
  have hid : (Site.backend 2 1).passed challengingSetup Engine.simple emptyHost solvedRequest ≠ 0 := by
    rw [Site.passed_eq _ solvedRequest_arrives, challengingSetup_choice]
    decide
  have haction : (Site.backend 2 1).action challengingSetup = some .challenge := by
    show some (challengingSetup.backendAction 2) = _
    rw [ArmorSetup.backendAction, challengingSetup_own]
    rfl
  rw [Site.verdict_of_refused _ solvedRequest_arrives (emptyHost_refused hid), haction]
  exact .inr rfl

theorem authenticated_of_passes_solved :
    (∃ q, emptyHost.data.authPolicies 1 = some q ∧
      emptyHost.HasCredentials solvedRequest q (some "jwt".toList)) ∨
      (challengingPolicy.failureAction = .challenge ∧
        ((solvedRequest.vars cookieValid).isSome = true ∨
          (solvedRequest.vars isVarnishFetch).isSome = true)) :=
  authenticated_of_passes challengingSetup Engine.simple emptyHost (.backend 2 1) solvedRequest
    challengingPolicy solvedRequest_arrives challengingSetup_choice (by decide) (by decide)
    (fun _ _ h => nomatch h) solvedRequest_passes

/-! ### A request without a content type -/

/-- A policy of a listener that blocks. -/
def blockingPolicy : PolicyRow where
  id := 1
  id_pos := Int.one_pos
  listenerIds := [1]
  backendIds := []
  authType := some "jwt".toList
  onFailure := some .block
  enabled := true

/-- A configuration with this policy alone. -/
def blockingSetup : ArmorSetup where
  unicode := .ascii
  pathPatterns := []
  challengeUrl := []
  policies := ⟨[blockingPolicy], by simp⟩

/-- A request without headers. -/
def bareRequest : Txn where
  headers := []
  src := []
  vars _ := none
  logLevel := none
  convert _ _ := []
  other _ := []

/-- Surroundings in which the bundle has the policy. -/
def bundledHost : Host :=
  { emptyHost with
    data := ⟨[], fun n => if n = 1 then some
      ⟨1, [], some "jwt".toList, none, none, none, none, none⟩ else none, [], fun _ => none⟩ }

theorem bundledHost_written : WrittenFrom blockingSetup.policies bundledHost.data := by
  intro n q hq
  have hq' : (if n = 1 then some (⟨1, [], some "jwt".toList, none, none, none, none, none⟩ :
      AuthPolicy) else none) = some q := hq
  by_cases hn : n = 1
  · rw [if_pos hn] at hq'
    refine ⟨blockingPolicy, List.mem_singleton_self _, rfl, hn.symm, ?_⟩
    rw [← Option.some.inj hq']
    rfl
  · rw [if_neg hn] at hq'
    cases hq'

/-- The request passes unread. -/
theorem bareRequest_passes :
    Passes (((Site.listener 1).armor blockingSetup).verdict Engine.simple bundledHost
      bareRequest) := by
  decide +kernel

/-- **A request without a content type** passes a policy that blocks. -/
theorem untyped_passes : ¬ ∀ (s : ArmorSetup) (E : Engine) (H : Host) (site : Site) (t : Txn)
    (p : PolicyRow), site.choice s = some p → p.failureAction = .block →
      p.authType = some "jwt".toList → WrittenFrom s.policies H.data →
      Passes ((site.armor s).verdict E H t) →
        ∃ q, H.data.authPolicies p.id = some q ∧ H.HasToken t q := by
  intro h
  obtain ⟨q, -, htoken⟩ := h blockingSetup Engine.simple bundledHost (.listener 1) bareRequest
    blockingPolicy (by decide) (by decide) (by decide) bundledHost_written bareRequest_passes
  obtain ⟨token, hextract, -⟩ := htoken
  have hnone : extractBearerToken (bundledHost.header bareRequest "Authorization".toList) = none := by
    decide
  rw [hnone] at hextract
  cases hextract

end CorexManager.ApiArmor
