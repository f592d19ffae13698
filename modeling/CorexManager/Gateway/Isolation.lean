import CorexManager.Gateway.Agreement

/-!
# Teams

A bundle holds the policies, the DLP rules, the guardrail rules and the skills of all teams.
The servers a client reaches are those of its team, but the engines are built from the whole
bundle, so what one team configures decides about the requests of another.  Exactly the
requests that ask no engine are isolated (`isolated_iff`).
-/

namespace CorexManager.Gateway

open Data (Dict.lookup Json Text)
open Priority (sortByKey)

/-! ### Bundles that look the same to a team -/

/-- Two bundles that differ only in policies, rules and skills of teams other than `A`. -/
structure SameForTeam (A : Int) (b b' : ConfigBundle) : Prop where
  policies : (b'.policies.filter fun p => p.teamId == A) = b.policies.filter fun p => p.teamId == A
  dlpRules : (b'.dlpRules.filter fun r => r.teamId == A) = b.dlpRules.filter fun r => r.teamId == A
  guardrails :
    (b'.guardrails.filter fun r => r.teamId == A) = b.guardrails.filter fun r => r.teamId == A
  skills : (b'.skills.filter fun s => s.teamId == A) = b.skills.filter fun s => s.teamId == A
  rest : { b' with
    policies := b.policies
    dlpRules := b.dlpRules
    guardrails := b.guardrails
    skills := b.skills } = b

/-- What a client and the upstream servers see of a run. -/
def Run.outcome (x : Run Response) : Option Response × List (ServerConfig × Json) :=
  (x.response, x.forwarded)

/-- **What is claimed of a request.**  Its response, and what is forwarded for it, are the same
under every bundle that looks the same to the team of the identity. -/
def Isolated (P : Platform) (w : World) (b : ConfigBundle) (auth : AuthContext)
    (sessionId : Text) (body : Json) : Prop :=
  ∀ b', SameForTeam auth.teamId b b' →
    (handleMessage P w (.ofBundle P b') auth sessionId body).outcome =
      (handleMessage P w (.ofBundle P b) auth sessionId body).outcome

/-! ### Requests that ask an engine -/

section Consults

variable (P : Platform) (w : World) (b : ConfigBundle) (auth : AuthContext)

/-- Some server the team sees has an item of the kind. -/
def HasItems (kind : CallKind) : Prop :=
  ∃ s ∈ (GatewayState.ofBundle P b).visible auth.teamId,
    ∃ c, w.catalog s.id = some c ∧ kind.items c ≠ []

/-- A call that is for a skill, or for a server of the team. -/
def ConsultsCall (kind : CallKind) (params : Json) : Prop :=
  ¬ (kind = .tool ∧ isMetaTool (callName params) = true) ∧
  ∃ target, callTarget kind (callName params) = some target ∧
    (target.1 = skillNamespace ∧ kind = .prompt ∨
      ((GatewayState.ofBundle P b).serverByNamespace target.1 auth.teamId).isSome)

/-- The condition of no skill of the team panics. -/
def SkillsEvaluate : Prop :=
  ∀ s ∈ (SkillsRegistry.load P b.skills).skills, s.config.teamId = auth.teamId →
    SkillsRegistry.listedFor P auth s ≠ none

/-- A request that needs a session. -/
def ConsultsRequest (method : Text) (params : Json) : Prop :=
  method = "tools/list".toList ∧ HasItems P w b auth .tool ∨
  method = "resources/list".toList ∧ HasItems P w b auth .resource ∨
  method = "prompts/list".toList ∧ SkillsEvaluate P b auth ∨
  ∃ kind : CallKind, method = kind.method ∧ ConsultsCall P b auth kind params

/-- An initialization that would tell the client of skills, if other teams had some. -/
def ConsultsInitialize : Prop :=
  (∀ s ∈ (GatewayState.ofBundle P b).teamServers auth.teamId, ∀ c, w.catalog s.id = some c →
    c.prompts = []) ∧
  ∀ s ∈ b.skills, s.teamId = auth.teamId → s.enabled = false

/-- A message whose answer depends on an engine. -/
def Consults (sessionId : Text) (body : Json) : Prop :=
  isNotification body = false ∧ isResponse body = false ∧
  (toolText "method" body = "initialize".toList ∧ ConsultsInitialize P w b auth ∨
    sessionId ≠ [] ∧ w.sessionIdentity sessionId = some auth.identityId ∧
      ConsultsRequest P w b auth (toolText "method" body)
        ((body.get "params".toList).getD (.obj [])))

end Consults

/-! ### Requests that ask none -/

section Isolated

variable {P : Platform} {w : World} {b b' : ConfigBundle} {auth : AuthContext} {A : Int}

namespace SameForTeam

theorem servers (h : SameForTeam A b b') : b'.servers = b.servers := by
  have hrest := congrArg ConfigBundle.servers h.rest
  exact hrest

theorem teams (h : SameForTeam A b b') : b'.teams = b.teams := by
  have hrest := congrArg ConfigBundle.teams h.rest
  exact hrest

theorem teamServers (h : SameForTeam A b b') (teamId : Int) :
    (GatewayState.ofBundle P b').teamServers teamId =
      (GatewayState.ofBundle P b).teamServers teamId := by
  show b'.servers.filter _ = b.servers.filter _
  rw [h.servers]

theorem discoveryMode (h : SameForTeam A b b') (teamId : Int) :
    (GatewayState.ofBundle P b').discoveryMode teamId =
      (GatewayState.ofBundle P b).discoveryMode teamId := by
  unfold GatewayState.discoveryMode GatewayState.ofBundle
  rw [h.teams]

theorem visible (h : SameForTeam A b b') (teamId : Int) :
    (GatewayState.ofBundle P b').visible teamId = (GatewayState.ofBundle P b).visible teamId := by
  rw [GatewayState.visible, GatewayState.visible, h.teamServers, h.discoveryMode]

theorem serverByNamespace (h : SameForTeam A b b') (ns : Text) (teamId : Int) :
    (GatewayState.ofBundle P b').serverByNamespace ns teamId =
      (GatewayState.ofBundle P b).serverByNamespace ns teamId := by
  show b'.servers.find? _ = b.servers.find? _
  rw [h.servers]

end SameForTeam

/-- There are skills if one is enabled. -/
theorem hasSkills_iff {raw : List SkillConfig} :
    (SkillsRegistry.load P raw).hasSkills = true ↔ ∃ s ∈ raw, s.enabled = true := by
  unfold SkillsRegistry.hasSkills SkillsRegistry.load
  constructor
  · intro h
    obtain ⟨-, h⟩ := Bool.and_eq_true_iff.mp h
    by_contra hnone
    have hfilter : raw.filter SkillConfig.enabled = [] :=
      List.filter_eq_nil_iff.mpr fun s hs henabled => hnone ⟨s, hs, henabled⟩
    rw [hfilter] at h
    cases h
  · rintro ⟨s, hs, henabled⟩
    have hmem := List.mem_filter.mpr ⟨hs, henabled⟩
    have hraw : raw.isEmpty = false := List.isEmpty_eq_false_iff.mpr (List.ne_nil_of_mem hs)
    have hskills : ((raw.filter SkillConfig.enabled).map fun s =>
        (⟨s, s.enableWhen.bind (parseExpression P.regex P.unicode)⟩ : CompiledSkill)).isEmpty =
        false :=
      List.isEmpty_eq_false_iff.mpr (List.ne_nil_of_mem (List.mem_map_of_mem hmem))
    rw [hraw, hskills]
    rfl

/-- The skills of the team are in both bundles. -/
theorem SameForTeam.mem_skills (h : SameForTeam A b b') {s : SkillConfig} (hs : s ∈ b.skills)
    (hteam : s.teamId = A) : s ∈ b'.skills := by
  have hmem : s ∈ b'.skills.filter fun s => s.teamId == A := by
    rw [h.skills]
    exact List.mem_filter.mpr ⟨hs, beq_iff_eq.mpr hteam⟩
  exact (List.mem_filter.mp hmem).1

theorem handleInitialize_same (h : SameForTeam auth.teamId b b')
    (hnot : ¬ ConsultsInitialize P w b auth) (msgId : Json) :
    handleInitialize w (.ofBundle P b') msgId auth = handleInitialize w (.ofBundle P b) msgId auth := by
  have hprompts : (((GatewayState.ofBundle P b).teamServers auth.teamId).any (fun s =>
        (w.catalog s.id).any fun c => !c.prompts.isEmpty) ||
        (GatewayState.ofBundle P b').skills.hasSkills) =
      (((GatewayState.ofBundle P b).teamServers auth.teamId).any (fun s =>
        (w.catalog s.id).any fun c => !c.prompts.isEmpty) ||
        (GatewayState.ofBundle P b).skills.hasSkills) := by
    rcases not_and_or.mp hnot with hcatalogs | hskills
    · obtain ⟨s, hs, c, hcatalog, hsome⟩ : ∃ s ∈ (GatewayState.ofBundle P b).teamServers
          auth.teamId, ∃ c, w.catalog s.id = some c ∧ c.prompts ≠ [] := by
        by_contra hnone
        exact hcatalogs fun s hs c hcatalog => by
          by_contra hsome
          exact hnone ⟨s, hs, c, hcatalog, hsome⟩
      have hany : ((GatewayState.ofBundle P b).teamServers auth.teamId).any (fun s =>
          (w.catalog s.id).any fun c => !c.prompts.isEmpty) = true := by
        refine List.any_eq_true.mpr ⟨s, hs, ?_⟩
        rw [hcatalog, Option.any_some, List.isEmpty_eq_false_iff.mpr hsome]
        rfl
      rw [hany, Bool.true_or, Bool.true_or]
    · obtain ⟨s, hs, hteam, henabled⟩ : ∃ s ∈ b.skills, s.teamId = auth.teamId ∧
          s.enabled = true := by
        by_contra hnone
        exact hskills fun s hs hteam => Bool.eq_false_iff.mpr fun henabled =>
          hnone ⟨s, hs, hteam, henabled⟩
      have hhere : (GatewayState.ofBundle P b).skills.hasSkills = true :=
        hasSkills_iff.mpr ⟨s, hs, henabled⟩
      have hthere : (GatewayState.ofBundle P b').skills.hasSkills = true :=
        hasSkills_iff.mpr ⟨s, h.mem_skills hs hteam, henabled⟩
      rw [hhere, hthere]
  unfold handleInitialize
  rw [h.teamServers, h.discoveryMode]
  dsimp only
  rw [hprompts]

/-- A list to which no server contributes does not depend on the engines. -/
theorem mergeLists_congr {list list' : ServerConfig → Catalog → Option (List Json)}
    {servers : List ServerConfig}
    (hlist : ∀ s ∈ servers, ∀ c, w.catalog s.id = some c → list s c = list' s c) :
    mergeLists w list servers = mergeLists w list' servers := by
  induction servers with
  | nil => rfl
  | cons s servers ih =>
      obtain ⟨hs, hservers⟩ := List.forall_mem_cons.mp hlist
      rw [mergeLists, mergeLists, ih hservers]
      cases hcatalog : w.catalog s.id with
      | none => rfl
      | some c =>
          dsimp only
          rw [hs c hcatalog]

theorem list_same (h : SameForTeam auth.teamId b b') (kind : CallKind) (hkind : kind ≠ .prompt)
    (hnot : ¬ HasItems P w b auth kind) (msgId : Json) :
    kind.list P w (.ofBundle P b') msgId auth = kind.list P w (.ofBundle P b) msgId auth := by
  have hown : ownEntries P (.ofBundle P b') auth kind = ownEntries P (.ofBundle P b) auth kind := by
    cases kind with
    | tool => rw [ownEntries, ownEntries, h.discoveryMode]
    | resource => rfl
    | prompt => exact absurd rfl hkind
  rw [list_eq, list_eq, hown, h.visible]
  congr 2
  refine mergeLists_congr fun s hs c hcatalog => ?_
  have hnone : kind.items c = [] := by
    by_contra hsome
    exact hnot ⟨s, hs, c, hcatalog, hsome⟩
  rw [entries, entries, hnone]
  rfl

theorem getEnabledSkills_eq_none_iff {skills : List CompiledSkill} :
    SkillsRegistry.getEnabledSkills P auth skills = none ↔
      ∃ s ∈ skills, SkillsRegistry.listedFor P auth s = none := by
  induction skills with
  | nil => simp [SkillsRegistry.getEnabledSkills]
  | cons s rest ih =>
      rw [SkillsRegistry.getEnabledSkills, List.exists_mem_cons_iff, ← ih]
      cases SkillsRegistry.listedFor P auth s with
      | none => simp
      | some listed => cases SkillsRegistry.getEnabledSkills P auth rest <;> simp

theorem mem_load {raw : List SkillConfig} {s : CompiledSkill} :
    s ∈ (SkillsRegistry.load P raw).skills ↔ ∃ config ∈ raw, config.enabled = true ∧
      ⟨config, config.enableWhen.bind (parseExpression P.regex P.unicode)⟩ = s := by
  constructor
  · intro h
    obtain ⟨config, hconfig, hs⟩ := List.mem_map.mp h
    exact ⟨config, (List.mem_filter.mp hconfig).1, (List.mem_filter.mp hconfig).2, hs⟩
  · rintro ⟨config, hconfig, henabled, hs⟩
    exact List.mem_map.mpr ⟨config, List.mem_filter.mpr ⟨hconfig, henabled⟩, hs⟩

theorem SameForTeam.mem_load (h : SameForTeam A b b') {s : CompiledSkill}
    (hs : s ∈ (SkillsRegistry.load P b.skills).skills) (hteam : s.config.teamId = A) :
    s ∈ (SkillsRegistry.load P b'.skills).skills := by
  obtain ⟨config, hconfig, henabled, rfl⟩ := Gateway.mem_load.mp hs
  exact Gateway.mem_load.mpr ⟨config, h.mem_skills hconfig hteam, henabled, rfl⟩

/-- A list of prompts panics if the condition of a skill does. -/
theorem outcome_prompts_panic {st : GatewayState} {s : CompiledSkill} {raw : List SkillConfig}
    (hst : st.skills = .load P raw) (hs : s ∈ (SkillsRegistry.load P raw).skills)
    (hpanics : SkillsRegistry.listedFor P auth s = none) (msgId : Json) :
    (CallKind.prompt.list P w st msgId auth).outcome = (none, []) := by
  have hown : ownEntries P st auth .prompt = none := by
    obtain ⟨config, hconfig, henabled, -⟩ := mem_load.mp hs
    have hsome : st.skills.hasSkills = true := by
      rw [hst]
      exact hasSkills_iff.mpr ⟨config, hconfig, henabled⟩
    rw [ownEntries, if_pos hsome, hst, getEnabledSkills_eq_none_iff.mpr ⟨s, hs, hpanics⟩]
    rfl
  rw [list_eq, hown]
  cases mergeLists w (entries P st auth .prompt) (st.visible auth.teamId) <;> rfl

theorem Run.orReply_some {α β : Type} (r : Response) (a : α) (f : α → Run β) :
    Run.orReply r (some a) >>= f = f a := rfl

/-- A call that consults no engine is answered from the configuration. -/
theorem handleCall_same (h : SameForTeam auth.teamId b b') {kind : CallKind} {params : Json}
    (hnot : ¬ ConsultsCall P b auth kind params) (sessionId : Text) (msgId : Json) :
    handleCall P w (.ofBundle P b') sessionId msgId params auth kind =
      handleCall P w (.ofBundle P b) sessionId msgId params auth kind := by
  unfold handleCall
  dsimp only
  by_cases hmeta : kind = .tool ∧ isMetaTool (callName params) = true
  · rw [if_pos hmeta, if_pos hmeta, handleMetaToolCall, handleMetaToolCall, h.visible,
      h.teamServers]
  rw [if_neg hmeta, if_neg hmeta]
  cases htarget : callTarget kind (callName params) with
  | none => rfl
  | some target =>
      have hnone := not_or.mp fun hconsults => hnot ⟨hmeta, target, htarget, hconsults⟩
      rw [Run.orReply_some, Run.orReply_some, if_neg hnone.1, if_neg hnone.1, h.serverByNamespace,
        Option.not_isSome_iff_eq_none.mp hnone.2]
      rfl

/-- A request that asks no engine is answered in the same way. -/
theorem handleRequest_same (h : SameForTeam auth.teamId b b') {method : Text} {params : Json}
    (hnot : ¬ ConsultsRequest P w b auth method params) (sessionId : Text) (msgId : Json) :
    (handleRequest P w (.ofBundle P b') sessionId msgId params auth method).outcome =
      (handleRequest P w (.ofBundle P b) sessionId msgId params auth method).outcome := by
  have hcall : ∀ kind : CallKind, method = kind.method →
      handleCall P w (.ofBundle P b') sessionId msgId params auth kind =
        handleCall P w (.ofBundle P b) sessionId msgId params auth kind := fun kind hmethod =>
    handleCall_same h (fun hcall => hnot (.inr (.inr (.inr ⟨kind, hmethod, hcall⟩)))) _ _
  unfold handleRequest
  by_cases hping : method = "ping".toList ∨ method = "logging/setLevel".toList
  · rw [if_pos hping, if_pos hping]
  rw [if_neg hping, if_neg hping]
  by_cases htools : method = "tools/list".toList
  · rw [if_pos htools, if_pos htools]
    exact congrArg Run.outcome (list_same h .tool nofun (fun hitems =>
      hnot (.inl ⟨htools, hitems⟩)) msgId)
  rw [if_neg htools, if_neg htools]
  by_cases hresources : method = "resources/list".toList
  · rw [if_pos hresources, if_pos hresources]
    exact congrArg Run.outcome (list_same h .resource nofun (fun hitems =>
      hnot (.inr (.inl ⟨hresources, hitems⟩))) msgId)
  rw [if_neg hresources, if_neg hresources]
  by_cases htemplates : method = "resources/templates/list".toList
  · rw [if_pos htemplates, if_pos htemplates, handleResourcesTemplatesList,
      handleResourcesTemplatesList, h.visible]
  rw [if_neg htemplates, if_neg htemplates]
  by_cases hprompts : method = "prompts/list".toList
  · rw [if_pos hprompts, if_pos hprompts]
    -- Only a skill of the team that panics keeps the other teams out of this list.
    obtain ⟨s, hs, hteam, hpanics⟩ : ∃ s ∈ (SkillsRegistry.load P b.skills).skills,
        s.config.teamId = auth.teamId ∧ SkillsRegistry.listedFor P auth s = none := by
      by_contra hnone
      exact hnot (.inr (.inr (.inl ⟨hprompts, fun s hs hteam hpanics =>
        hnone ⟨s, hs, hteam, hpanics⟩⟩)))
    exact (outcome_prompts_panic rfl (h.mem_load hs hteam) hpanics msgId).trans
      (outcome_prompts_panic rfl hs hpanics msgId).symm
  rw [if_neg hprompts, if_neg hprompts]
  by_cases htool : method = "tools/call".toList
  · rw [if_pos htool, if_pos htool, hcall .tool htool]
  rw [if_neg htool, if_neg htool]
  by_cases hread : method = "resources/read".toList
  · rw [if_pos hread, if_pos hread, hcall .resource hread]
  rw [if_neg hread, if_neg hread]
  by_cases hget : method = "prompts/get".toList
  · rw [if_pos hget, if_pos hget, hcall .prompt hget]
  rw [if_neg hget, if_neg hget]
  by_cases hsubscribe : method = "resources/subscribe".toList ∨
      method = "resources/unsubscribe".toList
  · rw [if_pos hsubscribe, if_pos hsubscribe]
  rw [if_neg hsubscribe, if_neg hsubscribe]
  by_cases hcomplete : method = "completion/complete".toList
  · rw [if_pos hcomplete, if_pos hcomplete, handleCompletion, handleCompletion]
    simp only [h.serverByNamespace]
  · rw [if_neg hcomplete, if_neg hcomplete]

/-- **A message that asks no engine is isolated.** -/
theorem isolated_of_not_consults {sessionId : Text} {body : Json}
    (hnot : ¬ Consults P w b auth sessionId body) : Isolated P w b auth sessionId body := by
  intro b' h
  unfold handleMessage
  dsimp only
  by_cases hnotification : (isNotification body || isResponse body) = true
  · rw [if_pos hnotification, if_pos hnotification, handleNotification, handleNotification,
      h.teamServers]
  rw [if_neg hnotification, if_neg hnotification]
  obtain ⟨hn, hr⟩ := Bool.or_eq_false_iff.mp (Bool.eq_false_iff.mpr hnotification)
  have hnot := not_or.mp fun hconsults => hnot ⟨hn, hr, hconsults⟩
  by_cases hempty : toolText "method" body = []
  · rw [if_pos hempty, if_pos hempty]
  rw [if_neg hempty, if_neg hempty]
  by_cases hinit : toolText "method" body = "initialize".toList
  · rw [if_pos hinit, if_pos hinit,
      handleInitialize_same h (fun hconsults => hnot.1 ⟨hinit, hconsults⟩)]
  rw [if_neg hinit, if_neg hinit]
  by_cases hsession : sessionId = []
  · rw [if_pos hsession, if_pos hsession]
  rw [if_neg hsession, if_neg hsession]
  cases hidentity : w.sessionIdentity sessionId with
  | none => rfl
  | some identity =>
      rw [Run.orReply_some, Run.orReply_some]
      by_cases hmismatch : (identity != auth.identityId) = true
      · rw [if_pos hmismatch, if_pos hmismatch]
      · rw [if_neg hmismatch, if_neg hmismatch]
        refine handleRequest_same h (fun hconsults => hnot.2 ⟨hsession, ?_, hconsults⟩) _ _
        rw [hidentity, bne_eq_false_iff_eq.mp (Bool.eq_false_iff.mpr hmismatch)]

/-! ### What another team can do -/

/-- A policy of another team that comes first and decides everything. -/
def leadingPolicy (A : Int) (raw : List PolicyConfig) (action : Text) : PolicyConfig where
  teamId := A + 1
  name := "other".toList
  enabled := true
  priority := (raw.map PolicyConfig.priority).foldr min 0
  expression := "true".toList
  action := action

/-- The bundle with that policy. -/
def ConfigBundle.withPolicy (b : ConfigBundle) (A : Int) (action : Text) : ConfigBundle :=
  { b with policies := leadingPolicy A b.policies action :: b.policies }

/-- A skill of another team. -/
def otherSkill (A : Int) (name : Text) (version : Option Int) : SkillConfig where
  teamId := A + 1
  name := name
  description := none
  enabled := true
  enableWhen := none
  tags := none
  publishedVersionId := version
  publishedBody := none
  publishedFrontmatter := none
  publishedFiles := none

/-- The bundle with some skills in place of those of the other teams. -/
def ConfigBundle.withSkills (b : ConfigBundle) (A : Int) (skills : List SkillConfig) :
    ConfigBundle :=
  { b with skills := skills ++ b.skills.filter fun s => s.teamId == A }

theorem other_team_ne (A : Int) : (A + 1 == A) = false := beq_eq_false_iff_ne.mpr (by omega)

theorem same_withPolicy (b : ConfigBundle) (A : Int) (action : Text) :
    SameForTeam A b (b.withPolicy A action) where
  policies := List.filter_cons_of_neg (by
    rw [leadingPolicy, other_team_ne]
    exact Bool.false_ne_true)
  dlpRules := rfl
  guardrails := rfl
  skills := rfl
  rest := rfl

theorem same_withSkills (b : ConfigBundle) {A : Int} (skills : List SkillConfig)
    (hskills : ∀ s ∈ skills, s.teamId = A + 1) : SameForTeam A b (b.withSkills A skills) where
  policies := rfl
  dlpRules := rfl
  guardrails := rfl
  skills := by
    have hnone : skills.filter (fun s => s.teamId == A) = [] :=
      List.filter_eq_nil_iff.mpr fun s hs => by
        rw [hskills s hs, other_team_ne]
        exact Bool.false_ne_true
    show (skills ++ b.skills.filter _).filter _ = _
    rw [List.filter_append, hnone, List.filter_filter, List.nil_append]
    simp only [Bool.and_self]
  rest := rfl

theorem SameForTeam.trans {b'' : ConfigBundle} (h : SameForTeam A b b') (h' : SameForTeam A b' b'') :
    SameForTeam A b b'' where
  policies := h'.policies.trans h.policies
  dlpRules := h'.dlpRules.trans h.dlpRules
  guardrails := h'.guardrails.trans h.guardrails
  skills := h'.skills.trans h.skills
  rest := by
    rw [← h.rest, ← h'.rest]

/-- The leading policy decides. -/
def leadingResult (action : Text) : PolicyResult :=
  CompiledPolicy.result ⟨"other".toList, .literal true, .parse action⟩

theorem foldr_min_le {l : List Int} {n : Int} (h : n ∈ l) : l.foldr min 0 ≤ n := by
  induction l with
  | nil => cases h
  | cons m l ih =>
      rcases List.mem_cons.mp h with rfl | h
      · exact min_le_left _ _
      · exact (min_le_right _ _).trans (ih h)

theorem evaluate_withPolicy (b : ConfigBundle) (A : Int) (action : Text) (ctx : EvalContext) :
    (GatewayState.ofBundle P (b.withPolicy A action)).policyEngine.evaluate P ctx =
      some (leadingResult action) := by
  have hsorted : sortByKey PolicyConfig.priority
      ((b.withPolicy A action).policies.filter PolicyConfig.enabled) =
      leadingPolicy A b.policies action ::
        sortByKey PolicyConfig.priority (b.policies.filter PolicyConfig.enabled) :=
    Priority.sortByKey_cons_of_least fun p hp =>
      foldr_min_le (List.mem_map_of_mem (List.mem_filter.mp hp).1)
  have hpolicies : (GatewayState.ofBundle P (b.withPolicy A action)).policyEngine.policies =
      ⟨"other".toList, .literal true, .parse action⟩ ::
        (sortByKey PolicyConfig.priority (b.policies.filter PolicyConfig.enabled)).filterMap
          (PolicyConfig.compile P) := by
    show (sortByKey PolicyConfig.priority
      ((b.withPolicy A action).policies.filter PolicyConfig.enabled)).filterMap _ = _
    rw [hsorted]
    rfl
  rw [PolicyEngine.evaluate, hpolicies]
  rfl

theorem checkAccess_withPolicy (b : ConfigBundle) (A : Int) (action : Text) (kind : CallKind)
    (ns name : Text) (params : Json) :
    checkAccess P (.ofBundle P (b.withPolicy A action)) auth kind ns name params =
      some (leadingResult action) := by
  cases kind <;> exact evaluate_withPolicy b A action _

/-! ### Lists under the policy of another team -/

theorem mergeLists_isSome {list : ServerConfig → Catalog → Option (List Json)}
    (hlist : ∀ s c, (list s c).isSome) (servers : List ServerConfig) :
    (mergeLists w list servers).isSome := by
  induction servers with
  | nil => rfl
  | cons s servers ih =>
      obtain ⟨rest, hrest⟩ := Option.isSome_iff_exists.mp ih
      rw [mergeLists]
      cases w.catalog s.id with
      | none =>
          rw [hrest]
          rfl
      | some c =>
          obtain ⟨items, hitems⟩ := Option.isSome_iff_exists.mp (hlist s c)
          dsimp only
          rw [hitems, hrest]
          rfl

theorem filterList_isSome {check : Json → Option PolicyResult} (hcheck : ∀ item, (check item).isSome)
    (items : List Json) : (filterList check items).isSome := by
  refine Option.isSome_iff_ne_none.mpr fun hnone => ?_
  obtain ⟨item, -, hpanics⟩ := filterList_eq_none_iff.mp hnone
  exact absurd (hcheck item) (by rw [hpanics]; exact Bool.false_ne_true)

/-- What the servers contribute: everything, or nothing. -/
def contributed (w : World) (st : GatewayState) (auth : AuthContext) (kind : CallKind)
    (listed : Bool) : List Json :=
  (st.visible auth.teamId).flatMap fun s =>
    (w.catalog s.id).elim [] fun c =>
      if listed then (kind.items c).map (kind.shown s.serverNamespace) else []

/-- A list is answered, unless a skill panics: the leading policy lets everything or nothing
through. -/
theorem listed_withPolicy (b : ConfigBundle) (A : Int) (action : Text) {kind : CallKind}
    {own : List Json} (msgId : Json)
    (hown : ownEntries P (.ofBundle P (b.withPolicy A action)) auth kind = some own) :
    ∃ r, (kind.list P w (.ofBundle P (b.withPolicy A action)) msgId auth).response = some r ∧
      kind.listed r =
        contributed w (.ofBundle P b) auth kind (leadingResult action).listed ++ own := by
  obtain ⟨⟨merged, warnings⟩, hmerged⟩ := Option.isSome_iff_exists.mp
    (show (mergeLists w (entries P (.ofBundle P (b.withPolicy A action)) auth kind)
        ((GatewayState.ofBundle P (b.withPolicy A action)).visible auth.teamId)).isSome from
      mergeLists_isSome
        (fun s c => filterList_isSome (fun item => by rw [checkAccess_withPolicy]; rfl) _) _)
  have hexit : (kind.list P w (.ofBundle P (b.withPolicy A action)) msgId auth).exit =
      .value (successResponse msgId (listResult kind.listKey (merged ++ own) warnings)) := by
    rw [list_eq, hmerged, hown]
    rfl
  refine ⟨_, by rw [Run.response, hexit], ?_⟩
  obtain ⟨own', hown', hlisted⟩ := listed_list hexit
  obtain rfl := Option.some.inj (hown.symm.trans hown')
  rw [hlisted]
  congr 1
  refine List.flatMap_congr fun s _ => ?_
  cases w.catalog s.id with
  | none => rfl
  | some c =>
      rw [Option.elim_some, Option.elim_some, contribution]
      simp only [checkAccess_withPolicy, Option.any_some]
      cases (leadingResult action).listed with
      | true => exact List.filter_true _
      | false => exact List.filter_false _

/-- Two lists with the same response have the same items. -/
theorem listed_eq_of_outcome (kind : CallKind) {x y : Run Response} {r r' : Response}
    (h : x.outcome = y.outcome) (hr : x.response = some r) (hr' : y.response = some r') :
    kind.listed r = kind.listed r' := by
  have hresponse : x.response = y.response := congrArg Prod.fst h
  rw [hr, hr'] at hresponse
  rw [Option.some.inj hresponse]

/-- The tools and the resources of a team depend on the policies of another. -/
theorem list_depends (kind : CallKind) (hkind : kind ≠ .prompt) (hitems : HasItems P w b auth kind)
    (msgId : Json) :
    (kind.list P w (.ofBundle P (b.withPolicy auth.teamId "deny".toList)) msgId auth).outcome ≠
      (kind.list P w (.ofBundle P (b.withPolicy auth.teamId "allow".toList)) msgId auth).outcome := by
  intro h
  obtain ⟨own, hown⟩ : ∃ own, ∀ action,
      ownEntries P (.ofBundle P (b.withPolicy auth.teamId action)) auth kind = some own := by
    cases kind with
    | tool => exact ⟨if (GatewayState.ofBundle P b).discoveryMode auth.teamId = .passthrough then []
        else metaToolDefinitions, fun _ => rfl⟩
    | resource => exact ⟨[], fun _ => rfl⟩
    | prompt => exact absurd rfl hkind
  obtain ⟨r, hr, hlisted⟩ := listed_withPolicy b auth.teamId "deny".toList (w := w) msgId (hown _)
  obtain ⟨r', hr', hlisted'⟩ := listed_withPolicy b auth.teamId "allow".toList (w := w) msgId (hown _)
  have hdenied : (leadingResult "deny".toList).listed = false := rfl
  have hallowed : (leadingResult "allow".toList).listed = true := rfl
  have hsame := listed_eq_of_outcome kind h hr hr'
  rw [hlisted, hlisted', hdenied, hallowed, List.append_cancel_right_eq] at hsame
  obtain ⟨s, hs, c, hcatalog, hc⟩ := hitems
  obtain ⟨item, hitem⟩ := List.exists_mem_of_ne_nil _ hc
  have hmem : kind.shown s.serverNamespace item ∈
      contributed w (.ofBundle P b) auth kind true := by
    refine List.mem_flatMap.mpr ⟨s, hs, ?_⟩
    rw [hcatalog]
    exact List.mem_map_of_mem hitem
  rw [← hsame] at hmem
  obtain ⟨s', -, hmem⟩ := List.mem_flatMap.mp hmem
  cases hcatalog' : w.catalog s'.id with
  | none => rw [hcatalog'] at hmem; cases hmem
  | some c' => rw [hcatalog'] at hmem; cases hmem

/-! ### Skills of another team -/

theorem ownEntries_prompt {st : GatewayState} {raw : List SkillConfig}
    (hst : st.skills = .load P raw) :
    ownEntries P st auth .prompt =
      (SkillsRegistry.getEnabledSkills P auth (SkillsRegistry.load P raw).skills).map
        (List.map SkillsRegistry.buildPromptEntry) := by
  rw [ownEntries, hst]
  by_cases hskills : (SkillsRegistry.load P raw).hasSkills = true
  · rw [if_pos hskills]
  · rw [if_neg hskills]
    have hnone : (SkillsRegistry.load P raw).skills = [] := by
      by_contra hsome
      obtain ⟨s, hs⟩ := List.exists_mem_of_ne_nil _ hsome
      obtain ⟨config, hconfig, henabled, -⟩ := mem_load.mp hs
      exact hskills (hasSkills_iff.mpr ⟨config, hconfig, henabled⟩)
    rw [hnone]
    rfl

/-- The skills of the team alone, under a policy of another team. -/
def aloneWith (b : ConfigBundle) (A : Int) (skills : List SkillConfig) : ConfigBundle :=
  (b.withSkills A skills).withPolicy A "deny".toList

theorem same_aloneWith (b : ConfigBundle) {A : Int} (skills : List SkillConfig)
    (hskills : ∀ s ∈ skills, s.teamId = A + 1) : SameForTeam A b (aloneWith b A skills) :=
  (same_withSkills b skills hskills).trans (same_withPolicy _ A _)

/-- The prompts of a team depend on the skills of another. -/
theorem prompts_depend (hskills : SkillsEvaluate P b auth) (msgId : Json) :
    (CallKind.prompt.list P w (.ofBundle P (aloneWith b auth.teamId [])) msgId auth).outcome ≠
      (CallKind.prompt.list P w (.ofBundle P (aloneWith b auth.teamId
        [otherSkill auth.teamId [] (some 1)])) msgId auth).outcome := by
  intro h
  obtain ⟨skills, hevaluate⟩ : ∃ skills, SkillsRegistry.getEnabledSkills P auth
      (SkillsRegistry.load P (b.skills.filter fun s => s.teamId == auth.teamId)).skills =
        some skills := by
    refine Option.ne_none_iff_exists'.mp fun hnone => ?_
    obtain ⟨s, hs, hpanics⟩ := getEnabledSkills_eq_none_iff.mp hnone
    obtain ⟨config, hconfig, henabled, rfl⟩ := mem_load.mp hs
    obtain ⟨hconfig, hteam⟩ := List.mem_filter.mp hconfig
    exact hskills _ (mem_load.mpr ⟨config, hconfig, henabled, rfl⟩) (beq_iff_eq.mp hteam) hpanics
  have hown : ownEntries P (.ofBundle P (aloneWith b auth.teamId [])) auth .prompt =
      some (skills.map SkillsRegistry.buildPromptEntry) := by
    rw [ownEntries_prompt rfl]
    exact congrArg (Option.map _) hevaluate
  have hown' : ownEntries P (.ofBundle P (aloneWith b auth.teamId
      [otherSkill auth.teamId [] (some 1)])) auth .prompt =
      some (SkillsRegistry.buildPromptEntry ⟨otherSkill auth.teamId [] (some 1), none⟩ ::
        skills.map SkillsRegistry.buildPromptEntry) := by
    rw [ownEntries_prompt rfl]
    show ((do
      let others ← SkillsRegistry.getEnabledSkills P auth (SkillsRegistry.load P
        (b.skills.filter fun s => s.teamId == auth.teamId)).skills
      some (⟨otherSkill auth.teamId [] (some 1), none⟩ :: others)) : Option _).map _ = _
    rw [hevaluate]
    rfl
  obtain ⟨r, hr, hlisted⟩ := listed_withPolicy _ auth.teamId _ (w := w) msgId hown
  obtain ⟨r', hr', hlisted'⟩ := listed_withPolicy _ auth.teamId _ (w := w) msgId hown'
  have hsame := listed_eq_of_outcome .prompt h hr hr'
  rw [hlisted, hlisted'] at hsame
  have hlength := congrArg List.length (List.append_cancel_left hsame)
  exact absurd hlength (by simp)

/-- The answer for a skill depends on a skill of another team that has its name. -/
theorem skillPrompt_depends (msgId : Json) (name : Text) :
    skillPrompt (.ofBundle P (b.withSkills A [otherSkill A name none])) msgId name ≠
      skillPrompt (.ofBundle P (b.withSkills A [otherSkill A name (some 1)])) msgId name := by
  have hfind : ∀ version, (GatewayState.ofBundle P (b.withSkills A
      [otherSkill A name version])).skills.getSkillByName name =
      some ⟨otherSkill A name version, none⟩ := fun version =>
    List.find?_cons_of_pos (beq_self_eq_true name)
  intro h
  rw [skillPrompt, skillPrompt, hfind, hfind] at h
  have hbody := congrArg (fun r => r.body.bind fun body => body.get "error".toList) h
  cases hbody

/-- A response that tells the client that there are prompts. -/
def tellsOfPrompts (r : Response) : Bool :=
  (((r.body.bind fun body => body.get "result".toList).bind fun result =>
    result.get "capabilities".toList).bind fun capabilities =>
      capabilities.get "prompts".toList).isSome

theorem tellsOfPrompts_initialize (st : GatewayState) (msgId : Json) :
    (handleInitialize w st msgId auth).response.any tellsOfPrompts =
      ((st.teamServers auth.teamId).any (fun s =>
        (w.catalog s.id).any fun c => !c.prompts.isEmpty) || st.skills.hasSkills) := by
  unfold handleInitialize
  dsimp only
  generalize (List.any _ _ || st.skills.hasSkills) = prompts
  generalize (List.any _ _ || st.discoveryMode auth.teamId != _) = tools
  generalize List.any _ _ = resources
  cases prompts <;> cases tools <;> cases resources <;> rfl

theorem handleCall_skill {st : GatewayState} {kind : CallKind} {ns original sessionId : Text}
    {msgId params : Json} (hmeta : ¬ (kind = .tool ∧ isMetaTool (callName params) = true))
    (htarget : callTarget kind (callName params) = some (ns, original))
    (hskill : ns = skillNamespace ∧ kind = .prompt) :
    handleCall P w st sessionId msgId params auth kind =
      Run.pure (skillPrompt st msgId original) := by
  rw [handleCall, if_neg hmeta, htarget, Run.orReply_some]
  exact if_pos hskill

/-- What a client is told of prompts depends on the skills of another team. -/
theorem handleInitialize_depends (h : ConsultsInitialize P w b auth) (msgId : Json) :
    (handleInitialize w (.ofBundle P (b.withSkills auth.teamId [])) msgId auth).outcome ≠
      (handleInitialize w (.ofBundle P (b.withSkills auth.teamId
        [otherSkill auth.teamId [] none])) msgId auth).outcome := by
  have hprompts : ((GatewayState.ofBundle P b).teamServers auth.teamId).any (fun s =>
      (w.catalog s.id).any fun c => !c.prompts.isEmpty) = false := by
    refine List.any_eq_false.mpr fun s hs => ?_
    cases hcatalog : w.catalog s.id with
    | none => exact Bool.false_ne_true
    | some c =>
        rw [Option.any_some, h.1 s hs c hcatalog]
        exact Bool.false_ne_true
  have hnone : (GatewayState.ofBundle P (b.withSkills auth.teamId [])).skills.hasSkills = false := by
    refine Bool.eq_false_iff.mpr fun hsome => ?_
    obtain ⟨s, hs, henabled⟩ := hasSkills_iff.mp hsome
    obtain ⟨hs, hteam⟩ := List.mem_filter.mp hs
    rw [h.2 s hs (beq_iff_eq.mp hteam)] at henabled
    cases henabled
  have hsome : (GatewayState.ofBundle P (b.withSkills auth.teamId
      [otherSkill auth.teamId [] none])).skills.hasSkills = true :=
    hasSkills_iff.mpr ⟨_, List.mem_cons_self, rfl⟩
  intro heq
  have hresponse := congrArg (fun o => o.1.any tellsOfPrompts) heq
  have htold : (handleInitialize w (GatewayState.ofBundle P (b.withSkills auth.teamId [])) msgId
      auth).response.any tellsOfPrompts = _ := tellsOfPrompts_initialize _ msgId
  have htold' : (handleInitialize w (GatewayState.ofBundle P (b.withSkills auth.teamId
      [otherSkill auth.teamId [] none])) msgId auth).response.any tellsOfPrompts = _ :=
    tellsOfPrompts_initialize _ msgId
  rw [hnone, Bool.or_false] at htold
  rw [hsome, Bool.or_true] at htold'
  exact Bool.false_ne_true ((hprompts.symm.trans htold.symm).trans (hresponse.trans htold'))

/-! ### Calls under the policy of another team -/

/-- The code of an error. -/
def errorCode (r : Response) : Option Json :=
  (r.body.bind fun body => body.get "error".toList).bind fun error => error.get "code".toList

/-- A run in which something is forwarded, or that does not end in a denial. -/
def NotDenial (x : Run Response) : Prop :=
  x.forwarded ≠ [] ∨ ∀ r, x.response = some r → errorCode r ≠ some (.num (.int policyDenied))

theorem Run.forwarded_bind {α : Type} {x : Run α} {f : α → Run Response} {a : α}
    (h : x.exit = .value a) : (x >>= f).forwarded = x.forwarded ++ (f a).forwarded := by
  rw [bind_value f h]
  exact List.filterMap_append

namespace NotDenial

variable {α : Type} {x : Run α} {f : α → Run Response}

theorem bind (hreply : ∀ r, x.exit = .reply r → errorCode r ≠ some (.num (.int policyDenied)))
    (hvalue : ∀ a, x.exit = .value a → NotDenial (f a)) : NotDenial (x >>= f) := by
  cases hx : x.exit with
  | value a =>
      rcases hvalue a hx with hforwarded | hresponse
      · refine .inl fun h => hforwarded ?_
        rw [Run.forwarded_bind hx] at h
        exact (List.append_eq_nil_iff.mp h).2
      · refine .inr fun r hr => hresponse r ?_
        rwa [Run.bind_value f hx] at hr
  | reply r =>
      refine .inr fun r' hr' => ?_
      rw [Run.bind_reply f hx] at hr'
      rw [← Option.some.inj hr']
      exact hreply r hx
  | panic =>
      refine .inr fun r hr => ?_
      rw [Run.bind_panic f hx] at hr
      cases hr

/-- A run that ends at once with another error. -/
theorem of_reply {r : Response} (h : errorCode r ≠ some (.num (.int policyDenied))) :
    NotDenial (Run.reply r) :=
  .inr fun r' hr' => by
    rw [← Option.some.inj hr']
    exact h

end NotDenial

theorem errorCode_error (msgId : Json) (code : Int) (message : Text) (status : Nat) :
    errorCode (errorResponse msgId code message status) = some (.num (.int code)) := rfl

/-- What comes after the policy check never ends in a denial by the policy. -/
theorem admitted_notDenial {st : GatewayState} {sessionId : Text} {msgId params : Json}
    {kind : CallKind} {server : ServerConfig} {original name : Text} {pr : PolicyResult} :
    NotDenial (admitted P w st sessionId msgId auth kind server original name params pr) := by
  have hscan : ∀ (scan : Option ScanResult) (effect : Bool → Effect) (blocked r : Response)
      (data : Json), (admitByScan scan effect blocked data).exit = .reply r → r = blocked := by
    intro scan effect blocked r data h
    cases scan with
    | none => cases h
    | some result =>
        rw [admitByScan, Run.bind_value _ (a := result) rfl, Run.bind_value _ (a := ()) rfl] at h
        dsimp only at h
        split at h
        · exact (Exit.reply.inj h).symm
        · cases h
  refine NotDenial.bind (fun r hr => ?_) fun _ _ => NotDenial.bind (fun r hr => ?_) fun _ _ =>
    NotDenial.bind (fun r hr => ?_) fun _ _ => ?_
  · unfold admitByRate at hr
    split at hr
    · cases hr
    rw [Run.bind_value _ (a := ()) rfl] at hr
    dsimp only at hr
    split at hr
    · cases hr
    · rw [← Exit.reply.inj hr, errorCode_error]
      decide
  · unfold admitByDlp at hr
    split at hr
    · cases hr
    · rw [hscan _ _ _ _ _ hr, errorCode_error]
      decide
  · unfold admitByGuardrails at hr
    split at hr
    · cases hr
    · rw [hscan _ _ _ _ _ hr, errorCode_error]
      decide
  · unfold forwardCall
    split
    · refine .inl fun h => ?_
      rw [Run.forwarded_bind (a := _) rfl] at h
      cases h
    · exact .of_reply (by rw [errorCode_error]; decide)

/-- A call to a server of the team depends on the policies of another. -/
theorem handleCall_depends {kind : CallKind} {ns original sessionId : Text} {msgId params : Json}
    {server : ServerConfig} (hmeta : ¬ (kind = .tool ∧ isMetaTool (callName params) = true))
    (htarget : callTarget kind (callName params) = some (ns, original))
    (hskill : ¬ (ns = skillNamespace ∧ kind = .prompt))
    (hserver : (GatewayState.ofBundle P b).serverByNamespace ns auth.teamId = some server) :
    (handleCall P w (.ofBundle P (b.withPolicy auth.teamId "deny".toList)) sessionId msgId params
        auth kind).outcome ≠
      (handleCall P w (.ofBundle P (b.withPolicy auth.teamId "allow".toList)) sessionId msgId params
        auth kind).outcome := by
  have hserver' : ∀ action, (GatewayState.ofBundle P (b.withPolicy auth.teamId
      action)).serverByNamespace ns auth.teamId = some server := fun action =>
    ((same_withPolicy b auth.teamId action).serverByNamespace ns auth.teamId).trans hserver
  have hdeny : (handleCall P w (.ofBundle P (b.withPolicy auth.teamId "deny".toList)) sessionId
      msgId params auth kind).outcome =
      (some (errorResponse msgId policyDenied ("Policy denied: ".toList ++ "other".toList) 200),
        []) := by
    rw [handleCall_eq hmeta htarget hskill (hserver' _),
      admitByPolicy_some (checkAccess_withPolicy b _ _ _ _ _ _)]
    rfl
  have hallow : NotDenial (handleCall P w (.ofBundle P (b.withPolicy auth.teamId "allow".toList))
      sessionId msgId params auth kind) := by
    rw [handleCall_eq hmeta htarget hskill (hserver' _),
      admitByPolicy_some (checkAccess_withPolicy b _ _ _ _ _ _)]
    exact NotDenial.bind nofun fun _ _ => admitted_notDenial
  intro h
  rw [hdeny] at h
  rcases hallow with hforwarded | hresponse
  · exact hforwarded (congrArg Prod.snd h).symm
  · exact hresponse _ (congrArg Prod.fst h).symm rfl

/-! ### The messages that are isolated -/

theorem Isolated.outcome_eq {sessionId : Text} {body : Json} {b₁ b₂ : ConfigBundle}
    (h : Isolated P w b auth sessionId body) (h₁ : SameForTeam auth.teamId b b₁)
    (h₂ : SameForTeam auth.teamId b b₂) :
    (handleMessage P w (.ofBundle P b₁) auth sessionId body).outcome =
      (handleMessage P w (.ofBundle P b₂) auth sessionId body).outcome :=
  (h b₁ h₁).trans (h b₂ h₂).symm

/-- A request in a session of the identity gets to its handler. -/
theorem handleMessage_session {sessionId : Text} (method : Text) {body : Json}
    (hn : isNotification body = false) (hr : isResponse body = false) (hsession : sessionId ≠ [])
    (hidentity : w.sessionIdentity sessionId = some auth.identityId)
    (hmethod : toolText "method" body = method) (hempty : method ≠ [])
    (hinit : method ≠ "initialize".toList) (st : GatewayState) :
    handleMessage P w st auth sessionId body =
      handleRequest P w st sessionId ((body.get "id".toList).getD .null)
        ((body.get "params".toList).getD (.obj [])) auth method := by
  unfold handleMessage
  dsimp only
  rw [hn, hr, hmethod, if_neg (by decide), if_neg hempty, if_neg hinit, if_neg hsession, hidentity,
    Run.orReply_some, if_neg (by simp)]

theorem call_method (kind : CallKind) :
    kind.method ≠ [] ∧ kind.method ≠ "initialize".toList := by
  cases kind <;> decide

theorem handleRequest_call (kind : CallKind) (st : GatewayState) (sessionId : Text)
    (msgId params : Json) :
    handleRequest P w st sessionId msgId params auth kind.method =
      handleCall P w st sessionId msgId params auth kind := by
  cases kind <;> rfl

/-- **A message that asks an engine is not isolated.** -/
theorem not_isolated_of_consults {sessionId : Text} {body : Json}
    (h : Consults P w b auth sessionId body) : ¬ Isolated P w b auth sessionId body := by
  intro hisolated
  have hdeny := same_withPolicy b auth.teamId "deny".toList
  have hallow := same_withPolicy b auth.teamId "allow".toList
  obtain ⟨hn, hr, ⟨hinit, hconsults⟩ | ⟨hsession, hidentity, hconsults⟩⟩ := h
  · have hmessage : ∀ st : GatewayState, handleMessage P w st auth sessionId body =
        handleInitialize w st ((body.get "id".toList).getD .null) auth := by
      intro st
      unfold handleMessage
      dsimp only
      rw [hn, hr, if_neg (by decide), if_neg (by rw [hinit]; decide), if_pos hinit]
    have heq := hisolated.outcome_eq
      (same_withSkills b [] fun s hs => absurd hs List.not_mem_nil)
      (same_withSkills b [otherSkill auth.teamId [] none]
        (List.forall_mem_singleton.mpr rfl))
    rw [hmessage, hmessage] at heq
    exact handleInitialize_depends hconsults _ heq
  · have hmessage := fun method => handleMessage_session (P := P) method hn hr hsession hidentity
    rcases hconsults with ⟨hmethod, hitems⟩ | ⟨hmethod, hitems⟩ | ⟨hmethod, hskills⟩ |
      ⟨kind, hmethod, hmeta, ⟨ns, original⟩, htarget, hconsults⟩
    · have heq := hisolated.outcome_eq hdeny hallow
      rw [hmessage _ hmethod (by decide) (by decide), hmessage _ hmethod (by decide) (by decide)] at heq
      exact list_depends .tool nofun hitems _ heq
    · have heq := hisolated.outcome_eq hdeny hallow
      rw [hmessage _ hmethod (by decide) (by decide), hmessage _ hmethod (by decide) (by decide)] at heq
      exact list_depends .resource nofun hitems _ heq
    · have heq := hisolated.outcome_eq
        (same_aloneWith b [] fun s hs => absurd hs List.not_mem_nil)
        (same_aloneWith b [otherSkill auth.teamId [] (some 1)]
          (List.forall_mem_singleton.mpr rfl))
      rw [hmessage _ hmethod (by decide) (by decide), hmessage _ hmethod (by decide) (by decide)] at heq
      exact prompts_depend hskills _ heq
    · have hcall : ∀ st : GatewayState, handleMessage P w st auth sessionId body =
          handleCall P w st sessionId ((body.get "id".toList).getD .null)
            ((body.get "params".toList).getD (.obj [])) auth kind := fun st =>
        (hmessage _ hmethod (call_method kind).1 (call_method kind).2 st).trans
          (handleRequest_call kind st _ _ _)
      by_cases hskill : ns = skillNamespace ∧ kind = .prompt
      · -- Skills are found by their names, so one of another team may take a name.
        have heq := hisolated.outcome_eq
          (same_withSkills b [otherSkill auth.teamId original none]
            (List.forall_mem_singleton.mpr rfl))
          (same_withSkills b [otherSkill auth.teamId original (some 1)]
            (List.forall_mem_singleton.mpr rfl))
        rw [hcall, hcall, handleCall_skill hmeta htarget hskill,
          handleCall_skill hmeta htarget hskill] at heq
        exact skillPrompt_depends _ _ (Option.some.inj (congrArg Prod.fst heq))
      · obtain ⟨server, hserver⟩ := Option.isSome_iff_exists.mp (hconsults.resolve_left hskill)
        have heq := hisolated.outcome_eq hdeny hallow
        rw [hcall, hcall] at heq
        exact handleCall_depends hmeta htarget hskill hserver heq

end Isolated

/-- **Team isolation.**  A message is answered in the same way whatever other teams configure, if
and only if it asks no engine. -/
theorem isolated_iff (P : Platform) (w : World) (b : ConfigBundle) (auth : AuthContext)
    (sessionId : Text) (body : Json) :
    Isolated P w b auth sessionId body ↔ ¬ Consults P w b auth sessionId body :=
  ⟨fun h hconsults => not_isolated_of_consults hconsults h, isolated_of_not_consults⟩

/-- A policy of team 2 denies the call of an identity of team 1. -/
theorem foreign_policy_denies :
    ¬ Isolated .plain calmWorld (jiraBundle []) ci "s".toList createRequest := by
  intro h
  have hsame : SameForTeam ci.teamId (jiraBundle []) (jiraBundle [{ denyingPolicy with teamId := 2 }]) :=
    ⟨rfl, rfl, rfl, rfl, rfl⟩
  have hforwarded := congrArg Prod.snd (h _ hsame)
  cases hforwarded

end CorexManager.Gateway
