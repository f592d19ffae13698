import CorexManager.Gateway.ConfigLoad
import CorexManager.Gateway.Isolation

/-!
# Skills that are listed and skills that are served

`prompts/list` goes through `get_enabled_skills`, `prompts/get` through `get_skill_by_name`.
The two see the same registry and check different things.

* `handleCall_served` — what `prompts/get` answers for the skill it finds.
* `mem_getEnabledSkills` — which skills `prompts/list` shows.
* `served_iff` — what is served is listed, and is open to the identity, when the first enabled
  skill of the name is, if it is published.
-/

namespace CorexManager.Gateway

open Data (Json Text intText)

variable {P : Platform} {w : World} {st : GatewayState} {auth : AuthContext}

/-- The context in which `get_enabled_skills` evaluates the condition of a skill. -/
def skillContext (P : Platform) (auth : AuthContext) : EvalContext :=
  buildMcpContext P "prompts/list".toList skillNamespace [] [] [] auth.name auth.kind
    (intText auth.teamId) none (some auth.claims) []

/-- The condition of a skill, if it has one, parses and holds. -/
def SkillConfig.ConditionHolds (P : Platform) (auth : AuthContext) (s : SkillConfig) : Prop :=
  ∀ text, s.enableWhen = some text →
    ∃ ast, parseExpression P.regex P.unicode text = some ast ∧
      evaluate P (skillContext P auth) ast = some true

/-- `load` for one skill. -/
def SkillConfig.compile (P : Platform) (s : SkillConfig) : CompiledSkill :=
  ⟨s, s.enableWhen.bind (parseExpression P.regex P.unicode)⟩

/-- The skill that `prompts/get` renders. -/
def servedSkill (st : GatewayState) (name : Text) : Option CompiledSkill :=
  (st.skills.getSkillByName name).filter fun s => s.config.publishedVersionId.isSome

/-! ### What is served -/

theorem callTarget_skillPromptName (name : Text) :
    callTarget .prompt (SkillsRegistry.skillPromptName name) = some (skillNamespace, name) := by
  have hnone : Rust.splitOncePair '_' (skillNamespace ++ ['_']) = none := rfl
  show Rust.splitOncePair '_' _ = _
  rw [SkillsRegistry.skillPromptName, List.append_assoc]
  exact Rust.splitOncePair_append name hnone

theorem handleCall_skillPromptName {params : Json} {name : Text}
    (hname : callName params = SkillsRegistry.skillPromptName name) (sessionId : Text)
    (msgId : Json) :
    handleCall P w st sessionId msgId params auth .prompt = Run.pure (skillPrompt st msgId name) := by
  refine handleCall_skill (fun h => by cases h.1) ?_ ⟨rfl, rfl⟩
  rw [hname]
  exact callTarget_skillPromptName name

/-- What `prompts/get` answers. -/
structure Answers (P : Platform) (w : World) (st : GatewayState) (auth : AuthContext)
    (sessionId : Text) (msgId params : Json) (name : Text) : Prop where
  served : ∀ s, servedSkill st name = some s →
    handleCall P w st sessionId msgId params auth .prompt = Run.pure
      ⟨200, some (setField "id".toList msgId (SkillsRegistry.renderSkillPrompt s)), none⟩
  refused : servedSkill st name = none → ∃ message,
    handleCall P w st sessionId msgId params auth .prompt = Run.pure
      (errorResponse msgId methodNotFound message 200)

/-- The skill that is found is rendered if it is published; else the answer is an error. -/
theorem answers {params : Json} {name : Text}
    (hname : callName params = SkillsRegistry.skillPromptName name) (sessionId : Text)
    (msgId : Json) : Answers P w st auth sessionId msgId params name := by
  have hcall : handleCall P w st sessionId msgId params auth .prompt =
      Run.pure (skillPrompt st msgId name) := handleCall_skillPromptName hname sessionId msgId
  cases hfound : st.skills.getSkillByName name with
  | none =>
      have hprompt : skillPrompt st msgId name =
          errorResponse msgId methodNotFound ("Unknown skill: ".toList ++ name) 200 := by
        rw [skillPrompt, hfound]
      refine ⟨fun s hs => ?_, fun _ => ⟨_, hcall.trans (congrArg Run.pure hprompt)⟩⟩
      rw [servedSkill, hfound] at hs
      cases hs
  | some s =>
      cases hpublished : s.config.publishedVersionId with
      | none =>
          have hprompt : skillPrompt st msgId name =
              errorResponse msgId methodNotFound ("Skill not published: ".toList ++ name) 200 := by
            rw [skillPrompt, hfound]
            dsimp only
            rw [hpublished]
            rfl
          refine ⟨fun s hs => ?_, fun _ => ⟨_, hcall.trans (congrArg Run.pure hprompt)⟩⟩
          rw [servedSkill, hfound, Option.filter_some, hpublished] at hs
          cases hs
      | some version =>
          have hprompt : skillPrompt st msgId name =
              ⟨200, some (setField "id".toList msgId (SkillsRegistry.renderSkillPrompt s)), none⟩ := by
            rw [skillPrompt, hfound]
            dsimp only
            rw [hpublished]
            rfl
          have hserved : servedSkill st name = some s := by
            rw [servedSkill, hfound, Option.filter_some, hpublished]
            rfl
          refine ⟨fun s' hs => ?_, fun hnone => by cases hserved.symm.trans hnone⟩
          obtain rfl := Option.some.inj (hserved.symm.trans hs)
          exact hcall.trans (congrArg Run.pure hprompt)

/-! ### What is listed -/

theorem mem_getEnabledSkills {skills listed : List CompiledSkill} {s : CompiledSkill}
    (h : SkillsRegistry.getEnabledSkills P auth skills = some listed) :
    s ∈ listed ↔ s ∈ skills ∧ SkillsRegistry.listedFor P auth s = some true := by
  induction skills generalizing listed with
  | nil =>
      cases h
      simp
  | cons a rest ih =>
      rw [SkillsRegistry.getEnabledSkills] at h
      obtain ⟨shows, hshows, h⟩ := Option.bind_eq_some_iff.mp h
      obtain ⟨others, hothers, h⟩ := Option.bind_eq_some_iff.mp h
      cases h
      have hmem := ih hothers
      cases shows with
      | true =>
          rw [if_pos rfl, List.mem_cons, hmem, List.mem_cons]
          constructor
          · rintro (rfl | ⟨hs, hlisted⟩)
            · exact ⟨.inl rfl, hshows⟩
            · exact ⟨.inr hs, hlisted⟩
          · rintro ⟨rfl | hs, hlisted⟩
            · exact .inl rfl
            · exact .inr ⟨hs, hlisted⟩
      | false =>
          rw [if_neg Bool.false_ne_true, hmem, List.mem_cons]
          constructor
          · exact fun h => ⟨.inr h.1, h.2⟩
          · rintro ⟨rfl | hs, hlisted⟩
            · cases hshows.symm.trans hlisted
            · exact ⟨hs, hlisted⟩

/-- The check of the list for a skill of the bundle.  A condition that does not parse is none. -/
theorem listedFor_of_conditionHolds {config : SkillConfig} (henabled : config.enabled = true)
    (hpublished : config.publishedVersionId.isSome = true)
    (hholds : config.ConditionHolds P auth) :
    SkillsRegistry.listedFor P auth (config.compile P) = some true := by
  have hchecks : (!config.enabled || config.publishedVersionId.isNone) = false := by
    rw [henabled, Option.isNone_eq_false_iff.mpr hpublished]
    rfl
  rw [SkillsRegistry.listedFor]
  show (if (!config.enabled || config.publishedVersionId.isNone) = true then some false else _) = _
  rw [hchecks, if_neg Bool.false_ne_true]
  cases hwhen : config.enableWhen with
  | none =>
      have hast : (config.compile P).enableWhenAst = none := by rw [SkillConfig.compile, hwhen]; rfl
      rw [hast]
  | some text =>
      obtain ⟨ast, hparse, hevaluate⟩ := hholds text hwhen
      have hast : (config.compile P).enableWhenAst = some ast := by
        rw [SkillConfig.compile, hwhen]
        exact hparse
      rw [hast]
      exact hevaluate

/-! ### Both -/

/-- The skill is in the list of the prompts for the identity, whenever there is one, and it is
enabled, published, of the team of the identity, and its condition holds. -/
structure OpenTo (P : Platform) (w : World) (st : GatewayState) (auth : AuthContext)
    (s : CompiledSkill) : Prop where
  shown : ∀ msgId r, (CallKind.prompt.list P w st msgId auth).exit = .value r →
    SkillsRegistry.buildPromptEntry s ∈ CallKind.prompt.listed r
  enabled : s.config.enabled = true
  published : s.config.publishedVersionId.isSome = true
  team : s.config.teamId = auth.teamId
  condition : s.config.ConditionHolds P auth

/-- The registry finds the first enabled skill of a name. -/
theorem getSkillByName_load {raw : List SkillConfig} (name : Text) :
    (SkillsRegistry.load P raw).getSkillByName name =
      ((raw.filter SkillConfig.enabled).find? fun s => s.name == name).map (·.compile P) := by
  rw [SkillsRegistry.getSkillByName, SkillsRegistry.load, List.find?_map]
  rfl

theorem mem_load_of_find {raw : List SkillConfig} {config : SkillConfig} {p : SkillConfig → Bool}
    (h : (raw.filter SkillConfig.enabled).find? p = some config) :
    config.enabled = true ∧ config.compile P ∈ (SkillsRegistry.load P raw).skills := by
  obtain ⟨hraw, henabled⟩ := List.mem_filter.mp (List.mem_of_find?_eq_some h)
  exact ⟨henabled, mem_load.mpr ⟨config, hraw, henabled, rfl⟩⟩

/-- **What is served is listed** and open to the identity when the first enabled skill of the
name, if it is published, is of the team and has a condition that parses and holds, or none; and
only then. -/
theorem served_iff {raw : List SkillConfig} (hst : st.skills = .load P raw) {params : Json}
    {name : Text} (hname : callName params = SkillsRegistry.skillPromptName name) :
    (∀ sessionId msgId, Answers P w st auth sessionId msgId params name) ∧
    ((∀ s, servedSkill st name = some s → OpenTo P w st auth s) ↔
      ∀ config, (raw.filter SkillConfig.enabled).find? (fun s => s.name == name) = some config →
        config.publishedVersionId.isSome = true →
        config.teamId = auth.teamId ∧ config.ConditionHolds P auth) := by
  refine ⟨fun sessionId msgId => answers hname sessionId msgId, ?_⟩
  have hserved : servedSkill st name =
      (((raw.filter SkillConfig.enabled).find? fun s => s.name == name).map (·.compile P)).filter
        fun s => s.config.publishedVersionId.isSome := by
    rw [servedSkill, hst, getSkillByName_load]
  rw [hserved]
  constructor
  · intro h config hconfig hpublished
    have hopen := h (config.compile P) (by rw [hconfig]; exact if_pos hpublished)
    exact ⟨hopen.team, hopen.condition⟩
  · intro h s hs
    obtain ⟨hs, hpublished⟩ := Option.filter_eq_some_iff.mp hs
    obtain ⟨config, hconfig, rfl⟩ := Option.map_eq_some_iff.mp hs
    obtain ⟨hteam, hholds⟩ := h config hconfig hpublished
    obtain ⟨henabled, hloaded⟩ := mem_load_of_find hconfig
    refine ⟨?_, henabled, hpublished, hteam, hholds⟩
    intro msgId r hr
    obtain ⟨own, hown, hlisted⟩ := listed_list hr
    rw [ownEntries_prompt hst] at hown
    obtain ⟨skills, hskills, rfl⟩ := Option.map_eq_some_iff.mp hown
    have hmem := (mem_getEnabledSkills hskills).mpr
      ⟨hloaded, listedFor_of_conditionHolds henabled hpublished hholds⟩
    rw [hlisted]
    exact List.mem_append_right _ (List.mem_map_of_mem hmem)

/-! ### A skill whose condition does not hold -/

/-- A published skill of the team `2`. -/
def runbook (enableWhen : Option Text) : SkillConfig where
  teamId := 2
  name := "runbook".toList
  description := none
  enabled := true
  enableWhen := enableWhen
  tags := none
  publishedVersionId := some 1
  publishedBody := some "body".toList
  publishedFrontmatter := none
  publishedFiles := none

/-- A gateway that knows that skill alone. -/
def withRunbook (enableWhen : Option Text) : GatewayState :=
  .ofBundle .plain { ConfigBundle.default with skills := [runbook enableWhen] }

/-- An identity of a team. -/
def memberOf (teamId : Int) : AuthContext := ⟨7, teamId, "ci".toList, "pat".toList, .null⟩

/-- The request for its prompt. -/
def runbookParams : Json := .obj [("name".toList, .str "skill__runbook".toList)]

/-- An identity of its team is served what it is shown. -/
theorem runbook_served :
    (∀ sessionId msgId, Answers .plain catalogWorld (withRunbook none) (memberOf 2) sessionId msgId
        runbookParams "runbook".toList) ∧
      ∀ s, servedSkill (withRunbook none) "runbook".toList = some s →
        OpenTo .plain catalogWorld (withRunbook none) (memberOf 2) s := by
  have hname : callName runbookParams = SkillsRegistry.skillPromptName "runbook".toList := rfl
  have hiff := @served_iff .plain catalogWorld (withRunbook none) (memberOf 2) [runbook none] rfl _ _
    hname
  refine ⟨hiff.1, hiff.2.mpr fun config hconfig _ => ?_⟩
  obtain rfl : runbook none = config := Option.some.inj hconfig
  exact ⟨rfl, nofun⟩

/-- **A skill that is not listed is served**: its condition does not hold, and it is of another
team. -/
theorem unlisted_served :
    ∃ s, servedSkill (withRunbook (some "false".toList)) "runbook".toList = some s ∧
      handleCall .plain catalogWorld (withRunbook (some "false".toList)) [] (.num (.int 1))
        runbookParams (memberOf 1) .prompt = Run.pure ⟨200, some (setField "id".toList
          (.num (.int 1)) (SkillsRegistry.renderSkillPrompt s)), none⟩ ∧
      SkillsRegistry.listedFor .plain (memberOf 1) s = some false ∧
      ¬ OpenTo .plain catalogWorld (withRunbook (some "false".toList)) (memberOf 1) s := by
  have hserved : servedSkill (withRunbook (some "false".toList)) "runbook".toList =
      some ((runbook (some "false".toList)).compile .plain) := rfl
  have hname : callName runbookParams = SkillsRegistry.skillPromptName "runbook".toList := rfl
  refine ⟨_, hserved, (answers hname [] (.num (.int 1))).served _ hserved, by decide +kernel,
    fun h => absurd h.team (by decide)⟩

end CorexManager.Gateway
