import CorexManager.Gateway.Policy

/-!
# Skills

`skills.rs`: the skills of a bundle are listed as prompts of the namespace `skill`, to the
identities for which their condition holds, and rendered by the gateway itself.
-/

namespace CorexManager.Gateway

open Data (Dict.set Json Text intText)

/-- `SkillConfig`. -/
structure SkillConfig where
  teamId : Int
  name : Text
  description : Option Text
  enabled : Bool
  enableWhen : Option Text
  tags : Option Json
  publishedVersionId : Option Int
  publishedBody : Option Text
  publishedFrontmatter : Option Json
  publishedFiles : Option Json

/-- `CompiledSkill`: a condition that does not parse is dropped. -/
structure CompiledSkill where
  config : SkillConfig
  enableWhenAst : Option Expr

/-- `SkillsRegistry`. -/
structure SkillsRegistry where
  skills : List CompiledSkill
  hasConfigured : Bool

/-- `SKILL_NAMESPACE`. -/
def skillNamespace : Text := "skill".toList

namespace SkillsRegistry

/-- `load`. -/
def load (P : Platform) (raw : List SkillConfig) : SkillsRegistry where
  skills := (raw.filter SkillConfig.enabled).map fun s =>
    ⟨s, s.enableWhen.bind (parseExpression P.regex P.unicode)⟩
  hasConfigured := !raw.isEmpty

/-- `has_skills`. -/
def hasSkills (R : SkillsRegistry) : Bool := R.hasConfigured && !R.skills.isEmpty

/-- A skill that is listed for an identity. -/
def listedFor (P : Platform) (auth : AuthContext) (s : CompiledSkill) : Option Bool :=
  if !s.config.enabled || s.config.publishedVersionId.isNone then some false
  else match s.enableWhenAst with
    | some ast =>
        evaluate P (buildMcpContext P "prompts/list".toList skillNamespace [] [] [] auth.name
          auth.kind (intText auth.teamId) none (some auth.claims) []) ast
    | none => some true

/-- `get_enabled_skills`. -/
def getEnabledSkills (P : Platform) (auth : AuthContext) :
    List CompiledSkill → Option (List CompiledSkill)
  | [] => some []
  | s :: rest => do
      let listed ← listedFor P auth s
      let others ← getEnabledSkills P auth rest
      some (if listed then s :: others else others)

/-- `get_skill_by_name`. -/
def getSkillByName (R : SkillsRegistry) (name : Text) : Option CompiledSkill :=
  R.skills.find? fun s => s.config.name == name

/-- `skill_prompt_name`. -/
def skillPromptName (name : Text) : Text := skillNamespace ++ "__".toList ++ name

/-- `build_prompt_entry`. -/
def buildPromptEntry (s : CompiledSkill) : Json :=
  .obj [("name".toList, .str (skillPromptName s.config.name)),
    ("description".toList,
      .str (s.config.description.getD ("Skill: ".toList ++ s.config.name))),
    ("arguments".toList, .arr []),
    ("_meta".toList, .obj [("mcp_server".toList, .str skillNamespace),
      ("mcp_original_name".toList, .str s.config.name), ("mcp_skill".toList, .bool true),
      ("tags".toList, s.config.tags.getD .null)])]

/-- The message for an attached file; a file without content has none. -/
def fileMessage (skill : Text) (file : Json) : Option Json :=
  let text := fun (key default : Text) => ((file.get key).bind Json.asStr).getD default
  let content := text "content_b64".toList []
  if content = [] then none
  else some (.obj [("role".toList, .str "user".toList),
    ("content".toList, .obj [("type".toList, .str "resource".toList),
      ("resource".toList, .obj [
        ("uri".toList, .str ("skill://".toList ++ skill ++ '/' :: text "path".toList "file".toList)),
        ("mimeType".toList, .str (text "media_type".toList "application/octet-stream".toList)),
        ("blob".toList, .str content)])])])

/-- `render_skill_prompt`. -/
def renderSkillPrompt (s : CompiledSkill) : Json :=
  let message := [("role".toList, .str "user".toList),
    ("content".toList, .obj [("type".toList, .str "text".toList),
      ("text".toList, .str (s.config.publishedBody.getD []))])]
  let frontmatter := match s.config.publishedFrontmatter with
    | none | some .null => []
    | some fm => [("_meta".toList, .obj [("frontmatter".toList, fm)])]
  let files := ((s.config.publishedFiles.bind Json.asArray).getD []).filterMap
    (fileMessage s.config.name)
  .obj [("jsonrpc".toList, .str "2.0".toList),
    ("result".toList, .obj [("messages".toList, .arr (.obj (message ++ frontmatter) :: files))])]

end SkillsRegistry

end CorexManager.Gateway
