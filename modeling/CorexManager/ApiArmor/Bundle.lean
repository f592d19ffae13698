import CorexManager.ApiArmor.ProfileCheck
import CorexManager.ApiArmor.SchemaStore
import CorexManager.Rust.Serde

/-!
# The bundle of API Armor

`api_armor_writer.py` writes three JSON documents; `reload_if_changed` of the body parser
reads them with structs of its own.

* `policyJson`, `schemaJson`, `profileJson` — the entries the writer makes of the rows.
* `authPolicy`, `schemaEntry`, `profile` — the structs that are read.
* `reloadIfChanged` — a document that is not read leaves what was loaded before.
* `carried_iff` — what is written is loaded exactly when no enabled policy maps claims to
  headers, since the mappings are objects and the struct holds strings.

The text of a document is left to the printer and the reader of JSON.
-/

namespace CorexManager.Bundle

open Data
open Rust (field optionField i64 vec)

/-! ### Rows -/

/-- An integer column. -/
def IntColumn (n : Int) : Prop := -2 ^ 63 ≤ n ∧ n < 2 ^ 63

instance (n : Int) : Decidable (IntColumn n) := inferInstanceAs (Decidable (_ ∧ _))

/-- A row of `auth_policies`; `none` is null. -/
structure PolicyRow where
  id : Int
  name : Text
  listenerIds : Option (List Int)
  backendIds : Option (List Int)
  authType : Option Text
  jwtAlgorithm : Option Text
  jwtSecretEnv : Option Text
  jwtJwksUrl : Option Text
  jwtIssuer : Option Text
  jwtAudience : Option Text
  /-- A list of dictionaries. -/
  jwtClaimHeaders : Option (List (List (Text × Json)))
  apiKeyHeader : Option Text
  apiKeyListId : Option Int
  onFailure : Option Text
  enabled : Bool
  id_column : IntColumn id
  list_column : ∀ n ∈ apiKeyListId, IntColumn n

/-- A row of `api_schemas`. -/
structure SchemaRow extends ApiArmor.ApiSchema where
  sampleCount : Option Int
  id_column : IntColumn id

/-- A row of `api_profiles`. -/
structure ProfileRow where
  id : Int
  listenerId : Option Int
  method : Text
  path : Text
  dimensions : Profiler.Dims
  statusCodes : Option Profiler.Codes
  learned : Bool
  id_column : IntColumn id

/-- The tables the documents are made of. -/
structure Tables where
  policies : List PolicyRow
  /-- The names of the key lists by their ids. -/
  keyLists : Int → Option Text
  schemas : List SchemaRow
  profiles : List ProfileRow
  policies_key : (policies.map PolicyRow.id).Nodup

namespace Tables

variable (T : Tables)

/-- The policies that are written. -/
def enabledPolicies : List PolicyRow := T.policies.filter (·.enabled)

/-- The schemas that are written, `openapi` first. -/
def indexedSchemas : List SchemaRow :=
  let enabled := T.schemas.filter (·.enabled)
  enabled.filter (·.source = .openapi) ++ enabled.filter (·.source ≠ .openapi)

/-- The profiles that are written. -/
def learnedProfiles : List ProfileRow := T.profiles.filter (·.learned)

/-- `api_key_list_name`. -/
def keyListName (p : PolicyRow) : Option Text :=
  p.apiKeyListId.bind fun id => if id = 0 then none else T.keyLists id

end Tables

/-! ### The writer -/

/-- A number of a document. -/
def int (n : Int) : Json := .num (.int n)

/-- A text that may be null. -/
def optText (t : Option Text) : Json := t.elim .null .str

/-- A number that may be null. -/
def optInt (n : Option Int) : Json := n.elim .null int

/-- `_build_schema_index`, of one schema. -/
def schemaJson (s : SchemaRow) : Json :=
  .obj [("id".toList, int s.id), ("name".toList, .str s.name), ("method".toList, .str s.method),
    ("path_pattern".toList, .str s.path),
    ("path_regex".toList, .str ('^' :: (ApiArmor.patternRegex false s.path ++ ['$']))),
    ("file".toList, .str s.file),
    ("source".toList, .str (match s.source with
      | .openapi => "openapi".toList
      | .learned => "learned".toList)),
    ("sample_count".toList, int (s.sampleCount.getD 0))]

/-- `write_api_armor_auth_policies`, of one policy. -/
def policyJson (listName : Option Text) (p : PolicyRow) : Json :=
  .obj [("id".toList, int p.id), ("name".toList, .str p.name),
    ("listener_ids".toList, .arr ((p.listenerIds.getD []).map int)),
    ("backend_ids".toList, .arr ((p.backendIds.getD []).map int)),
    ("auth_type".toList, optText p.authType), ("jwt_algorithm".toList, optText p.jwtAlgorithm),
    ("jwt_secret_env".toList, optText p.jwtSecretEnv),
    ("jwt_jwks_url".toList, optText p.jwtJwksUrl), ("jwt_issuer".toList, optText p.jwtIssuer),
    ("jwt_audience".toList, optText p.jwtAudience),
    ("jwt_claim_headers".toList, .arr ((p.jwtClaimHeaders.getD []).map .obj)),
    ("api_key_header".toList, optText p.apiKeyHeader),
    ("api_key_list_id".toList, optInt p.apiKeyListId),
    ("api_key_list_name".toList, optText listName), ("on_failure".toList, optText p.onFailure)]

/-- The counts of the status codes. -/
def codesJson (codes : Profiler.Codes) : Json := .obj (codes.map fun c => (c.1, int c.2))

/-- `write_api_armor_profiles`, of one profile. -/
def profileJson (p : ProfileRow) : Json :=
  .obj [("id".toList, int p.id), ("listener_id".toList, optInt p.listenerId),
    ("method".toList, .str p.method), ("path".toList, .str p.path),
    ("dimensions".toList, .obj p.dimensions.fields),
    ("status_codes".toList, codesJson (p.statusCodes.getD []))]

/-- A document: its entries, and when it was generated. -/
def document (key : Text) (entries : List Json) (now : Text) : Json :=
  .obj [(key, .arr entries), ("generated_at".toList, .str now)]

/-- A file with what `fs::metadata` says of it. -/
structure File where
  text : Text
  mtime : Option Nat
  size : Nat

/-- When a file is written. -/
structure Moment where
  now : Text
  mtime : Option Nat
  size : Nat

/-- The three files, as far as they are there. -/
structure Files where
  schemaIndex : Option File
  authPolicies : Option File
  profiles : Option File

/-- The moments they are written at. -/
structure Moments where
  schemaIndex : Moment
  authPolicies : Moment
  profiles : Moment

namespace Tables

variable (T : Tables)

/-- `schema-index.json`. -/
def schemaIndexJson (now : Text) : Json :=
  document "schemas".toList (T.indexedSchemas.map schemaJson) now

/-- `auth-policies.json`. -/
def authPoliciesJson (now : Text) : Json :=
  document "policies".toList (T.enabledPolicies.map fun p => policyJson (T.keyListName p) p) now

/-- `profiles.json`. -/
def profilesJson (now : Text) : Json :=
  document "profiles".toList (T.learnedProfiles.map profileJson) now

/-- Write a document. -/
def write (J : JsonText) (json : Text → Json) (m : Moment) : File :=
  ⟨J.dumps (json m.now), m.mtime, m.size⟩

/-- `write_api_armor_files`, of the three documents. -/
def files (J : JsonText) (M : Moments) : Files where
  schemaIndex := some (write J T.schemaIndexJson M.schemaIndex)
  authPolicies := some (write J T.authPoliciesJson M.authPolicies)
  profiles := some (write J T.profilesJson M.profiles)

/-- The documents that are written. -/
def documents (M : Moments) : List Json :=
  [T.schemaIndexJson M.schemaIndex.now, T.authPoliciesJson M.authPolicies.now,
    T.profilesJson M.profiles.now]

end Tables

/-! ### The reader -/

/-- `AuthPolicy`. -/
structure AuthPolicy extends ApiArmor.AuthPolicy where
  jwtAlgorithm : Option Text
  jwtClaimHeaders : Option (List Text)
  apiKeyListId : Option Int
  onFailure : Option Text

/-- `Profile`. -/
structure Profile extends ApiArmor.Profile where
  id : Int
  statusCodes : Option Json

/-- A `serde_json::Value`; counts fit its numbers. -/
def value : Rust.Deserialize Json := some

/-- A `SchemaEntry`. -/
def schemaEntry (j : Json) : Option ApiArmor.SchemaEntry := do
  let id ← field "id".toList i64 j
  let name ← field "name".toList Rust.string j
  let method ← field "method".toList Rust.string j
  let pathPattern ← field "path_pattern".toList Rust.string j
  let file ← field "file".toList Rust.string j
  return ⟨id, name, method, pathPattern, file⟩

/-- An `AuthPolicy`. -/
def authPolicy (j : Json) : Option AuthPolicy := do
  let id ← field "id".toList i64 j
  let name ← field "name".toList Rust.string j
  let authType ← optionField "auth_type".toList Rust.string j
  let jwtAlgorithm ← optionField "jwt_algorithm".toList Rust.string j
  let jwtSecretEnv ← optionField "jwt_secret_env".toList Rust.string j
  let jwtIssuer ← optionField "jwt_issuer".toList Rust.string j
  let jwtAudience ← optionField "jwt_audience".toList Rust.string j
  let jwtClaimHeaders ← optionField "jwt_claim_headers".toList (vec Rust.string) j
  let apiKeyHeader ← optionField "api_key_header".toList Rust.string j
  let apiKeyListId ← optionField "api_key_list_id".toList i64 j
  let apiKeyListName ← optionField "api_key_list_name".toList Rust.string j
  let onFailure ← optionField "on_failure".toList Rust.string j
  return ⟨⟨id, name, authType, jwtSecretEnv, jwtIssuer, jwtAudience, apiKeyHeader,
    apiKeyListName⟩, jwtAlgorithm, jwtClaimHeaders, apiKeyListId, onFailure⟩

/-- A `Profile`. -/
def profile (j : Json) : Option Profile := do
  let id ← field "id".toList i64 j
  let method ← field "method".toList Rust.string j
  let path ← field "path".toList Rust.string j
  let dimensions ← field "dimensions".toList value j
  let statusCodes ← optionField "status_codes".toList value j
  return ⟨⟨method, path, dimensions⟩, id, statusCodes⟩

/-- The list of a document. -/
def entries {α : Type} (key : Text) (d : Rust.Deserialize α) (j : Json) : Option (List α) :=
  field key (vec d) j

/-- What was loaded from a file, and what its metadata were. -/
structure Loaded (α : Type) where
  value : α
  mtime : Option Nat
  size : Nat

namespace Loaded

variable {α : Type}

/-- The file is not the one that was loaded, as far as its metadata tell. -/
def Outdated (l : Loaded α) (f : File) : Prop :=
  l.mtime = none ∨ f.mtime ≠ l.mtime ∨ f.size ≠ l.size

instance (l : Loaded α) (f : File) : Decidable (l.Outdated f) :=
  inferInstanceAs (Decidable (_ ∨ _))

/-- Load a file that changed; one that is not read is passed over. -/
def reload (read : Text → Option α) (f : Option File) (l : Loaded α) : Loaded α :=
  match f with
  | none => l
  | some f =>
      if l.Outdated f then (read f.text).elim l fun v => ⟨v, f.mtime, f.size⟩ else l

end Loaded

/-- `ApiArmorData`. -/
structure ApiArmorData where
  schemaIndex : Loaded (List ApiArmor.SchemaEntry)
  authPolicies : Loaded (Int → Option AuthPolicy)
  profiles : Loaded (List Profile)

/-- The policies by their ids; of two with one id the last is kept. -/
def byId (ps : List AuthPolicy) (id : Int) : Option AuthPolicy := ps.reverse.find? fun p => p.id == id

/-- The text of the schema index. -/
def readSchemaIndex (J : JsonText) (t : Text) : Option (List ApiArmor.SchemaEntry) :=
  (J.parse t).bind (entries "schemas".toList schemaEntry)

/-- The text of the policies. -/
def readAuthPolicies (J : JsonText) (t : Text) : Option (Int → Option AuthPolicy) :=
  ((J.parse t).bind (entries "policies".toList authPolicy)).map byId

/-- The text of the profiles. -/
def readProfiles (J : JsonText) (t : Text) : Option (List Profile) :=
  (J.parse t).bind (entries "profiles".toList profile)

/-- `reload_if_changed`, of the documents; the lists of keys are files of their own. -/
def reloadIfChanged (J : JsonText) (f : Files) (data : ApiArmorData) : ApiArmorData where
  schemaIndex := data.schemaIndex.reload (readSchemaIndex J) f.schemaIndex
  authPolicies := data.authPolicies.reload (readAuthPolicies J) f.authPolicies
  profiles := data.profiles.reload (readProfiles J) f.profiles

/-! ### The same values -/

/-- An entry of the index holds the fields of a row. -/
structure SchemaRow.Same (s : SchemaRow) (e : ApiArmor.SchemaEntry) : Prop where
  id : e.id = s.id
  name : e.name = s.name
  method : e.method = s.method
  pathPattern : e.pathPattern = s.path
  file : e.file = s.file

/-- A policy holds the fields of a row; a null list of mappings is the empty one. -/
structure PolicyRow.Same (listName : Option Text) (p : PolicyRow) (q : AuthPolicy) : Prop where
  id : q.id = p.id
  name : q.name = p.name
  authType : q.authType = p.authType
  jwtAlgorithm : q.jwtAlgorithm = p.jwtAlgorithm
  jwtSecretEnv : q.jwtSecretEnv = p.jwtSecretEnv
  jwtIssuer : q.jwtIssuer = p.jwtIssuer
  jwtAudience : q.jwtAudience = p.jwtAudience
  jwtClaimHeaders : (q.jwtClaimHeaders.getD []).map Json.str =
    (p.jwtClaimHeaders.getD []).map Json.obj
  apiKeyHeader : q.apiKeyHeader = p.apiKeyHeader
  apiKeyListId : q.apiKeyListId = p.apiKeyListId
  apiKeyListName : q.apiKeyListName = listName
  onFailure : q.onFailure = p.onFailure

/-- A profile holds the fields of a row; null counts are the empty ones. -/
structure ProfileRow.Same (p : ProfileRow) (q : Profile) : Prop where
  id : q.id = p.id
  method : q.method = p.method
  path : q.path = p.path
  dimensions : q.dimensions = .obj p.dimensions.fields
  statusCodes : q.statusCodes = some (codesJson (p.statusCodes.getD []))

/-- **The bundle arrives**: what is loaded are the rows, with the same ids and values. -/
structure Carried (T : Tables) (data : ApiArmorData) : Prop where
  schemaIndex : List.Forall₂ SchemaRow.Same T.indexedSchemas data.schemaIndex.value
  policies : ∀ p ∈ T.enabledPolicies, ∃ q, data.authPolicies.value p.id = some q ∧
    p.Same (T.keyListName p) q
  noOther : ∀ id, (data.authPolicies.value id).isSome = true → ∃ p ∈ T.enabledPolicies, p.id = id
  profiles : List.Forall₂ ProfileRow.Same T.learnedProfiles data.profiles.value

/-- The metadata of the files are not those of what is loaded. -/
structure ApiArmorData.Outdated (data : ApiArmorData) (f : Files) : Prop where
  schemaIndex : ∀ x ∈ f.schemaIndex, data.schemaIndex.Outdated x
  authPolicies : ∀ x ∈ f.authPolicies, data.authPolicies.Outdated x
  profiles : ∀ x ∈ f.profiles, data.profiles.Outdated x

/-! ### Entries -/

theorem int_integral (n : Int) : (int n).Integral := .int n

theorem optText_integral (t : Option Text) : (optText t).Integral := by
  cases t with
  | none => exact .null
  | some t => exact .str t

theorem optInt_integral (n : Option Int) : (optInt n).Integral := by
  cases n with
  | none => exact .null
  | some n => exact .int n

theorem map_int_integral (ns : List Int) : (Json.arr (ns.map int)).Integral := by
  refine .arr fun j hj => ?_
  obtain ⟨n, -, rfl⟩ := List.mem_map.mp hj
  exact int_integral n

/-- The entry of a schema is read. -/
theorem schemaEntry_schemaJson (s : SchemaRow) : schemaEntry (schemaJson s) = some s.entry := by
  have hkeys : ((schemaJson s).asObject.getD []).map Prod.fst = ["id".toList, "name".toList,
      "method".toList, "path_pattern".toList, "path_regex".toList, "file".toList,
      "source".toList, "sample_count".toList] := rfl
  have hnodup : (((schemaJson s).asObject.getD []).map Prod.fst).Nodup := by
    rw [hkeys]
    decide +kernel
  have hget : ∀ key v, (key, v) ∈ (schemaJson s).asObject.getD [] →
      (schemaJson s).get key = some v := fun key v h => Json.get_of_mem hnodup h
  unfold schemaEntry
  rw [Rust.field_of_get (hget _ _ (.head _)), int, Rust.i64_int s.id_column,
    Rust.field_of_get (hget _ _ (.tail _ (.head _))),
    Rust.field_of_get (hget _ _ (.tail _ (.tail _ (.head _)))),
    Rust.field_of_get (hget _ _ (.tail _ (.tail _ (.tail _ (.head _))))),
    Rust.field_of_get (hget _ _ (.tail _ (.tail _ (.tail _ (.tail _ (.tail _ (.head _)))))))]
  rfl

/-- A policy with the fields of a row, but for the mappings. -/
def PolicyRow.read (listName : Option Text) (p : PolicyRow) (claimHeaders : List Text) :
    AuthPolicy where
  id := p.id
  name := p.name
  authType := p.authType
  jwtSecretEnv := p.jwtSecretEnv
  jwtIssuer := p.jwtIssuer
  jwtAudience := p.jwtAudience
  apiKeyHeader := p.apiKeyHeader
  apiKeyListName := listName
  jwtAlgorithm := p.jwtAlgorithm
  jwtClaimHeaders := some claimHeaders
  apiKeyListId := p.apiKeyListId
  onFailure := p.onFailure

/-- The entry of a policy is read as far as its mappings are. -/
theorem authPolicy_policyJson (listName : Option Text) (p : PolicyRow) :
    authPolicy (policyJson listName p) =
      (vec Rust.string (.arr ((p.jwtClaimHeaders.getD []).map .obj))).map (p.read listName) := by
  have hkeys : ((policyJson listName p).asObject.getD []).map Prod.fst = ["id".toList,
      "name".toList, "listener_ids".toList, "backend_ids".toList, "auth_type".toList,
      "jwt_algorithm".toList, "jwt_secret_env".toList, "jwt_jwks_url".toList,
      "jwt_issuer".toList, "jwt_audience".toList, "jwt_claim_headers".toList,
      "api_key_header".toList, "api_key_list_id".toList, "api_key_list_name".toList,
      "on_failure".toList] := rfl
  have hnodup : (((policyJson listName p).asObject.getD []).map Prod.fst).Nodup := by
    rw [hkeys]
    decide +kernel
  have hget : ∀ key v, (key, v) ∈ (policyJson listName p).asObject.getD [] →
      (policyJson listName p).get key = some v := fun key v h => Json.get_of_mem hnodup h
  -- the entries behind the two lists of ids
  have hlater : ∀ key v, (key, v) ∈ ((policyJson listName p).asObject.getD []).drop 4 →
      (policyJson listName p).get key = some v :=
    fun key v h => hget key v (List.mem_of_mem_drop h)
  have hlast : ∀ key v, (key, v) ∈ ((policyJson listName p).asObject.getD []).drop 10 →
      (policyJson listName p).get key = some v :=
    fun key v h => hget key v (List.mem_of_mem_drop h)
  unfold authPolicy
  rw [Rust.field_of_get (hget _ _ (.head _)), int, Rust.i64_int p.id_column,
    Rust.field_of_get (hget _ _ (.tail _ (.head _))),
    Rust.optionField_of_get (hlater _ _ (.head _)), optText, Rust.optional_string,
    Rust.optionField_of_get (hlater _ _ (.tail _ (.head _))), optText, Rust.optional_string,
    Rust.optionField_of_get (hlater _ _ (.tail _ (.tail _ (.head _)))), optText,
    Rust.optional_string,
    Rust.optionField_of_get (hlater _ _ (.tail _ (.tail _ (.tail _ (.tail _ (.head _)))))),
    optText, Rust.optional_string,
    Rust.optionField_of_get (hlater _ _ (.tail _ (.tail _ (.tail _ (.tail _ (.tail _
      (.head _))))))), optText, Rust.optional_string,
    Rust.optionField_of_get (hlast _ _ (.head _)),
    Rust.optionField_of_get (hlast _ _ (.tail _ (.head _))), optText, Rust.optional_string,
    Rust.optionField_of_get (hlast _ _ (.tail _ (.tail _ (.head _)))),
    show optInt p.apiKeyListId = p.apiKeyListId.elim .null fun i => .num (.int i) from rfl,
    Rust.optional_i64 p.list_column,
    Rust.optionField_of_get (hlast _ _ (.tail _ (.tail _ (.tail _ (.head _))))), optText,
    Rust.optional_string,
    Rust.optionField_of_get (hlast _ _ (.tail _ (.tail _ (.tail _ (.tail _ (.head _)))))),
    optText, Rust.optional_string]
  show (Rust.optional (vec Rust.string) (.arr _)).bind _ = _
  show ((vec Rust.string (.arr _)).map some).bind _ = _
  cases vec Rust.string (.arr ((p.jwtClaimHeaders.getD []).map .obj)) with
  | none => rfl
  | some hs => rfl

/-- The entry of a profile is read. -/
theorem profile_profileJson (p : ProfileRow) :
    profile (profileJson p) = some ⟨⟨p.method, p.path, .obj p.dimensions.fields⟩, p.id,
      some (codesJson (p.statusCodes.getD []))⟩ := by
  have hkeys : ((profileJson p).asObject.getD []).map Prod.fst = ["id".toList,
      "listener_id".toList, "method".toList, "path".toList, "dimensions".toList,
      "status_codes".toList] := rfl
  have hnodup : (((profileJson p).asObject.getD []).map Prod.fst).Nodup := by
    rw [hkeys]
    decide +kernel
  have hget : ∀ key v, (key, v) ∈ (profileJson p).asObject.getD [] →
      (profileJson p).get key = some v := fun key v h => Json.get_of_mem hnodup h
  unfold profile
  rw [Rust.field_of_get (hget _ _ (.head _)), int, Rust.i64_int p.id_column,
    Rust.field_of_get (hget _ _ (.tail _ (.tail _ (.head _)))),
    Rust.field_of_get (hget _ _ (.tail _ (.tail _ (.tail _ (.head _))))),
    Rust.field_of_get (hget _ _ (.tail _ (.tail _ (.tail _ (.tail _ (.head _)))))),
    Rust.optionField_of_get (hget _ _ (.tail _ (.tail _ (.tail _ (.tail _ (.tail _
      (.head _)))))))]
  rfl

/-! ### Documents -/

/-- A list of fields without floating point. -/
private theorem integral_obj_cons {key : Text} {v : Json} {fields : List (Text × Json)}
    (hv : v.Integral) (h : (Json.obj fields).Integral) : (Json.obj ((key, v) :: fields)).Integral := by
  refine .obj fun f hf => ?_
  rcases List.mem_cons.mp hf with rfl | hrest
  · exact hv
  · cases h with
    | obj h => exact h f hrest

private theorem integral_obj_nil : (Json.obj []).Integral := .obj fun _ h => nomatch h

theorem schemaJson_integral (s : SchemaRow) : (schemaJson s).Integral := by
  unfold schemaJson
  repeat refine integral_obj_cons (by first | exact .int _ | exact .str _) ?_
  exact integral_obj_nil

theorem policyJson_integral (listName : Option Text) {p : PolicyRow}
    (h : p.jwtClaimHeaders.getD [] = []) : (policyJson listName p).Integral := by
  unfold policyJson
  rw [h]
  refine integral_obj_cons (int_integral _) <| integral_obj_cons (.str _) <|
    integral_obj_cons (map_int_integral _) <| integral_obj_cons (map_int_integral _) ?_
  repeat refine integral_obj_cons (optText_integral _) ?_
  refine integral_obj_cons (.arr fun _ hj => nomatch hj) <| integral_obj_cons (optText_integral _) <|
    integral_obj_cons (optInt_integral _) ?_
  repeat refine integral_obj_cons (optText_integral _) ?_
  exact integral_obj_nil

theorem profileJson_integral (p : ProfileRow) : (profileJson p).Integral := by
  have hdims : (Json.obj p.dimensions.fields).Integral := by
    refine .obj fun f hf => ?_
    obtain ⟨dim, -, hdim⟩ := List.mem_filterMap.mp hf
    obtain ⟨d, -, rfl⟩ := Option.map_eq_some_iff.mp hdim
    refine integral_obj_cons (.arr fun j hj => ?_) (integral_obj_cons (.int _) integral_obj_nil)
    obtain ⟨v, -, rfl⟩ := List.mem_map.mp hj
    exact .str v
  have hcodes : (codesJson (p.statusCodes.getD [])).Integral := by
    refine .obj fun f hf => ?_
    obtain ⟨c, -, rfl⟩ := List.mem_map.mp hf
    exact int_integral _
  exact integral_obj_cons (int_integral _) <| integral_obj_cons (optInt_integral _) <|
    integral_obj_cons (.str _) <| integral_obj_cons (.str _) <| integral_obj_cons hdims <|
    integral_obj_cons hcodes integral_obj_nil

theorem document_integral (key : Text) {items : List Json} (now : Text)
    (h : ∀ j ∈ items, j.Integral) : (document key items now).Integral :=
  integral_obj_cons (.arr h) (integral_obj_cons (.str _) integral_obj_nil)

/-- The list of a document is that of its entries. -/
theorem entries_document {α : Type} (key : Text) (d : Rust.Deserialize α) (items : List Json)
    (now : Text) : entries key d (document key items now) = vec d (.arr items) := by
  refine Rust.field_of_get ?_
  show ((List.find? _ ((key, Json.arr items) :: _)).map Prod.snd) = _
  rw [List.find?_cons, show ((key == key) = true) from beq_iff_eq.mpr rfl]
  rfl

variable {J : JsonText} {T : Tables} {M : Moments}

/-- The index is read. -/
theorem readSchemaIndex_written (hJ : J.ReadsBack (T.schemaIndexJson M.schemaIndex.now)) :
    readSchemaIndex J (J.dumps (T.schemaIndexJson M.schemaIndex.now)) =
      some (T.indexedSchemas.map fun s => s.entry) := by
  have hintegral : (T.schemaIndexJson M.schemaIndex.now).Integral := by
    refine document_integral _ _ fun j hj => ?_
    obtain ⟨s, -, rfl⟩ := List.mem_map.mp hj
    exact schemaJson_integral s
  unfold readSchemaIndex
  rw [hJ.integral hintegral]
  show entries _ schemaEntry (document _ _ _) = _
  rw [entries_document]
  exact Rust.vec_map schemaJson (fun s => s.entry) fun s _ => schemaEntry_schemaJson s

/-- The profiles are read. -/
theorem readProfiles_written (hJ : J.ReadsBack (T.profilesJson M.profiles.now)) :
    readProfiles J (J.dumps (T.profilesJson M.profiles.now)) =
      some (T.learnedProfiles.map fun p => ⟨⟨p.method, p.path, .obj p.dimensions.fields⟩, p.id,
        some (codesJson (p.statusCodes.getD []))⟩) := by
  have hintegral : (T.profilesJson M.profiles.now).Integral := by
    refine document_integral _ _ fun j hj => ?_
    obtain ⟨p, -, rfl⟩ := List.mem_map.mp hj
    exact profileJson_integral p
  unfold readProfiles
  rw [hJ.integral hintegral]
  show entries _ profile (document _ _ _) = _
  rw [entries_document]
  exact Rust.vec_map profileJson _ fun p _ => profile_profileJson p

/-- The policies are read when none maps claims to headers. -/
theorem readAuthPolicies_written (hJ : J.ReadsBack (T.authPoliciesJson M.authPolicies.now))
    (h : ∀ p ∈ T.enabledPolicies, p.jwtClaimHeaders.getD [] = []) :
    readAuthPolicies J (J.dumps (T.authPoliciesJson M.authPolicies.now)) =
      some (byId (T.enabledPolicies.map fun p => p.read (T.keyListName p) [])) := by
  have hintegral : (T.authPoliciesJson M.authPolicies.now).Integral := by
    refine document_integral _ _ fun j hj => ?_
    obtain ⟨p, hp, rfl⟩ := List.mem_map.mp hj
    exact policyJson_integral _ (h p hp)
  have hread : entries "policies".toList authPolicy (T.authPoliciesJson M.authPolicies.now) =
      some (T.enabledPolicies.map fun p => p.read (T.keyListName p) []) := by
    refine (entries_document _ _ _ _).trans ?_
    refine Rust.vec_map _ _ fun p hp => ?_
    rw [authPolicy_policyJson, h p hp]
    rfl
  unfold readAuthPolicies
  rw [hJ.integral hintegral]
  exact congrArg (Option.map byId) hread

/-- **One mapping makes the file unreadable.** -/
theorem readAuthPolicies_mapping (hJ : J.ReadsBack (T.authPoliciesJson M.authPolicies.now))
    {p : PolicyRow} (hp : p ∈ T.enabledPolicies) (h : p.jwtClaimHeaders.getD [] ≠ []) :
    readAuthPolicies J (J.dumps (T.authPoliciesJson M.authPolicies.now)) = none := by
  have hentry : authPolicy (policyJson (T.keyListName p) p) = none := by
    rw [authPolicy_policyJson]
    obtain ⟨mapping, rest, hcons⟩ := List.exists_cons_of_ne_nil h
    -- a mapping is an object, and a header is a string
    have hvec : vec Rust.string (.arr ((mapping :: rest).map .obj)) = none :=
      Rust.vec_eq_none (v := .obj mapping) List.mem_cons_self rfl
    rw [hcons, hvec]
    rfl
  have hread : entries "policies".toList authPolicy (T.authPoliciesJson M.authPolicies.now) =
      none := by
    refine (entries_document _ _ _ _).trans ?_
    exact Rust.vec_eq_none (List.mem_map_of_mem hp) hentry
  unfold readAuthPolicies
  cases hparse : J.parse (J.dumps (T.authPoliciesJson M.authPolicies.now)) with
  | none => rfl
  | some j =>
      rw [hJ.only j hparse]
      exact congrArg (Option.map byId) hread

/-! ### The bundle arrives -/

theorem byId_spec {ps : List AuthPolicy} {id : Int} {q : AuthPolicy} (h : byId ps id = some q) :
    q ∈ ps ∧ q.id = id := by
  have hid : (q.id == id) = true := List.find?_some (p := fun p : AuthPolicy => p.id == id) h
  exact ⟨List.mem_reverse.mp (List.mem_of_find?_eq_some h), beq_iff_eq.mp hid⟩

/-- The policy of an id, when ids are not shared. -/
theorem byId_of_mem {ps : List AuthPolicy} {q : AuthPolicy} (hkey : (ps.map (·.id)).Nodup)
    (h : q ∈ ps) : byId ps q.id = some q := by
  cases hfind : byId ps q.id with
  | none =>
      have hnone := List.find?_eq_none.mp hfind q (List.mem_reverse.mpr h)
      exact absurd (beq_iff_eq.mpr rfl) hnone
  | some p =>
      obtain ⟨hp, hid⟩ := byId_spec hfind
      rw [List.inj_on_of_nodup_map hkey hp h hid]

/-- A file that is read replaces what was loaded. -/
theorem Loaded.reload_read {α : Type} {read : Text → Option α} {f : File} {l : Loaded α} {v : α}
    (houtdated : l.Outdated f) (hread : read f.text = some v) :
    (l.reload read (some f)).value = v := by
  show (if l.Outdated f then (read f.text).elim l fun v => ⟨v, f.mtime, f.size⟩ else l).value = v
  rw [if_pos houtdated, hread]
  rfl

/-- A file that is not read leaves what was loaded. -/
theorem Loaded.reload_unread {α : Type} {read : Text → Option α} {f : File} {l : Loaded α}
    (hread : read f.text = none) : l.reload read (some f) = l := by
  show (if l.Outdated f then (read f.text).elim l fun v => ⟨v, f.mtime, f.size⟩ else l) = l
  rw [hread]
  exact ite_self l

/-- Before the first load. -/
def empty : ApiArmorData := ⟨⟨[], none, 0⟩, ⟨fun _ => none, none, 0⟩, ⟨[], none, 0⟩⟩

theorem empty_outdated (f : Files) : empty.Outdated f :=
  ⟨fun _ _ => .inl rfl, fun _ _ => .inl rfl, fun _ _ => .inl rfl⟩

/-- A document with a mapping leaves the policies that were loaded. -/
theorem mapping_keeps (hJ : J.ReadsBack (T.authPoliciesJson M.authPolicies.now)) {p : PolicyRow}
    (hp : p ∈ T.enabledPolicies) (h : p.jwtClaimHeaders.getD [] ≠ []) (data : ApiArmorData) :
    (reloadIfChanged J (T.files J M) data).authPolicies = data.authPolicies :=
  Loaded.reload_unread (readAuthPolicies_mapping hJ hp h)

/-- Without a mapping the bundle arrives. -/
theorem carried_of_unmapped (hJ : ∀ j ∈ T.documents M, J.ReadsBack j)
    (h : ∀ p ∈ T.enabledPolicies, p.jwtClaimHeaders.getD [] = []) {data : ApiArmorData}
    (hdata : data.Outdated (T.files J M)) :
    Carried T (reloadIfChanged J (T.files J M) data) := by
  have hindex := Loaded.reload_read (hdata.schemaIndex _ rfl)
    (readSchemaIndex_written (hJ _ (.head _)))
  have hpolicies := Loaded.reload_read (hdata.authPolicies _ rfl)
    (readAuthPolicies_written (hJ _ (.tail _ (.head _))) h)
  have hprofiles := Loaded.reload_read (hdata.profiles _ rfl)
    (readProfiles_written (hJ _ (.tail _ (.tail _ (.head _)))))
  have hkey : ((T.enabledPolicies.map fun p => p.read (T.keyListName p) []).map (·.id)).Nodup := by
    have hsub : (T.enabledPolicies.map PolicyRow.id).Nodup :=
      T.policies_key.sublist (List.filter_sublist.map _)
    rwa [List.map_map]
  constructor
  · rw [show (reloadIfChanged J (T.files J M) data).schemaIndex.value = _ from hindex,
      List.forall₂_map_right_iff]
    exact List.forall₂_same.mpr fun s _ => ⟨rfl, rfl, rfl, rfl, rfl⟩
  · intro p hp
    refine ⟨p.read (T.keyListName p) [], ?_, ?_⟩
    · rw [show (reloadIfChanged J (T.files J M) data).authPolicies.value = _ from hpolicies]
      exact byId_of_mem hkey (List.mem_map_of_mem hp)
    · refine ⟨rfl, rfl, rfl, rfl, rfl, rfl, rfl, ?_, rfl, rfl, rfl, rfl⟩
      rw [h p hp]
      rfl
  · intro id hid
    rw [show (reloadIfChanged J (T.files J M) data).authPolicies.value = _ from hpolicies] at hid
    obtain ⟨q, hq⟩ := Option.isSome_iff_exists.mp hid
    obtain ⟨hmem, hqid⟩ := byId_spec hq
    obtain ⟨p, hp, hread⟩ := List.mem_map.mp hmem
    refine ⟨p, hp, ?_⟩
    rw [← hqid, ← hread]
    rfl
  · rw [show (reloadIfChanged J (T.files J M) data).profiles.value = _ from hprofiles,
      List.forall₂_map_right_iff]
    exact List.forall₂_same.mpr fun p _ => ⟨rfl, rfl, rfl, rfl, rfl⟩

/-- **The two formats**: the body parser loads what the writer wrote, whatever it had loaded
before, exactly when no enabled policy maps claims to headers. -/
theorem carried_iff (J : JsonText) (T : Tables) (M : Moments)
    (hJ : ∀ j ∈ T.documents M, J.ReadsBack j) :
    (∀ data : ApiArmorData, data.Outdated (T.files J M) →
        Carried T (reloadIfChanged J (T.files J M) data)) ↔
      ∀ p ∈ T.enabledPolicies, p.jwtClaimHeaders.getD [] = [] := by
  constructor
  · intro hcarried p hp
    by_contra hmapping
    have hpolicies := (hcarried empty (empty_outdated _)).policies p hp
    rw [mapping_keeps (hJ _ (.tail _ (.head _))) hp hmapping] at hpolicies
    obtain ⟨q, hq, -⟩ := hpolicies
    exact Option.some_ne_none q hq.symm
  · exact fun h data hdata => carried_of_unmapped hJ h hdata

/-! ### A policy that maps a claim -/

/-- A policy whose tokens carry claims to hand on. -/
def tenantPolicy (claimHeaders : Option (List (List (Text × Json)))) : PolicyRow where
  id := 1
  name := "tenants".toList
  listenerIds := some []
  backendIds := none
  authType := some "jwt".toList
  jwtAlgorithm := some "hs256".toList
  jwtSecretEnv := some "JWT_SECRET".toList
  jwtJwksUrl := none
  jwtIssuer := none
  jwtAudience := none
  jwtClaimHeaders := claimHeaders
  apiKeyHeader := none
  apiKeyListId := none
  onFailure := some "block".toList
  enabled := true
  id_column := by decide
  list_column := fun _ h => nomatch h

/-- The tables with this policy alone. -/
def tenantTables (claimHeaders : Option (List (List (Text × Json)))) : Tables where
  policies := [tenantPolicy claimHeaders]
  keyLists := fun _ => none
  schemas := []
  profiles := []
  policies_key := List.nodup_singleton _

/-- The claim `sub` goes to a header. -/
def subject : List (Text × Json) :=
  [("claim".toList, .str "sub".toList), ("header".toList, .str "X-User".toList)]

/-- When the documents are written. -/
def noon : Moment := ⟨"2026-01-01T12:00:00+00:00".toList, some 1767268800, 600⟩

/-- The same for all. -/
def atNoon : Moments := ⟨noon, noon, noon⟩

/-- A document as it is printed. -/
def documentText (key : String) (items : Text) : Text :=
  "\x7b\n  \"".toList ++ (key.toList ++ ("\": ".toList ++
    (items ++ ",\n  \"generated_at\": \"2026-01-01T12:00:00+00:00\"\n\x7d".toList)))

/-- The policy as it is printed. -/
def tenantText (claimHeaders : String) : Text :=
  ("[\n    \x7b\n      \"id\": 1,\n      \"name\": \"tenants\",\n" ++
    "      \"listener_ids\": [],\n      \"backend_ids\": [],\n      \"auth_type\": \"jwt\",\n" ++
    "      \"jwt_algorithm\": \"hs256\",\n      \"jwt_secret_env\": \"JWT_SECRET\",\n" ++
    "      \"jwt_jwks_url\": null,\n      \"jwt_issuer\": null,\n" ++
    "      \"jwt_audience\": null,\n      \"jwt_claim_headers\": ").toList ++
  claimHeaders.toList ++
  (",\n      \"api_key_header\": null,\n      \"api_key_list_id\": null,\n" ++
    "      \"api_key_list_name\": null,\n      \"on_failure\": \"block\"\n    \x7d\n  ]").toList

/-- `json.dump` and its reader, on the documents of the policy. -/
def tenantJson (claimHeaders : Option (List (List (Text × Json)))) (text : String) : JsonText :=
  printer [((tenantTables claimHeaders).schemaIndexJson noon.now, documentText "schemas" "[]".toList),
    ((tenantTables claimHeaders).authPoliciesJson noon.now,
      documentText "policies" (tenantText text)),
    ((tenantTables claimHeaders).profilesJson noon.now, documentText "profiles" "[]".toList)]

theorem tenantJson_readsBack (claimHeaders : Option (List (List (Text × Json)))) (text : String) :
    ∀ j ∈ (tenantTables claimHeaders).documents atNoon,
      (tenantJson claimHeaders text).ReadsBack j := by
  intro j hj
  have hkeys : ∀ {key key' : Text} {items items' : List Json}, key ≠ key' →
      document key items noon.now ≠ document key' items' noon.now := by
    intro key key' items items' hne heq
    exact hne (Prod.mk.inj (List.cons.inj (Json.obj.inj heq)).1).1
  have htexts : ∀ {key key' : String} {items items' : Text},
      (∀ s t, key.toList ++ s ≠ key'.toList ++ t) → documentText key items ≠
        documentText key' items' :=
    fun hne heq => hne _ _ (List.append_cancel_left heq)
  have hpolicies : ∀ s t, "policies".toList ++ s ≠ "profiles".toList ++ t := by
    intro s t
    rw [toList_of_eq (s := "policies") rfl, toList_of_eq (s := "profiles") rfl]
    simp
  have hschemas : ∀ key ∈ ["policies", "profiles"], ∀ s t,
      "schemas".toList ++ s ≠ key.toList ++ t := by
    intro key hkey s t
    simp only [List.mem_cons, List.not_mem_nil, or_false] at hkey
    rcases hkey with rfl | rfl
    · rw [toList_of_eq (s := "policies") rfl, toList_of_eq (s := "schemas") rfl]
      simp
    · rw [toList_of_eq (s := "profiles") rfl, toList_of_eq (s := "schemas") rfl]
      simp
  have hmem : ∃ d ∈ [((tenantTables claimHeaders).schemaIndexJson noon.now,
      documentText "schemas" "[]".toList), ((tenantTables claimHeaders).authPoliciesJson noon.now,
      documentText "policies" (tenantText text)), ((tenantTables claimHeaders).profilesJson noon.now,
      documentText "profiles" "[]".toList)], d.1 = j := by
    rcases List.mem_cons.mp hj with rfl | hj
    · exact ⟨_, .head _, rfl⟩
    · rcases List.mem_cons.mp hj with rfl | hj
      · exact ⟨_, .tail _ (.head _), rfl⟩
      · exact ⟨_, .tail _ (.tail _ (.head _)), (List.mem_singleton.mp hj).symm⟩
  obtain ⟨d, hd, rfl⟩ := hmem
  refine printer_readsBack ?_ ?_ hd
  · have h₁ : "schemas".toList ≠ "policies".toList := by decide
    have h₂ : "schemas".toList ≠ "profiles".toList := by decide
    have h₃ : "policies".toList ≠ "profiles".toList := by decide
    refine List.nodup_cons.mpr ⟨?_, List.nodup_cons.mpr ⟨?_, List.nodup_singleton _⟩⟩
    · simp only [List.map_cons, List.map_nil, List.mem_cons, List.not_mem_nil, or_false, not_or]
      exact ⟨hkeys h₁, hkeys h₂⟩
    · simp only [List.map_cons, List.map_nil, List.mem_cons, List.not_mem_nil, or_false]
      exact hkeys h₃
  · refine List.nodup_cons.mpr ⟨?_, List.nodup_cons.mpr ⟨?_, List.nodup_singleton _⟩⟩
    · simp only [List.map_cons, List.map_nil, List.mem_cons, List.not_mem_nil, or_false, not_or]
      exact ⟨htexts (hschemas _ (.head _)), htexts (hschemas _ (.tail _ (.head _)))⟩
    · simp only [List.map_cons, List.map_nil, List.mem_cons, List.not_mem_nil, or_false]
      exact htexts hpolicies

/-- The bundle arrives when nothing is mapped. -/
theorem carried_unmapped : Carried (tenantTables none) (reloadIfChanged (tenantJson none "[]")
    ((tenantTables none).files (tenantJson none "[]") atNoon) empty) := by
  refine (carried_iff (tenantJson none "[]") (tenantTables none) atNoon
    (tenantJson_readsBack none "[]")).mpr (fun p hp => ?_) empty (empty_outdated _)
  rw [List.mem_singleton.mp (List.mem_of_mem_filter hp)]
  rfl

/-- The mapping as it is printed. -/
def subjectText : String :=
  "[\n        \x7b\n          \"claim\": \"sub\",\n          \"header\": \"X-User\"\n" ++
    "        \x7d\n      ]"

/-- **A mapping keeps the old policies**: the policy that is written is not loaded, by a body
parser that had none and has none after. -/
theorem mapped_policy_lost :
    empty.Outdated ((tenantTables (some [subject])).files
        (tenantJson (some [subject]) subjectText) atNoon) ∧
      (reloadIfChanged (tenantJson (some [subject]) subjectText) ((tenantTables (some [subject])).files
        (tenantJson (some [subject]) subjectText) atNoon) empty).authPolicies.value 1 = none ∧
      ¬ Carried (tenantTables (some [subject]))
        (reloadIfChanged (tenantJson (some [subject]) subjectText)
          ((tenantTables (some [subject])).files (tenantJson (some [subject]) subjectText) atNoon)
          empty) := by
  have hmem : tenantPolicy (some [subject]) ∈ (tenantTables (some [subject])).enabledPolicies :=
    List.mem_filter.mpr ⟨.head _, rfl⟩
  have hkept := mapping_keeps (tenantJson_readsBack (some [subject]) subjectText _
    (.tail _ (.head _))) hmem (List.cons_ne_nil _ _) empty
  refine ⟨empty_outdated _, ?_, fun hcarried => ?_⟩
  · rw [hkept]
    rfl
  · obtain ⟨q, hq, -⟩ := hcarried.policies _ hmem
    rw [hkept] at hq
    exact Option.some_ne_none q hq.symm

end CorexManager.Bundle
