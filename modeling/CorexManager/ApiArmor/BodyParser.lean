import CorexManager.Data.Json
import CorexManager.HAProxy.Transaction
import CorexManager.Rust.Text

/-!
# The body parser of API Armor

The Lua action `api_body_parse` of `body_parser/src/lib.rs`: it reads the buffered
body and the headers of a request, looks up the schema of its endpoint, validates
the body, checks the credentials, compares the request with the learned profile, and
leaves what it found in variables of the transaction.

* `ParsedBody.parse`, `findSchemaJson`, `validateAndSetAuth`, `checkProfileAnomaly`
  and `parseBodyLua` are the functions of the module; those that only assign
  variables are the lists of their assignments (`Assignments`).
* `Host` is what the module calls: the JSON reader, the file system, the environment,
  the analysers of the other crates, and the data loaded from the bundle.
* The profiling log, which no variable depends on, is left out.
-/

namespace CorexManager.ApiArmor

open Data
open HAProxy

/-! ### The data bundle -/

/-- An entry of `schema-index.json`. -/
structure SchemaEntry where
  id : Int
  name : Text
  method : Text
  pathPattern : Text
  file : Text
  deriving DecidableEq

/-- A policy of `auth-policies.json`. -/
structure AuthPolicy where
  id : Int
  name : Text
  authType : Option Text
  jwtSecretEnv : Option Text
  jwtIssuer : Option Text
  jwtAudience : Option Text
  apiKeyHeader : Option Text
  apiKeyListName : Option Text
  deriving DecidableEq

/-- A profile of `profiles.json`. -/
structure Profile where
  method : Text
  path : Text
  dimensions : Json

/-- What the module has loaded. -/
structure ApiArmorData where
  schemaIndex : List SchemaEntry
  authPolicies : Int → Option AuthPolicy
  profiles : List Profile
  apiKeys : Text → Option (List Text)

/-- `ValidationResult`. -/
structure ValidationResult where
  valid : Bool
  errors : List Text

/-- `JwtResult`; the type it also carries is always `jwt`. -/
structure JwtResult where
  valid : Bool
  claims : Json
  error : Text

/-- `ApiKeyResult`. -/
structure ApiKeyResult where
  valid : Bool
  error : Text
  deriving DecidableEq

/-- What the GraphQL analyser reports. -/
structure Analysis where
  operation : Text
  depth : Int
  complexity : Int
  fieldCount : Int
  aliasCount : Int
  fragmentCount : Int
  queryHash : Text
  valid : Bool
  error : Text

/-- The surroundings of the module. -/
structure Host where
  /-- A string of the proxy as one of Rust; bytes that are not UTF-8 have none. -/
  utf8 : Text → Option Text
  /-- `serde_json::from_str`. -/
  parseJson : Text → Option Json
  /-- The end of the input is no value. -/
  parseJson_nil : parseJson [] = none
  /-- `Value::to_string`. -/
  printJson : Json → Text
  /-- `{:?}` of an optional string. -/
  debug : Option Text → Text
  readFile : Text → Option Text
  envVar : Text → Option Text
  /-- `api_armor_graphql::analyze`. -/
  analyze : Text → Analysis
  /-- `api_armor_schema_validator::validate`, of a value and a schema. -/
  validateSchema : Json → Json → ValidationResult
  /-- `validate_jwt`, of a token and a secret. -/
  validateJwt : Text → Text → JwtResult
  data : ApiArmorData

/-- What parses nothing does not parse the end of the input. -/
theorem parseNothing_nil : (fun _ : Text => (none : Option Json)) [] = none := rfl

/-! ### Variables -/

/-- The short names with a name of their own. -/
def reqFpVars : List (String × String) :=
  [("req_fp_method", "txn.req_fp.method"), ("req_fp_path", "txn.req_fp.path"),
   ("req_fp_ctype", "txn.req_fp.ctype"), ("req_fp_param_keys", "txn.req_fp.param_keys"),
   ("req_fp_param_types", "txn.req_fp.param_types"),
   ("req_fp_path_depth", "txn.req_fp.path_depth"),
   ("req_fp_hdr_count", "txn.req_fp.hdr_count"),
   ("req_fp_body_depth", "txn.req_fp.body_depth"), ("req_fp_full", "txn.req_fp")]

/-- `var_name`. -/
def varName (short : Text) : Text :=
  match reqFpVars.find? fun e => e.1.toList == short with
  | some e => e.2.toList
  | none => "txn.".toList ++ short

/-- Assignments of variables by their short names, in order. -/
abbrev Assignments := List (Text × Sample)

/-- `tset`. -/
def tset (t : Txn) (name : Text) (val : Sample) : Txn := t.setVar (varName name) (some val)

/-- A run of `tset`s. -/
def tsetAll (t : Txn) (as : Assignments) : Txn := as.foldl (fun t a => tset t a.1 a.2) t

/-- Names that do not begin with an `r` are prefixed. -/
theorem varName_prefixed {c : Char} {s : Text} (hc : c ≠ 'r') :
    varName (c :: s) = "txn.".toList ++ c :: s := by
  have hnone : (reqFpVars.find? fun e => e.1.toList == c :: s) = none := by
    refine List.find?_eq_none.mpr fun e he heq => ?_
    have hhead := (by decide : ∀ e ∈ reqFpVars, e.1.toList.head? = some 'r') e he
    rw [beq_iff_eq.mp heq] at hhead
    exact hc (Option.some.inj hhead)
  rw [varName, hnone]

theorem tsetAll_append (t : Txn) (as bs : Assignments) :
    tsetAll t (as ++ bs) = tsetAll (tsetAll t as) bs := List.foldl_append

/-- A variable no assignment names keeps its value. -/
theorem tsetAll_vars_other {as : Assignments} {n : Text} (h : ∀ a ∈ as, varName a.1 ≠ n)
    (t : Txn) : (tsetAll t as).vars n = t.vars n := by
  induction as generalizing t with
  | nil => rfl
  | cons a as ih =>
      have hrest := ih (fun b hb => h b (List.mem_cons_of_mem a hb)) (tset t a.1 a.2)
      refine hrest.trans ?_
      exact Txn.setVar_vars_other t _ fun heq => h a List.mem_cons_self heq.symm

/-- A variable holds what the last assignment of it says. -/
theorem tsetAll_vars_last (as : Assignments) {bs : Assignments} {name : Text} {val : Sample}
    (h : ∀ b ∈ bs, varName b.1 ≠ varName name) (t : Txn) :
    (tsetAll t (as ++ (name, val) :: bs)).vars (varName name) = some val := by
  rw [tsetAll_append]
  refine (tsetAll_vars_other h (tset (tsetAll t as) name val)).trans ?_
  exact Txn.setVar_vars_self _ _ _

namespace Host

variable (H : Host)

/-- `tget` of a string: booleans do not convert. -/
def tgetStr (t : Txn) (name : Text) : Option Text :=
  match t.vars (varName name) with
  | some (.bool _) => none
  | some s => H.utf8 s.text
  | none => none

/-- `tget` of an integer, with its default. -/
def tgetInt (t : Txn) (name : Text) : Int :=
  match t.vars (varName name) with
  | some (.int n) => n
  | _ => 0

theorem tgetInt_int {t : Txn} {name : Text} {n : Int} (h : t.vars (varName name) = some (.int n)) :
    tgetInt t name = n := by
  unfold tgetInt
  rw [h]

theorem tgetInt_none {t : Txn} {name : Text} (h : t.vars (varName name) = none) :
    tgetInt t name = 0 := by
  unfold tgetInt
  rw [h]

/-- `get_str` of a fetch; a fetch without a sample gives the empty string. -/
def fetchStr (t : Txn) (name default : Text) : Text :=
  match (t.samples name).head? with
  | some s => (H.utf8 s.text).getD default
  | none => []

/-! ### Headers -/

/-- The header block the `req_hdrs` fetch gives. -/
def reqHdrs (t : Txn) : Text :=
  t.headers.flatMap (fun h => h.1 ++ ':' :: ' ' :: (h.2 ++ ['\r', '\n'])) ++ ['\r', '\n']

/-- The value of a header line, if the line is of that header. -/
def headerLine (target line : Text) : Option Text :=
  (Rust.splitOnce ':' line).bind fun (k, v) =>
    if Rust.toAsciiLowercase (Rust.trim k) = target then some (Rust.trim v) else none

/-- `header`: the first header of a name, empty when there is none. -/
def header (t : Txn) (name : Text) : Text :=
  let raw := (H.utf8 (reqHdrs t)).getD []
  ((Rust.lines raw).findSome? (headerLine (Rust.toAsciiLowercase name))).getD []

end Host

/-! ### The body -/

/-- `ParsedBody`, without the form parameters, which nothing reads. -/
structure ParsedBody where
  contentType : Text
  isJson : Bool
  isGraphql : Bool
  isForm : Bool
  raw : Text
  json : Option Json

/-- The content types the parser tells apart, in the order it asks for them. -/
inductive BodyKind where
  | graphql | json | form | other
  deriving DecidableEq, Repr

/-- Which branch of `ParsedBody::parse` a content type takes; letter case counts. -/
def bodyKind (contentType : Text) : BodyKind :=
  if Rust.contains contentType "application/graphql".toList then .graphql
  else if Rust.contains contentType "application/json".toList then .json
  else if Rust.contains contentType "application/x-www-form-urlencoded".toList then .form
  else .other

/-- `ParsedBody::parse`. -/
def ParsedBody.parse (H : Host) (body contentType : Text) : ParsedBody where
  contentType := contentType
  isJson := bodyKind contentType == .json
  isGraphql := bodyKind contentType == .graphql
  isForm := bodyKind contentType == .form
  raw := body
  json := if bodyKind contentType = .json then H.parseJson body else none

/-- `ParsedBody::get_json_field`. -/
def ParsedBody.getJsonField (b : ParsedBody) (key : Text) : Option Json :=
  b.json.bind (Json.get key)

/-! ### The lookup of the schema -/

/-- The segments of a pattern and of a path agree; `:name` stands for any segment. -/
def segmentsMatch : List Text → List Text → Bool
  | [], [] => true
  | p :: ps, v :: vs => (p.head? == some ':' || p == v) && segmentsMatch ps vs
  | _, _ => false

/-- `path_matches`. -/
def pathMatches (pattern path : Text) : Bool :=
  segmentsMatch (Rust.split '/' pattern) (Rust.split '/' path)

namespace Host

variable (H : Host)

/-- `api_armor_dir`. -/
def apiArmorDir : Text := (H.envVar "API_ARMOR_DIR".toList).getD "/app/data/api-armor".toList

/-- `read_schema_file`. -/
def readSchemaFile (file : Text) : Option Text := H.readFile (H.apiArmorDir ++ '/' :: file)

/-- The entry of the index `find_schema_json` takes. -/
def findEntry (method path : Text) : Option SchemaEntry :=
  H.data.schemaIndex.find? fun entry =>
    Rust.eqIgnoreAsciiCase entry.method method && pathMatches entry.pathPattern path

/-- `find_schema_json`. -/
def findSchemaJson (method path : Text) : Option Text :=
  (H.findEntry method path).bind fun entry => H.readSchemaFile entry.file

end Host

/-! ### Credentials -/

/-- `extract_bearer_token`. -/
def extractBearerToken (authHeader : Text) : Option Text :=
  let trimmed := Rust.trim authHeader
  if "Bearer ".toList <+: trimmed ∨ "bearer ".toList <+: trimmed then
    some (Rust.trim (trimmed.drop 7))
  else if trimmed ≠ [] ∧ ' ' ∉ trimmed then some trimmed
  else none

/-- `validate_api_key`. -/
def validateApiKey (key : Text) (validKeys : List Text) : ApiKeyResult :=
  if key ∈ validKeys then ⟨true, []⟩ else ⟨false, "invalid API key".toList⟩

/-- The audience of the claims is the expected one, or has it among others. -/
def audienceMatches (expected : Text) : Option Json → Bool
  | some (.str s) => s == expected
  | some (.arr items) => items.any fun v => v.asStr == some expected
  | _ => false

/-- `validate_jwt_with_claims`. -/
def Host.validateJwtWithClaims (H : Host) (token secret : Text)
    (expectedIssuer expectedAudience : Option Text) : JwtResult :=
  let result := H.validateJwt token secret
  let issuer := (result.claims.get "iss".toList).bind Json.asStr
  if !result.valid then result
  else if expectedIssuer.any fun iss => issuer != some iss then
    { result with
      valid := false
      error := "invalid issuer: expected ".toList ++ expectedIssuer.getD [] ++
        ", got ".toList ++ H.debug issuer }
  else if expectedAudience.any fun aud =>
      !audienceMatches aud (result.claims.get "aud".toList) then
    { result with
      valid := false
      error := "invalid audience: expected ".toList ++ expectedAudience.getD [] }
  else result

/-- The three variables of an outcome. -/
def authOutcome (valid : Bool) (type error : Text) : Assignments :=
  [("auth_valid".toList, .bool valid), ("auth_type".toList, .str type),
    ("auth_error".toList, .str error)]

/-- The variable of a claim. -/
def claimVar (claim : Text) : Text := "auth.claim_".toList ++ claim

namespace Host

variable (H : Host)

/-- The variables of the claims of a token. -/
def claimVars (claims : Json) : Assignments :=
  (claims.asObject.getD []).map fun c =>
    (claimVar c.1, .str (c.2.asStr.getD (H.printJson c.2)))

/-- The `jwt` branch of `validate_and_set_auth`. -/
def validateJwtPolicy (policy : AuthPolicy) (authHeader : Text) : Assignments :=
  match extractBearerToken authHeader with
  | none => authOutcome false "jwt".toList "invalid authorization header".toList
  | some token =>
      let secret := (policy.jwtSecretEnv.bind H.envVar).getD []
      if secret = [] then authOutcome false "jwt".toList "JWT secret not configured".toList
      else
        let result := H.validateJwtWithClaims token secret policy.jwtIssuer policy.jwtAudience
        authOutcome result.valid "jwt".toList result.error ++ H.claimVars result.claims

/-- The `api_key` branch of `validate_and_set_auth`. -/
def validateKeyPolicy (t : Txn) (policy : AuthPolicy) (authHeader : Text) : Assignments :=
  let key := match policy.apiKeyHeader with
    | some name => H.header t name
    -- without a header of its own the raw `Authorization` header is the key
    | none => authHeader
  let validKeys := (H.data.apiKeys (policy.apiKeyListName.getD [])).getD []
  let result := validateApiKey key validKeys
  authOutcome result.valid "api_key".toList result.error

/-- `validate_and_set_auth`. -/
def validateAndSetAuth (t : Txn) : Assignments :=
  let policyId := tgetInt t "api_auth_policy_id".toList
  authOutcome true ['n'] [] ++
    ["sub".toList, "iss".toList, "aud".toList].map (fun claim => (claimVar claim, .str [])) ++
    if policyId = 0 then []
    else match H.data.authPolicies policyId with
      | none => authOutcome false ['n'] "auth policy not found".toList
      | some policy =>
          let authHeader := H.header t "Authorization".toList
          if policy.authType = some "jwt".toList then H.validateJwtPolicy policy authHeader
          else if policy.authType = some "api_key".toList then
            H.validateKeyPolicy t policy authHeader
          -- unknown or no type: the request passes
          else authOutcome true ['n'] []

end Host

/-! ### The learned profile -/

/-- `part.parse::<i64>()` or `part.parse::<u64>()` succeeds. -/
def isInteger (part : Text) : Bool :=
  match part with
  | '-' :: digits => (readNat digits).any (· ≤ 2 ^ 63)
  | '+' :: digits => (readNat digits).any (· < 2 ^ 64)
  | digits => (readNat digits).any (· < 2 ^ 64)

/-- `is_ascii_hexdigit` of every character. -/
def allHex (t : Text) : Bool :=
  t.all fun c => c.isDigit || ['a', 'b', 'c', 'd', 'e', 'f'].contains c.toLower

/-- `is_uuid`. -/
def isUuid (s : Text) : Bool :=
  let parts := Rust.split '-' s
  parts.map List.length == [8, 4, 4, 4, 12] && parts.all allHex

/-- `is_objectid`. -/
def isObjectid (s : Text) : Bool := s.length == 24 && allHex s

/-- `normalize_path`. -/
def normalizePath (path : Text) : Text :=
  let parts := ((Rust.split '/' path).filter (· ≠ [])).map fun part =>
    if isInteger part || isUuid part || isObjectid part then ":id".toList else part
  '/' :: List.intercalate ['/'] parts

/-- `is_value_in_set`. -/
def isValueInSet (value : Json) : Json → Bool
  | .arr items => items.contains value
  | .str s => value.asStr == some s
  | _ => false

/-- The value is neither in the set nor in the `values` the Python format keeps. -/
def outsideSet (value allowed : Json) : Bool :=
  !isValueInSet value allowed && !isValueInSet value ((allowed.get "values".toList).getD allowed)

namespace Host

variable (H : Host)

/-- `find_profile`. -/
def findProfile (method path : Text) : Option Profile :=
  H.data.profiles.find? fun p =>
    Rust.eqIgnoreAsciiCase p.method method && p.path == normalizePath path

/-- The keys of the body as the fingerprint lists them. -/
def topKeys (t : Txn) : Json :=
  .arr (((Rust.split ',' ((H.tgetStr t "req_fp_param_keys".toList).getD [])).filter
    (· ≠ [])).map .str)

/-- `check_profile_anomaly`. -/
def checkProfileAnomaly (t : Txn) (method path contentType authType : Text) : Bool :=
  match (H.findProfile method path).bind fun profile => profile.dimensions.asObject with
  | none => false
  | some dimensions =>
      let observed := Json.obj [("content_type".toList, .str contentType),
        ("auth_type".toList, .str authType)]
      (dimensions.any fun d => (observed.get d.1).any (outsideSet · d.2)) ||
        ((Json.obj dimensions).get "body_structure".toList).any
          fun allowed => !isValueInSet (H.topKeys t) allowed

/-! ### The action -/

/-- The GraphQL variables of a body that is no GraphQL request. -/
def graphqlDefaults : Assignments :=
  [("gql_operation".toList, .str []), ("gql_depth".toList, .int 0),
    ("gql_complexity".toList, .int 0), ("gql_field_count".toList, .int 0),
    ("gql_alias_count".toList, .int 0), ("gql_fragment_count".toList, .int 0),
    ("gql_query_hash".toList, .str []), ("gql_valid".toList, .bool true)]

/-- The GraphQL variables of a query. -/
def analysisVars (a : Analysis) : Assignments :=
  [("gql_operation".toList, .str a.operation), ("gql_depth".toList, .int a.depth),
    ("gql_complexity".toList, .int a.complexity), ("gql_field_count".toList, .int a.fieldCount),
    ("gql_alias_count".toList, .int a.aliasCount),
    ("gql_fragment_count".toList, .int a.fragmentCount),
    ("gql_query_hash".toList, .str a.queryHash), ("gql_valid".toList, .bool a.valid)] ++
    if a.error = [] then [] else [("gql_error".toList, .str a.error)]

/-- The GraphQL part of `parse_body_lua`. -/
def graphqlVars (body : Text) (parsed : ParsedBody) : Assignments :=
  let query := parsed.getJsonField "query".toList
  if parsed.isGraphql || (parsed.isJson && query.isSome) then
    analysisVars (H.analyze (if parsed.isGraphql then body else (query.bind Json.asStr).getD []))
  else graphqlDefaults

/-- What a schema says of a body that was parsed; a schema text that is no JSON says
nothing. -/
def schemaResult (schemaJson : Text) (json : Json) : ValidationResult :=
  match H.parseJson schemaJson with
  | some schema => H.validateSchema json schema
  | none => ⟨true, []⟩

/-- The outcome of the schema validation of `parse_body_lua`. -/
def validateBody (schemaJson : Text) (parsed : ParsedBody) : ValidationResult :=
  match parsed.json with
  | some json => if schemaJson = [] then ⟨true, []⟩ else H.schemaResult schemaJson json
  | none => ⟨true, []⟩

/-- The schema part of `parse_body_lua`. -/
def schemaVars (method path : Text) (parsed : ParsedBody) : Assignments :=
  let schemaJson :=
    if method ≠ [] ∧ path ≠ [] then (H.findSchemaJson method path).getD [] else []
  let result := H.validateBody schemaJson parsed
  [("api_schema".toList, .str schemaJson), ("api_schema_valid".toList, .bool result.valid),
    ("api_schema_errors".toList, .str (List.intercalate "; ".toList result.errors))]

/-- `txn.api_body` as a string. -/
def body (t : Txn) : Option Text := H.tgetStr t "api_body".toList

/-- The content type of the request. -/
def contentType (t : Txn) : Text := H.header t "content-type".toList

def method (t : Txn) : Text := H.fetchStr t "method".toList "GET".toList

def path (t : Txn) : Text := H.fetchStr t "path".toList ['/']

/-- **The action**, `parse_body_lua`. -/
def parseBodyLua (t : Txn) : Txn :=
  let text := (H.body t).getD []
  let parsed := ParsedBody.parse H text (H.contentType t)
  let t₁ := tsetAll t (H.graphqlVars text parsed)
  let t₂ := tsetAll t₁ (H.schemaVars (H.method t) (H.path t) parsed)
  let t₃ := tsetAll t₂ (H.validateAndSetAuth t₂)
  let authType := (H.tgetStr t₃ "auth_type".toList).getD ['n']
  tset t₃ "api.profile_anomaly".toList
    (.bool (H.checkProfileAnomaly t₃ (H.method t) (H.path t) (H.contentType t) authType))

end Host

end CorexManager.ApiArmor
