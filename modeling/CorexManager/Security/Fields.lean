import CorexManager.Expression.Evaluate
import CorexManager.HAProxy.Acl

/-!
# Fields of security rules

The tables of `security_rules.py` and the resolution of a field name to the fetch
that stands for it: `_FIELD_MAP`, `_BRACKET_FIELDS`, `_BOOL_FIELDS`,
`_GEOIP_LUA_FIELDS`, `_resolve_field` and `_resolve_risk_ruleset_field`, with the
texts that are pasted into a fetch (keys, database and list paths).

What the resolution asks of the installation and the database is `Env`.
-/

namespace CorexManager.Security

open Data
open Expression (bracketMatch CompareOp)
open Python (UnicodeTables chopLineEnd)

/-- The value types of the field table. -/
inductive FieldType where
  | string | int | bool | ip | geoip | ja4
  deriving DecidableEq, Repr

/-- When a field can be read. -/
inductive Phase where
  | request | response
  deriving DecidableEq, Repr

/-- The kinds of security lists (`model_map`). -/
inductive ListKind where
  | network | asn | geo | ja4 | pattern
  deriving DecidableEq, Repr

/-- The name of a list kind, which is also its directory. -/
def ListKind.text : ListKind → Text
  | .network => "network".toList
  | .asn => "asn".toList
  | .geo => "geo".toList
  | .ja4 => "ja4".toList
  | .pattern => "pattern".toList

/-- `model_map.get`. -/
def ListKind.read (t : Text) : Option ListKind :=
  [ListKind.network, .asn, .geo, .ja4, .pattern].find? fun k => k.text == t

/-- The installation and the rows of the database the translator looks at. -/
structure Env where
  unicode : UnicodeTables
  /-- `_geoip_lua_module_available()`. -/
  luaModule : Bool
  /-- `_haproxy_supports_geoip2()`. -/
  geoip2 : Bool
  /-- The absolute paths of the databases, and whether they exist. -/
  geoDb : Text
  geoDbExists : Bool
  asnDb : Text
  asnDbExists : Bool
  countryMap : Text
  asnMap : Text
  /-- The absolute path of `SECURITY_LISTS_DIR`. -/
  listsDir : Text
  /-- The security lists. -/
  lists : List (ListKind × Text)
  /-- The slugs of the risk rulesets. -/
  slugs : List Text

/-- The `ValueError`s of the translator, one for each message. -/
inductive TranslateError where
  /-- `Unknown bracket field: {base_field}`. -/
  | unknownBracketField (base : Text)
  /-- `GeoIP database not found at {geo_db} (required for {field})`. -/
  | geoDbMissing (field : Text)
  /-- `ASN database not found at {asn_db} (required for {field})`. -/
  | asnDbMissing (field : Text)
  /-- `{field} requires HAProxy built with geoip2 support; …`. -/
  | requiresGeoip2 (field : Text)
  /-- `Unknown field: {field}`. -/
  | unknownField (field : Text)
  /-- `Unknown risk ruleset: {slug}`. -/
  | unknownRuleset (slug : Text)
  /-- `Boolean field {field!r} only supports = operator`. -/
  | booleanOperator (field : Text)
  /-- `Unsupported string operator: {op}`. -/
  | unsupportedString (op : CompareOp)
  /-- `Unsupported int operator: {op}`. -/
  | unsupportedInt (op : CompareOp)
  /-- `http.request.scheme can only be 'https' or 'http', got {value!r}`. -/
  | schemeValue (value : Text)
  /-- `http.request.scheme only supports = 'https' or = 'http'`. -/
  | schemeOperator
  /-- `Query param {key!r} only supports = and exists operators`. -/
  | queryOperator (key : Option Text)
  /-- `String field {field!r} does not support operator {op!r}`. -/
  | stringOperator (field : Text) (op : CompareOp)
  /-- `Integer field {field!r} does not support operator {op!r}`. -/
  | integerOperator (field : Text) (op : CompareOp)
  /-- `Empty literal list for field {field!r}`. -/
  | emptyList (field : Text)
  /-- `Mixed type literal list for field {field!r}`. -/
  | mixedList (field : Text)
  /-- `Pattern lists can only be used with string-typed fields, not …`. -/
  | patternField (field : Text) (type : FieldType)
  /-- `Unknown list type: {list_type}`. -/
  | unknownListType (listType : Text)
  /-- `Security list not found: ${list_type}:{list_name}`. -/
  | listNotFound (listType listName : Text)
  /-- `Unknown node type: {t}`. -/
  | unknownNode
  deriving DecidableEq, Repr

/-! ### The tables -/

/-- The fetch of a field; two kinds have a database path inside. -/
inductive Template where
  | fetch (text : Text)
  /-- `src,geoip2({geo_db},record)`. -/
  | geoDb (record : Text)
  /-- `src,geoip2({asn_db},record)`. -/
  | asnDb (record : Text)
  deriving DecidableEq, Repr

/-- An entry of `_FIELD_MAP`. -/
structure FieldSpec where
  template : Template
  phase : Phase
  type : FieldType
  deriving DecidableEq, Repr

/-- An entry for a request field with a plain fetch. -/
def onRequest (fetch : String) (type : FieldType) : FieldSpec :=
  ⟨.fetch fetch.toList, .request, type⟩

/-- An entry for a response field with a plain fetch. -/
def onResponse (fetch : String) (type : FieldType) : FieldSpec :=
  ⟨.fetch fetch.toList, .response, type⟩

/-- An entry that reads the GeoIP database. -/
def onGeo (record : String) (type : FieldType) : FieldSpec :=
  ⟨.geoDb record.toList, .request, type⟩

/-- `_FIELD_MAP`. -/
def fieldMap : List (String × FieldSpec) :=
  [("http.request.method", onRequest "method" .string),
   ("http.request.uri.path", onRequest "path" .string),
   ("http.request.uri", onRequest "url" .string),
   ("http.request.full_uri", onRequest "base" .string),
   ("http.request.uri.query", onRequest "url_query" .string),
   ("http.host", onRequest "req.hdr(host)" .string),
   ("http.request.user_agent", onRequest "req.fhdr(user-agent)" .string),
   ("http.request.referer", onRequest "req.hdr(referer)" .string),
   ("http.request.version", onRequest "req.ver" .string),
   ("http.request.tls.cipher", onRequest "ssl_fc_cipher" .string),
   ("http.request.tls.version", onRequest "ssl_fc_protocol" .string),
   ("ip.src", onRequest "src" .ip),
   ("ip.geoip.country", onGeo "country.iso_code" .geoip),
   ("ip.geoip.asnum",
      ⟨.asnDb "autonomous_system_number".toList, .request, .string⟩),
   ("ip.geoip.continent", onGeo "continent.code" .geoip),
   ("ip.geoip.city", onGeo "city.names.en" .geoip),
   ("ip.geoip.region", onGeo "subdivisions.0.iso_code" .geoip),
   ("ip.geoip.postal_code", onGeo "postal.code" .geoip),
   ("ip.geoip.timezone", onGeo "location.time_zone" .geoip),
   ("ip.geoip.latitude", onGeo "location.latitude" .int),
   ("ip.geoip.longitude", onGeo "location.longitude" .int),
   ("ip.beacon_trusted", onRequest "src,table_http_req_cnt(beacon_trust_table)" .int),
   ("http.request.ja4", onRequest "lua.ja4_fp" .ja4),
   ("http.response.status_code", onResponse "status" .int),
   ("http.request.fingerprint", onResponse "var(txn.req_fp.full)" .string),
   ("http.request.fingerprint.content_type", onRequest "var(txn.req_fp.ctype)" .string),
   ("http.request.fingerprint.param_keys", onRequest "var(txn.req_fp.param_keys)" .string),
   ("http.request.fingerprint.param_types", onRequest "var(txn.req_fp.param_types)" .string),
   ("http.request.fingerprint.param_lens", onRequest "var(txn.req_fp.param_lens)" .string),
   ("http.request.fingerprint.path_depth", onRequest "var(txn.req_fp.path_depth)" .int),
   ("http.request.fingerprint.header_count", onRequest "var(txn.req_fp.hdr_count)" .int),
   ("http.request.fingerprint.header_list", onRequest "var(txn.req_fp.hdr_list)" .string),
   ("http.request.fingerprint.auth_type", onRequest "var(txn.req_fp.auth_type)" .string),
   ("http.request.fingerprint.body_depth", onRequest "var(txn.req_fp.body_depth)" .int),
   ("http.response.fingerprint.status", onResponse "var(txn.req_fp.status)" .int),
   ("http.response.fingerprint.body_bytes", onResponse "var(txn.req_fp.body_bytes)" .int),
   ("graphql.operation", onRequest "var(txn.gql_operation)" .string),
   ("graphql.depth", onRequest "var(txn.gql_depth)" .int),
   ("graphql.complexity", onRequest "var(txn.gql_complexity)" .int),
   ("graphql.field_count", onRequest "var(txn.gql_field_count)" .int),
   ("graphql.alias_count", onRequest "var(txn.gql_alias_count)" .int),
   ("graphql.fragment_count", onRequest "var(txn.gql_fragment_count)" .int),
   ("graphql.query_hash", onRequest "var(txn.gql_query_hash)" .string),
   ("graphql.valid", onRequest "var(txn.gql_valid)" .bool),
   ("api.schema_valid", onRequest "var(txn.api_schema_valid)" .bool),
   ("api.schema_errors", onRequest "var(txn.api_schema_errors)" .string),
   ("auth.valid", onRequest "var(txn.auth_valid)" .bool),
   ("auth.type", onRequest "var(txn.auth_type)" .string),
   ("auth.error", onRequest "var(txn.auth_error)" .string),
   ("auth.claim.sub", onRequest "var(txn.auth.claim_sub)" .string),
   ("auth.claim.iss", onRequest "var(txn.auth.claim_iss)" .string),
   ("auth.claim.aud", onRequest "var(txn.auth.claim_aud)" .string),
   ("api.profile_anomaly", onRequest "var(txn.api.profile_anomaly)" .bool),
   ("risk.score", onRequest "var(txn.risk.score)" .int),
   ("risk.rules_hit", onRequest "var(txn.risk.rules_hit)" .string),
   ("risk.rules_hit_count", onRequest "var(txn.risk.rules_hit_count)" .int),
   ("risk.hit_density", onRequest "var(txn.risk.hit_density)" .int),
   ("http.request.fingerprint.cipher_count", onRequest "var(txn.risk_fp.cipher_count)" .int),
   ("http.request.fingerprint.ext_count", onRequest "var(txn.risk_fp.ext_count)" .int),
   ("http.request.user_agent_length", onRequest "var(txn.risk_fp.ua_len)" .int),
   ("http.request.hour", onRequest "var(txn.risk_fp.req_hour)" .int),
   ("http.request.uri_length", onRequest "var(txn.risk_fp.uri_length)" .int),
   ("http.request.param_count", onRequest "var(txn.risk_fp.param_count)" .int),
   ("http.request.version_numeric", onRequest "var(txn.risk_fp.version_numeric)" .int),
   ("http.request.alpn", onRequest "ssl_fc_alpn" .string)]

/-- `_BOOL_FIELDS`. -/
def boolFields : List (String × String) :=
  [("http.request.tls", "ssl_fc"),
   ("http.request.scheme", "ssl_fc"),
   ("http.request.keep_alive", "var(txn.risk_fp.keep_alive)"),
   ("http.request.geo_lang_mismatch", "var(txn.risk_fp.geo_lang_mismatch)"),
   ("http.request.geoip.timezone_mismatch", "var(txn.risk_fp.tz_mismatch)")]

/-- `_GEOIP_LUA_FIELDS`; the phase is `request` and the type `string` throughout. -/
def geoipLuaFields : List (String × String) :=
  [("ip.geoip.country", "src,lua.geoip2-lookup-city(\"country\",\"iso_code\")"),
   ("ip.geoip.asnum", "src,lua.geoip2-lookup-asn(\"autonomous_system_number\")"),
   ("ip.geoip.continent", "src,lua.geoip2-lookup-city(\"continent\",\"code\")"),
   ("ip.geoip.city", "src,lua.geoip2-lookup-city(\"city\",\"names\",\"en\")"),
   ("ip.geoip.region", "src,lua.geoip2-lookup-city(\"subdivisions\",\"0\",\"iso_code\")"),
   ("ip.geoip.postal_code", "src,lua.geoip2-lookup-city(\"postal\",\"code\")"),
   ("ip.geoip.timezone", "src,lua.geoip2-lookup-city(\"location\",\"time_zone\")"),
   ("ip.geoip.latitude", "src,lua.geoip2-lookup-city(\"location\",\"latitude\")"),
   ("ip.geoip.longitude", "src,lua.geoip2-lookup-city(\"location\",\"longitude\")")]

/-- A dictionary with literal keys, looked up by a text. -/
def tableGet {α : Type*} (table : List (String × α)) (key : Text) : Option α :=
  (table.find? fun e => e.1.toList == key).map Prod.snd

/-- `_BOOL_FIELDS_SET`: the fields that may stand without an operator. -/
def boolFieldsSet : List Text :=
  boolFields.map (·.1.toList) ++
    (fieldMap.filter fun e => e.2.type = .bool).map (·.1.toList)

/-! ### Texts inside fetches -/

/-- The characters `_haproxy_quoted_key` keeps. -/
def keyChar (c : Char) : Bool := c.isAlphanum || c == '_' || c == '-'

/-- `_haproxy_quoted_key`. -/
def haproxyQuotedKey (U : UnicodeTables) (key : Text) : Text :=
  let safe := key.filter keyChar
  if safe = [] then U.lower key else safe.map Char.toLower

/-- `os.path.join` with a relative second part. -/
def joinPath (dir name : Text) : Text :=
  if dir = [] ∨ dir.getLast? = some '/' then dir ++ name else dir ++ '/' :: name

/-- The characters `safe_filename` keeps. -/
def fileChar (c : Char) : Bool := c.isAlphanum || c == '_' || c == '.' || c == '-'

/-- `str.strip` of dots and underscores. -/
def stripDots (t : Text) : Text :=
  let edge := fun c => c == '.' || c == '_'
  ((t.dropWhile edge).reverse.dropWhile edge).reverse

/-- `safe_filename`. -/
def safeFilename (name : Text) : Text :=
  let cleaned := stripDots (name.map fun c => if fileChar c then c else '_')
  if cleaned = [] ∨ cleaned = ['.'] ∨ cleaned = ['.', '.'] then "unnamed".toList
  else cleaned

/-- `_resolve_list_path`: the file of a list that exists. -/
def resolveListPath (env : Env) (listType listName : Text) : Except TranslateError Text :=
  match ListKind.read listType with
  | none => .error (.unknownListType listType)
  | some kind =>
      if (kind, listName) ∈ env.lists then
        .ok (joinPath (joinPath env.listsDir listType) (safeFilename listName ++ ".lst".toList))
      else .error (.listNotFound listType listName)

/-! ### Resolution -/

/-- What `_resolve_field` returns. -/
structure Resolved where
  fetch : Text
  phase : Phase
  type : FieldType
  key : Option Text
  deriving DecidableEq, Repr

/-- The marker for query parameters. -/
def queryParam : Text := "__query_param__".toList

/-- The bracket branch of `_resolve_field` (`_BRACKET_FIELDS`). -/
def resolveBracket (env : Env) (base key : Text) : Except TranslateError Resolved :=
  let quoted := haproxyQuotedKey env.unicode key
  if base = "http.request.headers".toList then
    .ok ⟨"req.hdr(".toList ++ quoted ++ [')'], .request, .string, none⟩
  else if base = "http.request.cookies".toList then
    .ok ⟨"req.cook(".toList ++ quoted ++ [')'], .request, .string, none⟩
  else if base = "http.request.uri.query".toList then
    .ok ⟨queryParam, .request, .string, some key⟩
  else if base = "http.response.headers".toList then
    .ok ⟨"res.hdr(".toList ++ quoted ++ [')'], .response, .string, none⟩
  else if base = "auth.claim".toList then
    .ok ⟨"var(txn.auth.claim_".toList ++ quoted ++ [')'], .request, .string, none⟩
  else .error (.unknownBracketField base)

/-- `src,geoip2({db},{record})`. -/
def geoip2Fetch (db record : Text) : Text :=
  "src,geoip2(".toList ++ db ++ ',' :: record ++ [')']

/-- `src,map_ip({map})`. -/
def mapIpFetch (map : Text) : Text := "src,map_ip(".toList ++ map ++ [')']

/-- The three tiers of a GeoIP field: the Lua module, the native converter, the
map file, which exists for two of the fields. -/
def resolveGeoip (env : Env) (field : Text) (spec : FieldSpec) (native : Text)
    (exists? : Bool) (missing : TranslateError) : Except TranslateError Resolved :=
  match (if env.luaModule then tableGet geoipLuaFields field else none) with
  | some fetch => .ok ⟨fetch.toList, .request, .string, none⟩
  | none =>
      if env.geoip2 then
        if exists? then .ok ⟨native, spec.phase, spec.type, none⟩ else .error missing
      else if field = "ip.geoip.country".toList then
        .ok ⟨mapIpFetch env.countryMap, spec.phase, spec.type, none⟩
      else if field = "ip.geoip.asnum".toList then
        .ok ⟨mapIpFetch env.asnMap, spec.phase, spec.type, none⟩
      else .error (.requiresGeoip2 field)

/-- `_resolve_field`.  The pattern it matches the bracket syntax with is that of
`resolve_field_value`. -/
def resolveField (env : Env) (field : Text) : Except TranslateError Resolved :=
  match bracketMatch env.unicode field with
  | some (base, key) => resolveBracket env base key
  | none =>
      match tableGet fieldMap field with
      | some spec =>
          match spec.template with
          | .fetch fetch => .ok ⟨fetch, spec.phase, spec.type, none⟩
          | .geoDb record =>
              resolveGeoip env field spec (geoip2Fetch env.geoDb record) env.geoDbExists
                (.geoDbMissing field)
          | .asnDb record =>
              resolveGeoip env field spec (geoip2Fetch env.asnDb record) env.asnDbExists
                (.asnDbMissing field)
      | none =>
          match tableGet boolFields field with
          | some fetch => .ok ⟨fetch.toList, .request, .bool, none⟩
          | none => .error (.unknownField field)

/-- The characters of a slug, and those it may begin with. -/
def slugStart (c : Char) : Bool := c.isLower || c == '_'

/-- The characters a slug goes on with. -/
def slugChar (c : Char) : Bool := c.isLower || c == '_' || c.isDigit

/-- `re.match(r"^risk\.([a-z_][a-z0-9_]*)\.{attr}$", field)`: the slug.  `$` also
matches before a line end that closes the text. -/
def riskSlug (attr : String) (field : Text) : Option Text :=
  let body := chopLineEnd field
  let slug := (body.drop 5).takeWhile slugChar
  if body = "risk.".toList ++ slug ++ '.' :: attr.toList ∧ slug.head?.any slugStart then
    some slug
  else none

/-- `_resolve_risk_ruleset_field`: the fetch of the field of a ruleset. -/
def resolveRiskRulesetField (env : Env) (field : Text) :
    Except TranslateError (Option Resolved) :=
  let known := fun (slug : Text) (attr : String) (type : FieldType) =>
    if slug ∈ env.slugs then
      .ok (some ⟨"var(txn.risk.".toList ++ slug ++ '.' :: attr.toList ++ [')'],
        .request, type, none⟩)
    else .error (.unknownRuleset slug)
  match riskSlug "score" field with
  | some slug => known slug "score" .int
  | none => match riskSlug "rules_hit" field with
  | some slug => known slug "rules_hit" .string
  | none => match riskSlug "rules_hit_count" field with
  | some slug => known slug "rules_hit_count" .int
  | none => match riskSlug "hit_density" field with
  | some slug => known slug "hit_density" .int
  | none => .ok none

end CorexManager.Security
