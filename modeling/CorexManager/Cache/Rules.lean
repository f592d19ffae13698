import CorexManager.Frontend.Sanitize
import CorexManager.HAProxy.Transaction
import CorexManager.Logic.Priority

/-!
# Cacheability rules

A backend's cache configuration owns a list of rules.  A rule looks at the request (or,
the last two kinds, at the response), belongs to one of the two caches, and lets matching
responses be cached or not.  This file has the rules, the patterns they accept
(`normalizePattern`), their order (`CacheConfig.activeRules`) and what HAProxy is asked
about the request (`CacheRule.haproxyAclCriterion`).
-/

namespace CorexManager.Cache

open Data
open Python (UnicodeTables chopLineEnd)

/-- `MATCH_TYPES`. -/
inductive MatchType where
  | path | filename | extension | method | queryString | contentType | statusCode
  deriving DecidableEq, Repr

/-- `REQUEST_PHASE_TYPES`. -/
def MatchType.requestPhase : MatchType → Bool
  | .contentType | .statusCode => false
  | _ => true

/-- `ACTIONS`. -/
inductive Action where
  | cache | bypass
  deriving DecidableEq, Repr

/-- `TIERS`. -/
inductive Tier where
  | memory | disk
  deriving DecidableEq, Repr

/-- A rule of a cache configuration. -/
structure CacheRule where
  id : Nat
  priority : Int
  enabled : Bool
  matchType : MatchType
  pattern : Text
  action : Action
  tier : Tier
  deriving DecidableEq, Repr

/-! ### Patterns -/

/-- The characters of `_UNSAFE_RE`. -/
def unsafeChar (c : Char) : Bool :=
  c == '\r' || c == '\n' || c == '"' || c == '\'' || c == '`' || c == '\\' || c == ';' ||
    c == '#' || c == '|' || c == '$'

/-- `^[…]+$`, with the characters of the class. -/
def onlyOf (p : Char → Bool) (t : Text) : Bool := chopLineEnd t != [] && (chopLineEnd t).all p

/-- The characters of a file name. -/
def filenameChar (U : UnicodeTables) (c : Char) : Bool :=
  c != '/' && !U.space c && c != '*' && c != '?'

/-- The characters of the name of a query parameter. -/
def paramChar (c : Char) : Bool := c.isAlphanum || c == '_' || c == '-'

/-- `_QUERY_PARAM_RE`. -/
def queryParam (t : Text) : Bool :=
  let t := chopLineEnd t
  let rest := t.dropWhile paramChar
  t.takeWhile paramChar != [] && (rest == [] || (rest.head? == some '=' && !rest.contains '&'))

/-- What `[a-z0-9]` matches when case is ignored. -/
def mimeChar (c : Char) : Bool :=
  c.isAlphanum || c == 'İ' || c == 'ı' || c == 'ſ' || c == 'K'

/-- `_CONTENT_TYPE_RE`. -/
def contentTypePattern (t : Text) : Bool :=
  let t := chopLineEnd t
  let major := t.takeWhile (· != '/')
  let minor := (t.dropWhile (· != '/')).drop 1
  t.contains '/' && major != [] && major.all (fun c => mimeChar c || c == '-') &&
    (minor == ['*'] ||
      (minor != [] && minor.all fun c => mimeChar c || c == '-' || c == '+' || c == '.'))

/-- One code of `_STATUS_CODE_RE`: three digits, or a digit for a hundred. -/
def statusCodePattern (U : UnicodeTables) : Text → Bool
  | [c, 'x', 'x'] => '1' ≤ c && c ≤ '5'
  | [a, b, c] => [a, b, c].all fun d => (U.decimalValue d).isSome
  | _ => false

/-- The table behind `str.upper`, for the characters outside ASCII. -/
structure UpperTable where
  upper : Char → Text
  noLineEnd : ∀ c, '\n' ∉ upper c

/-- `str.upper`. -/
def UpperTable.text (V : UpperTable) (t : Text) : Text :=
  t.flatMap fun c => if c.toNat < 128 then [c.toUpper] else V.upper c

/-- `normalize_pattern`, on a stripped value without unsafe characters. -/
def normalizeValue (U : UnicodeTables) (V : UpperTable) (value : Text) :
    MatchType → Except Text Text
  | .path =>
      let value := if value.getLast? = some '*' then value.dropLast else value
      if value.head? ≠ some '/' then
        .error "Path pattern must start with '/' (e.g. /downloads/)".toList
      else if value.all (· == '/') then
        .error "Path pattern '/' would match every request; enable the tier without rules instead".toList
      else .ok value
  | .filename =>
      let value := value.dropWhile (· == '/')
      if onlyOf (filenameChar U) value then .ok value
      else
        .error "Filename must be a single path segment with no wildcards (e.g. linux.iso)".toList
  | .extension =>
      let value := if ['*', '.'].isPrefixOf value then value.drop 2 else value
      let value := value.dropWhile (· == '.')
      if onlyOf Char.isAlphanum value then .ok (U.lower value)
      else .error "Extension must be alphanumeric (e.g. png, iso, woff2)".toList
  | .method =>
      let value := V.text value
      if onlyOf Char.isUpper value then .ok value
      else .error "Method must be a valid HTTP method (e.g. GET, POST, PUT)".toList
  | .queryString =>
      if value = ['*'] then .ok value
      else if queryParam value then .ok value
      else
        .error "Query string must be 'param' or 'param=value' or '*' (e.g. nocache, format=json)".toList
  | .contentType =>
      let value := U.lower value
      if contentTypePattern value then .ok value
      else
        .error "Content-Type must be a valid MIME type (e.g. application/json, image/*, text/html)".toList
  | .statusCode =>
      if ((chopLineEnd value).splitOn ',').all (statusCodePattern U) then .ok value
      else
        .error "Status code must be specific (200, 404) or range (4xx, 5xx) or list (200,301,404)".toList

/-- `normalize_pattern`. -/
def normalizePattern (U : UnicodeTables) (V : UpperTable) (matchType : MatchType)
    (pattern : Text) : Except Text Text :=
  let value := U.strip pattern
  if value = [] then .error "Pattern must not be empty".toList
  else if value.any unsafeChar then .error "Pattern contains unsupported characters".toList
  else normalizeValue U V value matchType

/-! ### The order of the rules -/

/-- A backend's cache configuration, as far as its rules go. -/
structure CacheConfig where
  rules : List CacheRule
  /-- The primary key. -/
  distinct : (rules.map CacheRule.id).Nodup

/-- `active_rules`. -/
def CacheConfig.activeRules (c : CacheConfig) : List CacheRule :=
  Priority.sortByKey (fun r : CacheRule => toLex (r.priority, r.id)) (c.rules.filter (·.enabled))

/-- The active rules of a cache that look at the request. -/
def CacheConfig.requestRules (c : CacheConfig) (tier : Tier) : List CacheRule :=
  c.activeRules.filter fun r => r.tier == tier && r.matchType.requestPhase

theorem CacheConfig.mem_activeRules {c : CacheConfig} {r : CacheRule} :
    r ∈ c.activeRules ↔ r ∈ c.rules ∧ r.enabled = true := by
  rw [CacheConfig.activeRules, Priority.mem_sortByKey, List.mem_filter]

theorem CacheConfig.mem_requestRules {c : CacheConfig} {tier : Tier} {r : CacheRule} :
    r ∈ c.requestRules tier ↔
      r ∈ c.activeRules ∧ r.tier = tier ∧ r.matchType.requestPhase = true := by
  rw [CacheConfig.requestRules, List.mem_filter, Bool.and_eq_true, beq_iff_eq]

/-- A rule is known by its id. -/
theorem CacheConfig.eq_of_id {c : CacheConfig} {r q : CacheRule} (hr : r ∈ c.activeRules)
    (hq : q ∈ c.activeRules) (h : r.id = q.id) : r = q :=
  List.inj_on_of_nodup_map c.distinct (CacheConfig.mem_activeRules.mp hr).1
    (CacheConfig.mem_activeRules.mp hq).1 h

/-! ### What HAProxy is asked -/

/-- The parameter and the value of a query pattern, at the first `=`. -/
def splitParam (pattern : Text) : Text × Text :=
  (pattern.takeWhile (· != '='), (pattern.dropWhile (· != '=')).drop 1)

/-- `haproxy_acl_criterion`; the response-phase kinds raise. -/
def CacheRule.haproxyAclCriterion (r : CacheRule) : Option Text :=
  match r.matchType with
  | .path => some ("path_beg ".toList ++ r.pattern)
  | .filename => some ("path_end /".toList ++ r.pattern)
  | .extension => some ("path_end -i .".toList ++ r.pattern)
  | .method => some ("method ".toList ++ r.pattern)
  | .queryString =>
      if r.pattern = ['*'] then some "url_param() -m found".toList
      else if '=' ∈ r.pattern then
        let (param, value) := splitParam r.pattern
        some ("urlp(".toList ++ (param ++ (") -m str ".toList ++ value)))
      else some ("urlp(".toList ++ (r.pattern ++ ") -m found".toList))
  | .contentType | .statusCode => none

/-- The request-phase kinds have a criterion. -/
theorem CacheRule.criterion_of_requestPhase {r : CacheRule}
    (h : r.matchType.requestPhase = true) : ∃ c, r.haproxyAclCriterion = some c := by
  unfold CacheRule.haproxyAclCriterion
  cases hkind : r.matchType with
  | contentType =>
      rw [hkind] at h
      cases h
  | statusCode =>
      rw [hkind] at h
      cases h
  | queryString =>
      dsimp only
      split_ifs <;> exact ⟨_, rfl⟩
  | _ => exact ⟨_, rfl⟩

end CorexManager.Cache
