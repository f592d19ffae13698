import CorexManager.Security.Translate

/-!
# What an expression says about a request

The meaning of an expression, stated without the translator: a leaf is about the
samples of its field, it holds when some sample satisfies its operator, and `!=`,
`!~` and the flag `negated` negate.  A keyed field is about the header, cookie or
claim of that name, a field of the tables about the fetch the table names.

`Faithful` lists the leaves the translator keeps the meaning of; each of its
clauses names what goes wrong outside it.
-/

namespace CorexManager.Security

open Data
open Expression
open HAProxy (Sample Engine View)
open Python (UnicodeTables)

/-! ### Samples of a field -/

/-- The values of a parameter in a query string. -/
def queryValues (key query : Text) : List Sample :=
  (query.splitOn '&').filterMap fun part =>
    if (key ++ ['=']).isPrefixOf part then some (.str (part.drop (key.length + 1))) else none

/-- The samples of a keyed field: what carries that very name. -/
def keyedSamples (v : View) (base key : Text) : List Sample :=
  if base = "http.request.headers".toList then
    v.samples ("req.hdr(".toList ++ key ++ [')'])
  else if base = "http.request.cookies".toList then
    v.samples ("req.cook(".toList ++ key ++ [')'])
  else if base = "http.request.uri.query".toList then
    (v.samples "url_query".toList).flatMap fun s => queryValues key s.text
  else if base = "http.response.headers".toList then
    v.samples ("res.hdr(".toList ++ key ++ [')'])
  else if base = "auth.claim".toList then
    v.samples ("var(txn.auth.claim_".toList ++ key ++ [')'])
  else []

/-- The scheme of a request, from whether the connection is encrypted. -/
def schemeSample (s : Sample) : Sample :=
  .str (if s.truthy then "https".toList else "http".toList)

/-- The fetch the tables name for a field, those of the risk rulesets first. -/
def tableFetch (env : Env) (field : Text) : Option Resolved :=
  match resolveRiskRulesetField env field with
  | .ok (some r) => some r
  | _ =>
      match resolveField env field with
      | .ok r => some r
      | .error _ => none

/-- A fetch as a word: the quotes around the arguments of a converter are not part
of it. -/
def fetchWord (fetch : Text) : Text := fetch.filter (· != '"')

/-- **The samples of a field.** -/
def fieldSamples (env : Env) (v : View) (field : Text) : List Sample :=
  match bracketMatch env.unicode field with
  | some (base, key) => keyedSamples v base key
  | none =>
      match tableFetch env field with
      | some r =>
          if field = "http.request.scheme".toList then
            (v.samples (fetchWord r.fetch)).map schemeSample
          else v.samples (fetchWord r.fetch)
      | none => []

/-! ### The meaning of a leaf -/

/-- The boolean fields the Lua scripts store as the text `1`. -/
def textBooleans : List Text :=
  ["http.request.keep_alive".toList, "http.request.geo_lang_mismatch".toList,
    "http.request.geoip.timezone_mismatch".toList]

/-- A sample of a boolean field says true. -/
def isTrue (field : Text) (s : Sample) : Bool :=
  if field ∈ textBooleans then ['1'] == s.text else s.truthy

/-- The positive operators on strings. -/
def stringHolds (E : Engine) (value : Text) (s : Sample) : CompareOp → Bool
  | .eq => value == s.text
  | .match => E.reg false value s.text
  | .contains => decide (value <:+: s.text)
  | .startsWith => value.isPrefixOf s.text
  | .endsWith => value.isSuffixOf s.text
  | _ => false

/-- A comparison with a string: some sample satisfies it; `!=` and `!~` negate. -/
def stringMeaning (E : Engine) (samples : List Sample) (value : Text) (op : CompareOp) :
    Bool :=
  match op with
  | .ne => !samples.any (stringHolds E value · .eq)
  | .notMatch => !samples.any (stringHolds E value · .match)
  | op => samples.any (stringHolds E value · op)

/-- The positive operators on integers. -/
def intHolds (value n : Int) : CompareOp → Bool
  | .eq => n == value
  | .gt => value < n
  | .lt => n < value
  | .ge => value ≤ n
  | .le => n ≤ value
  | _ => false

/-- A comparison with an integer. -/
def intMeaning (E : Engine) (samples : List Sample) (value : Int) (op : CompareOp) : Bool :=
  match op with
  | .ne => !samples.any fun s => (s.int? E).any (intHolds value · .eq)
  | op => samples.any fun s => (s.int? E).any (intHolds value · op)

/-- The scheme is compared without case. -/
def schemeMeaning (U : UnicodeTables) (samples : List Sample) (value : Text) : Bool :=
  samples.any fun s => U.lower value == s.text

/-- A sample equals a value of a list literal. -/
def itemHolds (E : Engine) (s : Sample) : Item → Bool
  | .str value => value == s.text
  | .int value => (s.int? E).any (· == value)

/-- A sample is in a security list: an address in a network, a text that matches a
pattern, a text that is an entry. -/
def listHolds (E : Engine) (kind : ListKind) (entries : List Text) (s : Sample) : Bool :=
  match kind with
  | .network => entries.any (E.net s.text)
  | .pattern => entries.any fun p => E.reg false p s.text
  | _ => entries.contains s.text

/-- The meaning of a leaf without its flag. -/
def kindMeaning (env : Env) (v : View) : LeafKind → Bool
  | .literal value => value
  | .boolField field => (fieldSamples env v field).any (isTrue field)
  | .exists field => !(fieldSamples env v field).isEmpty
  | .compare field op (.bool value) =>
      op = .eq && (fieldSamples env v field).any (isTrue field) == value
  | .compare field op (.str value) =>
      if field = "http.request.scheme".toList then
        schemeMeaning env.unicode (fieldSamples env v field) value
      else stringMeaning v.engine (fieldSamples env v field) value op
  | .compare field op (.int value) =>
      intMeaning v.engine (fieldSamples env v field) value op
  | .inLiterals field values =>
      (fieldSamples env v field).any fun s => values.any (itemHolds v.engine s)
  | .inList field listType listName =>
      match ListKind.read listType, resolveListPath env listType listName with
      | some kind, .ok path =>
          (fieldSamples env v field).any (listHolds v.engine kind (v.engine.file path))
      | _, _ => false

/-- **The meaning of a leaf.** -/
def leafMeaning (env : Env) (v : View) (l : Leaf) : Bool :=
  xor l.negated (kindMeaning env v l.kind)

/-- **The boolean meaning of an expression.** -/
def Means (env : Env) (v : View) (n : Node) : Prop :=
  n.Holds fun l => leafMeaning env v l = true

/-! ### What HAProxy's fetches are assumed to do -/

/-- The documented facts about fetches: header names have no case, and the fetches
of the tables give samples of the type the table says. -/
structure Documented (env : Env) (v : View) : Prop where
  requestHeader : ∀ name, v.samples ("req.hdr(".toList ++ name.map Char.toLower ++ [')'])
    = v.samples ("req.hdr(".toList ++ name ++ [')'])
  responseHeader : ∀ name, v.samples ("res.hdr(".toList ++ name.map Char.toLower ++ [')'])
    = v.samples ("res.hdr(".toList ++ name ++ [')'])
  strings : ∀ field r, resolveField env field = .ok r →
    r.type = .string ∨ r.type = .geoip ∨ r.type = .ja4 →
    ∀ s ∈ v.samples (fetchWord r.fetch), s.method = .str
  addresses : ∀ s ∈ v.samples "src".toList, s.method = .ip
  encrypted : ∀ s ∈ v.samples "ssl_fc".toList, s.method = .bool

/-- The paths of the installation can be pasted into a line. -/
def plainPath (path : Text) : Prop := ∀ c ∈ path, HAProxy.bare c = true

/-- All of them. -/
structure Env.PlainPaths (env : Env) : Prop where
  geoDb : plainPath env.geoDb
  asnDb : plainPath env.asnDb
  countryMap : plainPath env.countryMap
  asnMap : plainPath env.asnMap
  listsDir : plainPath env.listsDir

/-! ### The leaves the translator is faithful on -/

/-- The keys that reach their fetch as they are: other characters are dropped, and
upper case is lost, which only header names do not mind. -/
def plainKey (base key : Text) : Bool :=
  if base = "http.request.headers".toList ∨ base = "http.response.headers".toList then
    key ≠ [] && key.all keyChar
  else if base = "http.request.cookies".toList ∨ base = "auth.claim".toList then
    key ≠ [] && key.all fun c => keyChar c && c.toLower == c
  else false

/-- The fields whose fetch stands for them; the scheme is only an encrypted
connection's flag, and query parameters have no fetch. -/
def plainField (env : Env) (field : Text) : Bool :=
  match bracketMatch env.unicode field with
  | some (base, key) => plainKey base key
  | none => field != "http.request.scheme".toList

/-- The field belongs to a risk ruleset. -/
def riskField (env : Env) (field : Text) : Bool :=
  match resolveRiskRulesetField env field with
  | .ok none => false
  | _ => true

/-- The fields with a truth value. -/
def truthFields : List Text :=
  ["http.request.tls".toList, "http.request.keep_alive".toList,
    "http.request.geo_lang_mismatch".toList, "http.request.geoip.timezone_mismatch".toList,
    "graphql.valid".toList, "api.schema_valid".toList, "auth.valid".toList,
    "api.profile_anomaly".toList]

/-- The values that reach HAProxy as one word: an empty one ends the condition, a
brace closes it, `$` names an environment variable, a line end ends the line. -/
def plainValue (value : Text) : Bool :=
  value ≠ [] && value ≠ ['}'] && value.all HAProxy.quotable

/-- The first value is not taken for a flag. -/
def plainFirst (value : Text) : Bool := plainValue value && HAProxy.notFlag value

/-- The values of a list literal that reach HAProxy as they are. -/
def plainLiterals (values : List Item) : Bool :=
  (values.all fun v => match v with
    | .str s => plainValue s
    | .int _ => true) &&
  match values with
  | .str s :: _ => HAProxy.notFlag s
  | .int n :: _ => 0 ≤ n
  | [] => true

/-- The lists that can be used with a field: an address is in a network, a string
is in the others, and the fingerprint list does not look at the field. -/
def plainList (env : Env) (field listType : Text) : Bool :=
  match ListKind.read listType with
  | some .asn | some .pattern => true
  | some .geo =>
      match resolveField env field with
      | .ok r => r.type = .string || r.type = .geoip || r.type = .ja4
      | .error _ => true
  | some .ja4 => field = "http.request.ja4".toList
  | some .network => field = "ip.src".toList
  | none => true

/-- A comparison whose negation the translator does not drop. -/
def keepsNegation (env : Env) (field : Text) (op : CompareOp) (negated : Bool) : Bool :=
  !negated || takesNegation op || riskField env field

/-- **The leaves whose meaning the translator keeps.** -/
def Faithful (env : Env) (l : Leaf) : Bool :=
  match l.kind with
  | .literal _ => false
  | .boolField field => field ∈ truthFields
  | .exists field => plainField env field || field = "http.request.scheme".toList
  | .compare field _ (.bool _) => field ∈ truthFields
  | .compare field op (.str value) =>
      if field = "http.request.scheme".toList then env.unicode.lower value = "https".toList
      else plainField env field && plainFirst value && keepsNegation env field op l.negated
  | .compare field op (.int value) =>
      plainField env field && keepsNegation env field op l.negated &&
        (decide (0 ≤ value) || !(op = .eq || op = .ne))
  | .inLiterals field values =>
      plainField env field && !riskField env field && plainLiterals values
  | .inList field listType _ =>
      plainField env field && !riskField env field && plainList env field listType

end CorexManager.Security
