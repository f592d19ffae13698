import CorexManager.Security.Fields
import CorexManager.HAProxy.Condition

/-!
# The translator

`_translate_leaf`, `_determine_phase` and `translate`: from a syntax tree to the
text of a HAProxy condition.  A leaf becomes an anonymous ACL with exclamation
marks before it; a group of the normal form becomes leaves side by side; the
groups are separated by `or`.
-/

namespace CorexManager.Security

open Data
open Expression
open HAProxy (blankJoin orJoin)
open Python (UnicodeTables chopLineEnd)

/-- `{ inner }`. -/
def braced (inner : Text) : Text := ['{', ' '] ++ inner ++ [' ', '}']

/-- `!cond`. -/
def bang (cond : Text) : Text := '!' :: cond

/-- `f"!{cond}" if negated else cond`. -/
def bangIf (negated : Bool) (cond : Text) : Text := if negated then bang cond else cond

/-- The characters a value is written with as it stands (`_haproxy_string_value`). -/
def valueChar (c : Char) : Bool :=
  c.isAlphanum || c == '_' || c == '.' || c == '/' || c == ':' || c == '-'

/-- `_escape_regex`: backslashes and double quotes are escaped, in that order. -/
def escapeRegex (s : Text) : Text := HAProxy.weakEscape s

/-- `"…"`. -/
def quoted (s : Text) : Text := '"' :: (s ++ ['"'])

/-- `_haproxy_string_value`.  The pattern `^[…]+$` also matches a text with a line
end after it. -/
def haproxyStringValue (value : Text) : Text :=
  if chopLineEnd value ≠ [] ∧ (chopLineEnd value).all valueChar then value else quoted (escapeRegex value)

/-- `_bool_fetch_cond`. -/
def boolFetchCond (fetch field : Text) : Text :=
  if "var(".toList.isPrefixOf fetch then
    if "graphql.".toList.isPrefixOf field ∨ "api.".toList.isPrefixOf field ∨
        "auth.valid".toList.isPrefixOf field then
      braced (fetch ++ " -m bool".toList)
    else braced (fetch ++ " -m str 1".toList)
  else braced fetch

/-- `{ fetch -m method args }`. -/
def matching (fetch : Text) (method : String) (args : Text) : Text :=
  braced (fetch ++ " -m ".toList ++ method.toList ++ ' ' :: args)

/-- The conditions on strings, which both branches of the translator write alike;
`plain` is the condition of an equality. -/
def stringCond (fetch plain value : Text) : CompareOp → Option Text
  | .eq => some plain
  | .ne => some (bang plain)
  | .match => some (matching fetch "reg" (quoted (escapeRegex value)))
  | .notMatch => some (bang (matching fetch "reg" (quoted (escapeRegex value))))
  | .contains => some (matching fetch "sub" (haproxyStringValue value))
  | .startsWith => some (matching fetch "beg" (haproxyStringValue value))
  | .endsWith => some (matching fetch "end" (haproxyStringValue value))
  | _ => none

/-- The conditions on integers. -/
def intCond (fetch : Text) (value : Int) : CompareOp → Option Text
  | .eq => some (matching fetch "int" (intText value))
  | .ne => some (bang (matching fetch "int" (intText value)))
  | .gt => some (matching fetch "int" ("gt ".toList ++ intText value))
  | .lt => some (matching fetch "int" ("lt ".toList ++ intText value))
  | .ge => some (matching fetch "int" ("ge ".toList ++ intText value))
  | .le => some (matching fetch "int" ("le ".toList ++ intText value))
  | _ => none

/-- A comparison on the field of a risk ruleset. -/
def translateRiskCompare (fetch field : Text) (negated : Bool) (op : CompareOp) :
    Value → Except TranslateError Text
  | .bool value =>
      if op = .eq then
        let cond := boolFetchCond fetch field
        .ok (bangIf negated (if value then cond else bang cond))
      else .error (.booleanOperator field)
  | .str value =>
      match stringCond fetch (matching fetch "str" (haproxyStringValue value)) value op with
      | some cond => .ok (bangIf negated cond)
      | none => .error (.unsupportedString op)
  | .int value =>
      match intCond fetch value op with
      | some cond => .ok (bangIf negated cond)
      | none => .error (.unsupportedInt op)

/-- `re.escape`. -/
def reEscape (t : Text) : Text :=
  t.flatMap fun c =>
    if c ∈ "()[]\x7b\x7d?*+-|^$\\.&~# \t\n\r\x0b\x0c".toList then ['\\', c] else [c]

/-- The scheme: `=` with a string, compared without case. -/
def translateScheme (U : UnicodeTables) (negated : Bool) (op : CompareOp) :
    Value → Except TranslateError Text
  | .str value =>
      if op = .eq then
        if U.lower value = "https".toList then .ok (bangIf negated (braced "ssl_fc".toList))
        else if U.lower value = "http".toList then
          .ok (bangIf negated (braced "!ssl_fc".toList))
        else .error (.schemeValue value)
      else .error .schemeOperator
  | _ => .error .schemeOperator

/-- A query parameter: `=` with a string.  The parser makes no comparison with the
operator `exists`, which is the other one the branch knows. -/
def translateQuery (key : Option Text) (negated : Bool) (op : CompareOp) :
    Value → Except TranslateError Text
  | .str value =>
      if op = .eq then
        let regex := "(^|&)".toList ++ reEscape (key.getD []) ++ '=' :: reEscape value ++
          "($|&)".toList
        .ok (bangIf negated (braced ("url_query -m reg ".toList ++ quoted regex)))
      else .error (.queryOperator key)
  | _ => .error (.queryOperator key)

/-- The operators whose condition takes the negation of the leaf; for the others
the source leaves it out. -/
def takesNegation : CompareOp → Bool
  | .ne | .notMatch => false
  | _ => true

/-- A comparison on a field of the static tables. -/
def translateCompare (env : Env) (field : Text) (negated : Bool) (op : CompareOp)
    (value : Value) : Except TranslateError Text := do
  let r ← resolveField env field
  if field = "http.request.scheme".toList then translateScheme env.unicode negated op value
  else if r.fetch = queryParam then translateQuery r.key negated op value
  else match value with
  | .bool value =>
      if op = .eq then
        let cond := boolFetchCond r.fetch field
        .ok (bangIf negated (if value then cond else bang cond))
      else .error (.booleanOperator field)
  | .str value =>
      -- a match flag on `method` would override its own matching method
      let plain :=
        if r.fetch = "method".toList then
          braced ("method ".toList ++ haproxyStringValue value)
        else matching r.fetch "str" (haproxyStringValue value)
      match stringCond r.fetch plain value op with
      | some cond => .ok (bangIf (negated && takesNegation op) cond)
      | none => .error (.stringOperator field op)
  | .int value =>
      match intCond r.fetch value op with
      | some cond => .ok (bangIf (negated && takesNegation op) cond)
      | none => .error (.integerOperator field op)

/-- The strings of a list literal, if it has nothing else. -/
def allStrings (values : List Item) : Option (List Text) :=
  values.mapM fun v => match v with
    | .str s => some s
    | .int _ => none

/-- The integers of a list literal, if it has nothing else. -/
def allInts (values : List Item) : Option (List Int) :=
  values.mapM fun v => match v with
    | .int n => some n
    | .str _ => none

/-- A list literal. -/
def translateLiterals (env : Env) (field : Text) (negated : Bool) (values : List Item) :
    Except TranslateError Text := do
  let r ← resolveField env field
  if values = [] then .error (.emptyList field)
  else match allStrings values with
  | some strings =>
      .ok (bangIf negated
        (matching r.fetch "str" (blankJoin (strings.map haproxyStringValue))))
  | none => match allInts values with
  | some ints =>
      .ok (bangIf negated (matching r.fetch "int" (blankJoin (ints.map intText))))
  | none => .error (.mixedList field)

/-- A security list. -/
def translateList (env : Env) (field : Text) (negated : Bool) (listType listName : Text) :
    Except TranslateError Text := do
  let r ← resolveField env field
  let path ← resolveListPath env listType listName
  match ListKind.read listType with
  | some .asn => .ok (bangIf negated (braced (r.fetch ++ " -m str -f ".toList ++ path)))
  | some .geo | some .network => .ok (bangIf negated (braced (r.fetch ++ " -f ".toList ++ path)))
  | some .ja4 => .ok (bangIf negated (braced ("lua.ja4_fp -f ".toList ++ path)))
  | some .pattern =>
      if r.type = .string then
        .ok (bangIf negated (braced (r.fetch ++ " -m reg -f ".toList ++ path)))
      else .error (.patternField field r.type)
  | none => .error (.unknownListType listType)

/-- The branch of `_translate_leaf` on a field of a risk ruleset; `none` falls
through to the static tables. -/
def translateRisk (fetch : Text) (l : Leaf) : Option (Except TranslateError Text) :=
  match l.kind with
  | .boolField field => some (.ok (bangIf l.negated (boolFetchCond fetch field)))
  | .exists _ => some (.ok (bangIf l.negated (braced (fetch ++ " -m found".toList))))
  | .compare field op value => some (translateRiskCompare fetch field l.negated op value)
  | _ => none

/-- The branches of `_translate_leaf` on a field of the static tables. -/
def translateStatic (env : Env) (l : Leaf) : Except TranslateError Text :=
  match l.kind with
  | .boolField field => do
      let r ← resolveField env field
      .ok (bangIf l.negated (boolFetchCond r.fetch field))
  | .exists field => do
      let r ← resolveField env field
      .ok (bangIf l.negated (braced (r.fetch ++ " -m found".toList)))
  | .compare field op value => translateCompare env field l.negated op value
  | .inLiterals field values => translateLiterals env field l.negated values
  | .inList field listType listName => translateList env field l.negated listType listName
  | .literal _ => .error .unknownNode

/-- The field of a risk ruleset the leaf is about; the empty name is not looked up. -/
def leafRisk (env : Env) (l : Leaf) : Except TranslateError (Option Resolved) :=
  match l.kind.field? with
  | some field => if field = [] then .ok none else resolveRiskRulesetField env field
  | none => .ok none

/-- `_translate_leaf`. -/
def translateLeaf (env : Env) (l : Leaf) : Except TranslateError Text := do
  let risk ← leafRisk env l
  match risk.bind fun r => translateRisk r.fetch l with
  | some result => result
  | none => translateStatic env l

mutual

/-- `_determine_phase`. -/
def determinePhase (env : Env) : Node → Except TranslateError Phase
  | .and cs => determinePhases env cs
  | .or cs => determinePhases env cs
  | .not c => determinePhase env c
  | .leaf l => (resolveField env (l.kind.field?.getD [])).map Resolved.phase

/-- The loop over the children, which ends at the first response field. -/
def determinePhases (env : Env) : List Node → Except TranslateError Phase
  | [] => .ok .request
  | c :: cs =>
      match determinePhase env c with
      | .error e => .error e
      | .ok .response => .ok .response
      | .ok .request => determinePhases env cs

end

/-- A group: its leaves side by side. -/
def translateGroup (env : Env) (group : List Leaf) : Except TranslateError Text :=
  (group.mapM (translateLeaf env)).map blankJoin

/-- `translate`: the condition and the phase. -/
def translate (env : Env) (ast : Node) : Except TranslateError (Text × Phase) := do
  let phase ← determinePhase env ast
  let groups ← (toDnf ast).mapM (translateGroup env)
  .ok (orJoin "or".toList groups, phase)

end CorexManager.Security
