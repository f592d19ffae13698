import CorexManager.Gateway.Expression

/-!
# The expression engine of the gateway: trees to truth values

`resolve_field_value`, `evaluate` and `build_mcp_context`.  A slice of a text whose end lies
before its beginning panics, so every result is an `Option`, and `none` is a panic: the task
of the request dies with it.
-/

namespace CorexManager.Gateway

open Data (Dict.lookup Json JsonText Number Text intText)
open Expression (CompareOp Value)
open Rust (Regex RegexEngine UnicodeTables parseI64)

/-- What the gateway is built on: the `regex` crate, the Unicode tables, floating-point
numbers (a text read as an `f64`, and an `f64`, both cast to `i64`; the text of an `f64`),
the JSON of `serde_json`, and the limits it reads from the environment. -/
structure Platform where
  regex : RegexEngine
  unicode : UnicodeTables
  parseF64 : Text → Option Int
  floatAsI64 : UInt64 → Int
  floatText : UInt64 → Text
  json : JsonText
  dlpMaxScanLength : Nat
  guardrailMaxScanLength : Nat

/-- The fields of a context. -/
abbrev Fields := List (Text × Json)

/-- `EvalContext`. -/
structure EvalContext where
  fields : Fields
  listResolver : Option (Text → Text → Text → Bool)

/-! ### Fields -/

/-- The loop over a dotted path. -/
def descend : Json → List Text → Option Json
  | v, [] => some v
  | .obj fields, part :: parts =>
      match Dict.lookup fields part with
      | some v => descend v parts
      | none => none
  | _, _ :: _ => none

/-- The part of `resolve_field_value` for `base["key"]`, when the last `["` begins before the
last `"]`. -/
def resolveKey (ctx : Fields) (field : Text) (bracket last : Nat) : Option (Option Json) := do
  let base ← Rust.slice field 0 bracket
  let key ← Rust.slice field (bracket + 2) last
  some (((Dict.lookup ctx base).bind Json.asObject).bind fun entries => Dict.lookup entries key)

/-- `resolve_field_value`: the inner `none` is a field that is missing. -/
def resolveFieldValue (field : Text) (ctx : Fields) : Option (Option Json) :=
  let plain := match Dict.lookup ctx field with
    | some v => some v
    | none => descend (.obj ctx) (field.splitOn '.')
  match Rust.rfind "[\"".toList field, Rust.rfind "\"]".toList field with
  | some bracket, some last =>
      if bracket < last then resolveKey ctx field bracket last else some plain
  | _, _ => some plain

/-! ### Coercions -/

/-- `value_truthy`. -/
def valueTruthy : Json → Bool
  | .null => false
  | .bool b => b
  | .num (.int n) => n != 0
  | .num (.float bits) => bits != 0 && bits != 0x8000000000000000
  | .str s => !s.isEmpty
  | .arr items => !items.isEmpty
  | .obj fields => !fields.isEmpty

/-- `is_empty`. -/
def isEmpty : Json → Bool
  | .null => true
  | .str s => s.isEmpty
  | _ => false

/-- `value_to_string`. -/
def valueToString (P : Platform) : Json → Text
  | .str s => s
  | .bool b => (if b then "true" else "false").toList
  | .num (.int n) => intText n
  | .num (.float bits) => P.floatText bits
  | .null => []
  | v => P.json.dumps v

/-- `value_to_i64`.  An integer that is not an `i64` is cast from its `f64`, which is out of
range as well, so the cast saturates. -/
def valueToI64 (P : Platform) : Json → Option Int
  | .num (.int n) =>
      some (match Rust.toI64 n with
        | some n => n
        | none => if n < 0 then -2 ^ 63 else 2 ^ 63 - 1)
  | .num (.float bits) => some (P.floatAsI64 bits)
  | .str s =>
      match parseI64 s with
      | some n => some n
      | none => P.parseF64 s
  | .bool b => some (if b then 1 else 0)
  | _ => none

/-! ### Leaves -/

/-- `evaluate_compare` with an integer. -/
def compareInt (actual : Option Int) (n : Int) : CompareOp → Bool
  | .eq => actual == some n
  | .ne => actual != some n
  | .gt => actual.any fun a => n < a
  | .lt => actual.any fun a => a < n
  | .ge => actual.any fun a => n ≤ a
  | .le => actual.any fun a => a ≤ n
  | _ => false

/-- `evaluate_compare` with a text. -/
def compareStr (actual s : Text) (regex : Option Regex) : CompareOp → Bool
  | .eq => actual == s
  | .ne => actual != s
  | .match => regex.any fun r => r.isMatch actual
  | .notMatch => regex.any fun r => !r.isMatch actual
  | .contains => decide (s <:+: actual)
  | .startsWith => s.isPrefixOf actual
  | .endsWith => s.isSuffixOf actual
  | _ => false

/-- `evaluate_compare` with a value that is there. -/
def compareValue (P : Platform) (actual : Json) (op : CompareOp) (regex : Option Regex) :
    Value → Bool
  | .bool b => op == .eq && valueTruthy actual == b
  | .int n => compareInt (valueToI64 P actual) n op
  | .str s => compareStr (valueToString P actual) s regex op

/-- `literal_matches`. -/
def literalMatches (P : Platform) (actual : Json) : Value → Bool
  | .str s => valueToString P actual == s
  | .int n => valueToI64 P actual == some n
  | .bool b => valueTruthy actual == b

/-- The result of a leaf that can be negated. -/
def negateIf (negated result : Bool) : Bool := if negated then !result else result

mutual

/-- `evaluate`. -/
def evaluate (P : Platform) (ctx : EvalContext) : Expr → Option Bool
  | .and es => evaluateAll P ctx es
  | .or es => evaluateAny P ctx es
  | .not e => (evaluate P ctx e).map not
  | .literal b => some b
  | .boolField field negated =>
      (resolveFieldValue field ctx.fields).map fun v => negateIf negated (v.any valueTruthy)
  | .exists field negated =>
      (resolveFieldValue field ctx.fields).map fun v =>
        negateIf negated (v.any fun v => !isEmpty v)
  | .compare field op value regex =>
      (resolveFieldValue field ctx.fields).map fun v =>
        v.any fun v => compareValue P v op regex value
  | .inLiterals field values negated =>
      (resolveFieldValue field ctx.fields).map fun v =>
        match v with
        | none => negated
        | some v => negateIf negated (values.any (literalMatches P v))
  | .inList field listType listName negated =>
      (resolveFieldValue field ctx.fields).map fun v =>
        match v, ctx.listResolver with
        | some v, some resolver =>
            negateIf negated (resolver listType listName (valueToString P v))
        | _, _ => negated

/-- `all`, which stops at the first false child. -/
def evaluateAll (P : Platform) (ctx : EvalContext) : List Expr → Option Bool
  | [] => some true
  | e :: es =>
      match evaluate P ctx e with
      | none => none
      | some false => some false
      | some true => evaluateAll P ctx es

/-- `any`, which stops at the first true child. -/
def evaluateAny (P : Platform) (ctx : EvalContext) : List Expr → Option Bool
  | [] => some false
  | e :: es =>
      match evaluate P ctx e with
      | none => none
      | some true => some true
      | some false => evaluateAny P ctx es

end

/-! ### The context of a call -/

/-- A claim that is flattened for access by a dotted path. -/
def flattened (P : Platform) (claims : Option Json) (claim field : Text) : Fields :=
  match (claims.bind Json.asObject).bind fun entries => Dict.lookup entries claim with
  | some v => [(field, .str (valueToString P v))]
  | none => []

/-- `build_mcp_context`. -/
def buildMcpContext (P : Platform) (method server tool resource prompt identityName identityKind
    teamSlug : Text) (args claims : Option Json) (ipSrc : Text) : EvalContext where
  fields :=
    [("mcp.method".toList, .str method), ("mcp.server".toList, .str server),
      ("mcp.tool".toList, .str tool), ("mcp.resource".toList, .str resource),
      ("mcp.prompt".toList, .str prompt), ("mcp.identity".toList, .str identityName),
      ("mcp.identity.kind".toList, .str identityKind), ("mcp.team".toList, .str teamSlug),
      ("mcp.arg".toList, args.getD (.obj [])), ("auth.claim".toList, claims.getD (.obj [])),
      ("ip.src".toList, .str ipSrc)] ++
    flattened P claims "sub".toList "auth.claim.sub".toList ++
    flattened P claims "iss".toList "auth.claim.iss".toList ++
    flattened P claims "aud".toList "auth.claim.aud".toList
  listResolver := none

end CorexManager.Gateway
