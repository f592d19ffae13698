import CorexManager.Data.Json
import CorexManager.Expression.Parser
import CorexManager.Rust.Regex

/-!
# The expression engine of the gateway: texts to trees

`expression.rs`, a second tokenizer and parser of the expression language.  The tokens, the
operators and the scan of a quoted string are those of the first; the classes of characters
are Rust's, integers are `i64`, and the patterns of `~` and `!~` are compiled as they are
read.  `none` is an `Err`, whose text is only logged.
-/

namespace CorexManager.Gateway

open Data (Text)
open Expression (CompareOp Keyword Token TokenKind Value bracketField keywordOf
  oneCharOp parserFuel peek punctuation scanString splitColon twoCharOp)
open Rust (Regex RegexEngine UnicodeTables)

/-! ### Syntax trees -/

/-- A syntax tree (`Expr`); a literal of the source is a `Value`. -/
inductive Expr where
  | and (children : List Expr)
  | or (children : List Expr)
  | not (child : Expr)
  | compare (field : Text) (op : CompareOp) (value : Value) (regex : Option Regex)
  | inList (field listType listName : Text) (negated : Bool)
  | inLiterals (field : Text) (values : List Value) (negated : Bool)
  | exists (field : Text) (negated : Bool)
  | boolField (field : Text) (negated : Bool)
  | literal (value : Bool)

/-! ### The tokenizer -/

/-- One turn of the loop at the character `c` with `cs` after it. -/
def lexeme (U : UnicodeTables) (c : Char) (cs : Text) : Option (Option TokenKind × Text) :=
  if Rust.isWhitespace c then some (none, cs)
  else match punctuation c with
  | some kind => some (some kind, cs)
  | none => match twoCharOp c cs.head? with
  | some op => some (some (.op op), cs.tail)
  | none => match oneCharOp c with
  | some op => some (some (.op op), cs)
  | none =>
  if c = '"' ∨ c = '\'' then
    (scanString c cs).map fun r => (some (.string r.1), r.2)
  else if c.isDigit ∨ (c = '-' ∧ cs.head?.any Char.isDigit) then
    -- the sign is part of what is parsed, so the range of `i64` is that of the literal
    (Rust.parseI64 (c :: cs.takeWhile Char.isDigit)).map fun n =>
      (some (.number n), cs.dropWhile Char.isDigit)
  else if c = '$' then
    let part := fun d => U.isAlphanumeric d || d == ':' || d == '.' || d == '_' || d == '-'
    let ref := cs.takeWhile part
    if ref = [] then none
    else (splitColon ref).map fun r => (some (.listref r.1 r.2), cs.dropWhile part)
  else if (c = 'A' ∨ c = 'a') ∧ (cs.head? = some 'S' ∨ cs.head? = some 's') ∧
      cs.tail.head?.any Char.isDigit then
    some (some (.string ('A' :: 'S' :: cs.tail.takeWhile Char.isDigit)),
      cs.tail.dropWhile Char.isDigit)
  else if U.isAlphabetic c ∨ c = '_' then
    let part := fun d => U.isAlphanumeric d || d == '.' || d == '_'
    let word := c :: cs.takeWhile part
    let kind := match keywordOf word with
      | some k => .keyword k
      | none => .ident word
    some (some kind, cs.dropWhile part)
  else none

/-- The tokens of what is left of a text of length `n`. -/
def tokenizeFrom (U : UnicodeTables) (n : Nat) : Nat → Text → Option (List Token)
  | _, [] => some [⟨.eof, n⟩]
  | 0, _ :: _ => none
  | fuel + 1, c :: cs =>
      let pos := n - (c :: cs).length
      match lexeme U c cs with
      | none => none
      | some (kind, rest) =>
          (tokenizeFrom U n fuel rest).map fun ts => (kind.map (⟨·, pos⟩)).toList ++ ts

/-- `tokenize`. -/
def tokenize (U : UnicodeTables) (text : Text) : Option (List Token) :=
  tokenizeFrom U text.length text.length text

/-! ### The parser -/

/-- `expect_kind`. -/
def expectKind (kind : TokenKind) (ts : List Token) : Option (List Token) :=
  if (peek ts).kind = kind then some ts.tail else none

/-- `parse_value`. -/
def parseValue (ts : List Token) : Option (Value × List Token) :=
  match (peek ts).kind with
  | .string s => some (.str s, ts.tail)
  | .number n => some (.int n, ts.tail)
  | .keyword .true => some (.bool true, ts.tail)
  | .keyword .false => some (.bool false, ts.tail)
  | _ => none

/-- `Literal::as_str`. -/
def asStr : Value → Text
  | .str s => s
  | .int n => Data.intText n
  | .bool b => (if b then "true" else "false").toList

/-- `parse_op`: the pattern of `~` and `!~`; the outer `none` is one that is refused. -/
def parseOp (E : RegexEngine) (op : CompareOp) (value : Value) : Option (Option Regex) :=
  if op = .match ∨ op = .notMatch then (E.new (asStr value)).map some else some none

/-- The values of a list, up to its closing bracket. -/
def parseValues : Nat → List Token → Option (List Value × List Token)
  | 0, _ => none
  | fuel + 1, ts => do
      let (v, ts) ← parseValue ts
      if (peek ts).kind = .comma then
        let (vs, ts) ← parseValues fuel ts.tail
        some (v :: vs, ts)
      else some ([v], ts)

/-- `parse_in`. -/
def parseIn (field : Text) (negated : Bool) (ts : List Token) : Option (Expr × List Token) :=
  match (peek ts).kind with
  | .listref listType listName => some (.inList field listType listName negated, ts.tail)
  | .lbracket =>
      if (peek ts.tail).kind = .rbracket then
        some (.inLiterals field [] negated, ts.tail.tail)
      else do
        let (values, ts) ← parseValues ts.length ts.tail
        let ts ← expectKind .rbracket ts
        some (.inLiterals field values negated, ts)
  | _ => none

/-- The field of a condition, with its key in brackets. -/
def parseField (ts : List Token) : Option (Text × List Token) :=
  match (peek ts).kind with
  | .ident field =>
      if (peek ts.tail).kind = .lbracket then
        match (peek ts.tail.tail).kind with
        | .string key => do
            let ts ← expectKind .rbracket ts.tail.tail.tail
            some (bracketField field key, ts)
        | _ => none
      else some (field, ts.tail)
  | _ => none

/-- What follows the field of a condition, and its `not` if it has one. -/
def parseOperator (E : RegexEngine) (boolFields : List Text) (field : Text) (negated : Bool)
    (ts : List Token) : Option (Expr × List Token) :=
  match (peek ts).kind with
  | .keyword .in => parseIn field negated ts.tail
  | .keyword .exists => some (.exists field negated, ts.tail)
  | .eof | .rparen | .keyword .and | .keyword .or =>
      if field ∈ boolFields then some (.boolField field negated, ts) else none
  | .op op => do
      let (value, ts) ← parseValue ts.tail
      let regex ← parseOp E op value
      some (.compare field op value regex, ts)
  | kind =>
      match Expression.keywordOp kind with
      | some op => do
          let (value, ts) ← parseValue ts.tail
          some (.compare field op value none, ts)
      | none => none

/-- `parse_condition`. -/
def parseCondition (E : RegexEngine) (boolFields : List Text) (ts : List Token) :
    Option (Expr × List Token) := do
  let (field, ts) ← parseField ts
  if (peek ts).kind = .keyword .not then
    let next := peek ts.tail
    if next.kind = .keyword .in ∨ next.kind = .keyword .exists then
      parseOperator E boolFields field true ts.tail
    else none
  else parseOperator E boolFields field false ts

/-- One child is itself, several are a connective. -/
def joined (node : List Expr → Expr) : List Expr → Expr
  | [e] => e
  | es => node es

mutual

/-- `parse_or`. -/
def parseOr (E : RegexEngine) (boolFields : List Text) : Nat → List Token →
    Option (Expr × List Token)
  | 0, _ => none
  | fuel + 1, ts => do
      let (e, ts) ← parseAnd E boolFields fuel ts
      let (es, ts) ← parseOrRest E boolFields fuel ts
      some (joined .or (e :: es), ts)

/-- The loop of `parse_or`. -/
def parseOrRest (E : RegexEngine) (boolFields : List Text) : Nat → List Token →
    Option (List Expr × List Token)
  | 0, _ => none
  | fuel + 1, ts =>
      if (peek ts).kind = .keyword .or then do
        let (e, ts) ← parseAnd E boolFields fuel ts.tail
        let (es, ts) ← parseOrRest E boolFields fuel ts
        some (e :: es, ts)
      else some ([], ts)

/-- `parse_and`. -/
def parseAnd (E : RegexEngine) (boolFields : List Text) : Nat → List Token →
    Option (Expr × List Token)
  | 0, _ => none
  | fuel + 1, ts => do
      let (e, ts) ← parseNot E boolFields fuel ts
      let (es, ts) ← parseAndRest E boolFields fuel ts
      some (joined .and (e :: es), ts)

/-- The loop of `parse_and`. -/
def parseAndRest (E : RegexEngine) (boolFields : List Text) : Nat → List Token →
    Option (List Expr × List Token)
  | 0, _ => none
  | fuel + 1, ts =>
      if (peek ts).kind = .keyword .and then do
        let (e, ts) ← parseNot E boolFields fuel ts.tail
        let (es, ts) ← parseAndRest E boolFields fuel ts
        some (e :: es, ts)
      else some ([], ts)

/-- `parse_not`. -/
def parseNot (E : RegexEngine) (boolFields : List Text) : Nat → List Token →
    Option (Expr × List Token)
  | 0, _ => none
  | fuel + 1, ts =>
      if (peek ts).kind = .keyword .not then do
        let (e, ts) ← parseNot E boolFields fuel ts.tail
        some (.not e, ts)
      else parsePrimary E boolFields fuel ts

/-- `parse_primary`. -/
def parsePrimary (E : RegexEngine) (boolFields : List Text) : Nat → List Token →
    Option (Expr × List Token)
  | 0, _ => none
  | fuel + 1, ts =>
      match (peek ts).kind with
      | .lparen => do
          let (e, ts) ← parseOr E boolFields fuel ts.tail
          let ts ← expectKind .rparen ts
          some (e, ts)
      | .keyword .true => some (.literal true, ts.tail)
      | .keyword .false => some (.literal false, ts.tail)
      | _ => parseCondition E boolFields ts

end

/-- `Parser::parse`. -/
def parseTokens (E : RegexEngine) (boolFields : List Text) (ts : List Token) : Option Expr := do
  let (e, ts) ← parseOr E boolFields (parserFuel ts.length) ts
  if (peek ts).kind = .eof then some e else none

/-- `parse_expression_with_bool_fields`. -/
def parseExpressionWithBoolFields (E : RegexEngine) (U : UnicodeTables) (boolFields : List Text)
    (text : Text) : Option Expr :=
  if (Rust.trim text).isEmpty then none
  else do
    let ts ← tokenize U text
    parseTokens E boolFields ts

/-- `parse_expression`. -/
def parseExpression (E : RegexEngine) (U : UnicodeTables) (text : Text) : Option Expr :=
  parseExpressionWithBoolFields E U [] text

end CorexManager.Gateway
