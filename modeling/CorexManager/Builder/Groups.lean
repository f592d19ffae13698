import CorexManager.Builder.Tokenizer

/-!
# The groups of the rule builder

`parseToGroups`, which reads an expression as alternatives of conditions, and
`serializeGroups`, which writes them back.

* `groupsOf_lparen`, `groupsOf_not`, …: the loop one token at a time; the parentheses in
  front of a condition are skipped, and every second `not` is.
-/

namespace CorexManager.Builder

open Data (Text)

/-- `BuilderCondition`. -/
structure BuilderCondition where
  field : Text
  op : Text
  value : Text
  negated : Bool
  deriving DecidableEq, Repr

/-- `BuilderGroup`. -/
structure BuilderGroup where
  conditions : List BuilderCondition
  deriving DecidableEq, Repr

/-! ### Reading -/

/-- `while (tokens[i].type === type) i++`. -/
def skip (type : TokenType) (ts : List Token) : List Token := ts.dropWhile (·.type == type)

/-- The operator and the value behind a field, and what follows them. -/
def operatorOf (field : Text) (ts : List Token) : Text × Text × List Token :=
  if lower field = "true".toList ∨ lower field = "false".toList then ("literal".toList, [], ts)
  else match ts with
  | ⟨.operator, op⟩ :: ts =>
      if op = "exists".toList then (op, [], ts)
      else match ts with
      | ⟨.value, value⟩ :: ts => (op, value, ts)
      | ⟨.field, value⟩ :: ts => (op, value, ts)
      | ts => (op, [], ts)
  | ts => ("exists".toList, [], ts)

/-- A turn of the loop past its `not`: the condition pushed, if one is, and what is left;
`none` ends the loop. -/
def operand (negated : Bool) (ts : List Token) : Option (Option BuilderCondition × List Token) :=
  match skip .lparen ts with
  | [] => none
  | t :: ts =>
      if t.type = .field ∨ t.type = .value then
        let r := operatorOf t.value (skip .rparen ts)
        some (some ⟨t.value, r.1, r.2.1, negated⟩, skip .rparen r.2.2)
      else some (none, ts)

/-- A turn of the loop. -/
def turn (ts : List Token) : Option (Option BuilderCondition × List Token) :=
  match skip .lparen ts with
  | ⟨.not, _⟩ :: ts => operand true ts
  | ts => operand false ts

/-- The last group, unless it is empty. -/
def lastGroup (current : List BuilderCondition) : List BuilderGroup :=
  if current = [] then [] else [⟨current⟩]

/-- What is made of the delimiter behind a condition: the group it ends, if it does, the
conditions of the current group, and what is left. -/
def delimiter (current : List BuilderCondition) :
    List Token → List BuilderGroup × List BuilderCondition × List Token
  | ⟨.and, _⟩ :: ts => ([], current, ts)
  | ⟨.or, _⟩ :: ts => ([⟨current⟩], [], ts)
  | ts => ([], current, ts)

/-- The loop, with the conditions of the current group: the groups still to come. -/
def loop : Nat → List BuilderCondition → List Token → List BuilderGroup
  | 0, current, _ => lastGroup current
  | fuel + 1, current, ts =>
      match turn ts with
      | none => lastGroup current
      | some (none, ts) => loop fuel current ts
      | some (some c, ts) =>
          let r := delimiter (current ++ [c]) ts
          r.1 ++ loop fuel r.2.1 r.2.2

/-- The condition on the path that stands for no expression. -/
def defaultCondition (field : Text) : BuilderCondition := ⟨field, ['='], [], false⟩

/-- `parseToGroups`. -/
def parseToGroups (text defaultField : Text) : List BuilderGroup :=
  if text.all isSpace then [⟨[defaultCondition defaultField]⟩]
  else match tokenize text with
  | [] => [⟨[defaultCondition defaultField]⟩]
  | ts => match loop ts.length [] ts with
    | [] => [⟨[defaultCondition "http.request.uri.path".toList]⟩]
    | groups => groups

/-! ### Writing -/

/-- `trim`. -/
def trim (t : Text) : Text := ((t.dropWhile isSpace).reverse.dropWhile isSpace).reverse

/-- `startsWith(c) && endsWith(d)`. -/
def between (c d : Char) (t : Text) : Bool := t.head? == some c && t.getLast? == some d

/-- `/^\d+$/`. -/
def isDigits (t : Text) : Bool := !t.isEmpty && t.all Char.isDigit

/-- `/^-?\d+(\.\d+)?$/`. -/
def isNumber (t : Text) : Bool :=
  let t := if t.head? = some '-' then t.tail else t
  let whole := t.takeWhile Char.isDigit
  match t.dropWhile Char.isDigit with
  | [] => isDigits whole
  | '.' :: part => isDigits whole && isDigits part
  | _ => false

/-- `/^AS\d+$/i`. -/
def isAsNumber (t : Text) : Bool := lower (t.take 2) == ['a', 's'] && isDigits (t.drop 2)

/-- `"${val.replace(/\\/g, '\\\\').replace(/"/g, '\\"')}"`: a character is replaced by the
first of the two or by the second. -/
def escaped (t : Text) : Text :=
  '"' :: t.flatMap (fun c => if c = '"' ∨ c = '\\' then ['\\', c] else [c]) ++ ['"']

/-- The text of a value that is not empty. -/
def serializeValue (value : Text) : Text :=
  let val := trim value
  if between '"' '"' val || between '\'' '\'' val then val
  else if isNumber val then val
  else if val = "true".toList ∨ val = "false".toList then val
  else if val.head? = some '$' then val
  else if isAsNumber val then val
  else if between '[' ']' val then val
  else escaped val

/-- `parts.join(sep)`. -/
def join (sep : Text) : List Text → Text
  | [] => []
  | t :: ts => t ++ ts.flatMap (sep ++ ·)

/-- `serializeCondition`. -/
def serializeCondition (c : BuilderCondition) : Text :=
  let parts := (if c.negated then ["not".toList] else []) ++ [c.field]
  if c.op = "literal".toList then join [' '] parts
  else if c.op = "exists".toList then join [' '] (parts ++ [c.op])
  else if c.value = [] then join [' '] (parts ++ [c.op])
  else join [' '] (parts ++ [c.op, serializeValue c.value])

/-- `serializeGroups`. -/
def serializeGroups (groups : List BuilderGroup) : Text :=
  join " or ".toList ((groups.map fun g =>
    join " and ".toList ((g.conditions.map serializeCondition).filter (· ≠ []))).filter (· ≠ []))

/-- What is saved when an expression is opened in the builder and not changed. -/
def saved (text defaultField : Text) : Text := serializeGroups (parseToGroups text defaultField)

end CorexManager.Builder
