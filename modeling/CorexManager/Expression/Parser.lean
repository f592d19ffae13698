import CorexManager.Expression.Tokenizer

/-!
# The parser

`_Parser` and `parse_expression`: recursive descent over the token list, `or`
below `and` below `not`.  The position `self.pos` of the source is the list of
tokens still to be read.  Fuel bounds the recursion; it counts calls, at most
five of which can happen between two consumed tokens.
-/

namespace CorexManager.Expression

open Data (Text)
open Python (UnicodeTables)

/-- `peek`.  The token list ends with the end-of-file token, which no caller
advances over, so the list is never empty. -/
def peek (ts : List Token) : Token := ts.headD ⟨.eof, 0⟩

/-- `expect`. -/
def expect (kind : TokenKind) (ts : List Token) : Except ParseError (List Token) :=
  if (peek ts).kind = kind then .ok ts.tail else .error (.expected kind (peek ts))

/-- The tokens a comparison or list takes as a value, as far as they agree. -/
def itemOf : TokenKind → Option Item
  | .string s => some (.str s)
  | .number n => some (.int n)
  | _ => none

/-- An item as the value of a comparison. -/
def Item.value : Item → Value
  | .str s => .str s
  | .int n => .int n

/-- The tokens a symbolic operator takes as its value. -/
def valueOf : TokenKind → Option Value
  | .keyword .true => some (.bool true)
  | .keyword .false => some (.bool false)
  | kind => (itemOf kind).map Item.value

/-- The operator a keyword token stands for. -/
def keywordOp : TokenKind → Option CompareOp
  | .keyword .contains => some .contains
  | .keyword .startsWith => some .startsWith
  | .keyword .endsWith => some .endsWith
  | _ => none

/-- The values of a list literal, up to its closing bracket. -/
def parseItems : List Token → Except ParseError (List Item × List Token)
  | [] => .error (.expectedListValue 0)
  | t :: ts =>
      match itemOf t.kind with
      | none => .error (.expectedListValue t.pos)
      | some v =>
          match ts with
          | ⟨.comma, _⟩ :: ts => (parseItems ts).map fun r => (v :: r.1, r.2)
          | ts => .ok ([v], ts)

/-- `_parse_in`. -/
def parseIn (field : Text) (negated : Bool) (ts : List Token) :
    Except ParseError (Node × List Token) :=
  match (peek ts).kind with
  | .listref listType listName =>
      .ok (.leaf ⟨.inList field listType listName, negated⟩, ts.tail)
  | .lbracket =>
      if (peek ts.tail).kind = .rbracket then
        .ok (.leaf ⟨.inLiterals field [], negated⟩, ts.tail.tail)
      else do
        let (values, ts) ← parseItems ts.tail
        let ts ← expect .rbracket ts
        .ok (.leaf ⟨.inLiterals field values, negated⟩, ts)
  | _ => .error (.expectedList (peek ts).pos)

/-- `f'{field}["{bracket_key}"]'`. -/
def bracketField (field key : Text) : Text := field ++ "[\"".toList ++ key ++ "\"]".toList

/-- The field of a condition, with its bracket key. -/
def parseField (ts : List Token) : Except ParseError (Text × List Token) :=
  match (peek ts).kind with
  | .ident field =>
      if (peek ts.tail).kind = .lbracket then
        match (peek ts.tail.tail).kind with
        | .string key => do
            let ts ← expect .rbracket ts.tail.tail.tail
            .ok (bracketField field key, ts)
        | _ => .error (.expectedKey (peek ts.tail.tail).pos)
      else .ok (field, ts.tail)
  | _ => .error (.expectedField (peek ts))

/-- What follows the field of a condition, and its `not` if it has one. -/
def parseOperator (boolFields : List Text) (field : Text) (negated : Bool)
    (ts : List Token) : Except ParseError (Node × List Token) :=
  let tok := peek ts
  match tok.kind with
  | .keyword .in => parseIn field negated ts.tail
  | .keyword .exists => .ok (.leaf ⟨.exists field, negated⟩, ts.tail)
  | .eof | .rparen | .keyword .and | .keyword .or =>
      if field ∈ boolFields then .ok (.leaf ⟨.boolField field, negated⟩, ts)
      else .error (.requiresOperator field tok.pos)
  | .op op =>
      match valueOf (peek ts.tail).kind with
      | some v => .ok (.leaf ⟨.compare field op v, false⟩, ts.tail.tail)
      | none => .error (.expectedValue op (peek ts.tail).pos)
  | kind =>
      match keywordOp kind with
      | some op =>
          match itemOf (peek ts.tail).kind with
          | some v => .ok (.leaf ⟨.compare field op v.value, false⟩, ts.tail.tail)
          | none => .error (.expectedValue op (peek ts.tail).pos)
      | none => .error (.expectedOperator field tok.pos)

/-- `_parse_condition`. -/
def parseCondition (boolFields : List Text) (ts : List Token) :
    Except ParseError (Node × List Token) := do
  let (field, ts) ← parseField ts
  if (peek ts).kind = .keyword .not then
    let next := peek ts.tail
    if next.kind = .keyword .in ∨ next.kind = .keyword .exists then
      parseOperator boolFields field true ts.tail
    else .error (.expectedInOrExists next.pos)
  else parseOperator boolFields field false ts

/-- One child is itself, several are a connective. -/
def connective (node : List Node → Node) : List Node → Node
  | [c] => c
  | cs => node cs

mutual

/-- `_parse_or`. -/
def parseOr (boolFields : List Text) : Nat → List Token →
    Except ParseError (Node × List Token)
  | 0, _ => .error .outOfFuel
  | fuel + 1, ts => do
      let (c, ts) ← parseAnd boolFields fuel ts
      let (cs, ts) ← parseOrRest boolFields fuel ts
      .ok (connective .or (c :: cs), ts)

/-- The loop of `_parse_or`. -/
def parseOrRest (boolFields : List Text) : Nat → List Token →
    Except ParseError (List Node × List Token)
  | 0, _ => .error .outOfFuel
  | fuel + 1, ts =>
      if (peek ts).kind = .keyword .or then do
        let (c, ts) ← parseAnd boolFields fuel ts.tail
        let (cs, ts) ← parseOrRest boolFields fuel ts
        .ok (c :: cs, ts)
      else .ok ([], ts)

/-- `_parse_and`. -/
def parseAnd (boolFields : List Text) : Nat → List Token →
    Except ParseError (Node × List Token)
  | 0, _ => .error .outOfFuel
  | fuel + 1, ts => do
      let (c, ts) ← parseNot boolFields fuel ts
      let (cs, ts) ← parseAndRest boolFields fuel ts
      .ok (connective .and (c :: cs), ts)

/-- The loop of `_parse_and`. -/
def parseAndRest (boolFields : List Text) : Nat → List Token →
    Except ParseError (List Node × List Token)
  | 0, _ => .error .outOfFuel
  | fuel + 1, ts =>
      if (peek ts).kind = .keyword .and then do
        let (c, ts) ← parseNot boolFields fuel ts.tail
        let (cs, ts) ← parseAndRest boolFields fuel ts
        .ok (c :: cs, ts)
      else .ok ([], ts)

/-- `_parse_not`. -/
def parseNot (boolFields : List Text) : Nat → List Token →
    Except ParseError (Node × List Token)
  | 0, _ => .error .outOfFuel
  | fuel + 1, ts =>
      if (peek ts).kind = .keyword .not then do
        let (c, ts) ← parseNot boolFields fuel ts.tail
        .ok (.not c, ts)
      else parsePrimary boolFields fuel ts

/-- `_parse_primary`. -/
def parsePrimary (boolFields : List Text) : Nat → List Token →
    Except ParseError (Node × List Token)
  | 0, _ => .error .outOfFuel
  | fuel + 1, ts =>
      match (peek ts).kind with
      | .lparen => do
          let (node, ts) ← parseOr boolFields fuel ts.tail
          let ts ← expect .rparen ts
          .ok (node, ts)
      | .keyword .true => .ok (.leaf ⟨.literal true, false⟩, ts.tail)
      | .keyword .false => .ok (.leaf ⟨.literal false, false⟩, ts.tail)
      | _ => parseCondition boolFields ts

end

/-- Calls that can be nested over `n` tokens. -/
def parserFuel (n : Nat) : Nat := 5 * n + 5

/-- `_Parser.parse`. -/
def parseTokens (boolFields : List Text) (ts : List Token) : Except ParseError Node := do
  let (node, ts) ← parseOr boolFields (parserFuel ts.length) ts
  if (peek ts).kind = .eof then .ok node else .error (.unexpectedToken (peek ts))

/-- `parse_expression`. -/
def parseExpression (U : UnicodeTables) (boolFields : List Text) (text : Text) :
    Except ParseError Node :=
  if text.all U.space then .error .required
  else do
    let ts ← tokenize U text
    parseTokens boolFields ts

/-- Parsing goes through the tokens. -/
theorem parseExpression_of_tokens {U : UnicodeTables} {boolFields : List Text} {text : Text}
    {ts : List Token} (hblank : text.all U.space = false) (htok : tokenize U text = .ok ts) :
    parseExpression U boolFields text = parseTokens boolFields ts := by
  rw [parseExpression, hblank, htok]
  rfl

/-- `validate_expression`: blank text is valid and has no tree. -/
def validateExpression (U : UnicodeTables) (boolFields : List Text) (text : Text) :
    Except ParseError (Option Node) :=
  if text.all U.space then .ok none
  else (parseExpression U boolFields text).map some

/-! ### What the parser builds -/

theorem bind_ok {α β : Type} {x : Except ParseError α} {f : α → Except ParseError β}
    {b : β} (h : x >>= f = .ok b) : ∃ a, x = .ok a ∧ f a = .ok b := by
  cases x with
  | error e => cases h
  | ok a => exact ⟨a, rfl, h⟩

private theorem parseIn_proper {field : Text} {negated : Bool} {ts rest : List Token} {n : Node}
    (h : parseIn field negated ts = .ok (n, rest)) : n.Proper := by
  unfold parseIn at h
  split at h
  · cases h; trivial
  · split at h
    · cases h; trivial
    · obtain ⟨r, -, h⟩ := bind_ok h
      obtain ⟨ts', -, h⟩ := bind_ok h
      cases h; trivial
  · cases h

private theorem parseOperator_proper {boolFields : List Text} {field : Text} {negated : Bool}
    {ts rest : List Token} {n : Node}
    (h : parseOperator boolFields field negated ts = .ok (n, rest)) : n.Proper := by
  unfold parseOperator at h
  dsimp only at h
  split at h
  case h_1 => exact parseIn_proper h
  case h_2 => cases h; trivial
  case h_7 => split at h <;> cases h; trivial
  case h_8 =>
    split at h
    · split at h <;> cases h; trivial
    · cases h
  all_goals
    split at h <;> cases h
    trivial

private theorem parseCondition_proper {boolFields : List Text} {ts rest : List Token} {n : Node}
    (h : parseCondition boolFields ts = .ok (n, rest)) : n.Proper := by
  obtain ⟨r, -, h⟩ := bind_ok h
  obtain ⟨field, ts'⟩ := r
  dsimp only at h
  split at h
  · split at h
    · exact parseOperator_proper h
    · cases h
  · exact parseOperator_proper h

private theorem connective_proper {node : List Node → Node} {c : Node} {cs : List Node}
    (hnode : ∀ ds : List Node, ds ≠ [] → (∀ d ∈ ds, d.Proper) → (node ds).Proper)
    (hc : c.Proper) (hcs : ∀ d ∈ cs, d.Proper) : (connective node (c :: cs)).Proper := by
  cases cs with
  | nil => exact hc
  | cons d ds => exact hnode _ (by simp) (List.forall_mem_cons.mpr ⟨hc, hcs⟩)

/-- What each of the mutually recursive functions builds with a given fuel. -/
private def BuildsProper (boolFields : List Text) (fuel : Nat) : Prop :=
  (∀ ts n rest, parseOr boolFields fuel ts = .ok (n, rest) → n.Proper) ∧
  (∀ ts cs rest, parseOrRest boolFields fuel ts = .ok (cs, rest) → ∀ c ∈ cs, c.Proper) ∧
  (∀ ts n rest, parseAnd boolFields fuel ts = .ok (n, rest) → n.Proper) ∧
  (∀ ts cs rest, parseAndRest boolFields fuel ts = .ok (cs, rest) → ∀ c ∈ cs, c.Proper) ∧
  (∀ ts n rest, parseNot boolFields fuel ts = .ok (n, rest) → n.Proper) ∧
  (∀ ts n rest, parsePrimary boolFields fuel ts = .ok (n, rest) → n.Proper)

/-- The six functions call each other with one unit of fuel less, so one induction
on the fuel covers them all. -/
private theorem builds_proper (boolFields : List Text) (fuel : Nat) :
    BuildsProper boolFields fuel := by
  induction fuel with
  | zero =>
      refine ⟨?_, ?_, ?_, ?_, ?_, ?_⟩ <;> intro ts n rest h
      · cases h
      · cases h
      · cases h
      · cases h
      · cases h
      · cases h
  | succ fuel ih =>
      obtain ⟨hor, horRest, hand, handRest, hnot, hprimary⟩ := ih
      refine ⟨?_, ?_, ?_, ?_, ?_, ?_⟩
      · intro ts n rest h
        obtain ⟨⟨c, ts₁⟩, hc, h⟩ := bind_ok h
        obtain ⟨⟨cs, ts₂⟩, hcs, h⟩ := bind_ok h
        cases h
        exact connective_proper (fun ds hne hds => ⟨hne, (properAll_iff ds).mpr hds⟩)
          (hand _ _ _ hc) (horRest _ _ _ hcs)
      · intro ts cs rest h
        rw [parseOrRest] at h
        split at h
        · obtain ⟨⟨c, ts₁⟩, hc, h⟩ := bind_ok h
          obtain ⟨⟨ds, ts₂⟩, hds, h⟩ := bind_ok h
          cases h
          exact List.forall_mem_cons.mpr ⟨hand _ _ _ hc, horRest _ _ _ hds⟩
        · cases h; simp
      · intro ts n rest h
        obtain ⟨⟨c, ts₁⟩, hc, h⟩ := bind_ok h
        obtain ⟨⟨cs, ts₂⟩, hcs, h⟩ := bind_ok h
        cases h
        exact connective_proper (fun ds hne hds => ⟨hne, (properAll_iff ds).mpr hds⟩)
          (hnot _ _ _ hc) (handRest _ _ _ hcs)
      · intro ts cs rest h
        rw [parseAndRest] at h
        split at h
        · obtain ⟨⟨c, ts₁⟩, hc, h⟩ := bind_ok h
          obtain ⟨⟨ds, ts₂⟩, hds, h⟩ := bind_ok h
          cases h
          exact List.forall_mem_cons.mpr ⟨hnot _ _ _ hc, handRest _ _ _ hds⟩
        · cases h; simp
      · intro ts n rest h
        rw [parseNot] at h
        split at h
        · obtain ⟨⟨c, ts₁⟩, hc, h⟩ := bind_ok h
          cases h
          have hproper : c.Proper := hnot _ _ _ hc
          exact hproper
        · exact hprimary _ _ _ h
      · intro ts n rest h
        rw [parsePrimary] at h
        split at h
        · obtain ⟨⟨node, ts₁⟩, hnode, h⟩ := bind_ok h
          obtain ⟨ts₂, -, h⟩ := bind_ok h
          cases h
          exact hor _ _ _ hnode
        · cases h; trivial
        · cases h; trivial
        · exact parseCondition_proper h

/-- **Every tree the parser returns is proper.** -/
theorem parseExpression_proper {U : UnicodeTables} {boolFields : List Text} {text : Text}
    {n : Node} (h : parseExpression U boolFields text = .ok n) : n.Proper := by
  unfold parseExpression at h
  split at h
  · cases h
  · obtain ⟨ts, -, h⟩ := bind_ok h
    obtain ⟨⟨node, rest⟩, hnode, h⟩ := bind_ok h
    dsimp only at h
    split at h
    · cases h
      exact (builds_proper boolFields _).1 _ _ _ hnode
    · cases h

end CorexManager.Expression
