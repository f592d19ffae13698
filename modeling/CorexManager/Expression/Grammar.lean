import CorexManager.Expression.Parser

/-!
# The grammar

What the parser accepts, stated without it.  `leafTokens` are the tokens of a
condition, and `Derives` puts conditions together: `not` binds tighter than `and`,
`and` tighter than `or`, and parentheses make any tree a primary.

* `Derives.parse`: the parser reads what is derived (`parse_complete`);
* `parse_sound`: what it reads is derived;
* `parseTokens_iff`: both, for a whole token list.
-/

namespace CorexManager.Expression

open Data (Text)

/-! ### The tokens of a condition -/

/-- The field is written as it is, or as a name and the string between its brackets. -/
def fieldTokens (field : Text) : List TokenKind :=
  let name := field.takeWhile (· != '[')
  match field.dropWhile (· != '[') with
  | [] => [.ident name]
  | bracket => [.ident name, .lbracket, .string ((bracket.drop 2).take (bracket.length - 4)),
      .rbracket]

/-- The token of a value. -/
def valueToken : Value → TokenKind
  | .str s => .string s
  | .int n => .number n
  | .bool true => .keyword .true
  | .bool false => .keyword .false

/-- The token of an operator. -/
def opToken : CompareOp → TokenKind
  | .contains => .keyword .contains
  | .startsWith => .keyword .startsWith
  | .endsWith => .keyword .endsWith
  | op => .op op

/-- The values of a list, with commas between them. -/
def itemTokens : List Item → List TokenKind
  | [] => []
  | v :: vs => valueToken v.value :: vs.flatMap fun w => [.comma, valueToken w.value]

/-- `not` in front of `in` and `exists`. -/
def notTokens (negated : Bool) : List TokenKind := if negated then [.keyword .not] else []

/-- The tokens of a leaf. -/
def leafTokens (l : Leaf) : List TokenKind :=
  match l.kind with
  | .compare field op value => fieldTokens field ++ [opToken op, valueToken value]
  | .inList field listType listName =>
      fieldTokens field ++ notTokens l.negated ++ [.keyword .in, .listref listType listName]
  | .inLiterals field values =>
      fieldTokens field ++ notTokens l.negated ++
        (.keyword .in :: .lbracket :: (itemTokens values ++ [.rbracket]))
  | .exists field => fieldTokens field ++ notTokens l.negated ++ [.keyword .exists]
  | .boolField field => fieldTokens field
  | .literal true => [.keyword .true]
  | .literal false => [.keyword .false]

/-- A field: a name, with a bracketed key or without. -/
def IsField (field : Text) : Prop :=
  ∃ name, '[' ∉ name ∧ (field = name ∨ ∃ key, field = bracketField name key)

/-- The operators spelt with symbols. -/
def CompareOp.symbolic : CompareOp → Bool
  | .contains | .startsWith | .endsWith => false
  | _ => true

/-- The leaves there are conditions for: the operators in words compare with no
truth value, and only memberships and `exists` are negated by a flag. -/
def Leaf.Formed (boolFields : List Text) (l : Leaf) : Prop :=
  match l.kind with
  | .compare field op value =>
      IsField field ∧ (op.symbolic = true ∨ ∃ v : Item, value = v.value) ∧ l.negated = false
  | .inList field _ _ => IsField field
  | .inLiterals field _ => IsField field
  | .exists field => IsField field
  | .boolField field => IsField field ∧ field ∈ boolFields ∧ l.negated = false
  | .literal _ => l.negated = false

theorem fieldTokens_plain {name : Text} (h : '[' ∉ name) : fieldTokens name = [.ident name] := by
  have hname : ∀ c ∈ name, (c != '[') = true := by
    intro c hc
    rw [bne_iff_ne]
    rintro rfl
    exact h hc
  obtain ⟨htake, hdrop⟩ := Data.takeWhile_of_boundary [] hname (by simp)
  rw [List.append_nil] at htake hdrop
  rw [fieldTokens, htake, hdrop]

theorem fieldTokens_keyed {name : Text} (h : '[' ∉ name) (key : Text) :
    fieldTokens (bracketField name key) =
      [.ident name, .lbracket, .string key, .rbracket] := by
  have hname : ∀ c ∈ name, (c != '[') = true := by
    intro c hc
    rw [bne_iff_ne]
    rintro rfl
    exact h hc
  have hbracket : bracketField name key = name ++ '[' :: '"' :: (key ++ ['"', ']']) := by
    simp [bracketField]
  obtain ⟨htake, hdrop⟩ := Data.takeWhile_of_boundary ('[' :: '"' :: (key ++ ['"', ']']))
    hname (by simp)
  rw [fieldTokens, hbracket, htake, hdrop]
  simp

/-! ### Derivations -/

/-- The levels of the grammar, the loosest first. -/
inductive Level where
  | or | and | not | primary
  deriving DecidableEq, Repr

/-- The operands after the first, each behind the keyword of their connective. -/
def operandTokens (k : Keyword) (ps : List (List TokenKind × Node)) : List TokenKind :=
  ps.flatMap fun p => .keyword k :: p.1

/-- The tokens `ts` are the tree `n` at a level of the grammar. -/
inductive Derives (boolFields : List Text) : Level → List TokenKind → Node → Prop
  | leaf {l : Leaf} (h : l.Formed boolFields) :
      Derives boolFields .primary (leafTokens l) (.leaf l)
  | paren {ts : List TokenKind} {n : Node} (h : Derives boolFields .or ts n) :
      Derives boolFields .primary (.lparen :: ts ++ [.rparen]) n
  | ofPrimary {ts : List TokenKind} {n : Node} (h : Derives boolFields .primary ts n) :
      Derives boolFields .not ts n
  | not {ts : List TokenKind} {n : Node} (h : Derives boolFields .not ts n) :
      Derives boolFields .not (.keyword .not :: ts) (.not n)
  | and {ts : List TokenKind} {n : Node} {ps : List (List TokenKind × Node)}
      (h : Derives boolFields .not ts n) (hps : ∀ p ∈ ps, Derives boolFields .not p.1 p.2) :
      Derives boolFields .and (ts ++ operandTokens .and ps)
        (connective .and (n :: ps.map Prod.snd))
  | or {ts : List TokenKind} {n : Node} {ps : List (List TokenKind × Node)}
      (h : Derives boolFields .and ts n) (hps : ∀ p ∈ ps, Derives boolFields .and p.1 p.2) :
      Derives boolFields .or (ts ++ operandTokens .or ps)
        (connective .or (n :: ps.map Prod.snd))

/-! ### The parser reads what is derived -/

@[simp] theorem peek_cons (t : Token) (ts : List Token) : peek (t :: ts) = t := rfl

/-- What may come after the tokens of a level. -/
def follows : Level → TokenKind → Bool
  | _, .eof | _, .rparen => true
  | .or, _ => false
  | _, .keyword .or => true
  | .and, _ => false
  | _, .keyword .and => true
  | _, _ => false

theorem follows_or (k : TokenKind) (h : follows .or k = true) : follows .and k = true := by
  cases k <;> first | rfl | cases h

theorem follows_and (k : TokenKind) (h : follows .and k = true) : follows .not k = true := by
  cases k with
  | keyword k => cases k <;> first | rfl | cases h
  | _ => first | rfl | cases h

theorem follows_primary (k : TokenKind) : follows .primary k = follows .not k := by
  cases k with
  | keyword k => cases k <;> rfl
  | _ => rfl

theorem itemOf_valueToken (v : Item) : itemOf (valueToken v.value) = some v := by
  cases v <;> rfl

theorem valueOf_valueToken (v : Value) : valueOf (valueToken v) = some v := by
  cases v with
  | str s => rfl
  | int n => rfl
  | bool b => cases b <;> rfl

theorem parseField_complete {field : Text} (h : IsField field) {ts : List Token}
    (rest : List Token)
    (hts : ts.map Token.kind = fieldTokens field) (hrest : (peek rest).kind ≠ .lbracket) :
    parseField (ts ++ rest) = .ok (field, rest) := by
  obtain ⟨name, hname, rfl | ⟨key, rfl⟩⟩ := h
  · rw [fieldTokens_plain hname] at hts
    obtain ⟨t, rfl, ht⟩ := List.map_eq_singleton_iff.mp hts
    simp [parseField, ht, hrest]
  · rw [fieldTokens_keyed hname] at hts
    simp only [List.map_eq_cons_iff, List.map_eq_nil_iff] at hts
    obtain ⟨a, -, rfl, ha, b, -, rfl, hb, c, -, rfl, hc, d, -, rfl, hd, rfl⟩ := hts
    simp [parseField, ha, hb, hc, hd, expect, bind, Except.bind]

theorem parseOperator_compare {boolFields : List Text} {field : Text} {op : CompareOp}
    {value : Value} {negated : Bool} {p q : Nat} {rest : List Token}
    (h : op.symbolic = true ∨ ∃ v : Item, value = v.value) :
    parseOperator boolFields field negated (⟨opToken op, p⟩ :: ⟨valueToken value, q⟩ :: rest) =
      .ok (.leaf ⟨.compare field op value, false⟩, rest) := by
  have hvalue := valueOf_valueToken value
  by_cases hop : op.symbolic = true
  · cases op <;> first
      | exact absurd hop Bool.false_ne_true
      | simp [parseOperator, opToken, hvalue]
  · obtain ⟨v, rfl⟩ := h.resolve_left hop
    have hitem := itemOf_valueToken v
    cases op <;> first
      | exact absurd rfl hop
      | simp [parseOperator, opToken, keywordOp, hitem]

theorem parseItems_complete (v : Item) (vs : List Item) : ∀ {ts : List Token} (rest : List Token),
    ts.map Token.kind = itemTokens (v :: vs) → (peek rest).kind ≠ .comma →
    parseItems (ts ++ rest) = .ok (v :: vs, rest) := by
  induction vs generalizing v with
  | nil =>
      intro ts rest hts hrest
      obtain ⟨t, rfl, ht⟩ := List.map_eq_singleton_iff.mp hts
      have hitem := itemOf_valueToken v
      rw [List.singleton_append, parseItems, ht, hitem]
      cases rest with
      | nil => rfl
      | cons r rest =>
          obtain ⟨kind, p⟩ := r
          dsimp only
          split
          · next heq => cases heq; exact absurd rfl hrest
          · rfl
  | cons w vs ih =>
      intro ts rest hts hrest
      have hcons : itemTokens (v :: w :: vs) =
          valueToken v.value :: .comma :: itemTokens (w :: vs) := rfl
      rw [hcons] at hts
      obtain ⟨t, us, rfl, ht, htail⟩ := List.map_eq_cons_iff.mp hts
      obtain ⟨⟨kind, p⟩, ts, rfl, hcomma, hitems⟩ := List.map_eq_cons_iff.mp htail
      obtain rfl : kind = .comma := hcomma
      have hitem := itemOf_valueToken v
      have hrec := ih w rest hitems hrest
      rw [List.cons_append, List.cons_append, parseItems, ht, hitem]
      dsimp only
      rw [hrec]
      rfl

/-- What is left once the field and its `not` are read. -/
theorem parseCondition_operator (boolFields : List Text) {field : Text} (h : IsField field)
    {negated : Bool} {fts nts : List Token} (ots rest : List Token) {n : Node}
    (hfts : fts.map Token.kind = fieldTokens field) (hnts : nts.map Token.kind = notTokens negated)
    (hin : negated = true → (peek (ots ++ rest)).kind = .keyword .in ∨
      (peek (ots ++ rest)).kind = .keyword .exists)
    (hbracket : (peek (ots ++ rest)).kind ≠ .lbracket)
    (hnot : (peek (ots ++ rest)).kind ≠ .keyword .not)
    (hparse : parseOperator boolFields field negated (ots ++ rest) = .ok (n, rest)) :
    parseCondition boolFields (fts ++ nts ++ ots ++ rest) = .ok (n, rest) := by
  cases negated with
  | false =>
      obtain rfl : nts = [] := List.map_eq_nil_iff.mp hnts
      have hfield := parseField_complete h _ hfts hbracket
      rw [List.append_nil, List.append_assoc, parseCondition, hfield]
      simp only [bind, Except.bind, hnot, if_false]
      exact hparse
  | true =>
      obtain ⟨t, rfl, ht⟩ := List.map_eq_singleton_iff.mp hnts
      have hfield := parseField_complete h (t :: (ots ++ rest)) hfts (by simp [ht])
      rw [List.append_assoc, List.append_assoc, List.singleton_append, parseCondition, hfield]
      simp only [bind, Except.bind, peek_cons, ht, List.tail_cons, if_true, hin rfl]
      exact hparse

theorem parseCondition_complete {boolFields : List Text} {l : Leaf} (h : l.Formed boolFields)
    (hlit : l.isLiteral = false) {ts rest : List Token} (hts : ts.map Token.kind = leafTokens l)
    (hrest : follows .not (peek rest).kind = true) :
    parseCondition boolFields (ts ++ rest) = .ok (.leaf l, rest) := by
  obtain ⟨kind, negated⟩ := l
  cases kind with
  | compare field op value =>
      obtain ⟨hfield, hvalue, hneg⟩ := h
      obtain rfl : negated = false := hneg
      obtain ⟨fts, ots, rfl, hfts, hots⟩ := List.map_eq_append_iff.mp hts
      simp only [List.map_eq_cons_iff, List.map_eq_nil_iff] at hots
      obtain ⟨⟨-, p⟩, -, rfl, rfl, ⟨-, q⟩, -, rfl, rfl, rfl⟩ := hots
      have hnot : ([] : List Token).map Token.kind = notTokens false := rfl
      have hparse := parseCondition_operator boolFields hfield [⟨opToken op, p⟩, ⟨valueToken value, q⟩] rest
        hfts hnot (by simp) (by cases op <;> simp [opToken]) (by cases op <;> simp [opToken])
        (parseOperator_compare hvalue)
      rwa [List.append_nil] at hparse
  | inList field listType listName =>
      obtain ⟨fnts, ots, rfl, hfnts, hots⟩ := List.map_eq_append_iff.mp hts
      obtain ⟨fts, nts, rfl, hfts, hnts⟩ := List.map_eq_append_iff.mp hfnts
      simp only [List.map_eq_cons_iff, List.map_eq_nil_iff] at hots
      obtain ⟨a, -, rfl, ha, b, -, rfl, hb, rfl⟩ := hots
      exact parseCondition_operator boolFields h _ rest hfts hnts (by simp [ha]) (by simp [ha]) (by simp [ha])
        (by simp [parseOperator, parseIn, ha, hb])
  | inLiterals field values =>
      obtain ⟨fnts, ots, rfl, hfnts, hots⟩ := List.map_eq_append_iff.mp hts
      obtain ⟨fts, nts, rfl, hfts, hnts⟩ := List.map_eq_append_iff.mp hfnts
      obtain ⟨a, us, rfl, ha, hlist⟩ := List.map_eq_cons_iff.mp hots
      obtain ⟨b, vs, rfl, hb, hclosed⟩ := List.map_eq_cons_iff.mp hlist
      obtain ⟨its, ws, rfl, hits, hclose⟩ := List.map_eq_append_iff.mp hclosed
      obtain ⟨c, rfl, hc⟩ := List.map_eq_singleton_iff.mp hclose
      refine parseCondition_operator boolFields h _ rest hfts hnts (by simp [ha]) (by simp [ha]) (by simp [ha]) ?_
      cases values with
      | nil =>
          obtain rfl : its = [] := List.map_eq_nil_iff.mp hits
          simp [parseOperator, parseIn, ha, hb, hc]
      | cons v vs =>
          have hitems := parseItems_complete v vs (c :: rest) hits (by simp [hc])
          have hopen : (peek (its ++ c :: rest)).kind ≠ .rbracket := by
            obtain ⟨t, its, rfl, ht, -⟩ := List.map_eq_cons_iff.mp hits
            cases v <;> simp [ht, valueToken, Item.value]
          simp [parseOperator, parseIn, ha, hb, hc, hopen, hitems, expect, bind, Except.bind]
  | «exists» field =>
      obtain ⟨fnts, ots, rfl, hfnts, hots⟩ := List.map_eq_append_iff.mp hts
      obtain ⟨fts, nts, rfl, hfts, hnts⟩ := List.map_eq_append_iff.mp hfnts
      obtain ⟨a, rfl, ha⟩ := List.map_eq_singleton_iff.mp hots
      exact parseCondition_operator boolFields h _ rest hfts hnts (by simp [ha]) (by simp [ha]) (by simp [ha])
        (by simp [parseOperator, ha])
  | boolField field =>
      obtain ⟨hfield, hmem, hneg⟩ := h
      obtain rfl : negated = false := hneg
      have hparse : parseOperator boolFields field false rest =
          .ok (.leaf ⟨.boolField field, false⟩, rest) := by
        unfold parseOperator
        dsimp only
        split <;> simp_all [follows]
      have hfollow : ∀ k, follows .not k = true → k ≠ .lbracket ∧ k ≠ .keyword .not := by
        intro k hk
        constructor
        · rintro rfl
          cases hk
        · rintro rfl
          cases hk
      have hnot : ([] : List Token).map Token.kind = notTokens false := rfl
      have hcond := parseCondition_operator boolFields hfield [] rest hts hnot (by simp) (hfollow _ hrest).1
        (hfollow _ hrest).2 hparse
      rwa [List.append_nil, List.append_nil] at hcond
  | literal b => cases hlit

/-- The function of each level. -/
def parseAt (boolFields : List Text) : Level → Nat → List Token →
    Except ParseError (Node × List Token)
  | .or => parseOr boolFields
  | .and => parseAnd boolFields
  | .not => parseNot boolFields
  | .primary => parsePrimary boolFields

/-- Calls between a level and the next token read. -/
def Level.need : Level → Nat
  | .or => 4
  | .and => 3
  | .not => 2
  | .primary => 1

/-- `ts` is read as `n` at a level, with enough fuel for what is left of the text. -/
def ReadsAs (boolFields : List Text) (level : Level) (ks : List TokenKind) (n : Node) : Prop :=
  ∀ fuel ts rest, ts.map Token.kind = ks → follows level (peek rest).kind = true →
    5 * (ts ++ rest).length + level.need ≤ fuel →
    parseAt boolFields level fuel (ts ++ rest) = .ok (n, rest)

/-- Behind an operand comes the next one, or what follows the connective. -/
theorem follows_operands {outer inner : Level} {k : Keyword}
    (hk : follows inner (.keyword k) = true)
    (hmono : ∀ x, follows outer x = true → follows inner x = true)
    {ps : List (List TokenKind × Node)} {ts rest : List Token}
    (hts : ts.map Token.kind = operandTokens k ps) (hrest : follows outer (peek rest).kind = true) :
    follows inner (peek (ts ++ rest)).kind = true := by
  cases ps with
  | nil =>
      obtain rfl : ts = [] := List.map_eq_nil_iff.mp hts
      exact hmono _ hrest
  | cons q qs =>
      obtain ⟨u, us, rfl, hu, -⟩ := List.map_eq_cons_iff.mp hts
      rw [List.cons_append, peek_cons, hu]
      exact hk

/-- The loops over the operands of a connective. -/
theorem loop_complete {boolFields : List Text} {outer : Level} (inner : Level) {k : Keyword}
    (loop : Nat → List Token → Except ParseError (List Node × List Token))
    (hloop : ∀ fuel ts, loop (fuel + 1) ts =
      if (peek ts).kind = .keyword k then do
        let (c, ts) ← parseAt boolFields inner fuel ts.tail
        let (cs, ts) ← loop fuel ts
        .ok (c :: cs, ts)
      else .ok ([], ts))
    (hk : follows inner (.keyword k) = true) (hout : follows outer (.keyword k) = false)
    (hmono : ∀ x, follows outer x = true → follows inner x = true)
    {ps : List (List TokenKind × Node)} (hps : ∀ p ∈ ps, ReadsAs boolFields inner p.1 p.2) :
    ∀ fuel ts rest, ts.map Token.kind = operandTokens k ps →
      follows outer (peek rest).kind = true → 5 * (ts ++ rest).length + 1 ≤ fuel →
      loop fuel (ts ++ rest) = .ok (ps.map Prod.snd, rest) := by
  -- the fuel bounds the length of what is left, and each operand takes its keyword away
  have hneed : inner.need ≤ 5 := by cases inner <;> decide
  induction ps with
  | nil =>
      intro fuel ts rest hts hrest hfuel
      obtain rfl : ts = [] := List.map_eq_nil_iff.mp hts
      obtain ⟨fuel, rfl⟩ : ∃ f, fuel = f + 1 := ⟨fuel - 1, by omega⟩
      have hne : (peek rest).kind ≠ .keyword k := by
        intro heq
        rw [heq, hout] at hrest
        cases hrest
      rw [List.nil_append, hloop, if_neg hne]
      rfl
  | cons p ps ih =>
      intro fuel ts rest hts hrest hfuel
      obtain ⟨hp, hps⟩ := List.forall_mem_cons.mp hps
      obtain ⟨t, ts, rfl, ht, hts⟩ := List.map_eq_cons_iff.mp hts
      obtain ⟨ots, ts, rfl, hots, hts⟩ := List.map_eq_append_iff.mp hts
      obtain ⟨fuel, rfl⟩ : ∃ f, fuel = f + 1 := ⟨fuel - 1, by omega⟩
      simp only [List.cons_append, List.append_assoc, List.length_cons, List.length_append] at hfuel
      have hnext : follows inner (peek (ts ++ rest)).kind = true :=
        follows_operands hk hmono hts hrest
      have hoperand : parseAt boolFields inner fuel (ots ++ (ts ++ rest)) = .ok (p.2, ts ++ rest) :=
        hp fuel ots (ts ++ rest) hots hnext
          (by simp only [List.length_append]; omega)
      have hrec : loop fuel (ts ++ rest) = .ok (ps.map Prod.snd, rest) :=
        ih hps fuel ts rest hts hrest (by simp only [List.length_append]; omega)
      rw [List.cons_append, List.append_assoc, hloop, peek_cons, if_pos ht]
      simp only [List.tail_cons, hoperand, bind, Except.bind, hrec]
      rfl

/-- A condition begins with the name of its field. -/
theorem leafTokens_head {boolFields : List Text} {l : Leaf} (h : l.Formed boolFields)
    (hlit : l.isLiteral = false) : ∃ name rest, leafTokens l = .ident name :: rest := by
  obtain ⟨kind, negated⟩ := l
  have hhead : ∀ field ks, IsField field →
      ∃ name rest, fieldTokens field ++ ks = .ident name :: rest := by
    rintro field ks ⟨name, hname, rfl | ⟨key, rfl⟩⟩
    · exact ⟨field, ks, by rw [fieldTokens_plain hname]; rfl⟩
    · exact ⟨name, _, by rw [fieldTokens_keyed hname]; rfl⟩
  cases kind with
  | literal b => cases hlit
  | compare field op value => exact hhead field _ h.1
  | inList field listType listName =>
      simpa [leafTokens] using hhead field
        (notTokens negated ++ [.keyword .in, .listref listType listName]) h
  | inLiterals field values =>
      simpa [leafTokens] using hhead field
        (notTokens negated ++ (.keyword .in :: .lbracket :: (itemTokens values ++ [.rbracket]))) h
  | «exists» field =>
      simpa [leafTokens] using hhead field (notTokens negated ++ [.keyword .exists]) h
  | boolField field => simpa [leafTokens] using hhead field [] h.1

/-- What a primary begins with. -/
theorem Derives.primary_head {boolFields : List Text} {ks : List TokenKind} {n : Node}
    (h : Derives boolFields .primary ks n) :
    ∃ k rest, ks = k :: rest ∧ k ≠ .keyword .not := by
  cases h with
  | paren h => exact ⟨_, _, rfl, nofun⟩
  | @leaf l h =>
      cases hlit : l.isLiteral with
      | false =>
          obtain ⟨name, rest, hhead⟩ := leafTokens_head h hlit
          exact ⟨.ident name, rest, hhead, nofun⟩
      | true =>
          obtain ⟨kind, negated⟩ := l
          cases kind with
          | literal b => cases b <;> exact ⟨_, _, rfl, nofun⟩
          | _ => cases hlit

/-- **The parser reads what is derived.** -/
theorem Derives.parse {boolFields : List Text} {level : Level} {ks : List TokenKind} {n : Node}
    (h : Derives boolFields level ks n) : ReadsAs boolFields level ks n := by
  induction h with
  | @leaf l h =>
      intro fuel ts rest hts hrest hfuel
      obtain ⟨fuel, rfl⟩ : ∃ f, fuel = f + 1 := ⟨fuel - 1, by simp [Level.need] at hfuel; omega⟩
      rw [parseAt, parsePrimary]
      cases hlit : l.isLiteral with
      | false =>
          obtain ⟨name, tail, hhead⟩ := leafTokens_head h hlit
          obtain ⟨t, ts', rfl, ht, -⟩ := List.map_eq_cons_iff.mp (hts.trans hhead)
          rw [List.cons_append, peek_cons, ht, ← List.cons_append]
          exact parseCondition_complete h hlit hts (follows_primary _ ▸ hrest)
      | true =>
          obtain ⟨kind, negated⟩ := l
          cases kind with
          | literal b =>
              obtain rfl : negated = false := h
              cases b <;>
              · obtain ⟨t, rfl, ht⟩ := List.map_eq_singleton_iff.mp hts
                rw [List.singleton_append, peek_cons, ht]
                rfl
          | _ => cases hlit
  | @paren ks n h ih =>
      intro fuel ts rest hts hrest hfuel
      obtain ⟨fuel, rfl⟩ : ∃ f, fuel = f + 1 := ⟨fuel - 1, by simp [Level.need] at hfuel; omega⟩
      obtain ⟨t, ts, rfl, ht, hts⟩ := List.map_eq_cons_iff.mp hts
      obtain ⟨its, ots, rfl, hits, hots⟩ := List.map_eq_append_iff.mp hts
      obtain ⟨u, rfl, hu⟩ := List.map_eq_singleton_iff.mp hots
      have hread := ih fuel its (u :: rest) hits (by rw [peek_cons, hu]; rfl)
        (by simp [Level.need] at hfuel ⊢; omega)
      rw [parseAt] at hread
      rw [parseAt, parsePrimary, List.cons_append, peek_cons, ht, List.append_assoc]
      simp only [List.tail_cons, List.singleton_append, hread, bind, Except.bind, expect, peek_cons,
        hu, if_true]
  | @ofPrimary ks n h ih =>
      intro fuel ts rest hts hrest hfuel
      obtain ⟨fuel, rfl⟩ : ∃ f, fuel = f + 1 := ⟨fuel - 1, by simp [Level.need] at hfuel; omega⟩
      obtain ⟨k, ks', rfl, hk⟩ := h.primary_head
      obtain ⟨t, ts', rfl, ht, -⟩ := List.map_eq_cons_iff.mp hts
      have hread := ih fuel (t :: ts') rest hts (follows_primary _ ▸ hrest)
        (by simp [Level.need] at hfuel ⊢; omega)
      rw [parseAt, parseNot, List.cons_append, peek_cons, ht, if_neg hk, ← List.cons_append]
      exact hread
  | @not ks n h ih =>
      intro fuel ts rest hts hrest hfuel
      obtain ⟨fuel, rfl⟩ : ∃ f, fuel = f + 1 := ⟨fuel - 1, by simp [Level.need] at hfuel; omega⟩
      obtain ⟨t, ts, rfl, ht, hts⟩ := List.map_eq_cons_iff.mp hts
      have hread := ih fuel ts rest hts hrest (by simp [Level.need] at hfuel ⊢; omega)
      rw [parseAt] at hread ⊢
      rw [parseNot, List.cons_append, peek_cons, if_pos ht, List.tail_cons, hread]
      rfl
  | @and ks n ps h hps ih ihps =>
      intro fuel ts rest hts hrest hfuel
      obtain ⟨fuel, rfl⟩ : ∃ f, fuel = f + 1 := ⟨fuel - 1, by simp [Level.need] at hfuel; omega⟩
      obtain ⟨cts, ots, rfl, hcts, hots⟩ := List.map_eq_append_iff.mp hts
      have hmono : ∀ x, follows .and x = true → follows .not x = true := follows_and
      have hfirst := ih fuel cts (ots ++ rest) hcts (follows_operands rfl hmono hots hrest)
        (by simp [Level.need] at hfuel ⊢; omega)
      have hloop := loop_complete .not (parseAndRest boolFields)
        (fun _ _ => by rw [parseAndRest]; rfl) rfl rfl hmono ihps fuel ots rest hots
        hrest (by simp [Level.need] at hfuel ⊢; omega)
      rw [parseAt] at hfirst
      rw [parseAt, parseAnd, List.append_assoc, hfirst]
      simp only [bind, Except.bind, hloop]
  | @or ks n ps h hps ih ihps =>
      intro fuel ts rest hts hrest hfuel
      obtain ⟨fuel, rfl⟩ : ∃ f, fuel = f + 1 := ⟨fuel - 1, by simp [Level.need] at hfuel; omega⟩
      obtain ⟨cts, ots, rfl, hcts, hots⟩ := List.map_eq_append_iff.mp hts
      have hmono : ∀ x, follows .or x = true → follows .and x = true := follows_or
      have hfirst := ih fuel cts (ots ++ rest) hcts (follows_operands rfl hmono hots hrest)
        (by simp [Level.need] at hfuel ⊢; omega)
      have hloop := loop_complete .and (parseOrRest boolFields)
        (fun _ _ => by rw [parseOrRest]; rfl) rfl rfl hmono ihps fuel ots rest hots
        hrest (by simp [Level.need] at hfuel ⊢; omega)
      rw [parseAt] at hfirst
      rw [parseAt, parseOr, List.append_assoc, hfirst]
      simp only [bind, Except.bind, hloop]

/-! ### What the parser reads is derived -/

/-- What the tokenizer promises: no bracket in a name, and symbols for an operator. -/
def TokenKind.Clean : TokenKind → Prop
  | .ident name => '[' ∉ name
  | .op o => o.symbolic = true
  | _ => True

/-- Only a token that is there is peeked at, the end of the text aside. -/
theorem eq_cons_of_peek {ts : List Token} {k : TokenKind} (h : (peek ts).kind = k)
    (hk : k ≠ .eof) : ∃ p, ts = ⟨k, p⟩ :: ts.tail := by
  cases ts with
  | nil => exact absurd h.symm hk
  | cons t ts => exact ⟨t.pos, by rw [← h]; rfl⟩

theorem expect_sound {kind : TokenKind} {ts rest : List Token} (h : expect kind ts = .ok rest)
    (hkind : kind ≠ .eof) : ∃ p, ts = ⟨kind, p⟩ :: rest := by
  unfold expect at h
  split at h
  · next hpeek =>
      obtain ⟨p, hts⟩ := eq_cons_of_peek hpeek hkind
      exact ⟨p, by rw [hts]; cases h; rfl⟩
  · cases h

theorem itemOf_sound {k : TokenKind} {v : Item} (h : itemOf k = some v) :
    k = valueToken v.value := by
  cases k with
  | string s => cases h; rfl
  | number n => cases h; rfl
  | _ => cases h

theorem valueOf_sound {k : TokenKind} {v : Value} (h : valueOf k = some v) : k = valueToken v := by
  unfold valueOf at h
  split at h
  · cases h; rfl
  · cases h; rfl
  · obtain ⟨item, hitem, rfl⟩ := Option.map_eq_some_iff.mp h
    exact itemOf_sound hitem

theorem keywordOp_sound {k : TokenKind} {op : CompareOp} (h : keywordOp k = some op) :
    k = opToken op := by
  unfold keywordOp at h
  split at h <;> cases h <;> rfl

theorem opToken_symbolic {op : CompareOp} (h : op.symbolic = true) : opToken op = .op op := by
  cases op <;> first | rfl | exact absurd h Bool.false_ne_true

theorem valueToken_ne_eof (v : Value) : valueToken v ≠ .eof := by
  cases v with
  | bool b => cases b <;> nofun
  | _ => nofun

theorem parseItems_sound {ts rest : List Token} {vs : List Item}
    (h : parseItems ts = .ok (vs, rest)) :
    vs ≠ [] ∧ ∃ its, ts = its ++ rest ∧ its.map Token.kind = itemTokens vs := by
  fun_induction parseItems ts generalizing vs with
  | case1 => cases h
  | case2 t ts hitem => cases h
  | case3 t v hitem p ts ih =>
      cases hrec : parseItems ts with
      | error e => rw [hrec] at h; cases h
      | ok r =>
          obtain ⟨ws, rest'⟩ := r
          rw [hrec] at h
          cases h
          obtain ⟨hws, its, rfl, hits⟩ := ih hrec
          obtain ⟨w, ws', rfl⟩ := List.exists_cons_of_ne_nil hws
          refine ⟨List.cons_ne_nil _ _, t :: ⟨.comma, p⟩ :: its, rfl, ?_⟩
          rw [List.map_cons, List.map_cons, hits, itemOf_sound hitem]
          rfl
  | case4 t v hitem ts hcomma =>
      cases h
      exact ⟨List.cons_ne_nil _ _, [t], rfl, by rw [List.map_singleton, itemOf_sound hitem]; rfl⟩

theorem parseField_sound {ts rest : List Token} {field : Text}
    (h : parseField ts = .ok (field, rest)) (hclean : ∀ t ∈ ts, t.kind.Clean) :
    IsField field ∧ ∃ fts, ts = fts ++ rest ∧ fts.map Token.kind = fieldTokens field := by
  unfold parseField at h
  split at h
  · next name hpeek =>
      obtain ⟨p, hts⟩ := eq_cons_of_peek hpeek nofun
      rw [hts] at h hclean ⊢
      have hname : '[' ∉ name := hclean _ List.mem_cons_self
      split at h
      · next hbracket =>
          obtain ⟨q, htail⟩ := eq_cons_of_peek hbracket nofun
          rw [List.tail_cons] at htail h
          rw [htail] at h ⊢
          split at h
          · next key hkey =>
              obtain ⟨r, htail'⟩ := eq_cons_of_peek hkey nofun
              rw [List.tail_cons] at htail' h
              rw [htail'] at h ⊢
              obtain ⟨ts', hclose, h⟩ := bind_ok h
              cases h
              obtain ⟨u, htail''⟩ := expect_sound hclose nofun
              rw [List.tail_cons] at htail''
              rw [htail'']
              exact ⟨⟨name, hname, .inr ⟨key, rfl⟩⟩, [_, _, _, _], rfl,
                (fieldTokens_keyed hname key).symm⟩
          · cases h
      · cases h
        exact ⟨⟨_, hname, .inl rfl⟩, [_], rfl, (fieldTokens_plain hname).symm⟩
  · cases h

/-- What is read behind a field and its `not`: the tokens `ots` of the leaf `l`. -/
structure ReadsLeaf (boolFields : List Text) (field : Text) (negated : Bool) (ots : List Token)
    (l : Leaf) : Prop where
  formed : l.Formed boolFields
  tokens : leafTokens l = fieldTokens field ++ notTokens negated ++ ots.map Token.kind

theorem parseIn_sound (boolFields : List Text) {field : Text} (hfield : IsField field)
    {negated : Bool} {ts rest : List Token} {n : Node}
    (h : parseIn field negated ts = .ok (n, rest)) (p : Nat) :
    ∃ ots l, n = .leaf l ∧ ts = ots ++ rest ∧
      ReadsLeaf boolFields field negated (⟨.keyword .in, p⟩ :: ots) l := by
  unfold parseIn at h
  split at h
  · next listType listName hpeek =>
      obtain ⟨q, hts⟩ := eq_cons_of_peek hpeek nofun
      rw [hts] at h ⊢
      cases h
      exact ⟨[_], _, rfl, rfl, hfield, rfl⟩
  · next hpeek =>
      obtain ⟨q, hts⟩ := eq_cons_of_peek hpeek nofun
      rw [hts] at h ⊢
      split at h
      · next hclose =>
          obtain ⟨r, htail⟩ := eq_cons_of_peek hclose nofun
          rw [List.tail_cons] at htail h
          rw [htail] at h ⊢
          cases h
          exact ⟨[_, _], _, rfl, rfl, hfield, rfl⟩
      · obtain ⟨⟨values, ts'⟩, hvalues, h⟩ := bind_ok h
        obtain ⟨ts'', hclose, h⟩ := bind_ok h
        cases h
        obtain ⟨-, its, htail, hits⟩ := parseItems_sound hvalues
        obtain ⟨r, hrest⟩ := expect_sound hclose nofun
        rw [List.tail_cons] at htail
        refine ⟨⟨.lbracket, q⟩ :: (its ++ [⟨.rbracket, r⟩]), _, rfl, ?_, hfield, ?_⟩
        · rw [htail, hrest]
          simp
        · simp [leafTokens, hits]
  · cases h

theorem parseOperator_sound {boolFields : List Text} {field : Text} (hfield : IsField field)
    {negated : Bool} {ts rest : List Token} {n : Node} (hclean : ∀ t ∈ ts, t.kind.Clean)
    (hneg : negated = true → (peek ts).kind = .keyword .in ∨ (peek ts).kind = .keyword .exists)
    (h : parseOperator boolFields field negated ts = .ok (n, rest)) :
    ∃ ots l, n = .leaf l ∧ ts = ots ++ rest ∧ ReadsLeaf boolFields field negated ots l := by
  have hplain : ∀ k, (peek ts).kind = k → k ≠ .keyword .in → k ≠ .keyword .exists →
      negated = false := by
    intro k hk hin hexists
    cases hnegated : negated with
    | false => rfl
    | true =>
        rcases hneg hnegated with hpeek | hpeek
        · exact absurd (hk.symm.trans hpeek) hin
        · exact absurd (hk.symm.trans hpeek) hexists
  have hbool : ∀ k, (peek ts).kind = k → k ≠ .keyword .in → k ≠ .keyword .exists →
      (if field ∈ boolFields then Except.ok (Node.leaf ⟨.boolField field, negated⟩, ts)
        else .error (ParseError.requiresOperator field (peek ts).pos)) = .ok (n, rest) →
      ∃ ots l, n = .leaf l ∧ ts = ots ++ rest ∧ ReadsLeaf boolFields field negated ots l := by
    intro k hk hin hexists hok
    obtain rfl := hplain k hk hin hexists
    split at hok
    · next hmem =>
        cases hok
        exact ⟨[], _, rfl, rfl, ⟨hfield, hmem, rfl⟩, by simp [leafTokens, notTokens]⟩
    · cases hok
  unfold parseOperator at h
  dsimp only at h
  split at h
  case h_1 hpeek =>
    obtain ⟨p, hts⟩ := eq_cons_of_peek hpeek nofun
    obtain ⟨ots, l, hn, htail, hreads⟩ := parseIn_sound boolFields hfield h p
    exact ⟨_, l, hn, by rw [hts, htail]; rfl, hreads⟩
  case h_2 hpeek =>
    obtain ⟨p, hts⟩ := eq_cons_of_peek hpeek nofun
    cases h
    exact ⟨[⟨.keyword .exists, p⟩], _, rfl, hts, hfield, rfl⟩
  case h_3 hpeek => exact hbool _ hpeek nofun nofun h
  case h_4 hpeek => exact hbool _ hpeek nofun nofun h
  case h_5 hpeek => exact hbool _ hpeek nofun nofun h
  case h_6 hpeek => exact hbool _ hpeek nofun nofun h
  case h_7 op hpeek =>
    obtain rfl := hplain _ hpeek nofun nofun
    obtain ⟨p, hts⟩ := eq_cons_of_peek hpeek nofun
    rw [hts] at h hclean ⊢
    have hop : op.symbolic = true := hclean _ List.mem_cons_self
    split at h
    · next v hv =>
        obtain ⟨q, htail⟩ := eq_cons_of_peek (valueOf_sound hv) (valueToken_ne_eof v)
        rw [List.tail_cons] at htail h
        rw [htail] at h ⊢
        cases h
        refine ⟨[_, _], _, rfl, rfl, ⟨hfield, .inl hop, rfl⟩, ?_⟩
        simp [leafTokens, notTokens, opToken_symbolic hop]
    · cases h
  case h_8 =>
    split at h
    · next op hop =>
        have hword := keywordOp_sound hop
        obtain ⟨p, hts⟩ := eq_cons_of_peek hword (by cases op <;> nofun)
        rw [hts] at h ⊢
        obtain rfl := hplain _ hword (by cases op <;> nofun) (by cases op <;> nofun)
        split at h
        · next v hv =>
            obtain ⟨q, htail⟩ := eq_cons_of_peek (itemOf_sound hv) (valueToken_ne_eof _)
            rw [List.tail_cons] at htail h
            rw [htail] at h ⊢
            cases h
            refine ⟨[_, _], _, rfl, rfl, ⟨hfield, .inr ⟨v, rfl⟩, rfl⟩, ?_⟩
            simp [leafTokens, notTokens]
        · cases h
    · cases h

/-- A condition is read off the tokens of its leaf. -/
theorem parseCondition_sound {boolFields : List Text} {ts rest : List Token} {n : Node}
    (hclean : ∀ t ∈ ts, t.kind.Clean) (h : parseCondition boolFields ts = .ok (n, rest)) :
    ∃ pre l, n = .leaf l ∧ ts = pre ++ rest ∧ l.Formed boolFields ∧
      pre.map Token.kind = leafTokens l := by
  obtain ⟨⟨field, ts'⟩, hfield, hrest⟩ := bind_ok h
  obtain ⟨hform, fts, rfl, hfts⟩ := parseField_sound hfield hclean
  dsimp only at hrest
  split at hrest
  · next hnot =>
      obtain ⟨p, hts'⟩ := eq_cons_of_peek hnot nofun
      rw [hts'] at hrest hclean ⊢
      rw [List.tail_cons] at hrest
      split at hrest
      · next hin =>
          obtain ⟨ots, l, rfl, htail, hformed, htokens⟩ := parseOperator_sound hform
            (fun t ht => hclean t (by simp [ht])) (fun _ => hin) hrest
          refine ⟨fts ++ ⟨.keyword .not, p⟩ :: ots, l, rfl, ?_, hformed, ?_⟩
          · rw [htail]
            simp
          · rw [htokens, List.map_append, hfts, List.map_cons, List.append_assoc]
            rfl
      · cases hrest
  · obtain ⟨ots, l, rfl, rfl, hformed, htokens⟩ := parseOperator_sound hform
      (fun t ht => hclean t (List.mem_append_right _ ht)) (fun hneg => absurd hneg Bool.false_ne_true) hrest
    refine ⟨fts ++ ots, l, rfl, (List.append_assoc _ _ _).symm, hformed, ?_⟩
    rw [htokens, List.map_append, hfts]
    simp [notTokens]

/-- What one function of a level reads. -/
def SoundAt (boolFields : List Text) (level : Level) (fuel : Nat) : Prop :=
  ∀ ts n rest, (∀ t ∈ ts, t.kind.Clean) → parseAt boolFields level fuel ts = .ok (n, rest) →
    ∃ pre, ts = pre ++ rest ∧ Derives boolFields level (pre.map Token.kind) n

/-- What a loop over operands reads. -/
theorem loop_sound {boolFields : List Text} {inner : Level} {k : Keyword}
    {loop : Nat → List Token → Except ParseError (List Node × List Token)}
    (hzero : ∀ ts, loop 0 ts = .error .outOfFuel)
    (hloop : ∀ fuel ts, loop (fuel + 1) ts =
      if (peek ts).kind = .keyword k then do
        let (c, ts) ← parseAt boolFields inner fuel ts.tail
        let (cs, ts) ← loop fuel ts
        .ok (c :: cs, ts)
      else .ok ([], ts)) :
    ∀ fuel, (∀ f < fuel, SoundAt boolFields inner f) → ∀ ts cs rest,
      (∀ t ∈ ts, t.kind.Clean) → loop fuel ts = .ok (cs, rest) →
      ∃ pre ps, ts = pre ++ rest ∧ pre.map Token.kind = operandTokens k ps ∧
        cs = ps.map Prod.snd ∧ ∀ p ∈ ps, Derives boolFields inner p.1 p.2 := by
  intro fuel
  induction fuel with
  | zero =>
      intro hsound ts cs rest hclean h
      rw [hzero] at h
      cases h
  | succ fuel ih =>
      intro hsound ts cs rest hclean h
      rw [hloop] at h
      split at h
      · next hk =>
          obtain ⟨p, hts⟩ := eq_cons_of_peek hk nofun
          obtain ⟨⟨c, ts₁⟩, hoperand, h⟩ := bind_ok h
          obtain ⟨⟨ds, ts₂⟩, hrest, h⟩ := bind_ok h
          cases h
          have hclean' : ∀ t ∈ ts.tail, t.kind.Clean := fun t ht => hclean t (List.mem_of_mem_tail ht)
          obtain ⟨pre, htail, hderives⟩ := hsound fuel (by omega) _ _ _ hclean' hoperand
          obtain ⟨pre', ps, rfl, hpre', rfl, hps⟩ := ih (fun f hf => hsound f (by omega)) _ _ _
            (fun t ht => hclean' t (by rw [htail]; exact List.mem_append_right _ ht)) hrest
          refine ⟨⟨.keyword k, p⟩ :: (pre ++ pre'), (pre.map Token.kind, c) :: ps, ?_, ?_, rfl, ?_⟩
          · rw [hts, htail]
            simp
          · rw [List.map_cons, List.map_append, hpre']
            rfl
          · exact List.forall_mem_cons.mpr ⟨hderives, hps⟩
      · cases h
        exact ⟨[], [], rfl, rfl, rfl, nofun⟩

/-- **What the parser reads is derived.**  The functions call each other with less fuel, so
one induction on the fuel covers every level. -/
theorem parse_sound (boolFields : List Text) : ∀ fuel level, SoundAt boolFields level fuel := by
  intro fuel
  induction fuel using Nat.strong_induction_on with
  | _ fuel ih =>
      intro level ts n rest hclean h
      cases fuel with
      | zero => cases level <;> cases h
      | succ fuel =>
          cases level with
          | primary =>
              rw [parseAt, parsePrimary] at h
              split at h
              · next hpeek =>
                  obtain ⟨p, hts⟩ := eq_cons_of_peek hpeek (fun heof => by cases heof)
                  obtain ⟨⟨m, ts₁⟩, hm, h⟩ := bind_ok h
                  obtain ⟨ts₂, hclose, h⟩ := bind_ok h
                  cases h
                  obtain ⟨q, hts₁⟩ := expect_sound hclose (fun heof => by cases heof)
                  obtain ⟨pre, htail, hderives⟩ := ih fuel (by omega) .or _ _ _
                    (fun t ht => hclean t (List.mem_of_mem_tail ht)) hm
                  refine ⟨⟨.lparen, p⟩ :: (pre ++ [⟨.rparen, q⟩]), ?_, ?_⟩
                  · rw [hts, htail, hts₁]
                    simp
                  · rw [List.map_cons, List.map_append]
                    exact .paren hderives
              · next hpeek =>
                  obtain ⟨p, hts⟩ := eq_cons_of_peek hpeek (fun heof => by cases heof)
                  cases h
                  exact ⟨[⟨.keyword .true, p⟩], hts, .leaf (l := ⟨.literal true, false⟩) rfl⟩
              · next hpeek =>
                  obtain ⟨p, hts⟩ := eq_cons_of_peek hpeek (fun heof => by cases heof)
                  cases h
                  exact ⟨[⟨.keyword .false, p⟩], hts, .leaf (l := ⟨.literal false, false⟩) rfl⟩
              · obtain ⟨pre, l, rfl, hts, hformed, htokens⟩ := parseCondition_sound hclean h
                exact ⟨pre, hts, htokens ▸ .leaf hformed⟩
          | not =>
              rw [parseAt, parseNot] at h
              split at h
              · next hpeek =>
                  obtain ⟨p, hts⟩ := eq_cons_of_peek hpeek (fun heof => by cases heof)
                  obtain ⟨⟨m, ts₁⟩, hm, h⟩ := bind_ok h
                  cases h
                  obtain ⟨pre, htail, hderives⟩ := ih fuel (by omega) .not _ _ _
                    (fun t ht => hclean t (List.mem_of_mem_tail ht)) hm
                  exact ⟨⟨.keyword .not, p⟩ :: pre, by rw [hts, htail]; rfl, .not hderives⟩
              · obtain ⟨pre, hts, hderives⟩ := ih fuel (by omega) .primary _ _ _ hclean h
                exact ⟨pre, hts, .ofPrimary hderives⟩
          | and =>
              rw [parseAt, parseAnd] at h
              obtain ⟨⟨c, ts₁⟩, hc, h⟩ := bind_ok h
              obtain ⟨⟨cs, ts₂⟩, hcs, h⟩ := bind_ok h
              cases h
              obtain ⟨pre, rfl, hderives⟩ := ih fuel (by omega) .not _ _ _ hclean hc
              obtain ⟨pre', ps, rfl, hpre', rfl, hps⟩ := loop_sound (fun _ => by rw [parseAndRest])
                (fun _ _ => by rw [parseAndRest]; rfl) fuel (fun f hf => ih f (by omega) .not) _ _ _
                (fun t ht => hclean t (List.mem_append_right _ ht)) hcs
              refine ⟨pre ++ pre', (List.append_assoc _ _ _).symm, ?_⟩
              rw [List.map_append, hpre']
              exact .and hderives hps
          | or =>
              rw [parseAt, parseOr] at h
              obtain ⟨⟨c, ts₁⟩, hc, h⟩ := bind_ok h
              obtain ⟨⟨cs, ts₂⟩, hcs, h⟩ := bind_ok h
              cases h
              obtain ⟨pre, rfl, hderives⟩ := ih fuel (by omega) .and _ _ _ hclean hc
              obtain ⟨pre', ps, rfl, hpre', rfl, hps⟩ := loop_sound (fun _ => by rw [parseOrRest])
                (fun _ _ => by rw [parseOrRest]; rfl) fuel (fun f hf => ih f (by omega) .and) _ _ _
                (fun t ht => hclean t (List.mem_append_right _ ht)) hcs
              refine ⟨pre ++ pre', (List.append_assoc _ _ _).symm, ?_⟩
              rw [List.map_append, hpre']
              exact .or hderives hps

/-! ### Whole token lists -/

/-- No token of a condition ends the text. -/
theorem Derives.eof_not_mem {boolFields : List Text} {level : Level} {ks : List TokenKind}
    {n : Node} (h : Derives boolFields level ks n) : .eof ∉ ks := by
  have hfield : ∀ field, IsField field → .eof ∉ fieldTokens field := by
    rintro field ⟨name, hname, rfl | ⟨key, rfl⟩⟩
    · rw [fieldTokens_plain hname]
      simp
    · rw [fieldTokens_keyed hname]
      simp
  have hnot : ∀ negated, .eof ∉ notTokens negated := by decide
  have hvalue : ∀ v, .eof ≠ valueToken v := fun v => (valueToken_ne_eof v).symm
  have hoperands : ∀ k (ps : List (List TokenKind × Node)), (∀ p ∈ ps, .eof ∉ p.1) →
      .eof ∉ operandTokens k ps := by
    intro k ps hps hmem
    obtain ⟨p, hp, hmem⟩ := List.mem_flatMap.mp hmem
    rcases List.mem_cons.mp hmem with heq | hmem
    · cases heq
    · exact hps p hp hmem
  induction h with
  | @leaf l h =>
      obtain ⟨kind, negated⟩ := l
      cases kind with
      | compare field op value =>
          have hop : .eof ≠ opToken op := by cases op <;> nofun
          simp [leafTokens, hfield field h.1, hop, hvalue]
      | inList field listType listName => simp [leafTokens, hfield field h, hnot]
      | inLiterals field values =>
          have hitems : .eof ∉ itemTokens values := by
            cases values with
            | nil => simp [itemTokens]
            | cons v vs => simp [itemTokens, hvalue]
          simp [leafTokens, hfield field h, hnot, hitems]
      | «exists» field => simp [leafTokens, hfield field h, hnot]
      | boolField field => simp [leafTokens, hfield field h.1]
      | literal b => cases b <;> simp [leafTokens]
  | paren h ih => simp [ih]
  | ofPrimary h ih => exact ih
  | not h ih => simp [ih]
  | and h hps ih ihps => simp [ih, hoperands _ _ ihps]
  | or h hps ih ihps => simp [ih, hoperands _ _ ihps]

/-- **The parser accepts the token lists of the grammar, with their trees.** -/
theorem parseTokens_iff {boolFields : List Text} {ts : List Token} {p : Nat} {n : Node}
    (hclean : ∀ t ∈ ts, t.kind.Clean) (heof : ∀ t ∈ ts, t.kind ≠ .eof) :
    parseTokens boolFields (ts ++ [⟨.eof, p⟩]) = .ok n ↔
      Derives boolFields .or (ts.map Token.kind) n := by
  constructor
  · intro h
    obtain ⟨⟨m, rest⟩, hparse, h⟩ := bind_ok h
    dsimp only at h
    split at h
    · next hend =>
        cases h
        have hclean' : ∀ t ∈ ts ++ [⟨.eof, p⟩], t.kind.Clean := by
          intro t ht
          rcases List.mem_append.mp ht with ht | ht
          · exact hclean t ht
          · obtain rfl := List.mem_singleton.mp ht
            exact trivial
        obtain ⟨pre, hpre, hderives⟩ := parse_sound boolFields
          (parserFuel (ts ++ [(⟨.eof, p⟩ : Token)]).length) .or _ n rest hclean' hparse
        have hsame : pre = ts := by
          rcases List.append_eq_append_iff.mp hpre with ⟨cs, rfl, hcs⟩ | ⟨cs, rfl, hcs⟩
          · cases cs with
            | nil => exact List.append_nil _
            | cons c cs =>
                obtain ⟨rfl, -⟩ := List.cons.inj hcs
                exact absurd (by simp) hderives.eof_not_mem
          · cases cs with
            | nil => exact (List.append_nil _).symm
            | cons c cs =>
                rw [hcs] at hend
                exact absurd hend (heof c (by simp))
        rwa [← hsame]
    · cases h
  · intro h
    have hparse := h.parse (parserFuel (ts ++ [(⟨.eof, p⟩ : Token)]).length) ts [⟨.eof, p⟩] rfl rfl
      (by simp [parserFuel, Level.need])
    rw [parseAt] at hparse
    rw [parseTokens, hparse]
    rfl

end CorexManager.Expression
