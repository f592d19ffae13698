import CorexManager.Expression.Syntax
import CorexManager.Python.Text

/-!
# The tokenizer

`_tokenize`.  The loop of the source is a recursion on what is left of the text;
its fuel is the length of the text, and every turn consumes a character
(`tokenizeFrom_fuel`).
-/

namespace CorexManager.Expression

open Data (Text)
open Python (UnicodeTables)

/-- The `ValueError`s of the tokenizer and the parser, one for each message. -/
inductive ParseError where
  /-- `Expression is required`. -/
  | required
  /-- `Unterminated string at position {pos}`. -/
  | unterminatedString (pos : Nat)
  /-- `invalid literal for int()`. -/
  | invalidInt (digits : Text)
  /-- `Invalid list reference at position {pos}`. -/
  | invalidListReference (pos : Nat)
  /-- `List reference must be $type:name at position {pos}`. -/
  | listReferenceForm (pos : Nat)
  /-- `Unexpected character {c!r} at position {pos}`. -/
  | unexpectedCharacter (c : Char) (pos : Nat)
  /-- `Expected {kind} {value!r} but got {tok.kind} {tok.value!r} at position {tok.pos}`. -/
  | expected (kind : TokenKind) (got : Token)
  /-- `Unexpected token {tok.kind} {tok.value!r} at position {tok.pos}`. -/
  | unexpectedToken (got : Token)
  /-- `Expected field name but got {tok.kind} {tok.value!r} at position {tok.pos}`. -/
  | expectedField (got : Token)
  /-- `Expected string key in brackets at position {pos}`. -/
  | expectedKey (pos : Nat)
  /-- `Expected 'in' or 'exists' after 'not' at position {pos}`. -/
  | expectedInOrExists (pos : Nat)
  /-- `Expected value after operator {op!r} at position {pos}`. -/
  | expectedValue (op : CompareOp) (pos : Nat)
  /-- `Field {field!r} requires an operator at position {pos}`. -/
  | requiresOperator (field : Text) (pos : Nat)
  /-- `Expected operator after field {field!r} at position {pos}`. -/
  | expectedOperator (field : Text) (pos : Nat)
  /-- `Expected value in list at position {pos}`. -/
  | expectedListValue (pos : Nat)
  /-- `Expected list reference or '[' after 'in' at position {pos}`. -/
  | expectedList (pos : Nat)
  /-- The recursion of the model ran out of fuel; it never does. -/
  | outOfFuel
  deriving DecidableEq, Repr

/-- `_TWO_CHAR_OPS`. -/
def twoCharOp : Char → Option Char → Option CompareOp
  | '!', some '=' => some .ne
  | '!', some '~' => some .notMatch
  | '>', some '=' => some .ge
  | '<', some '=' => some .le
  | _, _ => none

/-- `_ONE_CHAR_OPS`. -/
def oneCharOp : Char → Option CompareOp
  | '=' => some .eq
  | '~' => some .match
  | '>' => some .gt
  | '<' => some .lt
  | _ => none

/-- The one-character tokens. -/
def punctuation : Char → Option TokenKind
  | '(' => some .lparen
  | ')' => some .rparen
  | '[' => some .lbracket
  | ']' => some .rbracket
  | ',' => some .comma
  | _ => none

/-- The body of a string up to its closing quote, and what follows the quote.  A
backslash makes the next character literal. -/
def scanString (quote : Char) : Text → Option (Text × Text)
  | [] => none
  | '\\' :: d :: cs => (scanString quote cs).map fun r => (d :: r.1, r.2)
  | c :: cs =>
      if c = quote then some ([], cs)
      else (scanString quote cs).map fun r => (c :: r.1, r.2)

/-- `lower()` followed by the lookup in `_KEYWORDS`.  Lower-casing a character
outside ASCII never gives a letter of a reserved word. -/
def keywordOf (word : Text) : Option Keyword :=
  Keyword.all.find? fun k => k.text == word.map Char.toLower

/-- Split a list reference at its first colon. -/
def splitColon (ref : Text) : Option (Text × Text) :=
  match ref.dropWhile (· != ':') with
  | [] => none
  | _ :: name => some (ref.takeWhile (· != ':'), name)

/-- One turn of the loop at the character `c` with `cs` after it: the token that
begins there, if the turn appends one, and the text the next turn sees. -/
def lexeme (U : UnicodeTables) (pos : Nat) (c : Char) (cs : Text) :
    Except ParseError (Option TokenKind × Text) :=
  if U.space c then .ok (none, cs)
  else match punctuation c with
  | some kind => .ok (some kind, cs)
  | none => match twoCharOp c cs.head? with
  | some op => .ok (some (.op op), cs.tail)
  | none => match oneCharOp c with
  | some op => .ok (some (.op op), cs)
  | none =>
  if c = '"' ∨ c = '\'' then
    match scanString c cs with
    | none => .error (.unterminatedString pos)
    | some (s, rest) => .ok (some (.string s), rest)
  else if U.digit c then
    let digits := c :: cs.takeWhile U.digit
    match U.natOf digits with
    | none => .error (.invalidInt digits)
    | some k => .ok (some (.number k), cs.dropWhile U.digit)
  else if c = '-' ∧ cs.head?.any U.digit then
    let digits := cs.takeWhile U.digit
    match U.natOf digits with
    | none => .error (.invalidInt (c :: digits))
    | some k => .ok (some (.number (-(k : Int))), cs.dropWhile U.digit)
  else if c = '$' then
    let part := fun d => U.alnum d || d == '_' || d == '.' || d == ':' || d == '-'
    let ref := cs.takeWhile part
    if ref = [] then .error (.invalidListReference pos)
    else match splitColon ref with
      | none => .error (.listReferenceForm pos)
      | some (listType, listName) =>
          .ok (some (.listref listType listName), cs.dropWhile part)
  else if (c = 'A' ∨ c = 'a') ∧ (cs.head? = some 'S' ∨ cs.head? = some 's') ∧
      cs.tail.head?.any U.digit then
    .ok (some (.string ('A' :: 'S' :: cs.tail.takeWhile U.digit)),
      cs.tail.dropWhile U.digit)
  else if U.alpha c ∨ c = '_' then
    let part := fun d => U.alnum d || d == '.' || d == '_'
    let word := c :: cs.takeWhile part
    let kind := match keywordOf word with
      | some k => .keyword k
      | none => .ident word
    .ok (some kind, cs.dropWhile part)
  else .error (.unexpectedCharacter c pos)

/-- The tokens of what is left of a text of length `n`. -/
def tokenizeFrom (U : UnicodeTables) (n : Nat) : Nat → Text → Except ParseError (List Token)
  | _, [] => .ok [⟨.eof, n⟩]
  | 0, _ :: _ => .error .outOfFuel
  | fuel + 1, c :: cs =>
      let pos := n - (c :: cs).length
      match lexeme U pos c cs with
      | .error e => .error e
      | .ok (kind, rest) =>
          match tokenizeFrom U n fuel rest with
          | .error e => .error e
          | .ok ts => .ok ((kind.map (⟨·, pos⟩)).toList ++ ts)

/-- `_tokenize`. -/
def tokenize (U : UnicodeTables) (text : Text) : Except ParseError (List Token) :=
  tokenizeFrom U text.length text.length text

theorem scanString_length {quote : Char} {cs s rest : Text}
    (h : scanString quote cs = some (s, rest)) : rest.length < cs.length := by
  fun_induction scanString quote cs generalizing s rest with
  | case1 => simp at h
  | case2 d cs ih =>
      obtain ⟨r, hr, heq⟩ := Option.map_eq_some_iff.mp h
      obtain ⟨-, rfl⟩ := Prod.mk.inj heq
      have := ih hr
      simp only [List.length_cons]
      omega
  | case3 c cs =>
      obtain ⟨-, rfl⟩ := Prod.mk.inj (Option.some.inj h)
      simp
  | case4 c cs _ _ ih =>
      obtain ⟨r, hr, heq⟩ := Option.map_eq_some_iff.mp h
      obtain ⟨-, rfl⟩ := Prod.mk.inj heq
      have := ih hr
      simp only [List.length_cons]
      omega

/-- A turn of the loop never puts characters back. -/
theorem lexeme_length {U : UnicodeTables} {pos : Nat} {c : Char} {cs rest : Text}
    {kind : Option TokenKind} (h : lexeme U pos c cs = .ok (kind, rest)) :
    rest.length ≤ cs.length := by
  have htail : cs.tail.length ≤ cs.length := by simp
  have hdrop : ∀ (p : Char → Bool) (t : Text), (t.dropWhile p).length ≤ t.length :=
    fun p t => (List.dropWhile_sublist p).length_le
  unfold lexeme at h
  split at h
  · cases h; exact Nat.le_refl _
  split at h
  · cases h; exact Nat.le_refl _
  split at h
  · cases h; exact htail
  split at h
  · cases h; exact Nat.le_refl _
  split at h
  · split at h
    · cases h
    · next hscan => cases h; exact Nat.le_of_lt (scanString_length hscan)
  split at h
  · dsimp only at h
    split at h
    · cases h
    · cases h; exact hdrop _ cs
  split at h
  · dsimp only at h
    split at h
    · cases h
    · cases h; exact hdrop _ cs
  split at h
  · dsimp only at h
    split at h
    · cases h
    · split at h
      · cases h
      · cases h; exact hdrop _ cs
  split at h
  · cases h; exact Nat.le_trans (hdrop _ cs.tail) htail
  split at h
  · cases h; exact hdrop _ cs
  · cases h

theorem lexeme_fuel (U : UnicodeTables) (pos : Nat) (c : Char) (cs : Text) :
    lexeme U pos c cs ≠ .error .outOfFuel := by
  unfold lexeme
  dsimp only
  repeat' split
  all_goals simp

/-- Every turn of the loop consumes a character, so the length of the text is
fuel enough. -/
theorem tokenizeFrom_fuel (U : UnicodeTables) (n : Nat) : ∀ (fuel : Nat) (cs : Text),
    cs.length ≤ fuel → tokenizeFrom U n fuel cs ≠ .error .outOfFuel := by
  intro fuel
  induction fuel with
  | zero =>
      intro cs hlen
      cases cs with
      | nil => simp [tokenizeFrom]
      | cons c cs => simp at hlen
  | succ fuel ih =>
      intro cs hlen
      cases cs with
      | nil => simp [tokenizeFrom]
      | cons c cs =>
          simp only [tokenizeFrom]
          cases hlex : lexeme U (n - (c :: cs).length) c cs with
          | error e =>
              have hne := lexeme_fuel U (n - (c :: cs).length) c cs
              rw [hlex] at hne
              simpa using hne
          | ok r =>
              obtain ⟨kind, rest⟩ := r
              have hrest := lexeme_length hlex
              have hne := ih rest (by simp at hlen; omega)
              dsimp only
              cases htok : tokenizeFrom U n fuel rest with
              | error e => simpa [htok] using hne
              | ok ts => simp

/-- The tokenizer never runs out of fuel. -/
theorem tokenize_fuel (U : UnicodeTables) (text : Text) :
    tokenize U text ≠ .error .outOfFuel :=
  tokenizeFrom_fuel U text.length text.length text (Nat.le_refl _)

end CorexManager.Expression
