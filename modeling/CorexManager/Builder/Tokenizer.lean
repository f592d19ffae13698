import CorexManager.Data.Text

/-!
# The tokenizer of the rule builder

`tokenize` of `lib/expression-parser`, which the builder of the frontend reads expressions
with.  It is looser than the tokenizer of the backend: it has no token for a bracket or a
comma, takes a list and a bracketed key as text, and passes over what it does not know.
-/

namespace CorexManager.Builder

open Data (Text)

/-- `TokenType`, and what `KEYWORDS` inherits: its entries `constructor` and `__proto__` are
no type. -/
inductive TokenType where
  | field | operator | value | not | and | or | lparen | rparen | inherited
  deriving DecidableEq, Repr

/-- `Token`. -/
structure Token where
  type : TokenType
  value : Text
  deriving DecidableEq, Repr

/-- `/\s/`, which is also what `trim` removes. -/
def isSpace (c : Char) : Bool :=
  c.toNat ∈ [9, 10, 11, 12, 13, 32, 0xa0, 0x1680, 0x2028, 0x2029, 0x202f, 0x205f, 0x3000, 0xfeff] ||
    (0x2000 ≤ c.toNat && c.toNat ≤ 0x200a)

/-- `/[a-zA-Z0-9_.-]/`. -/
def isWord (c : Char) : Bool := c.isAlphanum || c == '_' || c == '.' || c == '-'

/-- `/[a-zA-Z0-9_.:-]/`. -/
def isRef (c : Char) : Bool := isWord c || c == ':'

/-- `toLowerCase`, where it is compared with words in ASCII; no other character has a
letter of these for its lower case. -/
def lower (t : Text) : Text := t.map Char.toLower

/-- `TWO_CHAR_OPS`. -/
def twoCharOps : List Text := [['!', '='], ['!', '~'], ['>', '='], ['<', '=']]

/-- `ONE_CHAR_OPS`. -/
def oneCharOps : List Char := ['=', '~', '>', '<']

/-- `WORD_OPERATORS`. -/
def wordOperators : List Text :=
  ["contains".toList, "starts_with".toList, "ends_with".toList, "exists".toList, "in".toList]

/-- `LITERALS`. -/
def literals : List Text := ["true".toList, "false".toList]

/-- `KEYWORDS`, and the names in lower case that every object has. -/
def keywords (word : Text) : Option TokenType :=
  if word = "and".toList then some .and
  else if word = "or".toList then some .or
  else if word = "not".toList then some .not
  else if word = "constructor".toList ∨ word = "__proto__".toList then some .inherited
  else none

/-- A quoted string up to its closing quote or the end of the text, and what follows. -/
def scanQuoted (quote : Char) : Text → Text × Text
  | [] => ([], [])
  | '\\' :: d :: cs => (d :: (scanQuoted quote cs).1, (scanQuoted quote cs).2)
  | c :: cs =>
      if c = quote then ([], cs) else (c :: (scanQuoted quote cs).1, (scanQuoted quote cs).2)

/-- The rest of a list, whose brackets are open `depth` times. -/
def scanBrackets : Text → Nat → Text × Text
  | cs, 0 => ([], cs)
  | [], _ + 1 => ([], [])
  | c :: cs, depth + 1 =>
      let r := scanBrackets cs (if c = '[' then depth + 2 else if c = ']' then depth else depth + 1)
      (c :: r.1, r.2)

/-- The bracketed keys right after a word. -/
def attached : Nat → Text → Text × Text
  | fuel + 1, '[' :: cs =>
      let key := '[' :: cs.takeWhile (· != ']')
      match cs.dropWhile (· != ']') with
      | [] => (key, [])
      | close :: rest => (key ++ close :: (attached fuel rest).1, (attached fuel rest).2)
  | _, cs => ([], cs)

/-- The token of a word. -/
def wordToken (last : Option TokenType) (word : Text) : Token :=
  match keywords (lower word) with
  | some type => ⟨type, lower word⟩
  | none =>
      if lower word ∈ wordOperators then ⟨.operator, lower word⟩
      else if lower word ∈ literals then ⟨.value, lower word⟩
      else if last = some .operator then ⟨.value, word⟩
      else ⟨.field, word⟩

/-- One turn of the loop at the character `c` with `cs` after it: the token pushed, if one
is, and what is left.  `last` is the type of the last token. -/
def lexeme (last : Option TokenType) (c : Char) (cs : Text) : Option Token × Text :=
  if isSpace c then (none, cs)
  else if c = '(' then (some ⟨.lparen, ['(']⟩, cs)
  else if c = ')' then (some ⟨.rparen, [')']⟩, cs)
  else if c = '"' ∨ c = '\'' then
    (some ⟨.value, (scanQuoted c cs).1⟩, (scanQuoted c cs).2)
  else if c = '[' ∧ last = some .operator then
    (some ⟨.value, '[' :: (scanBrackets cs 1).1⟩, (scanBrackets cs 1).2)
  else if c :: cs.take 1 ∈ twoCharOps then (some ⟨.operator, c :: cs.take 1⟩, cs.tail)
  else if c ∈ oneCharOps then (some ⟨.operator, [c]⟩, cs)
  else if c = '$' then (some ⟨.value, '$' :: cs.takeWhile isRef⟩, cs.dropWhile isRef)
  else if isWord c then
    let key := attached cs.length (cs.dropWhile isWord)
    (some (wordToken last (c :: cs.takeWhile isWord ++ key.1)), key.2)
  else (none, cs)

/-- The tokens of what is left of a text. -/
def tokenizeFrom : Nat → Option TokenType → Text → List Token
  | _, _, [] => []
  | 0, _, _ :: _ => []
  | fuel + 1, last, c :: cs =>
      match lexeme last c cs with
      | (none, rest) => tokenizeFrom fuel last rest
      | (some token, rest) => token :: tokenizeFrom fuel (some token.type) rest

/-- `tokenize`. -/
def tokenize (input : Text) : List Token := tokenizeFrom input.length none input

/-! ### Progress -/

theorem scanQuoted_length (quote : Char) (cs : Text) :
    (scanQuoted quote cs).2.length ≤ cs.length := by
  fun_induction scanQuoted quote cs with
  | case1 => exact le_rfl
  | case2 d cs ih => simp only [List.length_cons]; omega
  | case3 => simp
  | case4 c cs _ _ ih => simp only [List.length_cons]; omega

theorem scanBrackets_length (cs : Text) (depth : Nat) :
    (scanBrackets cs depth).2.length ≤ cs.length := by
  fun_induction scanBrackets cs depth with
  | case1 => exact le_rfl
  | case2 => exact le_rfl
  | case3 c cs depth r ih =>
      have hr : r.2.length ≤ cs.length := ih
      exact hr.trans (Nat.le_succ _)

theorem attached_length (fuel : Nat) (cs : Text) : (attached fuel cs).2.length ≤ cs.length := by
  fun_induction attached fuel cs with
  | case1 fuel cs key hdrop => simp
  | case2 fuel cs key close rest hdrop ih =>
      have hlen := (List.dropWhile_sublist (l := cs) (· != ']')).length_le
      rw [hdrop, List.length_cons] at hlen
      simp only [List.length_cons]
      omega
  | case3 => exact le_rfl

/-- A turn of the loop never puts characters back. -/
theorem lexeme_length (last : Option TokenType) (c : Char) (cs : Text) :
    (lexeme last c cs).2.length ≤ cs.length := by
  have hdrop : ∀ p : Char → Bool, (cs.dropWhile p).length ≤ cs.length :=
    fun p => (List.dropWhile_sublist p).length_le
  unfold lexeme
  dsimp only
  repeat' split
  · exact le_rfl
  · exact le_rfl
  · exact le_rfl
  · exact scanQuoted_length c cs
  · exact scanBrackets_length cs 1
  · simp
  · exact le_rfl
  · exact hdrop isRef
  · exact (attached_length _ _).trans (hdrop isWord)
  · exact le_rfl

/-- The length of the text is fuel enough. -/
theorem tokenizeFrom_fuel : ∀ (fuel : Nat) (last : Option TokenType) (cs : Text),
    cs.length ≤ fuel → tokenizeFrom fuel last cs = tokenizeFrom cs.length last cs := by
  intro fuel
  induction fuel using Nat.strong_induction_on with
  | _ fuel ih =>
      intro last cs hlen
      cases cs with
      | nil => cases fuel <;> rfl
      | cons c cs =>
          obtain ⟨fuel, rfl⟩ : ∃ f, fuel = f + 1 := ⟨fuel - 1, by simp at hlen; omega⟩
          have hcs : cs.length ≤ fuel := Nat.le_of_succ_le_succ hlen
          have hrest := lexeme_length last c cs
          have hsame : ∀ next, tokenizeFrom fuel next (lexeme last c cs).2 =
              tokenizeFrom cs.length next (lexeme last c cs).2 := fun next =>
            (ih fuel (Nat.lt_succ_self _) next _ (hrest.trans hcs)).trans
              (ih cs.length (Nat.lt_succ_of_le hcs) next _ hrest).symm
          rw [List.length_cons, tokenizeFrom, tokenizeFrom]
          cases hlex : lexeme last c cs with
          | mk token rest =>
              rw [hlex] at hsame
              cases token with
              | none => exact hsame last
              | some token => exact congrArg (token :: ·) (hsame _)

/-- The tokens of a text, one turn of the loop at a time. -/
theorem tokenizeFrom_cons (last : Option TokenType) (c : Char) (cs : Text) :
    tokenizeFrom (c :: cs).length last (c :: cs) =
      match lexeme last c cs with
      | (none, rest) => tokenizeFrom rest.length last rest
      | (some token, rest) => token :: tokenizeFrom rest.length (some token.type) rest := by
  have hrest := lexeme_length last c cs
  rw [List.length_cons, tokenizeFrom]
  cases hlex : lexeme last c cs with
  | mk token rest =>
      rw [hlex] at hrest
      cases token with
      | none => exact tokenizeFrom_fuel _ _ _ hrest
      | some token => exact congrArg (token :: ·) (tokenizeFrom_fuel _ _ _ hrest)

end CorexManager.Builder
