import CorexManager.Builder.Reading
import CorexManager.Expression.Print

/-!
# Texts both tokenizers read alike

A piece is a stretch of an expression that is one token to the builder and one token or
several to the backend.  `Spelled` are the texts made of pieces that both read as such.

* `Spelled.lexes`, `Spelled.tokens`: what each tokenizer makes of such a text.
-/

namespace CorexManager.Builder

open Data (Text)
open Expression (CompareOp Ends IsListRef IsName Item Keyword Lexeme Lexes Stops TokenKind
  bracketField fieldTokens itemTokens opText scanString)
open Python (UnicodeTables)

/-! ### Pieces -/

/-- A stretch of text, with what it is. -/
inductive Piece where
  | lparen
  | rparen
  | word (text : Text) (k : Keyword)
  | name (name : Text)
  | keyed (name body key : Text)
  | symbol (o : CompareOp)
  | number (text : Text) (n : Int)
  | asNumber (head digits : Text)
  | quoted (quote : Char) (body value : Text)
  | listref (listType listName : Text)
  | list (body : Text) (values : List Item)

namespace Piece

/-- The characters of a piece. -/
def text : Piece → Text
  | lparen => ['(']
  | rparen => [')']
  | word t _ => t
  | name t => t
  | keyed t body _ => t ++ '[' :: (body ++ [']'])
  | symbol o => opText o
  | number t _ => t
  | asNumber head digits => head ++ digits
  | quoted quote body _ => quote :: body
  | listref listType listName => '$' :: listType ++ ':' :: listName
  | list body _ => '[' :: (body ++ [']'])

/-- What the backend reads. -/
def kinds : Piece → List TokenKind
  | lparen => [.lparen]
  | rparen => [.rparen]
  | word _ k => [.keyword k]
  | name t => [.ident t]
  | keyed t _ key => [.ident t, .lbracket, .string key, .rbracket]
  | symbol o => [.op o]
  | number _ n => [.number n]
  | asNumber _ digits => [.string ('A' :: 'S' :: digits)]
  | quoted _ _ value => [.string value]
  | listref listType listName => [.listref listType listName]
  | list _ values => .lbracket :: (itemTokens values ++ [.rbracket])

/-- The type of a reserved word. -/
def keywordType : Keyword → TokenType
  | .and => .and
  | .or => .or
  | .not => .not
  | .true | .false => .value
  | _ => .operator

/-- What the builder reads. -/
def token : Piece → Token
  | lparen => ⟨.lparen, ['(']⟩
  | rparen => ⟨.rparen, [')']⟩
  | word _ k => ⟨keywordType k, k.text⟩
  | name t => ⟨.field, t⟩
  | keyed t body _ => ⟨.field, t ++ '[' :: (body ++ [']'])⟩
  | symbol o => ⟨.operator, opText o⟩
  | number t _ => ⟨.value, t⟩
  | asNumber head digits => ⟨.value, head ++ digits⟩
  | quoted _ _ value => ⟨.value, value⟩
  | listref listType listName => ⟨.value, '$' :: listType ++ ':' :: listName⟩
  | list body _ => ⟨.value, '[' :: (body ++ [']'])⟩

end Piece

/-- A string that is quoted again when it is written: it does not look like another value,
and has no blank at its ends. -/
structure Survives (s : Text) : Prop where
  ne_nil : s ≠ []
  first : ∀ c ∈ s.head?, isSpace c = false
  last : ∀ c ∈ s.getLast?, isSpace c = false
  quotes : between '"' '"' s = false ∧ between '\'' '\'' s = false
  number : isNumber s = false
  literal : s ≠ "true".toList ∧ s ≠ "false".toList
  reference : s.head? ≠ some '$'
  asNumber : isAsNumber s = true → s.take 2 = ['A', 'S']
  list : between '[' ']' s = false

/-- The brackets open `depth` times are closed at the end of the text, not before. -/
def closesAtEnd : Text → Nat → Bool
  | [], depth => depth == 0
  | _ :: _, 0 => false
  | c :: cs, depth + 1 =>
      closesAtEnd cs (if c = '[' then depth + 2 else if c = ']' then depth else depth + 1)

/-- A name in ASCII that no object has. -/
structure PlainName (U : UnicodeTables) (t : Text) : Prop where
  name : IsName U t
  word : ∀ c ∈ t, isWord c = true
  own : keywords (lower t) = none

/-- What both tokenizers take for the piece it is. -/
def Piece.Legible (U : UnicodeTables) : Piece → Prop
  | lparen | rparen => True
  | word t k => lower t = k.text
  | name t => PlainName U t
  | keyed t body key => PlainName U t ∧ ']' ∉ body ∧ Lexes U body [.string key]
  | symbol o => o.symbolic = true
  | number t n => ∃ ds k, isDigits ds = true ∧ U.natOf ds = some k ∧
      ((t = ds ∧ n = k) ∨ (t = '-' :: ds ∧ n = -(k : Int)))
  | asNumber head digits => lower head = ['a', 's'] ∧ isDigits digits = true
  | quoted quote body value => (quote = '"' ∨ quote = '\'') ∧
      scanString quote body = some (value, []) ∧ Survives value
  | listref listType listName => ':' ∉ listType ∧
      (∀ c ∈ listType, isRef c = true) ∧ ∀ c ∈ listName, isRef c = true
  | list body values => closesAtEnd (body ++ [']']) 1 = true ∧ Lexes U body (itemTokens values)

/-- What may follow a word. -/
def Apart (U : UnicodeTables) (rest : Text) : Prop := Ends U rest ∧ rest.head? ≠ some '['

/-- Where a piece stands: behind a token of the type `last` and in front of `rest`. -/
def Piece.Fits (U : UnicodeTables) (last : Option TokenType) (rest : Text) : Piece → Prop
  | word _ _ | listref _ _ => Apart U rest
  | name _ => last ≠ some .operator ∧ Apart U rest
  | keyed _ _ _ => last ≠ some .operator ∧ rest.head? ≠ some '['
  | symbol _ => rest.head? ≠ some '='
  | number _ _ | asNumber _ _ => last = some .operator ∧ Apart U rest
  | list _ _ => last = some .operator
  | _ => True

/-- The texts made of pieces with blanks between them. -/
inductive Spelled (U : UnicodeTables) : Option TokenType → Text → List Piece → Prop
  | nil {last : Option TokenType} : Spelled U last [] []
  | blank {last : Option TokenType} {c : Char} {rest : Text} {ps : List Piece}
      (hc : U.space c = true) (h : Spelled U last rest ps) : Spelled U last (c :: rest) ps
  | piece {last : Option TokenType} {p : Piece} {rest : Text} {ps : List Piece}
      (hp : p.Legible U) (hfit : p.Fits U last rest)
      (h : Spelled U (some p.token.type) rest ps) : Spelled U last (p.text ++ rest) (p :: ps)

section

variable {U : UnicodeTables}

theorem Spelled.legible {last : Option TokenType} {text : Text} {ps : List Piece}
    (h : Spelled U last text ps) : ∀ p ∈ ps, p.Legible U := by
  induction h with
  | nil => exact nofun
  | blank hc h ih => exact ih
  | piece hp hfit h ih => exact List.forall_mem_cons.mpr ⟨hp, ih⟩

/-! ### The backend's tokens -/

/-- The reserved words are the words whose lower case is one. -/
theorem keywordOf_lower {text : Text} {k : Keyword} (h : lower text = k.text) :
    Expression.keywordOf text = some k := by
  have hlower : text.map Char.toLower = k.text := h
  rw [Expression.keywordOf, hlower]
  cases k <;> rfl

/-- Lower-casing leaves the characters outside ASCII alone. -/
theorem toLower_ascii {c : Char} (h : c.toLower.toNat < 128) : c.toNat < 128 := by
  by_contra hc
  have hsame : c.toLower = c := by
    refine dif_neg fun hupper => hc ?_
    have hle : c.toNat ≤ 'Z'.toNat := hupper.2
    have hZ : 'Z'.toNat = 90 := rfl
    omega
  exact hc (hsame ▸ h)

/-- The letters of a reserved word, in either case. -/
theorem keyword_letter {t : Text} {k : Keyword} (h : lower t = k.text) :
    ∀ c ∈ t, c.isAlpha = true ∨ c = '_' := by
  have hletters : ∀ d ∈ k.text, d.toNat < 128 ∧ (d.isAlpha = true ∨ d = '_') := by
    cases k <;> decide
  intro c hc
  obtain ⟨hascii, hlower⟩ := hletters c.toLower (h ▸ List.mem_map_of_mem hc)
  exact Data.ascii_forall (P := fun c => c.toLower.isAlpha = true ∨ c.toLower = '_' →
    c.isAlpha = true ∨ c = '_') (by decide) c (toLower_ascii hascii) hlower

theorem nameStart_of_letter {c : Char} (h : c.isAlpha = true ∨ c = '_') :
    Expression.NameStart U c ∧ Expression.namePart U c = true := by
  rcases h with h | rfl
  · have hascii := Data.isAlphanum_ascii (c := c) (by simp [Char.isAlphanum, h])
    obtain ⟨hspace, hdigit, halnum⟩ := Data.ascii_forall (P := fun c => c.isAlpha = true →
      (c == ' ' || (9 ≤ c.toNat && c.toNat ≤ 13) || (28 ≤ c.toNat && c.toNat ≤ 31)) = false ∧
        c.isDigit = false ∧ c.isAlphanum = true) (by decide) c hascii h
    refine ⟨⟨.inl ?_, ?_, ?_⟩, ?_⟩
    · rw [UnicodeTables.alpha, if_pos hascii, h]
    · rw [UnicodeTables.space, if_pos hascii, hspace]
    · rw [UnicodeTables.digit, if_pos hascii, hdigit]
    · rw [Expression.namePart, UnicodeTables.alnum, if_pos hascii, halnum]
      rfl
  · exact ⟨⟨.inr rfl, rfl, rfl⟩, rfl⟩

theorem lexes_word {t rest : Text} {k : Keyword} {ks : List TokenKind}
    (h : lower t = k.text) (hrest : Ends U rest) (hks : Lexes U rest ks) :
    Lexes U (t ++ rest) (.keyword k :: ks) := by
  have hkeyword := keywordOf_lower h
  have hletters := keyword_letter h
  cases t with
  | nil => cases k <;> cases h
  | cons c cs =>
      obtain ⟨hc, hcs⟩ := List.forall_mem_cons.mp hletters
      have hstart := (nameStart_of_letter (U := U) hc).1
      have hparts : ∀ d ∈ cs, Expression.namePart U d = true :=
        fun d hd => (nameStart_of_letter (hcs d hd)).2
      have has : ¬ Expression.asNumber U c cs := by
        rintro ⟨hc, hs, -⟩
        cases cs with
        | nil => rcases hs with hs | hs <;> cases hs
        | cons d ds =>
            have hstart₂ : k.text.take 2 ≠ ['a', 's'] := by cases k <;> decide
            refine hstart₂ ?_
            rw [← h]
            have hs' : d = 'S' ∨ d = 's' := by simpa using hs
            rcases hc with rfl | rfl <;> rcases hs' with rfl | rfl <;> rfl
      have hkind : Expression.wordKind (c :: cs) = .keyword k := by
        rw [Expression.wordKind, hkeyword]
      exact .cons (hkind ▸ Expression.lexeme_word hstart hparts has hrest) hks

/-- A body in brackets. -/
theorem lexes_bracket {body rest : Text} {bs ks : List TokenKind} (hbody : Lexes U body bs)
    (hks : Lexes U rest ks) :
    Lexes U ('[' :: (body ++ [']']) ++ rest) (.lbracket :: (bs ++ [.rbracket]) ++ ks) := by
  have hstops : Stops (']' :: rest) := by
    rintro c hc
    cases hc
    decide
  have hclose : Lexes U (']' :: rest) (.rbracket :: ks) := .cons (.punctuation rfl) hks
  have hall := hbody.append hstops hclose
  simpa using Lexes.cons (.punctuation rfl) hall

theorem isDigits_iff {t : Text} : isDigits t = true ↔ t ≠ [] ∧ ∀ c ∈ t, c.isDigit = true := by
  cases t <;> simp [isDigits]

/-- The number of an autonomous system. -/
theorem lexes_asNumber {head digits rest : Text} {ks : List TokenKind}
    (hhead : lower head = ['a', 's']) (hdigits : isDigits digits = true) (hrest : Ends U rest)
    (hks : Lexes U rest ks) :
    Lexes U (head ++ digits ++ rest) (.string ('A' :: 'S' :: digits) :: ks) := by
  obtain ⟨hne, hall⟩ := isDigits_iff.mp hdigits
  have hlen : head.length = 2 := by simpa [lower] using congrArg List.length hhead
  obtain ⟨a, s, rfl⟩ := List.length_eq_two.mp hlen
  obtain ⟨ha, hs⟩ : a.toLower = 'a' ∧ s.toLower = 's' := by simpa [lower] using hhead
  have hascii : ∀ c d : Char, c.toLower = d → d.toNat < 128 → c.toNat < 128 :=
    fun c d hcd hd => toLower_ascii (hcd ▸ hd)
  have ha' : a = 'A' ∨ a = 'a' := Data.ascii_forall
    (P := fun c => c.toLower = 'a' → c = 'A' ∨ c = 'a') (by decide) a
    (hascii a 'a' ha (by decide)) ha
  have hs' : s = 'S' ∨ s = 's' := Data.ascii_forall
    (P := fun c => c.toLower = 's' → c = 'S' ∨ c = 's') (by decide) s
    (hascii s 's' hs (by decide)) hs
  obtain ⟨htake, hdrop⟩ := Expression.digits_boundary (U := U) hall hrest
  have has : Expression.asNumber U a (s :: (digits ++ rest)) := by
    refine ⟨ha', by simpa using hs', ?_⟩
    obtain ⟨d, ds, rfl⟩ := List.exists_cons_of_ne_nil hne
    exact (Expression.digit_of_isDigit (hall d List.mem_cons_self)).1
  have hlex := Lexeme.asNumber has
  rw [List.tail_cons, htake, hdrop] at hlex
  exact .cons hlex hks

theorem isRef_refPart {c : Char} (h : isRef c = true) : Expression.refPart U c = true := by
  have hclass : c.isAlphanum = true ∨ c = '_' ∨ c = '.' ∨ c = '-' ∨ c = ':' := by
    simpa [isRef, isWord, or_assoc] using h
  rcases hclass with halnum | rfl | rfl | rfl | rfl
  · have hU : U.alnum c = true := by
      rw [UnicodeTables.alnum, if_pos (Data.isAlphanum_ascii halnum), halnum]
    rw [Expression.refPart, hU]
    rfl
  · rfl
  · rfl
  · rfl
  · rfl

/-- **The backend reads the piece.** -/
theorem Piece.Legible.lexes {last : Option TokenType} {p : Piece} (h : p.Legible U) {rest : Text}
    (hfit : p.Fits U last rest) {ks : List TokenKind} (hks : Lexes U rest ks) :
    Lexes U (p.text ++ rest) (p.kinds ++ ks) := by
  cases p with
  | lparen => exact .cons (.punctuation rfl) hks
  | rparen => exact .cons (.punctuation rfl) hks
  | word t k => exact lexes_word h hfit.1 hks
  | name t =>
      obtain ⟨c, cs, htext, hlex⟩ := Expression.lexeme_ident h.name hfit.2.1
      rw [Piece.text, htext]
      exact .cons hlex hks
  | keyed t body key =>
      have hopen : Ends U ('[' :: (body ++ [']']) ++ rest) := by
        rintro c hc
        cases hc
        exact ⟨rfl, rfl, by decide⟩
      obtain ⟨c, cs, htext, hlex⟩ := Expression.lexeme_ident h.1.name hopen
      rw [Piece.text, List.append_assoc, htext]
      exact .cons hlex (lexes_bracket h.2.2 hks)
  | symbol o =>
      obtain ⟨c, cs, htext, hlex⟩ := Expression.lexeme_op (U := U) h hfit
      rw [Piece.text, htext]
      exact .cons hlex hks
  | number t n =>
      obtain ⟨ds, k, hds, hk, ⟨rfl, rfl⟩ | ⟨rfl, rfl⟩⟩ := h
      · obtain ⟨hne, hall⟩ := isDigits_iff.mp hds
        obtain ⟨c, cs, htext, hlex⟩ := Expression.lexeme_digits hne hall hk hfit.2.1
        rw [Piece.text, htext]
        exact .cons hlex hks
      · obtain ⟨hne, hall⟩ := isDigits_iff.mp hds
        exact .cons (Expression.lexeme_negative hne hall hk hfit.2.1) hks
  | asNumber head digits => exact lexes_asNumber h.1 h.2 hfit.2.1 hks
  | quoted quote body value =>
      obtain ⟨hquote, hscan, -⟩ := h
      have hslash : quote ≠ '\\' := by
        rcases hquote with rfl | rfl
        · decide
        · decide
      exact .cons (.string hquote (Expression.scanString_append hslash hscan rest)) hks
  | listref listType listName =>
      have href : ∀ t : Text, (∀ c ∈ t, isRef c = true) → ∀ c ∈ t, Expression.refPart U c = true :=
        fun t ht c hc => isRef_refPart (ht c hc)
      have hlistref : IsListRef U listType listName := ⟨h.1, href _ h.2.1, href _ h.2.2⟩
      exact .cons (Expression.lexeme_listref hlistref hfit.1) hks
  | list body values => exact lexes_bracket h.2 hks

theorem Spelled.lexes {last : Option TokenType} {text : Text} {ps : List Piece}
    (h : Spelled U last text ps) : Lexes U text (ps.flatMap Piece.kinds) := by
  induction h with
  | nil => exact .nil
  | blank hc h ih => exact .cons (.blank hc) ih
  | piece hp hfit h ih => exact hp.lexes hfit ih

/-! ### The builder's tokens -/

theorem Apart.next {rest : Text} (h : Apart U rest) :
    ∀ c ∈ rest.head?, isWord c = false ∧ isRef c = false ∧ c ≠ '[' := by
  intro c hc
  obtain ⟨halnum, -, hmem⟩ := h.1 c hc
  simp only [List.mem_cons, List.not_mem_nil, or_false, not_or] at hmem
  have hletter : c.isAlphanum = false := by
    rw [← Bool.not_eq_true]
    intro hletter
    rw [UnicodeTables.alnum, if_pos (Data.isAlphanum_ascii hletter), hletter] at halnum
    cases halnum
  refine ⟨by simp [isWord, hletter, hmem], by simp [isRef, isWord, hletter, hmem], ?_⟩
  rintro rfl
  exact h.2 hc

/-- What a character of a word is not. -/
theorem isWord_plain {c : Char} (h : isWord c = true) : isSpace c = false ∧
    c ∉ ['(', ')', '"', '\'', '[', '!', '=', '~', '>', '<', '$'] := by
  have hascii : c.toNat < 128 := by
    have hclass : c.isAlphanum = true ∨ c = '_' ∨ c = '.' ∨ c = '-' := by
      simpa [isWord, or_assoc] using h
    rcases hclass with halnum | rfl | rfl | rfl
    · exact Data.isAlphanum_ascii halnum
    · decide
    · decide
    · decide
  exact Data.ascii_forall (P := fun c => isWord c = true → isSpace c = false ∧
    c ∉ ['(', ')', '"', '\'', '[', '!', '=', '~', '>', '<', '$']) (by decide) c hascii h

theorem twoCharOps_head {c : Char} {t : Text} (h : c :: t ∈ twoCharOps) :
    c = '!' ∨ c = '>' ∨ c = '<' := by
  simp only [twoCharOps, List.mem_cons, List.cons.injEq, List.not_mem_nil, or_false] at h
  tauto

/-- A word with what is attached to it. -/
theorem lexeme_isWord {last : Option TokenType} {c : Char} {cs : Text} (h : isWord c = true) :
    lexeme last c cs = (some (wordToken last (c :: cs.takeWhile isWord ++
      (attached cs.length (cs.dropWhile isWord)).1)), (attached cs.length (cs.dropWhile isWord)).2) := by
  obtain ⟨hspace, hmem⟩ := isWord_plain h
  simp only [List.mem_cons, List.not_mem_nil, or_false, not_or] at hmem
  obtain ⟨h₁, h₂, h₃, h₄, h₅, h₆, h₇, h₈, h₉, h₁₀, h₁₁⟩ := hmem
  have htwo : c :: cs.take 1 ∉ twoCharOps := fun htwo => by
    rcases twoCharOps_head htwo with rfl | rfl | rfl <;> contradiction
  have hone : c ∉ oneCharOps := by simp [oneCharOps, h₇, h₈, h₉, h₁₀]
  simp only [lexeme, hspace, h₁, h₂, h₃, h₄, h₅, h₁₁, htwo, hone, h, or_self, false_and,
    Bool.false_eq_true, if_false, if_true]

theorem attached_nil {fuel : Nat} {rest : Text} (h : rest.head? ≠ some '[') :
    attached fuel rest = ([], rest) := by
  unfold attached
  split
  · exact absurd rfl h
  · rfl

/-- A bare word is read to its end. -/
theorem lexeme_bare {last : Option TokenType} {t rest : Text} (hne : t ≠ [])
    (hall : ∀ c ∈ t, isWord c = true) (hrest : Apart U rest) :
    ∃ c cs, t ++ rest = c :: cs ∧ lexeme last c cs = (some (wordToken last t), rest) := by
  obtain ⟨c, cs, rfl⟩ := List.exists_cons_of_ne_nil hne
  obtain ⟨hc, hcs⟩ := List.forall_mem_cons.mp hall
  obtain ⟨htake, hdrop⟩ := Data.takeWhile_of_boundary rest hcs fun d hd => (hrest.next d hd).1
  refine ⟨c, cs ++ rest, rfl, ?_⟩
  rw [lexeme_isWord hc, htake, hdrop, attached_nil hrest.2, List.append_nil]

/-- A word with a key is read to the closing bracket. -/
theorem lexeme_keyed {last : Option TokenType} {t body rest : Text} (hne : t ≠ [])
    (hall : ∀ c ∈ t, isWord c = true) (hbody : ']' ∉ body) (hrest : rest.head? ≠ some '[') :
    ∃ c cs, t ++ '[' :: (body ++ [']']) ++ rest = c :: cs ∧
      lexeme last c cs = (some (wordToken last (t ++ '[' :: (body ++ [']']))), rest) := by
  obtain ⟨c, cs, rfl⟩ := List.exists_cons_of_ne_nil hne
  obtain ⟨hc, hcs⟩ := List.forall_mem_cons.mp hall
  obtain ⟨htake, hdrop⟩ := Data.takeWhile_of_boundary ('[' :: (body ++ ']' :: rest)) hcs
    (by rintro d hd; cases hd; rfl)
  have hkey : ∀ d ∈ body, (d != ']') = true := by
    intro d hd
    rw [bne_iff_ne]
    rintro rfl
    exact hbody hd
  obtain ⟨hktake, hkdrop⟩ := Data.takeWhile_of_boundary (']' :: rest) hkey (by simp)
  have hattached : ∀ fuel, attached (fuel + 1) ('[' :: (body ++ ']' :: rest)) =
      ('[' :: (body ++ [']']), rest) := by
    intro fuel
    rw [attached, hktake, hkdrop]
    dsimp only
    rw [attached_nil hrest]
    rfl
  refine ⟨c, cs ++ '[' :: (body ++ ']' :: rest), by simp, ?_⟩
  obtain ⟨fuel, hfuel⟩ : ∃ f, (cs ++ '[' :: (body ++ ']' :: rest)).length = f + 1 :=
    ⟨cs.length + (body ++ ']' :: rest).length, by simp; omega⟩
  rw [lexeme_isWord hc, htake, hdrop, hfuel, hattached]

/-- The characters of the words that mean something to the builder. -/
def reservedChar (c : Char) : Bool := c.isLower || c == '_'

/-- A word with another character is none of them. -/
theorem not_reserved {w : Text} (h : ∃ c ∈ w, reservedChar c = false) :
    keywords w = none ∧ w ∉ wordOperators ∧ w ∉ literals := by
  obtain ⟨c, hc, hreserved⟩ := h
  have hne : ∀ t : Text, (∀ d ∈ t, reservedChar d = true) → w ≠ t := by
    rintro t ht rfl
    exact Bool.false_ne_true (hreserved.symm.trans (ht c hc))
  refine ⟨?_, ?_, ?_⟩
  · rw [keywords, if_neg (hne _ (by decide)), if_neg (hne _ (by decide)), if_neg (hne _ (by decide)),
      if_neg (not_or.mpr ⟨hne _ (by decide), hne _ (by decide)⟩)]
  · simp only [wordOperators, List.mem_cons, List.not_mem_nil, or_false, not_or]
    exact ⟨hne _ (by decide), hne _ (by decide), hne _ (by decide), hne _ (by decide), hne _ (by decide)⟩
  · simp only [literals, List.mem_cons, List.not_mem_nil, or_false, not_or]
    exact ⟨hne _ (by decide), hne _ (by decide)⟩

theorem wordToken_free {last : Option TokenType} {w : Text} (hown : keywords (lower w) = none)
    (hop : lower w ∉ wordOperators) (hliteral : lower w ∉ literals) :
    wordToken last w = ⟨if last = some .operator then .value else .field, w⟩ := by
  rw [wordToken, hown]
  dsimp only
  rw [if_neg hop, if_neg hliteral]
  by_cases hlast : last = some .operator
  · rw [if_pos hlast, if_pos hlast]
  · rw [if_neg hlast, if_neg hlast]

theorem wordToken_keyword {last : Option TokenType} {t : Text} {k : Keyword}
    (h : lower t = k.text) : wordToken last t = ⟨Piece.keywordType k, k.text⟩ := by
  rw [wordToken, h]
  cases k <;> rfl

/-- A name is no word of the operators or literals. -/
theorem PlainName.token {t : Text} (h : PlainName U t) {last : Option TokenType}
    (hlast : last ≠ some .operator) : wordToken last t = ⟨.field, t⟩ := by
  have hkeyword : ∀ k : Keyword, lower t ≠ k.text := by
    intro k hk
    exact Option.some_ne_none k ((keywordOf_lower hk).symm.trans h.name.keyword)
  have hop : lower t ∉ wordOperators := by
    simp only [wordOperators, List.mem_cons, List.not_mem_nil, or_false, not_or]
    exact ⟨hkeyword .contains, hkeyword .startsWith, hkeyword .endsWith, hkeyword .exists,
      hkeyword .in⟩
  have hliteral : lower t ∉ literals := by
    simp only [literals, List.mem_cons, List.not_mem_nil, or_false, not_or]
    exact ⟨hkeyword .true, hkeyword .false⟩
  rw [wordToken_free h.own hop hliteral, if_neg hlast]

theorem PlainName.ne_nil {t : Text} (h : PlainName U t) : t ≠ [] := by
  obtain ⟨c, cs, rfl, -⟩ := h.name.start
  exact List.cons_ne_nil c cs

/-- A word with a digit behind an operator is a value. -/
theorem wordToken_digit {t : Text} (h : ∃ c ∈ t, c.isDigit = true) :
    wordToken (some .operator) t = ⟨.value, t⟩ := by
  obtain ⟨c, hc, hdigit⟩ := h
  have hascii := Data.isAlphanum_ascii (c := c) (by simp [Char.isAlphanum, hdigit])
  have hfree := not_reserved (w := lower t) ⟨c.toLower, List.mem_map_of_mem hc,
    Data.ascii_forall (P := fun c => c.isDigit = true → reservedChar c.toLower = false) (by decide) c
      hascii hdigit⟩
  rw [wordToken_free hfree.1 hfree.2.1 hfree.2.2, if_pos rfl]

theorem isWord_of_digit {c : Char} (h : c.isDigit = true) : isWord c = true := by
  simp [isWord, Char.isAlphanum, h]

theorem scanQuoted_eq {q : Char} {cs s rest : Text} (h : scanString q cs = some (s, rest)) :
    scanQuoted q cs = (s, rest) := by
  fun_induction scanString q cs generalizing s rest with
  | case1 => cases h
  | case2 d cs ih =>
      obtain ⟨r, hr, heq⟩ := Option.map_eq_some_iff.mp h
      obtain ⟨rfl, rfl⟩ := Prod.mk.inj heq
      rw [scanQuoted, ih hr]
  | case3 cs hslash =>
      obtain ⟨rfl, rfl⟩ := Prod.mk.inj (Option.some.inj h)
      rw [scanQuoted, if_pos rfl]
      exact hslash
  | case4 c cs hslash hc ih =>
      obtain ⟨r, hr, heq⟩ := Option.map_eq_some_iff.mp h
      obtain ⟨rfl, rfl⟩ := Prod.mk.inj heq
      rw [scanQuoted, if_neg hc, ih hr]
      exact hslash

theorem scanBrackets_closed {cs : Text} {depth : Nat} (h : closesAtEnd cs depth = true)
    (rest : Text) : scanBrackets (cs ++ rest) depth = (cs, rest) := by
  fun_induction closesAtEnd cs depth with
  | case1 depth =>
      obtain rfl : depth = 0 := by simpa using h
      cases rest <;> rfl
  | case2 => cases h
  | case3 c cs depth ih =>
      rw [List.cons_append, scanBrackets, ih h]

/-- The operators in symbols are read to their ends. -/
theorem lexeme_symbol {last : Option TokenType} {o : CompareOp} (h : o.symbolic = true)
    {rest : Text} (hrest : rest.head? ≠ some '=') :
    ∃ c cs, opText o ++ rest = c :: cs ∧ lexeme last c cs = (some ⟨.operator, opText o⟩, rest) := by
  have hlone : ∀ c, c ∈ oneCharOps → c :: rest.take 1 ∉ twoCharOps := by
    intro c hc htwo
    cases rest with
    | nil => simp [twoCharOps] at htwo
    | cons d ds =>
        have hd : d ≠ '=' := fun hd => hrest (congrArg some hd)
        obtain ⟨rfl, rfl⟩ : c = '!' ∧ d = '~' := by simpa [twoCharOps, hd] using htwo
        revert hc
        decide
  have hone : ∀ c, c ∈ oneCharOps → lexeme last c rest = (some ⟨.operator, [c]⟩, rest) := by
    intro c hc
    have hnot : isSpace c = false ∧ c ∉ ['(', ')', '"', '\'', '['] := by
      revert c
      decide
    obtain ⟨hspace, hmem⟩ := hnot
    simp only [List.mem_cons, List.not_mem_nil, or_false, not_or] at hmem
    obtain ⟨h₁, h₂, h₃, h₄, h₅⟩ := hmem
    simp only [lexeme, hspace, h₁, h₂, h₃, h₄, h₅, hlone c hc, hc, or_self, false_and,
      Bool.false_eq_true, if_false, if_true]
  cases o with
  | eq => exact ⟨'=', rest, rfl, hone '=' (by decide)⟩
  | ne => exact ⟨'!', '=' :: rest, rfl, rfl⟩
  | «match» => exact ⟨'~', rest, rfl, hone '~' (by decide)⟩
  | notMatch => exact ⟨'!', '~' :: rest, rfl, rfl⟩
  | gt => exact ⟨'>', rest, rfl, hone '>' (by decide)⟩
  | lt => exact ⟨'<', rest, rfl, hone '<' (by decide)⟩
  | ge => exact ⟨'>', '=' :: rest, rfl, rfl⟩
  | le => exact ⟨'<', '=' :: rest, rfl, rfl⟩
  | contains => cases h
  | startsWith => cases h
  | endsWith => cases h

theorem lexeme_quote {last : Option TokenType} {q : Char} (h : q = '"' ∨ q = '\'') {cs : Text} :
    lexeme last q cs = (some ⟨.value, (scanQuoted q cs).1⟩, (scanQuoted q cs).2) := by
  rcases h with rfl | rfl <;> rfl

theorem lexeme_open {cs : Text} : lexeme (some .operator) '[' cs =
    (some ⟨.value, '[' :: (scanBrackets cs 1).1⟩, (scanBrackets cs 1).2) := rfl

theorem lexeme_dollar {last : Option TokenType} {cs : Text} : lexeme last '$' cs =
    (some ⟨.value, '$' :: cs.takeWhile isRef⟩, cs.dropWhile isRef) := by
  have htwo : '$' :: cs.take 1 ∉ twoCharOps := fun htwo => by
    rcases twoCharOps_head htwo with h | h | h <;> exact absurd h (by decide)
  have hspace : isSpace '$' = false := by decide
  have hone : '$' ∉ oneCharOps := by decide
  simp only [lexeme, hspace, htwo, hone]
  simp

/-- The letters of `AS`, in either case. -/
theorem isWord_of_head {head : Text} (h : lower head = ['a', 's']) :
    ∀ c ∈ head, isWord c = true := by
  intro c hc
  have hlower : c.toLower ∈ ['a', 's'] := h ▸ List.mem_map_of_mem hc
  have hascii : c.toLower.toNat < 128 := by
    rcases List.mem_cons.mp hlower with hc | hc
    · rw [hc]; decide
    · rw [List.mem_singleton.mp hc]; decide
  exact Data.ascii_forall (P := fun c => c.toLower ∈ ['a', 's'] → isWord c = true) (by decide) c
    (toLower_ascii hascii) hlower

/-- **The builder reads the piece.** -/
theorem Piece.Legible.token {last : Option TokenType} {p : Piece} (h : p.Legible U) {rest : Text}
    (hfit : p.Fits U last rest) :
    ∃ c cs, p.text ++ rest = c :: cs ∧ lexeme last c cs = (some p.token, rest) := by
  cases p with
  | lparen => exact ⟨'(', rest, rfl, rfl⟩
  | rparen => exact ⟨')', rest, rfl, rfl⟩
  | word t k =>
      have hword : ∀ c ∈ t, isWord c = true := by
        intro c hc
        rcases keyword_letter h c hc with hletter | rfl
        · simp [isWord, Char.isAlphanum, hletter]
        · rfl
      have hne : t ≠ [] := by
        rintro rfl
        cases k <;> cases h
      obtain ⟨c, cs, htext, hlex⟩ := @lexeme_bare U last _ _ hne hword hfit
      exact ⟨c, cs, htext, by rw [hlex, wordToken_keyword h]; rfl⟩
  | name t =>
      obtain ⟨c, cs, htext, hlex⟩ := @lexeme_bare U last _ _ h.ne_nil h.word hfit.2
      exact ⟨c, cs, htext, by rw [hlex, PlainName.token h hfit.1]; rfl⟩
  | keyed t body key =>
      obtain ⟨c, cs, htext, hlex⟩ := @lexeme_keyed last _ _ _ h.1.ne_nil h.1.word h.2.1 hfit.2
      have hfree := not_reserved (w := lower (t ++ '[' :: (body ++ [']'])))
        ⟨'[', List.mem_map.mpr ⟨'[', by simp, rfl⟩, rfl⟩
      refine ⟨c, cs, htext, ?_⟩
      rw [hlex, wordToken_free hfree.1 hfree.2.1 hfree.2.2, if_neg hfit.1]
      rfl
  | symbol o => exact lexeme_symbol h hfit
  | number t n =>
      obtain ⟨ds, k, hds, hk, hcases⟩ := h
      obtain ⟨hne, hall⟩ := isDigits_iff.mp hds
      obtain ⟨d, ds', rfl⟩ := List.exists_cons_of_ne_nil hne
      have hdigit : ∃ c ∈ t, c.isDigit = true := by
        rcases hcases with ⟨rfl, -⟩ | ⟨rfl, -⟩
        · exact ⟨d, List.mem_cons_self, hall d List.mem_cons_self⟩
        · exact ⟨d, by simp, hall d List.mem_cons_self⟩
      have hword : ∀ c ∈ t, isWord c = true := by
        rcases hcases with ⟨rfl, -⟩ | ⟨rfl, -⟩
        · exact fun c hc => isWord_of_digit (hall c hc)
        · exact List.forall_mem_cons.mpr ⟨rfl, fun c hc => isWord_of_digit (hall c hc)⟩
      have hne : t ≠ [] := by
        obtain ⟨c, hc, -⟩ := hdigit
        exact List.ne_nil_of_mem hc
      obtain ⟨c, cs, htext, hlex⟩ := @lexeme_bare U last _ _ hne hword hfit.2
      exact ⟨c, cs, htext, by rw [hlex, hfit.1, wordToken_digit hdigit]; rfl⟩
  | asNumber head digits =>
      obtain ⟨hhead, hdigits⟩ := h
      obtain ⟨hne, hall⟩ := isDigits_iff.mp hdigits
      obtain ⟨d, ds, rfl⟩ := List.exists_cons_of_ne_nil hne
      have hdigit : ∃ c ∈ head ++ d :: ds, c.isDigit = true :=
        ⟨d, by simp, hall d List.mem_cons_self⟩
      have hword : ∀ c ∈ head ++ d :: ds, isWord c = true :=
        List.forall_mem_append.mpr ⟨isWord_of_head hhead, fun c hc => isWord_of_digit (hall c hc)⟩
      obtain ⟨c, cs, htext, hlex⟩ := @lexeme_bare U last _ _ (by simp) hword hfit.2
      exact ⟨c, cs, htext, by rw [hlex, hfit.1, wordToken_digit hdigit]; rfl⟩
  | quoted quote body value =>
      obtain ⟨hquote, hscan, -⟩ := h
      have hquoted : scanQuoted quote (body ++ rest) = (value, rest) :=
        scanQuoted_eq (Expression.scanString_append
          (by rcases hquote with rfl | rfl <;> decide) hscan rest)
      refine ⟨quote, body ++ rest, rfl, ?_⟩
      rcases hquote with rfl | rfl
      · rw [lexeme_quote (.inl rfl), hquoted]
        rfl
      · rw [lexeme_quote (.inr rfl), hquoted]
        rfl
  | listref listType listName =>
      have hall : ∀ c ∈ listType ++ ':' :: listName, isRef c = true :=
        List.forall_mem_append.mpr ⟨h.2.1, List.forall_mem_cons.mpr ⟨rfl, h.2.2⟩⟩
      obtain ⟨htake, hdrop⟩ := Data.takeWhile_of_boundary rest hall
        fun c hc => (hfit.next c hc).2.1
      refine ⟨'$', listType ++ ':' :: listName ++ rest, rfl, ?_⟩
      have hlex : lexeme last '$' (listType ++ ':' :: listName ++ rest) =
          (some ⟨.value, '$' :: (listType ++ ':' :: listName ++ rest).takeWhile isRef⟩,
            (listType ++ ':' :: listName ++ rest).dropWhile isRef) := lexeme_dollar
      rw [hlex, htake, hdrop]
      rfl
  | list body values =>
      have hbrackets := scanBrackets_closed h.1 rest
      refine ⟨'[', body ++ [']'] ++ rest, rfl, ?_⟩
      have hlast : last = some .operator := hfit
      rw [hlast, lexeme_open, hbrackets]
      rfl

/-! ### Both -/

/-- The builder passes over the blanks of the backend. -/
theorem lexeme_blank {c : Char} (h : U.space c = true) (last : Option TokenType) (cs : Text) :
    lexeme last c cs = (none, cs) := by
  have hplain : c ∉ ['(', ')', '"', '\'', '[', '!', '>', '<', '=', '~', '$'] ∧ isWord c = false := by
    by_cases hascii : c.toNat < 128
    · rw [UnicodeTables.space, if_pos hascii] at h
      exact Data.ascii_forall (P := fun c =>
        (c == ' ' || (9 ≤ c.toNat && c.toNat ≤ 13) || (28 ≤ c.toNat && c.toNat ≤ 31)) = true →
        c ∉ ['(', ')', '"', '\'', '[', '!', '>', '<', '=', '~', '$'] ∧ isWord c = false) (by decide)
        c hascii h
    · refine ⟨fun hmem => hascii ?_, ?_⟩
      · have hall : ∀ d ∈ ['(', ')', '"', '\'', '[', '!', '>', '<', '=', '~', '$'], d.toNat < 128 := by
          decide
        exact hall c hmem
      · rw [← Bool.not_eq_true]
        intro hword
        have hclass : c.isAlphanum = true ∨ c = '_' ∨ c = '.' ∨ c = '-' := by
          simpa [isWord, or_assoc] using hword
        rcases hclass with halnum | rfl | rfl | rfl
        · exact hascii (Data.isAlphanum_ascii halnum)
        · exact hascii (by decide)
        · exact hascii (by decide)
        · exact hascii (by decide)
  obtain ⟨hmem, hword⟩ := hplain
  simp only [List.mem_cons, List.not_mem_nil, or_false, not_or] at hmem
  obtain ⟨h₁, h₂, h₃, h₄, h₅, h₆, h₇, h₈, h₉, h₁₀, h₁₁⟩ := hmem
  have htwo : c :: cs.take 1 ∉ twoCharOps := fun htwo => by
    rcases twoCharOps_head htwo with rfl | rfl | rfl <;> contradiction
  have hone : c ∉ oneCharOps := by simp [oneCharOps, h₇, h₈, h₉, h₁₀]
  simp only [lexeme, h₁, h₂, h₃, h₄, h₅, h₁₁, htwo, hone, hword, or_self, false_and,
    Bool.false_eq_true, if_false, ite_self]

/-- **The builder reads the tokens of the pieces.** -/
theorem Spelled.tokens {last : Option TokenType} {text : Text} {ps : List Piece}
    (h : Spelled U last text ps) :
    tokenizeFrom text.length last text = ps.map Piece.token := by
  induction h with
  | nil => rfl
  | @blank last c rest ps hc h ih => rw [tokenizeFrom_cons, lexeme_blank hc, ← ih]
  | @piece last p rest ps hp hfit h ih =>
      obtain ⟨c, cs, htext, hlex⟩ := hp.token hfit
      rw [htext, tokenizeFrom_cons, hlex, List.map_cons, ← ih]

end

end CorexManager.Builder
