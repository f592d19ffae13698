import CorexManager.Expression.Grammar

/-!
# The spelling of tokens

`Lexes` is the tokenizer as a relation: what is left of a text, and the tokens in it.
`spell` writes a token and `render` a list of them, with blanks where the next token
would run into the last.

* `tokenize_iff`: the tokenizer is the relation;
* `Lexes.lexical`: the tokens it finds are well formed;
* `lexes_render`: well-formed tokens are found again in their spelling.
-/

namespace CorexManager.Expression

open Data (Text intText natText)
open Python (UnicodeTables)

/-! ### The tokenizer as a relation -/

/-- The characters of a name after the first. -/
def namePart (U : UnicodeTables) (c : Char) : Bool := U.alnum c || c == '.' || c == '_'

/-- The characters of a list reference. -/
def refPart (U : UnicodeTables) (c : Char) : Bool :=
  U.alnum c || c == '_' || c == '.' || c == ':' || c == '-'

/-- `AS` and a digit: the number of an autonomous system, not a name. -/
def asNumber (U : UnicodeTables) (c : Char) (cs : Text) : Prop :=
  (c = 'A' ∨ c = 'a') ∧ (cs.head? = some 'S' ∨ cs.head? = some 's') ∧ cs.tail.head?.any U.digit

/-- What a name begins with. -/
structure NameStart (U : UnicodeTables) (c : Char) : Prop where
  letter : U.alpha c = true ∨ c = '_'
  space : U.space c = false
  digit : U.digit c = false

/-- A reserved word, or a name. -/
def wordKind (word : Text) : TokenKind :=
  match keywordOf word with
  | some k => .keyword k
  | none => .ident word

/-- One turn of the loop: the token at `c :: cs`, if there is one, and what is left. -/
inductive Lexeme (U : UnicodeTables) (c : Char) (cs : Text) : Option TokenKind → Text → Prop
  | blank (h : U.space c = true) : Lexeme U c cs none cs
  | punctuation {k : TokenKind} (h : punctuation c = some k) : Lexeme U c cs (some k) cs
  | twoChars {op : CompareOp} (h : twoCharOp c cs.head? = some op) :
      Lexeme U c cs (some (.op op)) cs.tail
  | oneChar {op : CompareOp} (htwo : twoCharOp c cs.head? = none) (h : oneCharOp c = some op) :
      Lexeme U c cs (some (.op op)) cs
  | string {s rest : Text} (hquote : c = '"' ∨ c = '\'') (h : scanString c cs = some (s, rest)) :
      Lexeme U c cs (some (.string s)) rest
  | number {k : Nat} (hspace : U.space c = false) (hdigit : U.digit c = true)
      (h : U.natOf (c :: cs.takeWhile U.digit) = some k) :
      Lexeme U c cs (some (.number k)) (cs.dropWhile U.digit)
  | negative {k : Nat} (hc : c = '-') (hdigit : cs.head?.any U.digit = true)
      (h : U.natOf (cs.takeWhile U.digit) = some k) :
      Lexeme U c cs (some (.number (-(k : Int)))) (cs.dropWhile U.digit)
  | listref {listType listName : Text} (hc : c = '$')
      (h : splitColon (cs.takeWhile (refPart U)) = some (listType, listName)) :
      Lexeme U c cs (some (.listref listType listName)) (cs.dropWhile (refPart U))
  | asNumber (h : asNumber U c cs) :
      Lexeme U c cs (some (.string ('A' :: 'S' :: cs.tail.takeWhile U.digit)))
        (cs.tail.dropWhile U.digit)
  | word (hstart : NameStart U c) (has : ¬ CorexManager.Expression.asNumber U c cs) :
      Lexeme U c cs (some (wordKind (c :: cs.takeWhile (namePart U)))) (cs.dropWhile (namePart U))

section

variable {U : UnicodeTables} {c : Char} {cs rest : Text} {kind : Option TokenKind}

/-- The characters that begin nothing else than their own tokens. -/
def specialChars : Text :=
  ['(', ')', '[', ']', ',', '!', '=', '~', '<', '>', '"', '\'', '-', '$']

/-- What a character that begins a number or a name is not. -/
structure Ordinary (c : Char) : Prop where
  punctuation : punctuation c = none
  twoChars : ∀ d, twoCharOp c d = none
  oneChar : oneCharOp c = none
  quote : ¬ (c = '"' ∨ c = '\'')
  minus : c ≠ '-'
  dollar : c ≠ '$'

theorem twoCharOp_none (h₁ : c ≠ '!') (h₂ : c ≠ '>') (h₃ : c ≠ '<') (d : Option Char) :
    twoCharOp c d = none := by
  unfold twoCharOp
  split <;> first | rfl | contradiction

/-- A class of characters without the special ones. -/
theorem ordinary_of {p : Char → Bool} (hp : ∀ d ∈ specialChars, p d = false) (hc : p c = true) :
    Ordinary c := by
  have hne : ∀ d ∈ specialChars, c ≠ d := by
    rintro d hd rfl
    exact Bool.false_ne_true ((hp c hd).symm.trans hc)
  simp only [specialChars, List.forall_mem_cons] at hne
  obtain ⟨h₁, h₂, h₃, h₄, h₅, h₆, h₇, h₈, h₉, h₁₀, h₁₁, h₁₂, h₁₃, h₁₄, -⟩ := hne
  refine ⟨?_, fun d => ?_, ?_, by simp [h₁₁, h₁₂], h₁₃, h₁₄⟩
  · unfold punctuation
    split <;> first | rfl | contradiction
  · unfold twoCharOp
    split <;> first | rfl | contradiction
  · unfold oneCharOp
    split <;> first | rfl | contradiction

/-- A property of the special characters, one after the other. -/
theorem forall_special {P : Char → Prop} (h : List.Forall P specialChars) :
    ∀ d ∈ specialChars, P d := List.forall_iff_forall_mem.mp h

theorem ordinary_digit (h : U.digit c = true) : Ordinary c :=
  ordinary_of (p := U.digit) (forall_special (by repeat' constructor)) h

theorem NameStart.ordinary (h : NameStart U c) : Ordinary c := by
  have hletter : (U.alpha c || c == '_') = true := by
    simpa using h.letter
  exact ordinary_of (p := fun c => U.alpha c || c == '_') (forall_special (by repeat' constructor))
    hletter

/-- **What a turn of the loop does.** -/
theorem lexeme_iff (pos : Nat) :
    lexeme U pos c cs = .ok (kind, rest) ↔ Lexeme U c cs kind rest := by
  constructor
  · intro h
    unfold lexeme at h
    split at h
    · next hspace => cases h; exact .blank hspace
    next hspace =>
    rw [Bool.not_eq_true] at hspace
    split at h
    · next hpunct => cases h; exact .punctuation hpunct
    split at h
    · next htwo => cases h; exact .twoChars htwo
    next htwo =>
    split at h
    · next hone => cases h; exact .oneChar htwo hone
    split at h
    · next hquote =>
        split at h
        · cases h
        · next hscan => cases h; exact .string hquote hscan
    split at h
    · next hdigit =>
        dsimp only at h
        split at h
        · cases h
        · next hnat => cases h; exact .number hspace hdigit hnat
    next hdigit =>
    rw [Bool.not_eq_true] at hdigit
    split at h
    · next hminus =>
        dsimp only at h
        split at h
        · cases h
        · next hnat => cases h; exact .negative hminus.1 hminus.2 hnat
    split at h
    · next hdollar =>
        dsimp only at h
        split at h
        · cases h
        · split at h
          · cases h
          · next hsplit => cases h; exact .listref hdollar hsplit
    split at h
    · next has => cases h; exact .asNumber has
    next has =>
    split at h
    · next hstart => cases h; exact .word ⟨hstart, hspace, hdigit⟩ has
    · cases h
  · intro h
    cases h with
    | blank h => rw [lexeme, if_pos h]
    | punctuation h =>
        unfold CorexManager.Expression.punctuation at h
        split at h <;> cases h <;> rfl
    | twoChars h =>
        cases cs with
        | nil => unfold twoCharOp at h; split at h <;> contradiction
        | cons d cs =>
            unfold twoCharOp at h
            split at h <;> cases h <;> rename_i heq <;> cases heq <;> rfl
    | oneChar htwo h =>
        have hplain : U.space c = false ∧ CorexManager.Expression.punctuation c = none := by
          unfold oneCharOp at h
          split at h
          · exact ⟨rfl, rfl⟩
          · exact ⟨rfl, rfl⟩
          · exact ⟨rfl, rfl⟩
          · exact ⟨rfl, rfl⟩
          · cases h
        simp only [lexeme, hplain, htwo, h, Bool.false_eq_true, if_false]
    | string hquote h =>
        have hplain : U.space c = false ∧ CorexManager.Expression.punctuation c = none ∧
            (∀ d, twoCharOp c d = none) ∧ oneCharOp c = none := by
          rcases hquote with rfl | rfl
          · exact ⟨rfl, rfl, twoCharOp_none (by decide) (by decide) (by decide), rfl⟩
          · exact ⟨rfl, rfl, twoCharOp_none (by decide) (by decide) (by decide), rfl⟩
        simp only [lexeme, hplain, hquote, h, Bool.false_eq_true, if_false, if_true]
    | number hspace hdigit h =>
        have ho := ordinary_digit hdigit
        simp only [lexeme, hspace, ho.punctuation, ho.twoChars, ho.oneChar, ho.quote, hdigit, h,
          Bool.false_eq_true, if_false, if_true]
    | negative hc hdigit h =>
        subst hc
        have htwo := twoCharOp_none (c := '-') (by decide) (by decide) (by decide) cs.head?
        have hspace : U.space '-' = false := rfl
        have hpunct : CorexManager.Expression.punctuation '-' = none := rfl
        have hone : oneCharOp '-' = none := rfl
        have hquote : ¬ ('-' = '"' ∨ '-' = '\'') := by decide
        have hnot : U.digit '-' = false := rfl
        simp only [lexeme, hspace, hpunct, htwo, hone, hquote, hnot, hdigit, h, Bool.false_eq_true,
          true_and, if_false, if_true]
    | listref hc h =>
        subst hc
        have htwo := twoCharOp_none (c := '$') (by decide) (by decide) (by decide) cs.head?
        have hspace : U.space '$' = false := rfl
        have hpunct : CorexManager.Expression.punctuation '$' = none := rfl
        have hone : oneCharOp '$' = none := rfl
        have hquote : ¬ ('$' = '"' ∨ '$' = '\'') := by decide
        have hnot : U.digit '$' = false := rfl
        have hminus : ¬ '$' = '-' := by decide
        have hne : cs.takeWhile (refPart U) ≠ [] := by
          intro hnil
          rw [hnil] at h
          cases h
        unfold refPart at h hne
        simp only [lexeme, hspace, hpunct, htwo, hone, hquote, hnot, hminus, hne, h,
          Bool.false_eq_true, false_and, if_false, if_true]
        rfl
    | asNumber h =>
        obtain ⟨hc, hcs⟩ := h
        have hstart : NameStart U c := by
          rcases hc with rfl | rfl
          · exact ⟨.inl rfl, rfl, rfl⟩
          · exact ⟨.inl rfl, rfl, rfl⟩
        have ho := hstart.ordinary
        simp only [lexeme, hstart.space, ho.punctuation, ho.twoChars, ho.oneChar, ho.quote,
          hstart.digit, ho.minus, ho.dollar, hc, hcs, false_and, and_self,
          Bool.false_eq_true, if_false, if_true]
    | word hstart has =>
        have ho := hstart.ordinary
        have has' := has
        unfold CorexManager.Expression.asNumber at has'
        simp only [lexeme, hstart.space, ho.punctuation, ho.twoChars, ho.oneChar, ho.quote,
          hstart.digit, ho.minus, ho.dollar, has', hstart.letter, false_and,
          Bool.false_eq_true, if_false, if_true]
        rfl

end

/-- The tokens of what is left of a text, the end of the text left out. -/
inductive Lexes (U : UnicodeTables) : Text → List TokenKind → Prop
  | nil : Lexes U [] []
  | cons {c : Char} {cs rest : Text} {kind : Option TokenKind} {ks : List TokenKind}
      (h : Lexeme U c cs kind rest) (hrest : Lexes U rest ks) :
      Lexes U (c :: cs) (kind.toList ++ ks)

section

variable {U : UnicodeTables} {n : Nat}

theorem Lexes.tokenizeFrom_eq {cs : Text} {ks : List TokenKind} (h : Lexes U cs ks) :
    ∀ fuel, cs.length ≤ fuel → ∃ ts, tokenizeFrom U n fuel cs = .ok (ts ++ [⟨.eof, n⟩]) ∧
      ts.map Token.kind = ks := by
  induction h with
  | nil => exact fun fuel _ => ⟨[], by cases fuel <;> rfl, rfl⟩
  | @cons c cs rest kind ks h hrest ih =>
      intro fuel hfuel
      obtain ⟨fuel, rfl⟩ : ∃ f, fuel = f + 1 := ⟨fuel - 1, by simp at hfuel; omega⟩
      have hlex := (lexeme_iff (n - (c :: cs).length)).mpr h
      have hlen := lexeme_length hlex
      obtain ⟨ts, hts, hkinds⟩ := ih fuel (by simp at hfuel; omega)
      refine ⟨(kind.map (⟨·, n - (c :: cs).length⟩)).toList ++ ts, ?_, ?_⟩
      · rw [tokenizeFrom, hlex]
        dsimp only
        rw [hts]
        simp
      · rw [List.map_append, hkinds]
        cases kind <;> rfl

theorem lexes_of_tokenizeFrom : ∀ fuel (cs : Text) (ts : List Token),
    tokenizeFrom U n fuel cs = .ok ts →
      ∃ body, ts = body ++ [⟨.eof, n⟩] ∧ Lexes U cs (body.map Token.kind) := by
  intro fuel
  induction fuel with
  | zero =>
      intro cs ts h
      cases cs with
      | nil => cases h; exact ⟨[], rfl, .nil⟩
      | cons c cs => cases h
  | succ fuel ih =>
      intro cs ts h
      cases cs with
      | nil => cases h; exact ⟨[], rfl, .nil⟩
      | cons c cs =>
          rw [tokenizeFrom] at h
          split at h
          · cases h
          · next kind rest hlex =>
              split at h
              · cases h
              · next us hrest =>
                  obtain ⟨body, rfl, hbody⟩ := ih _ _ hrest
                  cases h
                  refine ⟨_, (List.append_assoc _ _ _).symm, ?_⟩
                  have hcons := Lexes.cons ((lexeme_iff _).mp hlex) hbody
                  cases kind <;> exact hcons

/-- **The tokenizer is the relation.** -/
theorem tokenize_iff {text : Text} {ks : List TokenKind} :
    (∃ ts, tokenize U text = .ok (ts ++ [⟨.eof, text.length⟩]) ∧ ts.map Token.kind = ks) ↔
      Lexes U text ks := by
  constructor
  · rintro ⟨ts, hts, rfl⟩
    obtain ⟨body, hbody, hlexes⟩ := lexes_of_tokenizeFrom _ _ _ hts
    obtain rfl := List.append_cancel_right hbody
    exact hlexes
  · exact fun h => h.tokenizeFrom_eq _ le_rfl

/-! ### Well-formed tokens -/

/-- A name. -/
structure IsName (U : UnicodeTables) (name : Text) : Prop where
  start : ∃ c cs, name = c :: cs ∧ NameStart U c ∧ (∀ d ∈ cs, namePart U d = true) ∧
    ¬ asNumber U c cs
  keyword : keywordOf name = none

/-- The integers that `int` converts. -/
def IsNumber (n : Int) : Prop := n.natAbs < 10 ^ 4300

theorem isNumber_of_lt {n : Int} (h : n.natAbs < 10) : IsNumber n := by
  have hpow : ∀ m, 1 ≤ m → n.natAbs < 10 ^ m := fun m hm =>
    h.trans_le (Nat.le_self_pow (Nat.ne_of_gt hm) 10)
  exact hpow 4300 (by decide)

/-- The type and the name of a list. -/
structure IsListRef (U : UnicodeTables) (listType listName : Text) : Prop where
  noColon : ':' ∉ listType
  listType : ∀ c ∈ listType, refPart U c = true
  listName : ∀ c ∈ listName, refPart U c = true

/-- A token as the tokenizer makes it. -/
def TokenKind.Lexical (U : UnicodeTables) : TokenKind → Prop
  | .op o => o.symbolic = true
  | .number n => IsNumber n
  | .listref listType listName => IsListRef U listType listName
  | .ident name => IsName U name
  | .eof => False
  | _ => True

theorem punctuation_lexical {c : Char} {k : TokenKind} (h : punctuation c = some k) :
    k.Lexical U := by
  unfold punctuation at h
  split at h <;> cases h <;> trivial

theorem twoCharOp_symbolic {c : Char} {d : Option Char} {op : CompareOp}
    (h : twoCharOp c d = some op) : op.symbolic = true := by
  unfold twoCharOp at h
  split at h <;> cases h <;> rfl

theorem oneCharOp_symbolic {c : Char} {op : CompareOp} (h : oneCharOp c = some op) :
    op.symbolic = true := by
  unfold oneCharOp at h
  split at h <;> cases h <;> rfl

/-- A word that is not reserved is a name. -/
theorem wordKind_lexical {c : Char} {cs : Text} (hstart : NameStart U c)
    (has : ¬ asNumber U c cs) : (wordKind (c :: cs.takeWhile (namePart U))).Lexical U := by
  unfold wordKind
  split
  · trivial
  · next hkeyword =>
      refine ⟨⟨c, _, rfl, hstart, fun d hd => List.mem_takeWhile_imp hd, ?_⟩, hkeyword⟩
      rintro ⟨hc, hs, hd⟩
      rw [← List.takeWhile_append_dropWhile (p := namePart U) (l := cs)] at has
      cases htake : cs.takeWhile (namePart U) with
      | nil => simp [htake] at hs
      | cons a as =>
          cases as with
          | nil => simp [htake] at hd
          | cons b bs =>
              rw [htake] at has hs hd
              exact has ⟨hc, hs, hd⟩

/-- A bracket is in no name. -/
theorem IsName.no_bracket {name : Text} (h : IsName U name) : '[' ∉ name := by
  obtain ⟨c, cs, rfl, hstart, hparts, -⟩ := h.start
  intro hmem
  rcases List.mem_cons.mp hmem with rfl | hmem
  · exact nomatch hstart.ordinary.punctuation
  · exact nomatch hparts _ hmem

theorem TokenKind.Lexical.clean {k : TokenKind} (h : k.Lexical U) : k.Clean ∧ k ≠ .eof := by
  constructor
  · cases k with
    | op o => exact h
    | ident name => exact h.no_bracket
    | _ => exact trivial
  · rintro rfl
    exact h

/-- The tokens found are what the parser relies on. -/
theorem Lexeme.clean {c : Char} {cs rest : Text} {k : TokenKind}
    (h : Lexeme U c cs (some k) rest) : k.Clean ∧ k ≠ .eof := by
  cases h with
  | punctuation h =>
      have hlexical : k.Lexical U := punctuation_lexical h
      exact hlexical.clean
  | twoChars h => exact ⟨twoCharOp_symbolic h, nofun⟩
  | oneChar htwo h => exact ⟨oneCharOp_symbolic h, nofun⟩
  | string hquote h => exact ⟨trivial, nofun⟩
  | number hspace hdigit h => exact ⟨trivial, nofun⟩
  | negative hc hdigit h => exact ⟨trivial, nofun⟩
  | listref hc h => exact ⟨trivial, nofun⟩
  | asNumber h => exact ⟨trivial, nofun⟩
  | word hstart has => exact (wordKind_lexical hstart has).clean

theorem Lexes.clean {text : Text} {ks : List TokenKind} (h : Lexes U text ks) :
    ∀ k ∈ ks, k.Clean ∧ k ≠ .eof := by
  induction h with
  | nil => exact nofun
  | @cons c cs rest kind ks h hrest ih =>
      cases kind with
      | none => exact ih
      | some k => exact List.forall_mem_cons.mpr ⟨h.clean, ih⟩

/-- Decimal values are digits. -/
def Decimal (U : UnicodeTables) : Prop := ∀ c d, U.decimal c = some d → d < 10

theorem decimalValue_lt (hU : Decimal U) {c : Char} {d : Nat} (h : U.decimalValue c = some d) :
    d < 10 := by
  unfold UnicodeTables.decimalValue at h
  split at h
  · split at h
    · next hdigit =>
        cases h
        have hle := (Char.isDigit_iff_toNat.mp hdigit).2
        have h9 : '9'.toNat = 57 := rfl
        have h0 : '0'.toNat = 48 := rfl
        omega
    · cases h
  · exact hU _ _ h

/-- The loop of `int` over the digits. -/
def readDigits (U : UnicodeTables) (acc : Option Nat) (ds : Text) : Option Nat :=
  ds.foldl (fun acc c => acc.bind fun n => (U.decimalValue c).map (n * 10 + ·)) acc

theorem readDigits_none (ds : Text) : readDigits U none ds = none := by
  induction ds with
  | nil => rfl
  | cons c cs ih => exact ih

theorem readDigits_lt (hU : Decimal U) : ∀ (ds : Text) (a k : Nat),
    readDigits U (some a) ds = some k → k < (a + 1) * 10 ^ ds.length := by
  intro ds
  induction ds with
  | nil =>
      intro a k hk
      cases hk
      simp
  | cons c cs ih =>
      intro a k hk
      cases hc : U.decimalValue c with
      | none =>
          have hnone : readDigits U (some a) (c :: cs) = readDigits U none cs := by
            simp [readDigits, hc]
          rw [hnone, readDigits_none] at hk
          cases hk
      | some d =>
          have hsome : readDigits U (some a) (c :: cs) = readDigits U (some (a * 10 + d)) cs := by
            simp [readDigits, hc]
          rw [hsome] at hk
          have hd := decimalValue_lt hU hc
          calc k < (a * 10 + d + 1) * 10 ^ cs.length := ih _ _ hk
            _ ≤ ((a + 1) * 10) * 10 ^ cs.length := Nat.mul_le_mul_right _ (by omega)
            _ = (a + 1) * 10 ^ (c :: cs).length := by rw [List.length_cons, pow_succ]; ring

/-- Only as many digits are converted as an integer may have. -/
theorem natOf_lt (hU : Decimal U) {ds : Text} {k : Nat} (h : U.natOf ds = some k) :
    k < 10 ^ 4300 := by
  unfold UnicodeTables.natOf at h
  split at h
  · cases h
  · next hlen =>
      have hlt := readDigits_lt hU ds 0 k h
      rw [zero_add, one_mul] at hlt
      have hpow : ∀ n, ds.length ≤ n → k < 10 ^ n := fun n hn =>
        hlt.trans_le (Nat.pow_le_pow_right (by decide) hn)
      exact hpow 4300 (Nat.le_of_not_lt hlen)

theorem splitColon_lexical {ref listType listName : Text} (href : ∀ c ∈ ref, refPart U c = true)
    (h : splitColon ref = some (listType, listName)) : IsListRef U listType listName := by
  unfold splitColon at h
  split at h
  · cases h
  · next name hdrop =>
      cases h
      refine ⟨fun hmem => ?_, fun c hc => href c ((List.takeWhile_sublist _).subset hc), fun c hc => ?_⟩
      · have := List.mem_takeWhile_imp hmem
        simp at this
      · exact href c ((List.dropWhile_sublist _).subset (by rw [hdrop]; exact List.mem_cons_of_mem _ hc))

/-- **The tokens found are well formed.** -/
theorem Lexeme.lexical (hU : Decimal U) {c : Char} {cs rest : Text} {k : TokenKind}
    (h : Lexeme U c cs (some k) rest) : k.Lexical U := by
  cases h with
  | punctuation h => exact punctuation_lexical h
  | twoChars h => exact twoCharOp_symbolic h
  | oneChar htwo h => exact oneCharOp_symbolic h
  | string hquote h => trivial
  | number hspace hdigit h => exact natOf_lt hU h
  | negative hc hdigit h =>
      have hlt := natOf_lt hU h
      rwa [TokenKind.Lexical, IsNumber, Int.natAbs_neg]
  | listref hc h => exact splitColon_lexical (fun c hc => List.mem_takeWhile_imp hc) h
  | asNumber h => trivial
  | word hstart has => exact wordKind_lexical hstart has

/-! ### Writing tokens -/

/-- A string in quotes. -/
def quote (s : Text) : Text :=
  '"' :: s.flatMap (fun c => if c = '"' ∨ c = '\\' then ['\\', c] else [c]) ++ ['"']

/-- The spelling of an operator. -/
def opText : CompareOp → Text
  | .eq => ['=']
  | .ne => ['!', '=']
  | .match => ['~']
  | .notMatch => ['!', '~']
  | .gt => ['>']
  | .lt => ['<']
  | .ge => ['>', '=']
  | .le => ['<', '=']
  | .contains => Keyword.text .contains
  | .startsWith => Keyword.text .startsWith
  | .endsWith => Keyword.text .endsWith

/-- The spelling of a token. -/
def spell : TokenKind → Text
  | .lparen => ['(']
  | .rparen => [')']
  | .lbracket => ['[']
  | .rbracket => [']']
  | .comma => [',']
  | .op o => opText o
  | .string s => quote s
  | .number n => intText n
  | .listref listType listName => '$' :: listType ++ ':' :: listName
  | .keyword k => k.text
  | .ident name => name
  | .eof => []

/-- The tokens with no blank between them. -/
def tight : TokenKind → TokenKind → Bool
  | .lparen, _ | .lbracket, _ => true
  | _, .rparen | _, .rbracket | _, .comma | .ident _, .lbracket => true
  | _, _ => false

/-- The text of a token list. -/
def render : List TokenKind → Text
  | [] => []
  | [k] => spell k
  | k :: l :: ks => spell k ++ (if tight k l then [] else [' ']) ++ render (l :: ks)

/-- What ends a word or a number. -/
def Ends (U : UnicodeTables) (t : Text) : Prop :=
  ∀ c ∈ t.head?, U.alnum c = false ∧ U.digit c = false ∧ c ∉ ['.', '_', ':', '-']

/-- What may follow any token. -/
def Stops (t : Text) : Prop := ∀ c ∈ t.head?, c ∈ [' ', '(', ')', '[', ']', ',']

theorem scanString_quote (s rest : Text) :
    scanString '"' (s.flatMap (fun c => if c = '"' ∨ c = '\\' then ['\\', c] else [c]) ++
      '"' :: rest) = some (s, rest) := by
  induction s with
  | nil => rfl
  | cons c s ih =>
      rw [List.flatMap_cons, List.append_assoc]
      by_cases hc : c = '"' ∨ c = '\\'
      · rw [if_pos hc, List.cons_append, List.singleton_append, scanString, ih]
        rfl
      · obtain ⟨hquote, hslash⟩ := not_or.mp hc
        rw [if_neg hc, List.singleton_append, scanString, if_neg hquote, ih]
        · rfl
        · exact fun d cs heq _ => hslash heq

theorem Stops.ends {t : Text} (h : Stops t) : Ends U t := by
  intro c hc
  have hmem := h c hc
  simp only [List.mem_cons, List.not_mem_nil, or_false] at hmem
  rcases hmem with rfl | rfl | rfl | rfl | rfl | rfl
  · exact ⟨rfl, rfl, by decide⟩
  · exact ⟨rfl, rfl, by decide⟩
  · exact ⟨rfl, rfl, by decide⟩
  · exact ⟨rfl, rfl, by decide⟩
  · exact ⟨rfl, rfl, by decide⟩
  · exact ⟨rfl, rfl, by decide⟩

theorem Ends.digit {t : Text} (h : Ends U t) : ∀ c ∈ t.head?, U.digit c = false :=
  fun c hc => (h c hc).2.1

theorem Ends.namePart {t : Text} (h : Ends U t) : ∀ c ∈ t.head?, namePart U c = false := by
  intro c hc
  obtain ⟨halnum, -, hmem⟩ := h c hc
  simp only [List.mem_cons, List.not_mem_nil, or_false, not_or] at hmem
  simp [CorexManager.Expression.namePart, halnum, hmem]

theorem Ends.refPart {t : Text} (h : Ends U t) : ∀ c ∈ t.head?, refPart U c = false := by
  intro c hc
  obtain ⟨halnum, -, hmem⟩ := h c hc
  simp only [List.mem_cons, List.not_mem_nil, or_false, not_or] at hmem
  simp [CorexManager.Expression.refPart, halnum, hmem]

theorem digit_of_isDigit {c : Char} (h : c.isDigit = true) :
    U.digit c = true ∧ U.space c = false ∧ U.decimalValue c = some (c.toNat - '0'.toNat) := by
  have hascii : c.toNat < 128 := by
    have hle := (Char.isDigit_iff_toNat.mp h).2
    have h9 : '9'.toNat = 57 := rfl
    omega
  refine ⟨by rw [UnicodeTables.digit, if_pos hascii, h], ?_, ?_⟩
  · have hspace : c.isDigit = true → (c == ' ' || (9 ≤ c.toNat && c.toNat ≤ 13) ||
        (28 ≤ c.toNat && c.toNat ≤ 31)) = false :=
      Data.ascii_forall (P := fun c => c.isDigit = true → (c == ' ' || (9 ≤ c.toNat && c.toNat ≤ 13) ||
        (28 ≤ c.toNat && c.toNat ≤ 31)) = false) (by decide) c hascii
    rw [UnicodeTables.space, if_pos hascii, hspace h]
  · rw [UnicodeTables.decimalValue, if_pos hascii, if_pos h]

theorem readDigits_eq : ∀ (ds : Text) (a : Nat), (∀ c ∈ ds, c.isDigit = true) →
    readDigits U (some a) ds = some (Nat.ofDigitChars 10 ds a) := by
  intro ds
  induction ds with
  | nil => exact fun a _ => rfl
  | cons c cs ih =>
      intro a hds
      obtain ⟨hc, hcs⟩ := List.forall_mem_cons.mp hds
      have hstep : readDigits U (some a) (c :: cs) =
          readDigits U (some (a * 10 + (c.toNat - '0'.toNat))) cs := by
        simp [readDigits, (digit_of_isDigit (U := U) hc).2.2]
      rw [hstep, ih _ hcs, Nat.ofDigitChars_cons, Nat.mul_comm]

/-- Digits are converted to the number they spell. -/
theorem natOf_natText {n : Nat} (h : n < 10 ^ 4300) : U.natOf (natText n) = some n := by
  have hlen : ∀ k, 0 < k → n < 10 ^ k → ¬ k < (natText n).length := fun k hk hn =>
    Nat.not_lt.mpr ((Nat.length_toDigits_le_iff (by decide) hk).mpr hn)
  rw [UnicodeTables.natOf, if_neg (hlen 4300 (by decide) h)]
  exact (readDigits_eq _ _ (Data.natText_isDigit n)).trans (congrArg some Nat.ofDigitChars_ten_toDigits)

/-- Digits, up to where the token ends. -/
theorem digits_boundary {ds : Text} (hds : ∀ c ∈ ds, c.isDigit = true) {rest : Text}
    (hrest : Ends U rest) :
    (ds ++ rest).takeWhile U.digit = ds ∧ (ds ++ rest).dropWhile U.digit = rest :=
  Data.takeWhile_of_boundary rest (fun c hc => (digit_of_isDigit (hds c hc)).1) hrest.digit

theorem asNumber_append {c : Char} {cs rest : Text} (h : ¬ asNumber U c cs) (hrest : Ends U rest) :
    ¬ asNumber U c (cs ++ rest) := by
  rintro ⟨hc, hs, hd⟩
  cases cs with
  | nil =>
      rcases hs with hs | hs
      · exact nomatch (hrest _ hs).1
      · exact nomatch (hrest _ hs).1
  | cons a as =>
      cases as with
      | nil =>
          have hdigit : rest.head?.any U.digit = true := hd
          cases rest with
          | nil => cases hdigit
          | cons r rest => exact Bool.false_ne_true ((hrest.digit r rfl).symm.trans hdigit)
      | cons b bs => exact h ⟨hc, hs, hd⟩

/-- A word is read to its end. -/
theorem lexeme_word {c : Char} {cs rest : Text} (hstart : NameStart U c)
    (hparts : ∀ d ∈ cs, namePart U d = true) (has : ¬ asNumber U c cs) (hrest : Ends U rest) :
    Lexeme U c (cs ++ rest) (some (wordKind (c :: cs))) rest := by
  have hword := Lexeme.word hstart (asNumber_append has hrest)
  obtain ⟨htake, hdrop⟩ := Data.takeWhile_of_boundary rest hparts hrest.namePart
  rwa [htake, hdrop] at hword

/-- A symbol is read if it is not the first half of a longer one. -/
theorem lexeme_op {o : CompareOp} (h : o.symbolic = true) {rest : Text}
    (hrest : rest.head? ≠ some '=') :
    ∃ c cs, opText o ++ rest = c :: cs ∧ Lexeme U c cs (some (.op o)) rest := by
  have hlone : ∀ d, (d = '>' ∨ d = '<') → twoCharOp d rest.head? = none := by
    rintro d hd
    unfold twoCharOp
    split <;> first | rfl | (rename_i heq; exact absurd heq hrest) | simp at hd
  have hnone : ∀ d, d ∈ ['=', '~'] → twoCharOp d rest.head? = none := by
    rintro d hd
    unfold twoCharOp
    split <;> first | rfl | simp at hd
  cases o with
  | eq => exact ⟨'=', rest, rfl, .oneChar (hnone _ (by simp)) rfl⟩
  | ne => exact ⟨'!', '=' :: rest, rfl, .twoChars rfl⟩
  | «match» => exact ⟨'~', rest, rfl, .oneChar (hnone _ (by simp)) rfl⟩
  | notMatch => exact ⟨'!', '~' :: rest, rfl, .twoChars rfl⟩
  | gt => exact ⟨'>', rest, rfl, .oneChar (hlone _ (.inl rfl)) rfl⟩
  | lt => exact ⟨'<', rest, rfl, .oneChar (hlone _ (.inr rfl)) rfl⟩
  | ge => exact ⟨'>', '=' :: rest, rfl, .twoChars rfl⟩
  | le => exact ⟨'<', '=' :: rest, rfl, .twoChars rfl⟩
  | contains => cases h
  | startsWith => cases h
  | endsWith => cases h

/-- A name is read to its end. -/
theorem lexeme_ident {name rest : Text} (h : IsName U name) (hrest : Ends U rest) :
    ∃ c cs, name ++ rest = c :: cs ∧ Lexeme U c cs (some (.ident name)) rest := by
  obtain ⟨c, cs, rfl, hstart, hparts, has⟩ := h.start
  have hkind : wordKind (c :: cs) = .ident (c :: cs) := by rw [wordKind, h.keyword]
  exact ⟨c, cs ++ rest, rfl, hkind ▸ lexeme_word hstart hparts has hrest⟩

/-- The digits of a number are read to their end. -/
theorem lexeme_digits {ds rest : Text} {k : Nat} (hne : ds ≠ [])
    (hds : ∀ c ∈ ds, c.isDigit = true) (hk : U.natOf ds = some k) (hrest : Ends U rest) :
    ∃ c cs, ds ++ rest = c :: cs ∧ Lexeme U c cs (some (.number k)) rest := by
  obtain ⟨htake, hdrop⟩ := digits_boundary hds hrest
  obtain ⟨c, cs, rfl⟩ := List.exists_cons_of_ne_nil hne
  obtain ⟨hdigit, hspace, -⟩ := digit_of_isDigit (U := U) (hds c List.mem_cons_self)
  rw [List.cons_append, List.takeWhile_cons_of_pos hdigit] at htake
  rw [List.cons_append, List.dropWhile_cons_of_pos hdigit] at hdrop
  have hnat : U.natOf (c :: (cs ++ rest).takeWhile U.digit) = some k := by rw [htake, hk]
  have hlex := Lexeme.number hspace hdigit hnat
  rw [hdrop] at hlex
  exact ⟨c, cs ++ rest, rfl, hlex⟩

/-- So are those of a negative one. -/
theorem lexeme_negative {ds rest : Text} {k : Nat} (hne : ds ≠ [])
    (hds : ∀ c ∈ ds, c.isDigit = true) (hk : U.natOf ds = some k) (hrest : Ends U rest) :
    Lexeme U '-' (ds ++ rest) (some (.number (-(k : Int)))) rest := by
  obtain ⟨htake, hdrop⟩ := digits_boundary hds hrest
  have hhead : (ds ++ rest).head?.any U.digit = true := by
    obtain ⟨c, cs, rfl⟩ := List.exists_cons_of_ne_nil hne
    exact (digit_of_isDigit (hds c List.mem_cons_self)).1
  have hlex := Lexeme.negative (k := k) rfl hhead (by rw [htake, hk])
  rwa [hdrop] at hlex

/-- A list reference is read to its end. -/
theorem lexeme_listref {listType listName rest : Text} (h : IsListRef U listType listName)
    (hrest : Ends U rest) :
    Lexeme U '$' (listType ++ ':' :: listName ++ rest) (some (.listref listType listName)) rest := by
  have hparts : ∀ c ∈ listType ++ ':' :: listName, refPart U c = true := by
    intro c hc
    rcases List.mem_append.mp hc with hc | hc
    · exact h.listType c hc
    · rcases List.mem_cons.mp hc with rfl | hc
      · rfl
      · exact h.listName c hc
  have hcolon : splitColon (listType ++ ':' :: listName) = some (listType, listName) := by
    have htype : ∀ c ∈ listType, (c != ':') = true := by
      intro c hc
      rw [bne_iff_ne]
      rintro rfl
      exact h.noColon hc
    obtain ⟨htake, hdrop⟩ := Data.takeWhile_of_boundary (':' :: listName) htype (by simp)
    rw [splitColon, hdrop, htake]
  obtain ⟨htake, hdrop⟩ := Data.takeWhile_of_boundary rest hparts hrest.refPart
  have hlex := Lexeme.listref (U := U) (c := '$') rfl (htake.symm ▸ hcolon)
  rwa [hdrop] at hlex

/-- **A well-formed token is read off its spelling.** -/
theorem lexeme_spell {k : TokenKind} (h : k.Lexical U) {rest : Text}
    (hrest : k ≠ .lparen → k ≠ .lbracket → Stops rest) :
    ∃ c cs, spell k ++ rest = c :: cs ∧ Lexeme U c cs (some k) rest := by
  cases k with
  | lparen => exact ⟨'(', rest, rfl, .punctuation rfl⟩
  | rparen => exact ⟨')', rest, rfl, .punctuation rfl⟩
  | lbracket => exact ⟨'[', rest, rfl, .punctuation rfl⟩
  | rbracket => exact ⟨']', rest, rfl, .punctuation rfl⟩
  | comma => exact ⟨',', rest, rfl, .punctuation rfl⟩
  | op o => exact lexeme_op h fun heq => absurd (hrest nofun nofun _ heq) (by decide)
  | string s =>
      refine ⟨'"', _, ?_, .string (.inl rfl) (scanString_quote s rest)⟩
      simp [spell, quote]
  | number n =>
      have hends : Ends U rest := (hrest nofun nofun).ends
      cases n with
      | ofNat m =>
          exact lexeme_digits (Data.natText_ne_nil m) (Data.natText_isDigit m) (natOf_natText h) hends
      | negSucc m =>
          exact ⟨'-', natText (m + 1) ++ rest, rfl, lexeme_negative (Data.natText_ne_nil (m + 1))
            (Data.natText_isDigit (m + 1)) (natOf_natText h) hends⟩
  | listref listType listName =>
      exact ⟨'$', _, rfl, lexeme_listref h (hrest nofun nofun).ends⟩
  | keyword k =>
      have hends : Ends U rest := (hrest nofun nofun).ends
      have hword : ∃ c cs, k.text = c :: cs ∧ NameStart U c ∧ (∀ d ∈ cs, namePart U d = true) ∧
          ¬ asNumber U c cs ∧ keywordOf (c :: cs) = some k := by
        have hwith : ∀ (c : Char) (cs : Text), k.text = c :: cs → NameStart U c →
            List.Forall (fun d => namePart U d = true) cs → ¬ (c = 'A' ∨ c = 'a') ∨
              ¬ (cs.head? = some 'S' ∨ cs.head? = some 's') → keywordOf (c :: cs) = some k →
            ∃ c cs, k.text = c :: cs ∧ NameStart U c ∧ (∀ d ∈ cs, namePart U d = true) ∧
              ¬ asNumber U c cs ∧ keywordOf (c :: cs) = some k :=
          fun c cs htext hstart hparts has hk => ⟨c, cs, htext, hstart,
            List.forall_iff_forall_mem.mp hparts, fun h => has.elim (· h.1) (· h.2.1), hk⟩
        cases k with
        | and =>
            exact hwith 'a' ['n', 'd'] rfl ⟨.inl rfl, rfl, rfl⟩ (by repeat' constructor)
              (by decide) rfl
        | or =>
            exact hwith 'o' ['r'] rfl ⟨.inl rfl, rfl, rfl⟩ (by repeat' constructor)
              (by decide) rfl
        | not =>
            exact hwith 'n' ['o', 't'] rfl ⟨.inl rfl, rfl, rfl⟩ (by repeat' constructor)
              (by decide) rfl
        | «in» =>
            exact hwith 'i' ['n'] rfl ⟨.inl rfl, rfl, rfl⟩ (by repeat' constructor)
              (by decide) rfl
        | contains =>
            exact hwith 'c' ['o', 'n', 't', 'a', 'i', 'n', 's'] rfl ⟨.inl rfl, rfl, rfl⟩ (by repeat' constructor)
              (by decide) rfl
        | startsWith =>
            exact hwith 's' ['t', 'a', 'r', 't', 's', '_', 'w', 'i', 't', 'h'] rfl ⟨.inl rfl, rfl, rfl⟩ (by repeat' constructor)
              (by decide) rfl
        | endsWith =>
            exact hwith 'e' ['n', 'd', 's', '_', 'w', 'i', 't', 'h'] rfl ⟨.inl rfl, rfl, rfl⟩ (by repeat' constructor)
              (by decide) rfl
        | «exists» =>
            exact hwith 'e' ['x', 'i', 's', 't', 's'] rfl ⟨.inl rfl, rfl, rfl⟩ (by repeat' constructor)
              (by decide) rfl
        | true =>
            exact hwith 't' ['r', 'u', 'e'] rfl ⟨.inl rfl, rfl, rfl⟩ (by repeat' constructor)
              (by decide) rfl
        | false =>
            exact hwith 'f' ['a', 'l', 's', 'e'] rfl ⟨.inl rfl, rfl, rfl⟩ (by repeat' constructor)
              (by decide) rfl
      obtain ⟨c, cs, htext, hstart, hparts, has, hk⟩ := hword
      have hkind : wordKind (c :: cs) = .keyword k := by rw [wordKind, hk]
      exact ⟨c, cs ++ rest, by rw [spell, htext]; rfl, hkind ▸ lexeme_word hstart hparts has hends⟩
  | ident name => exact lexeme_ident h (hrest nofun nofun).ends
  | eof => cases h

theorem Lexes.spell {k : TokenKind} (hk : k.Lexical U) (rest : Text) {ks : List TokenKind}
    (hrest : k ≠ .lparen → k ≠ .lbracket → Stops rest) (h : Lexes U rest ks) :
    Lexes U (spell k ++ rest) (k :: ks) := by
  obtain ⟨c, cs, htext, hlex⟩ := lexeme_spell hk hrest
  rw [htext]
  exact .cons hlex h

theorem scanString_append {q : Char} (hq : q ≠ '\\') {cs s rest : Text}
    (h : scanString q cs = some (s, rest)) (t : Text) :
    scanString q (cs ++ t) = some (s, rest ++ t) := by
  fun_induction scanString q cs generalizing s rest with
  | case1 => cases h
  | case2 d cs ih =>
      obtain ⟨r, hr, heq⟩ := Option.map_eq_some_iff.mp h
      obtain ⟨rfl, rfl⟩ := Prod.mk.inj heq
      rw [List.cons_append, List.cons_append, scanString, ih hr]
      rfl
  | case3 cs hslash =>
      obtain ⟨rfl, rfl⟩ := Prod.mk.inj (Option.some.inj h)
      rw [List.cons_append, scanString, if_pos rfl]
      exact fun d ds heq _ => hq heq
  | case4 c cs hslash hc ih =>
      obtain ⟨r, hr, heq⟩ := Option.map_eq_some_iff.mp h
      obtain ⟨rfl, rfl⟩ := Prod.mk.inj heq
      rw [List.cons_append, scanString, if_neg hc, ih hr]
      · rfl
      · intro d ds heq hds
        cases cs with
        | nil => cases hr
        | cons e es => exact hslash e es heq rfl

/-- The token before the end of a text is the same when something follows that ends it. -/
theorem Lexeme.append {c : Char} {cs rest : Text} {kind : Option TokenKind}
    (h : Lexeme U c cs kind rest) {t : Text} (ht : Stops t) :
    Lexeme U c (cs ++ t) kind (rest ++ t) := by
  have hends : Ends U t := ht.ends
  cases h with
  | blank h => exact .blank h
  | punctuation h => exact .punctuation h
  | twoChars h =>
      cases cs with
      | nil => unfold twoCharOp at h; split at h <;> contradiction
      | cons d cs => exact .twoChars h
  | oneChar htwo h =>
      refine .oneChar ?_ h
      cases cs with
      | nil =>
          have hnext : ∀ d ∈ t.head?, d ≠ '=' ∧ d ≠ '~' := fun d hd =>
            ⟨fun heq => absurd (heq ▸ ht d hd) (by decide), fun heq => absurd (heq ▸ ht d hd) (by decide)⟩
          unfold twoCharOp
          split <;> first | rfl | exact absurd rfl (hnext _ (by assumption)).1 | exact absurd rfl (hnext _ (by assumption)).2
      | cons d cs => exact htwo
  | string hquote h =>
      have hslash : c ≠ '\\' := by
        rcases hquote with rfl | rfl
        · decide
        · decide
      exact .string hquote (scanString_append hslash h t)
  | number hspace hdigit h =>
      obtain ⟨htake, hdrop⟩ := Data.takeWhile_append_boundary hends.digit cs
      rw [← hdrop]
      exact .number hspace hdigit (by rw [htake, h])
  | negative hc hdigit h =>
      obtain ⟨htake, hdrop⟩ := Data.takeWhile_append_boundary hends.digit cs
      rw [← hdrop]
      refine .negative hc ?_ (by rw [htake, h])
      cases cs with
      | nil => cases hdigit
      | cons d cs => exact hdigit
  | listref hc h =>
      obtain ⟨htake, hdrop⟩ := Data.takeWhile_append_boundary hends.refPart cs
      rw [← hdrop]
      exact .listref hc (by rw [htake, h])
  | asNumber h =>
      obtain ⟨hc, hs, hd⟩ := h
      cases cs with
      | nil => rcases hs with hs | hs <;> cases hs
      | cons d cs =>
          have htail : cs.head?.any U.digit = true := hd
          cases cs with
          | nil => cases htail
          | cons e es =>
              obtain ⟨htake, hdrop⟩ := Data.takeWhile_append_boundary hends.digit (e :: es)
              have has : CorexManager.Expression.asNumber U c (d :: e :: es ++ t) := ⟨hc, hs, hd⟩
              have hlex := Lexeme.asNumber has
              rw [List.cons_append, List.tail_cons, htake, hdrop] at hlex
              exact hlex
  | word hstart has =>
      obtain ⟨htake, hdrop⟩ := Data.takeWhile_append_boundary hends.namePart cs
      have hword := Lexeme.word hstart (asNumber_append has hends)
      rwa [htake, hdrop] at hword

/-- **Tokens are found again in front of what ends them.** -/
theorem Lexes.append {s t : Text} {ks ls : List TokenKind} (h : Lexes U s ks) (ht : Stops t)
    (hrest : Lexes U t ls) : Lexes U (s ++ t) (ks ++ ls) := by
  induction h with
  | nil => exact hrest
  | @cons c cs rest kind ks h hs ih =>
      rw [List.append_assoc]
      exact .cons (h.append ht) ih

theorem Lexes.blank {rest : Text} {ks : List TokenKind} (h : Lexes U rest ks) :
    Lexes U (' ' :: rest) ks :=
  .cons (.blank rfl) h

/-- Where no blank is written, the token before ends by itself or the one after stops it. -/
theorem stops_of_tight {k l : TokenKind} (h : tight k l = true) (hparen : k ≠ .lparen)
    (hbracket : k ≠ .lbracket) (rest : Text) : Stops (spell l ++ rest) := by
  unfold tight at h
  split at h
  · exact absurd rfl hparen
  · exact absurd rfl hbracket
  · rintro c hc
    cases hc
    decide
  · rintro c hc
    cases hc
    decide
  · rintro c hc
    cases hc
    decide
  · rintro c hc
    cases hc
    decide
  · cases h

theorem render_cons (k : TokenKind) (ks : List TokenKind) :
    ∃ t, render (k :: ks) = spell k ++ t := by
  cases ks with
  | nil => exact ⟨[], (List.append_nil _).symm⟩
  | cons l ks => exact ⟨_, List.append_assoc _ _ _⟩

/-- **Well-formed tokens are found again in their text.** -/
theorem lexes_render {ks : List TokenKind} (h : ∀ k ∈ ks, k.Lexical U) : Lexes U (render ks) ks := by
  fun_induction render ks with
  | case1 => exact .nil
  | case2 k =>
      have hlex := Lexes.spell (h k List.mem_cons_self) [] (fun _ _ => nofun) .nil
      rwa [List.append_nil] at hlex
  | case3 k l ks ih =>
      obtain ⟨hk, hks⟩ := List.forall_mem_cons.mp h
      have hrest := ih hks
      rw [List.append_assoc]
      cases htight : tight k l with
      | true =>
          refine Lexes.spell hk _ (fun hparen hbracket => ?_) hrest
          obtain ⟨t, ht⟩ := render_cons l ks
          rw [ht]
          exact stops_of_tight htight hparen hbracket t
      | false =>
          refine Lexes.spell hk _ (fun _ _ => ?_) hrest.blank
          rintro c hc
          cases hc
          decide

end

end CorexManager.Expression
