import CorexManager.Data.Text

/-!
# The lexical grammar of GraphQL

A document is a sequence of lexical elements.  White space, line ends, commas, byte order marks and
comments are ignored; punctuators, names, numbers and strings are the tokens.

* `next` — the first element of a text, and the rest.
* `Lexes` — the elements of a text; a text has at most one sequence of them (`Lexes.unique`).
* `Element.Shaped` — what an element looks like.
-/

namespace GraphQL

open Data

/-! ### Characters -/

def punctuators : List Char := ['!', '$', '&', '(', ')', ':', '=', '@', '[', ']', '{', '|', '}']

/-- The characters a name begins with. -/
def nameStart (c : Char) : Bool := c.isAlpha || c == '_'

/-- The characters of a name. -/
def nameChar (c : Char) : Bool := c.isAlphanum || c == '_'

def lineEnd (c : Char) : Bool := c == '\n' || c == '\r'

/-- What is ignored between the tokens, besides comments. -/
def ignorable (c : Char) : Bool := c == ' ' || c == '\t' || lineEnd c || c == ',' || c == '\uFEFF'

/-- What an element is that begins with a character. -/
inductive Lead where
  | ignored | comment | punctuator | dot | name | number | quote | other
  deriving DecidableEq

def lead (c : Char) : Lead :=
  if ignorable c then .ignored
  else if c = '#' then .comment
  else if c ∈ punctuators then .punctuator
  else if c = '.' then .dot
  else if nameStart c then .name
  else if c = '-' ∨ c.isDigit then .number
  else if c = '"' then .quote
  else .other

/-- The characters an element of some kind begins with. -/
def Lead.Of (c : Char) : Lead → Prop
  | .ignored => ignorable c = true
  | .comment => c = '#'
  | .punctuator => c ∈ punctuators
  | .dot => c = '.'
  | .name => nameStart c = true
  | .number => c = '-' ∨ c.isDigit = true
  | .quote => c = '"'
  | .other => True

theorem lead_of {c : Char} {l : Lead} (h : lead c = l) : l.Of c := by
  rw [← h]
  unfold lead
  split_ifs with h₁ h₂ h₃ h₄ h₅ h₆ h₇
  · exact h₁
  · exact h₂
  · exact h₃
  · exact h₄
  · exact h₅
  · exact h₆
  · exact h₇
  · trivial

/-! ### Elements -/

inductive Element where
  | ignored (c : Char)
  /-- A comment, without its `#`. -/
  | comment (body : Text)
  | punctuator (t : Text)
  | name (t : Text)
  | number (t : Text)
  /-- A string, with its quotes. -/
  | string (t : Text)
  deriving DecidableEq

namespace Element

def text : Element → Text
  | ignored c => [c]
  | comment body => '#' :: body
  | punctuator t | name t | number t | string t => t

def isToken : Element → Bool
  | ignored _ | comment _ => false
  | _ => true

end Element

/-! ### Numbers -/

/-- The characters a number can have, a sign only behind the letter of its exponent. -/
def numberRun : (behindE : Bool) → Text → Text
  | _, [] => []
  | b, c :: t =>
      if nameChar c || c == '.' || (b && (c == '+' || c == '-')) then
        c :: numberRun (c == 'e' || c == 'E') t
      else []

/-- Digits, and what follows them. -/
def digits (t : Text) : Text × Text := (t.takeWhile Char.isDigit, t.dropWhile Char.isDigit)

/-- The exponent of a number, if there is one. -/
def isExponent : Text → Bool
  | [] => true
  | e :: t =>
      (e == 'e' || e == 'E') &&
        let t := if t.head? = some '+' ∨ t.head? = some '-' then t.tail else t
        t != [] && t.all Char.isDigit

/-- An integer without leading zeros, a fraction and an exponent. -/
def isNumber (t : Text) : Bool :=
  let (whole, t) := digits (if t.head? = some '-' then t.tail else t)
  (whole == ['0'] || (whole != [] && whole.head? != some '0')) &&
    if t.head? = some '.' then
      let (fraction, t) := digits t.tail
      fraction != [] && isExponent t
    else isExponent t

/-! ### Strings -/

/-- A string to its quote, with what follows; a line end is not in it. -/
def closeQuote : Text → Option (Text × Text)
  | [] => none
  | '"' :: t => some (['"'], t)
  | '\\' :: c :: t =>
      if lineEnd c then none else (closeQuote t).map fun r => ('\\' :: c :: r.1, r.2)
  | c :: t => if lineEnd c then none else (closeQuote t).map fun r => (c :: r.1, r.2)

/-- A block string to its quotes, with what follows. -/
def closeBlock : Text → Option (Text × Text)
  | [] => none
  | '"' :: '"' :: '"' :: t => some ("\"\"\"".toList, t)
  | '\\' :: '"' :: '"' :: '"' :: t =>
      (closeBlock t).map fun r => ("\\\"\"\"".toList ++ r.1, r.2)
  | c :: t => (closeBlock t).map fun r => (c :: r.1, r.2)

def isHex (c : Char) : Bool := c.isDigit || ('a' ≤ c && c ≤ 'f') || ('A' ≤ c && c ≤ 'F')

/-- Backslashes begin escape sequences. -/
def escapesValid : Text → Bool
  | [] => true
  | '\\' :: 'u' :: '{' :: t =>
      t.takeWhile isHex != [] && (t.dropWhile isHex).head? == some '}' && escapesValid t
  | '\\' :: 'u' :: a :: b :: c :: d :: t => [a, b, c, d].all isHex && escapesValid t
  | '\\' :: c :: t => ['"', '\\', '/', 'b', 'f', 'n', 'r', 't'].contains c && escapesValid t
  | _ :: t => escapesValid t

/-- What follows the first quote of a string. -/
def stringTail : Text → Option (Text × Text)
  | '"' :: '"' :: t => (closeBlock t).map fun r => ('"' :: '"' :: r.1, r.2)
  | t => (closeQuote t).filter fun r => escapesValid r.1

/-! ### The first element -/

/-- The element of a kind that begins with a character, and the rest. -/
def element (c : Char) (t : Text) : Lead → Option (Element × Text)
  | .ignored => some (.ignored c, t)
  | .comment => some (.comment (t.takeWhile (!lineEnd ·)), t.dropWhile (!lineEnd ·))
  | .punctuator => some (.punctuator [c], t)
  | .dot => if ['.', '.'] <+: t then some (.punctuator ['.', '.', '.'], t.drop 2) else none
  | .name => some (.name (c :: t.takeWhile nameChar), t.dropWhile nameChar)
  | .number =>
      let run := numberRun false t
      if isNumber (c :: run) then some (.number (c :: run), t.drop run.length) else none
  | .quote => (stringTail t).map fun r => (.string (c :: r.1), r.2)
  | .other => none

/-- The first element of a text, and the rest. -/
def next : Text → Option (Element × Text)
  | [] => none
  | c :: t => element c t (lead c)

/-- **The elements of a text.** -/
inductive Lexes : Text → List Element → Prop
  | nil : Lexes [] []
  | cons {t rest : Text} {e : Element} {es : List Element} (h : next t = some (e, rest))
      (hrest : Lexes rest es) : Lexes t (e :: es)

/-- The tokens among some elements. -/
def tokens (es : List Element) : List Element := es.filter Element.isToken

/-- A text that is a sequence of elements. -/
structure Source where
  text : Text
  elements : List Element
  lexes : Lexes text elements

theorem Lexes.unique {t : Text} {es fs : List Element} (h : Lexes t es) (k : Lexes t fs) :
    es = fs := by
  induction h generalizing fs with
  | nil =>
      cases k with
      | nil => rfl
      | cons h => cases h
  | cons h hrest ih =>
      cases k with
      | nil => cases h
      | cons k krest =>
          obtain ⟨rfl, rfl⟩ := Prod.mk.inj (Option.some.inj (h.symm.trans k))
          rw [ih krest]

/-! ### What elements look like -/

/-- The forms the elements have. -/
inductive Element.Shaped : Element → Prop
  | ignored {c : Char} (h : ignorable c = true) : Shaped (.ignored c)
  | comment {body : Text} (h : ∀ c ∈ body, lineEnd c = false) : Shaped (.comment body)
  | punctuator {c : Char} (h : c ∈ punctuators) : Shaped (.punctuator [c])
  | spread : Shaped (.punctuator ['.', '.', '.'])
  | name {c : Char} {t : Text} (hc : nameStart c = true) (ht : ∀ d ∈ t, nameChar d = true) :
      Shaped (.name (c :: t))
  | number {c : Char} {t : Text} (hc : c = '-' ∨ c.isDigit = true)
      (ht : ∀ d ∈ t, nameChar d = true ∨ d = '.' ∨ d = '+' ∨ d = '-') : Shaped (.number (c :: t))
  | string {t : Text} (h : t.getLast? = some '"') : Shaped (.string ('"' :: t))

/-! ### The parts of a text -/

theorem numberRun_append (b : Bool) (t : Text) :
    numberRun b t ++ t.drop (numberRun b t).length = t := by
  induction t generalizing b with
  | nil => cases b <;> rfl
  | cons c t ih =>
      rw [numberRun]
      split_ifs
      · rw [List.cons_append, List.length_cons, List.drop_succ_cons, ih]
      · rfl

theorem mem_numberRun {b : Bool} {t : Text} {d : Char} (h : d ∈ numberRun b t) :
    nameChar d = true ∨ d = '.' ∨ d = '+' ∨ d = '-' := by
  induction t generalizing b with
  | nil => cases b <;> exact absurd h List.not_mem_nil
  | cons c t ih =>
      rw [numberRun] at h
      split_ifs at h with hc
      · rcases List.mem_cons.mp h with rfl | h
        · simp only [Bool.or_eq_true, Bool.and_eq_true, beq_iff_eq] at hc
          rcases hc with (hc | hc) | ⟨-, hc | hc⟩
          · exact .inl hc
          · exact .inr (.inl hc)
          · exact .inr (.inr (.inl hc))
          · exact .inr (.inr (.inr hc))
        · exact ih h
      · exact absurd h List.not_mem_nil

theorem closeQuote_eq_some {t s r : Text} (h : closeQuote t = some (s, r)) :
    t = s ++ r ∧ s.getLast? = some '"' := by
  fun_induction closeQuote t generalizing s with
  | case1 => cases h
  | case2 t =>
      obtain ⟨rfl, rfl⟩ := Prod.mk.inj (Option.some.inj h)
      exact ⟨rfl, rfl⟩
  | case3 => cases h
  | case4 c t hc ih =>
      obtain ⟨q, hq, heq⟩ := Option.map_eq_some_iff.mp h
      obtain ⟨rfl, rfl⟩ := Prod.mk.inj heq
      obtain ⟨rfl, hlast⟩ := ih hq
      refine ⟨rfl, ?_⟩
      rw [List.getLast?_cons, List.getLast?_cons, hlast]
      rfl
  | case5 => cases h
  | case6 c t _ _ hc ih =>
      obtain ⟨q, hq, heq⟩ := Option.map_eq_some_iff.mp h
      obtain ⟨rfl, rfl⟩ := Prod.mk.inj heq
      obtain ⟨rfl, hlast⟩ := ih hq
      refine ⟨rfl, ?_⟩
      rw [List.getLast?_cons, hlast]
      rfl

theorem closeBlock_eq_some {t s r : Text} (h : closeBlock t = some (s, r)) :
    t = s ++ r ∧ s.getLast? = some '"' := by
  fun_induction closeBlock t generalizing s with
  | case1 => cases h
  | case2 t =>
      obtain ⟨rfl, rfl⟩ := Prod.mk.inj (Option.some.inj h)
      exact ⟨rfl, rfl⟩
  | case3 t ih =>
      obtain ⟨q, hq, heq⟩ := Option.map_eq_some_iff.mp h
      obtain ⟨rfl, rfl⟩ := Prod.mk.inj heq
      obtain ⟨rfl, hlast⟩ := ih hq
      refine ⟨rfl, ?_⟩
      rw [List.getLast?_append, hlast]
      rfl
  | case4 c t _ _ ih =>
      obtain ⟨q, hq, heq⟩ := Option.map_eq_some_iff.mp h
      obtain ⟨rfl, rfl⟩ := Prod.mk.inj heq
      obtain ⟨rfl, hlast⟩ := ih hq
      refine ⟨rfl, ?_⟩
      rw [List.getLast?_cons, hlast]
      rfl

theorem stringTail_eq_some {t s r : Text} (h : stringTail t = some (s, r)) :
    t = s ++ r ∧ s.getLast? = some '"' := by
  unfold stringTail at h
  split at h
  · obtain ⟨q, hq, heq⟩ := Option.map_eq_some_iff.mp h
    obtain ⟨rfl, rfl⟩ := Prod.mk.inj heq
    obtain ⟨rfl, hlast⟩ := closeBlock_eq_some hq
    refine ⟨rfl, ?_⟩
    rw [List.getLast?_cons, List.getLast?_cons, hlast]
    rfl
  · exact closeQuote_eq_some (Option.filter_eq_some_iff.mp h).1

/-- **The first element is a part of the text, and has one of the forms.** -/
theorem next_eq_some {t rest : Text} {e : Element} (h : next t = some (e, rest)) :
    t = e.text ++ rest ∧ e.Shaped := by
  cases t with
  | nil => cases h
  | cons c t =>
      change element c t (lead c) = some (e, rest) at h
      cases hlead : lead c with
      | ignored =>
          rw [hlead] at h
          obtain ⟨rfl, rfl⟩ := Prod.mk.inj (Option.some.inj h)
          exact ⟨rfl, .ignored (lead_of hlead)⟩
      | comment =>
          rw [hlead] at h
          obtain ⟨rfl, rfl⟩ := Prod.mk.inj (Option.some.inj h)
          refine ⟨?_, .comment fun d hd => ?_⟩
          · rw [Element.text, List.cons_append, List.takeWhile_append_dropWhile, lead_of hlead]
          · have hnot := List.mem_takeWhile_imp (p := fun x => !lineEnd x) hd
            rwa [Bool.not_eq_true'] at hnot
      | punctuator =>
          rw [hlead] at h
          obtain ⟨rfl, rfl⟩ := Prod.mk.inj (Option.some.inj h)
          exact ⟨rfl, .punctuator (lead_of hlead)⟩
      | dot =>
          rw [hlead, element] at h
          split_ifs at h with hdots
          obtain ⟨rfl, rfl⟩ := Prod.mk.inj (Option.some.inj h)
          obtain ⟨u, rfl⟩ := hdots
          obtain rfl : c = '.' := lead_of hlead
          exact ⟨rfl, .spread⟩
      | name =>
          rw [hlead] at h
          obtain ⟨rfl, rfl⟩ := Prod.mk.inj (Option.some.inj h)
          refine ⟨?_, .name (lead_of hlead) fun d hd => List.mem_takeWhile_imp hd⟩
          rw [Element.text, List.cons_append, List.takeWhile_append_dropWhile]
      | number =>
          rw [hlead, element] at h
          split_ifs at h
          obtain ⟨rfl, rfl⟩ := Prod.mk.inj (Option.some.inj h)
          refine ⟨?_, .number (lead_of hlead) fun d hd => mem_numberRun hd⟩
          rw [Element.text, List.cons_append, numberRun_append]
      | quote =>
          rw [hlead] at h
          obtain ⟨⟨s, r⟩, hq, heq⟩ := Option.map_eq_some_iff.mp h
          obtain ⟨rfl, rfl⟩ := Prod.mk.inj heq
          obtain ⟨rfl, hlast⟩ := stringTail_eq_some hq
          obtain rfl : c = '"' := lead_of hlead
          exact ⟨rfl, .string hlast⟩
      | other =>
          rw [hlead] at h
          cases h

theorem next_length {t rest : Text} {e : Element} (h : next t = some (e, rest)) :
    rest.length < t.length := by
  obtain ⟨rfl, hshape⟩ := next_eq_some h
  have hpos : 0 < e.text.length := by
    cases hshape <;> exact Nat.succ_pos _
  rw [List.length_append]
  omega

/-- A text is its elements. -/
theorem Lexes.text_eq {t : Text} {es : List Element} (h : Lexes t es) :
    t = es.flatMap Element.text := by
  induction h with
  | nil => rfl
  | cons h _ ih => rw [List.flatMap_cons, ← ih, (next_eq_some h).1]

theorem Lexes.shaped {t : Text} {es : List Element} (h : Lexes t es) : ∀ e ∈ es, e.Shaped := by
  induction h with
  | nil => exact fun e he => absurd he List.not_mem_nil
  | cons h _ ih => exact List.forall_mem_cons.mpr ⟨(next_eq_some h).2, ih⟩

/-! ### What stands behind an element -/

theorem head_dropWhile {p : Char → Bool} {t : Text} {c : Char}
    (h : (t.dropWhile p).head? = some c) : p c = false := by
  have hnot := List.head?_dropWhile_not p t
  rw [h] at hnot
  exact hnot

theorem head_numberRun {b : Bool} {t : Text} {c : Char}
    (h : (t.drop (numberRun b t).length).head? = some c) : nameChar c = false ∧ c ≠ '.' := by
  induction t generalizing b with
  | nil => cases b <;> cases h
  | cons d t ih =>
      rw [numberRun] at h
      split_ifs at h with hd
      · exact ih h
      · obtain rfl : d = c := Option.some.inj h
        rw [Bool.or_eq_true, Bool.or_eq_true, not_or, not_or] at hd
        exact ⟨Bool.eq_false_iff.mpr hd.1.1, fun hdot => hd.1.2 (beq_iff_eq.mpr hdot)⟩

/-- A character that an element does not go on with. -/
def Element.Ends : Element → Char → Prop
  | .comment _, c => lineEnd c = true
  | .name _, c => nameChar c = false
  | .number _, c => nameChar c = false ∧ c ≠ '.'
  | _, _ => True

/-- An element is as long as it can be. -/
theorem next_ends {t rest : Text} {e : Element} {d : Char} (h : next t = some (e, rest))
    (hd : rest.head? = some d) : e.Ends d := by
  cases t with
  | nil => cases h
  | cons c t =>
      change element c t (lead c) = some (e, rest) at h
      cases hlead : lead c with
      | comment =>
          rw [hlead] at h
          obtain ⟨rfl, rfl⟩ := Prod.mk.inj (Option.some.inj h)
          exact Bool.not_eq_eq_eq_not.mp (head_dropWhile hd)
      | name =>
          rw [hlead] at h
          obtain ⟨rfl, rfl⟩ := Prod.mk.inj (Option.some.inj h)
          exact head_dropWhile hd
      | number =>
          rw [hlead, element] at h
          split_ifs at h
          obtain ⟨rfl, rfl⟩ := Prod.mk.inj (Option.some.inj h)
          exact head_numberRun hd
      | ignored =>
          rw [hlead] at h
          obtain ⟨rfl, -⟩ := Prod.mk.inj (Option.some.inj h)
          trivial
      | punctuator =>
          rw [hlead] at h
          obtain ⟨rfl, -⟩ := Prod.mk.inj (Option.some.inj h)
          trivial
      | dot =>
          rw [hlead, element] at h
          split_ifs at h
          obtain ⟨rfl, -⟩ := Prod.mk.inj (Option.some.inj h)
          trivial
      | quote =>
          rw [hlead] at h
          obtain ⟨r, -, heq⟩ := Option.map_eq_some_iff.mp h
          obtain ⟨rfl, -⟩ := Prod.mk.inj heq
          trivial
      | other =>
          rw [hlead] at h
          cases h

/-- What has elements begins with one. -/
theorem Lexes.lead_ne {c : Char} {t : Text} {es : List Element} (h : Lexes (c :: t) es) :
    lead c ≠ .other := by
  cases h with
  | cons h hrest =>
      intro hother
      change element c t (lead c) = _ at h
      rw [hother] at h
      cases h

/-- The last elements of a text are those of what stands behind the first. -/
theorem Lexes.drop {es fs : List Element} {t : Text} (h : Lexes t (es ++ fs)) :
    ∃ u, t = es.flatMap Element.text ++ u ∧ Lexes u fs := by
  induction es generalizing t with
  | nil => exact ⟨t, rfl, h⟩
  | cons e es ih =>
      cases h with
      | cons h hrest =>
          obtain ⟨u, rfl, hu⟩ := ih hrest
          exact ⟨u, by rw [(next_eq_some h).1, List.flatMap_cons, List.append_assoc], hu⟩

end GraphQL
