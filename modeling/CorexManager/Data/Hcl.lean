import CorexManager.Data.Text

/-!
# Literal expressions of HCL

The native syntax of HCL, as far as an expression means the same wherever it stands: `null`,
truth values, numbers, quoted strings, tuples, objects and heredocs.  A string with a template
sequence has no literal value, and neither has a name: what they mean depends on where they
stand.

Strings are normalized, by `Normalization`.  A quoted string whose characters are escaped has a
literal value exactly when it has no template sequence, and is then the text it was made of
(`literal_eq_some`, `plain_of_count`); a number is the rational number its numeral spells
(`readNumber_text`).
-/

namespace Hcl

open Data (Text)

/-! ### Values -/

/-- A value; an object has its attributes in the order they are written in. -/
inductive Value where
  | null
  | bool (b : Bool)
  | number (q : ℚ)
  | string (t : Text)
  | tuple (items : List Value)
  | object (attributes : List (Text × Value))

/-- A character that takes no part in the composition of characters: a control character, or one
that begins a template sequence. -/
def Inert (c : Char) : Prop := c.toNat < 32 ∨ c = '$' ∨ c = '%'

/-- The normalization of strings (NFC). -/
structure Normalization where
  nfc : Text → Text
  count_inert : ∀ t c, Inert c → (nfc t).count c = t.count c

/-! ### Strings -/

/-- The character of an escape; escapes by number are left out. -/
def escapeChar : Char → Option Char
  | 'n' => some '\n'
  | 'r' => some '\r'
  | 't' => some '\t'
  | '"' => some '"'
  | '\\' => some '\\'
  | _ => none

/-- The characters of a quoted string up to its end, which no line end is. -/
def readQuoted : Text → Option (Text × Text)
  | [] => none
  | '"' :: t => some ([], t)
  | '\n' :: _ => none
  | '\\' :: e :: t => (escapeChar e).bind fun c => (readQuoted t).map fun r => (c :: r.1, r.2)
  | c :: t => (readQuoted t).map fun r => (c :: r.1, r.2)

/-- The text of a template without sequences; `$${` and `%%{` stand for `${` and `%{`. -/
def literal : Text → Option Text
  | '$' :: '$' :: '{' :: t => (literal t).map fun u => '$' :: '{' :: u
  | '%' :: '%' :: '{' :: t => (literal t).map fun u => '%' :: '{' :: u
  | '$' :: '{' :: _ => none
  | '%' :: '{' :: _ => none
  | c :: t => (literal t).map fun u => c :: u
  | [] => some []

/-- A text has no `${` and no `%{`. -/
def plain : Text → Bool
  | a :: b :: t => !((a == '$' || a == '%') && b == '{') && plain (b :: t)
  | _ => true

/-- A template leaves characters out, and changes none. -/
theorem sublist_of_literal {t u : Text} (h : literal t = some u) : u.Sublist t := by
  fun_induction literal t generalizing u with
  | case1 t ih =>
      obtain ⟨v, hv, rfl⟩ := Option.map_eq_some_iff.mp h
      exact ((ih hv).cons_cons '{').cons_cons '$' |>.cons '$'
  | case2 t ih =>
      obtain ⟨v, hv, rfl⟩ := Option.map_eq_some_iff.mp h
      exact ((ih hv).cons_cons '{').cons_cons '%' |>.cons '%'
  | case3 => cases h
  | case4 => cases h
  | case5 c t _ _ _ _ ih =>
      obtain ⟨v, hv, rfl⟩ := Option.map_eq_some_iff.mp h
      exact (ih hv).cons_cons c
  | case6 => exact Option.some.inj h ▸ List.Sublist.refl _

/-- It leaves out nothing but the first character of `$${` and `%%{`. -/
theorem count_literal {t u : Text} (h : literal t = some u) {c : Char} (hdollar : c ≠ '$')
    (hpercent : c ≠ '%') : u.count c = t.count c := by
  fun_induction literal t generalizing u with
  | case1 t ih =>
      obtain ⟨v, hv, rfl⟩ := Option.map_eq_some_iff.mp h
      simp only [List.count_cons_of_ne hdollar.symm, List.count_cons, ih hv]
  | case2 t ih =>
      obtain ⟨v, hv, rfl⟩ := Option.map_eq_some_iff.mp h
      simp only [List.count_cons_of_ne hpercent.symm, List.count_cons, ih hv]
  | case3 => cases h
  | case4 => cases h
  | case5 d t _ _ _ _ ih =>
      obtain ⟨v, hv, rfl⟩ := Option.map_eq_some_iff.mp h
      simp only [List.count_cons, ih hv]
  | case6 => exact Option.some.inj h ▸ rfl

/-- **A text without sequences is its own template**. -/
theorem literal_of_plain {t : Text} (h : plain t = true) : literal t = some t := by
  fun_induction literal t with
  | case1 t ih => simp [plain] at h
  | case2 t ih => simp [plain] at h
  | case3 => simp [plain] at h
  | case4 => simp [plain] at h
  | case5 c t _ _ _ _ ih =>
      have ht : plain t = true := by
        cases t with
        | nil => rfl
        | cons d t => exact (Bool.and_eq_true_iff.mp h).2
      rw [ih ht]
      rfl
  | case6 => rfl

/-- A template with sequences leaves something out, or has no literal value. -/
theorem length_lt_of_not_plain {t u : Text} (h : literal t = some u) (hplain : plain t = false) :
    u.length < t.length := by
  fun_induction literal t generalizing u with
  | case1 t ih =>
      obtain ⟨v, hv, rfl⟩ := Option.map_eq_some_iff.mp h
      exact Nat.lt_succ_of_le (Nat.add_le_add_right (sublist_of_literal hv).length_le 2)
  | case2 t ih =>
      obtain ⟨v, hv, rfl⟩ := Option.map_eq_some_iff.mp h
      exact Nat.lt_succ_of_le (Nat.add_le_add_right (sublist_of_literal hv).length_le 2)
  | case3 => cases h
  | case4 => cases h
  | case5 c t _ _ hdollar hpercent ih =>
      obtain ⟨v, hv, rfl⟩ := Option.map_eq_some_iff.mp h
      refine Nat.succ_lt_succ (ih hv ?_)
      cases t with
      | nil => cases hplain
      | cons d t =>
          have hfirst : ((c == '$' || c == '%') && d == '{') = false := by
            rw [Bool.eq_false_iff]
            intro hfirst
            simp only [Bool.and_eq_true, Bool.or_eq_true, beq_iff_eq] at hfirst
            obtain ⟨rfl | rfl, rfl⟩ := hfirst
            · exact hdollar t rfl rfl
            · exact hpercent t rfl rfl
          rw [plain, hfirst, Bool.not_false, Bool.true_and] at hplain
          exact hplain
  | case6 => cases hplain

/-- **A template that is as rich in `$` and `%` as its text** has no sequences. -/
theorem plain_of_count {t u : Text} (h : literal t = some u) (hdollar : u.count '$' = t.count '$')
    (hpercent : u.count '%' = t.count '%') : plain t = true := by
  have hperm : u.Perm t := by
    rw [List.perm_iff_count]
    intro c
    by_cases hd : c = '$'
    · exact hd ▸ hdollar
    · by_cases hp : c = '%'
      · exact hp ▸ hpercent
      · exact count_literal h hd hp
  by_contra hplain
  exact absurd hperm.length_eq (length_lt_of_not_plain h (Bool.eq_false_iff.mpr hplain)).ne

/-! ### Numbers -/

/-- A character of a name. -/
def nameChar (c : Char) : Bool := c.isAlphanum || c == '_' || c == '-'

/-- What comes after a number or a name does not go on with it. -/
def Ends (rest : Text) : Prop := ∀ c ∈ rest.head?, nameChar c = false ∧ c ≠ '.'

/-- The number of some digits, those after the point, and an exponent. -/
def scaled (whole fraction : Text) (exponent : ℤ) : ℚ :=
  (Nat.ofDigitChars 10 (whole ++ fraction) 0 : ℚ) * 10 ^ (exponent - fraction.length)

/-- The digits after the point, if there are any. -/
def readFraction : Text → Text × Text
  | '.' :: t =>
      if t.takeWhile Char.isDigit = [] then ([], '.' :: t)
      else (t.takeWhile Char.isDigit, t.dropWhile Char.isDigit)
  | t => ([], t)

/-- The sign of an exponent. -/
def readSign : Text → Bool × Text
  | '-' :: t => (true, t)
  | '+' :: t => (false, t)
  | t => (false, t)

/-- A number with a sign. -/
def signed (negative : Bool) (n : Nat) : ℤ := if negative then -(n : ℤ) else n

/-- The exponent, if there is one. -/
def readExponent : Text → ℤ × Text
  | [] => (0, [])
  | e :: t =>
      let (negative, u) := readSign t
      let digits := u.takeWhile Char.isDigit
      if (e = 'e' ∨ e = 'E') ∧ digits ≠ [] then
        (signed negative (Nat.ofDigitChars 10 digits 0), u.dropWhile Char.isDigit)
      else (0, e :: t)

/-- A number. -/
def readNumber (t : Text) : Option (ℚ × Text) :=
  let whole := t.takeWhile Char.isDigit
  if whole = [] then none
  else
    let (fraction, t) := readFraction (t.dropWhile Char.isDigit)
    let (exponent, t) := readExponent t
    some (scaled whole fraction exponent, t)

/-- A numeral: digits, digits after a point, and an exponent with its sign. -/
structure Numeral where
  whole : Text
  fraction : Text
  exponent : Option (Bool × Text)
  whole_ne : whole ≠ []
  whole_digits : ∀ c ∈ whole, c.isDigit = true
  fraction_digits : ∀ c ∈ fraction, c.isDigit = true
  exponent_digits : ∀ e ∈ exponent, e.2 ≠ [] ∧ ∀ c ∈ e.2, c.isDigit = true

namespace Numeral

variable (n : Numeral)

/-- The point and the digits after it. -/
def fractionText : Text := if n.fraction = [] then [] else '.' :: n.fraction

/-- The exponent with its mark and its sign. -/
def exponentText : Text :=
  n.exponent.elim [] fun (negative, digits) => 'e' :: (if negative then '-' else '+') :: digits

/-- A numeral as it is written. -/
def text : Text := n.whole ++ (n.fractionText ++ n.exponentText)

/-- The number it stands for. -/
def value : ℚ :=
  scaled n.whole n.fraction
    (n.exponent.elim 0 fun (negative, digits) => signed negative (Nat.ofDigitChars 10 digits 0))

end Numeral

section Numbers

variable {rest : Text}

theorem Ends.not_digit (h : Ends rest) : ∀ c ∈ rest.head?, c.isDigit = false := by
  intro c hc
  have hname := (h c hc).1
  simp only [nameChar, Char.isAlphanum, Bool.or_eq_false_iff] at hname
  exact hname.1.1.2

theorem readExponent_text (n : Numeral) (h : Ends rest) :
    readExponent (n.exponentText ++ rest) =
      (n.exponent.elim 0 fun (negative, digits) => signed negative (Nat.ofDigitChars 10 digits 0),
        rest) := by
  have hdigits := n.exponent_digits
  rw [Numeral.exponentText]
  cases he : n.exponent with
  | none =>
      -- nothing of an exponent comes after the number
      cases rest with
      | nil => rfl
      | cons c rest =>
          have hname := (h c rfl).1
          have hmark : ¬ (c = 'e' ∨ c = 'E') := by
            rintro (rfl | rfl)
            · cases hname
            · cases hname
          simp [readExponent, hmark]
  | some e =>
      obtain ⟨negative, digits⟩ := e
      obtain ⟨hne, hall⟩ := hdigits _ he
      obtain ⟨htake, hdrop⟩ := Data.takeWhile_of_boundary rest hall h.not_digit
      have hsign : readSign ((if negative then '-' else '+') :: (digits ++ rest)) =
          (negative, digits ++ rest) := by
        cases negative <;> rfl
      simp only [Option.elim_some, List.cons_append, readExponent, hsign, htake, hdrop]
      rw [if_pos ⟨.inl trivial, hne⟩]

theorem readFraction_text (n : Numeral) {tail : Text}
    (h : ∀ c ∈ tail.head?, c.isDigit = false ∧ c ≠ '.') :
    readFraction (n.fractionText ++ tail) = (n.fraction, tail) := by
  rw [Numeral.fractionText]
  split
  · next hnone =>
      rw [List.nil_append, hnone]
      unfold readFraction
      split
      · exact absurd rfl (h '.' rfl).2
      · rfl
  · next hsome =>
      obtain ⟨htake, hdrop⟩ :=
        Data.takeWhile_of_boundary tail n.fraction_digits fun c hc => (h c hc).1
      rw [List.cons_append, readFraction, htake, hdrop, if_neg hsome]

/-- **A numeral is read as its number**. -/
theorem readNumber_text (n : Numeral) (h : Ends rest) :
    readNumber (n.text ++ rest) = some (n.value, rest) := by
  have hexponent : ∀ c ∈ (n.exponentText ++ rest).head?, c.isDigit = false ∧ c ≠ '.' := by
    rw [Numeral.exponentText]
    intro c hc
    cases he : n.exponent with
    | none =>
        rw [he] at hc
        exact ⟨h.not_digit c hc, (h c hc).2⟩
    | some e =>
        rw [he] at hc
        obtain rfl := Option.some.inj hc
        exact ⟨rfl, by decide⟩
  have hfraction : ∀ c ∈ (n.fractionText ++ (n.exponentText ++ rest)).head?,
      c.isDigit = false := by
    rw [Numeral.fractionText]
    intro c hc
    split at hc
    · exact (hexponent c hc).1
    · obtain rfl := Option.some.inj hc
      rfl
  obtain ⟨htake, hdrop⟩ := Data.takeWhile_of_boundary _ n.whole_digits hfraction
  rw [Numeral.text, List.append_assoc, List.append_assoc]
  simp only [readNumber, htake, hdrop, readFraction_text n hexponent, readExponent_text n h]
  rw [if_neg n.whole_ne]
  rfl

end Numbers

/-! ### Expressions -/

section Expressions

variable (N : Normalization)

/-- A quoted string, after its quote. -/
def readString (t : Text) : Option (Text × Text) :=
  (readQuoted t).bind fun (body, u) => (literal body).map fun text => (N.nfc text, u)

/-- The value of a name. -/
def wordValue (word : Text) : Option Value :=
  if word = ['n', 'u', 'l', 'l'] then some .null
  else if word = ['t', 'r', 'u', 'e'] then some (.bool true)
  else if word = ['f', 'a', 'l', 's', 'e'] then some (.bool false)
  else none

/-- A number, or a name. -/
def readAtom (t : Text) : Option (Value × Text) :=
  match readNumber t with
  | some (q, u) => some (.number q, u)
  | none => (wordValue (t.takeWhile nameChar)).map fun value => (value, t.dropWhile nameChar)

/-- White space. -/
def skip (t : Text) : Text := t.dropWhile fun c => c == ' ' || c == '\t' || c == '\r' || c == '\n'

/-- White space in a line. -/
def skipBlank (t : Text) : Text := t.dropWhile fun c => c == ' ' || c == '\t' || c == '\r'

/-- The key of an attribute: a string, or a name. -/
def readKey : Text → Option (Text × Text)
  | '"' :: t => readString N t
  | t =>
      let word := t.takeWhile nameChar
      if word = [] then none else some (word, t.dropWhile nameChar)

mutual

/-- An expression. -/
def readValue : Nat → Text → Option (Value × Text)
  | 0, _ => none
  | _ + 1, '"' :: t => (readString N t).map fun (text, u) => (.string text, u)
  | n + 1, '[' :: t => (readItems n t).map fun (items, u) => (.tuple items, u)
  | n + 1, '\x7b' :: t => (readAttributes n t).map fun (attributes, u) => (.object attributes, u)
  | _ + 1, '-' :: t => (readNumber (skip t)).map fun (q, u) => (.number (-q), u)
  | _ + 1, t => readAtom t

/-- The items of a tuple. -/
def readItems : Nat → Text → Option (List Value × Text)
  | 0, _ => none
  | n + 1, t =>
      match skip t with
      | ']' :: u => some ([], u)
      | u => (readValue n u).bind fun (item, u) =>
          match skip u with
          | ',' :: u => (readItems n u).map fun (items, u) => (item :: items, u)
          | ']' :: u => some ([item], u)
          | _ => none

/-- The attributes of an object. -/
def readAttributes : Nat → Text → Option (List (Text × Value) × Text)
  | 0, _ => none
  | n + 1, t =>
      match skip t with
      | '\x7d' :: u => some ([], u)
      | u => (readKey N u).bind fun (key, u) =>
          match skipBlank u with
          | '=' :: u => (readValue n (skipBlank u)).bind fun (value, u) =>
              match skipBlank u with
              | ',' :: u | '\n' :: u =>
                  (readAttributes n u).map fun (attributes, u) => ((key, value) :: attributes, u)
              | '\x7d' :: u => some ([(key, value)], u)
              | _ => none
          | _ => none

end

/-- The spaces in front of a line. -/
def space (c : Char) : Bool :=
  c == ' ' || (9 ≤ c.toNat && c.toNat ≤ 13) || c.toNat == 0x85 || c.toNat == 0xa0 ||
    c.toNat == 0x1680 || (0x2000 ≤ c.toNat && c.toNat ≤ 0x200a) || c.toNat == 0x2028 ||
    c.toNat == 0x2029 || c.toNat == 0x202f || c.toNat == 0x205f || c.toNat == 0x3000

/-- The lines of a flush heredoc, without the spaces that all of them begin with but those that
are blank. -/
def flush (lines : List Text) : List Text :=
  let indents := (lines.filter fun l => !l.all space).map fun l => (l.takeWhile space).length
  let least := indents.min?.getD 0
  lines.map fun l => if l.all space then l else l.drop least

/-- The line that ends a heredoc. -/
def closes (delimiter line : Text) : Bool :=
  line.dropWhile (fun c => c == ' ' || c == '\t') == delimiter

/-- A flush heredoc that is all of an expression, after its `<<-`. -/
def readHeredoc (t : Text) : Option Value :=
  let delimiter := t.takeWhile (· != '\n')
  let lines := ((t.dropWhile (· != '\n')).drop 1).splitOn '\n'
  let content := lines.takeWhile fun l => !closes delimiter l
  if content.length + 1 = lines.length then
    (literal ((flush content).flatMap fun l => l ++ ['\n'])).map fun text => .string (N.nfc text)
  else none

/-- The value of a text that is an expression. -/
def evaluate : Text → Option Value
  | '<' :: '<' :: '-' :: t => readHeredoc N t
  | t => (readValue N (t.length + 1) t).bind fun (value, u) => if u = [] then some value else none

/-! ### Reading what is written -/

variable {N} {t text rest : Text} {n : Nat}

/-- A text spells a character in a quoted string. -/
def Spells (c : Char) (text : Text) : Prop :=
  (text = [c] ∧ c ≠ '"' ∧ c ≠ '\\' ∧ c ≠ '\n') ∨ ∃ e, text = ['\\', e] ∧ escapeChar e = some c

/-- **A quoted string is read as the text it spells**. -/
theorem readQuoted_spelt {spell : Char → Text} (h : ∀ c ∈ t, Spells c (spell c)) (rest : Text) :
    readQuoted (t.flatMap spell ++ '"' :: rest) = some (t, rest) := by
  induction t with
  | nil => rfl
  | cons c t ih =>
      obtain ⟨hc, ht⟩ := List.forall_mem_cons.mp h
      have ih := ih ht
      rw [List.flatMap_cons, List.append_assoc]
      rcases hc with ⟨hspell, hquote, hslash, hline⟩ | ⟨e, hspell, hescape⟩
      · rw [hspell, List.singleton_append]
        unfold readQuoted
        split
        · next heq => cases heq
        · next heq => exact absurd (List.cons.inj heq).1 hquote
        · next heq => exact absurd (List.cons.inj heq).1 hline
        · next heq => exact absurd (List.cons.inj heq).1 hslash
        · next heq =>
            obtain ⟨rfl, rfl⟩ := List.cons.inj heq
            rw [ih]
            rfl
      · rw [hspell, List.cons_append, List.singleton_append, readQuoted, hescape, ih]
        rfl

/-- A character is not white space, ends no list and begins no heredoc. -/
def opens (c : Char) : Bool :=
  !(c == ' ' || c == '\t' || c == '\r' || c == '\n' || c == ']' || c == '\x7d' || c == '<')

/-- It begins an atom. -/
def atomic (c : Char) : Bool := opens c && !(c == '"' || c == '[' || c == '\x7b' || c == '-')

/-- A text begins an expression. -/
def Starts (t : Text) : Prop := ∃ c u, t = c :: u ∧ opens c = true

variable (N) in
/-- A text is an expression of a value, or of none, whatever comes after it. -/
structure Reads (text : Text) (value : Option Value) : Prop where
  starts : Starts text
  read : ∀ n rest, text.length ≤ n → Ends rest →
    readValue N n (text ++ rest) = value.map fun v => (v, rest)

theorem ends_nil : Ends [] := nofun

theorem ends_cons {c : Char} (h : nameChar c = false ∧ c ≠ '.') : Ends (c :: rest) :=
  fun _ hd => Option.some.inj hd ▸ h

theorem Reads.evaluate {value : Option Value} (h : Reads N text value) :
    evaluate N text = value := by
  obtain ⟨c, u, hcons, hc⟩ := h.starts
  have hread := h.read (text.length + 1) [] (Nat.le_succ _) ends_nil
  rw [List.append_nil] at hread
  unfold Hcl.evaluate
  split
  · rw [← (List.cons.inj hcons).1] at hc
    cases hc
  · rw [hread]
    cases value <;> rfl

/-- An atom is what does not begin as another expression does. -/
theorem readValue_atom {c : Char} (h : atomic c = true) :
    readValue N (n + 1) (c :: t) = readAtom (c :: t) := by
  have hne : ∀ d, atomic d = false → c ≠ d := by
    rintro d hd rfl
    cases hd.symm.trans h
  unfold readValue
  split
  · next heq => cases heq
  · next heq => exact absurd (List.cons.inj heq).1 (hne '"' rfl)
  · next heq => exact absurd (List.cons.inj heq).1 (hne '[' rfl)
  · next heq => exact absurd (List.cons.inj heq).1 (hne '\x7b' rfl)
  · next heq => exact absurd (List.cons.inj heq).1 (hne '-' rfl)
  · rfl

theorem atomic_of_isAlphanum {c : Char} (h : c.isAlphanum = true) : atomic c = true :=
  Data.ascii_forall (P := fun c => c.isAlphanum = true → atomic c = true) (by decide) c
    (Data.isAlphanum_ascii h) h

theorem opens_of_isAlphanum {c : Char} (h : c.isAlphanum = true) : opens c = true :=
  (Bool.and_eq_true_iff.mp (atomic_of_isAlphanum h)).1

/-- White space is skipped up to what begins an expression. -/
theorem skip_of_starts (h : Starts t) (rest : Text) : skip (t ++ rest) = t ++ rest := by
  obtain ⟨c, u, rfl, hc⟩ := h
  rw [opens, Bool.not_eq_true'] at hc
  simp only [Bool.or_eq_false_iff] at hc
  rw [skip, List.cons_append]
  exact List.dropWhile_cons_of_neg (by simp [hc])

theorem isDigit_nameChar {c : Char} (h : c.isDigit = true) : nameChar c = true := by
  simp [nameChar, Char.isAlphanum, h]

/-- What begins with no digit is no number. -/
theorem readNumber_eq_none (h : ∀ c ∈ t.head?, c.isDigit = false) : readNumber t = none := by
  have htake : t.takeWhile Char.isDigit = [] := by
    cases t with
    | nil => rfl
    | cons c t => rw [List.takeWhile_cons_of_neg (by simp [h c rfl])]
  simp only [readNumber]
  rw [if_pos htake]

/-- **A name is read as its value**. -/
theorem readAtom_word {word : Text} (hword : ∀ c ∈ word, nameChar c = true)
    (hfirst : ∀ c ∈ (word ++ rest).head?, c.isDigit = false) (h : Ends rest) :
    readAtom (word ++ rest) = (wordValue word).map fun v => (v, rest) := by
  obtain ⟨htake, hdrop⟩ := Data.takeWhile_of_boundary rest hword fun c hc => (h c hc).1
  rw [readAtom, readNumber_eq_none hfirst, htake, hdrop]

theorem isDigit_eq_false_of_isAlpha {c : Char} (h : c.isAlpha = true) : c.isDigit = false :=
  Data.ascii_forall (P := fun c => c.isAlpha = true → c.isDigit = false) (by decide) c
    (Data.isAlphanum_ascii (by simp [Char.isAlphanum, h])) h

/-- A name is an expression of its value, or of none. -/
theorem reads_word {c : Char} {word : Text} (hfirst : c.isAlpha = true)
    (hword : ∀ d ∈ word, nameChar d = true) : Reads N (c :: word) (wordValue (c :: word)) := by
  have halnum : c.isAlphanum = true := by simp [Char.isAlphanum, hfirst]
  have hdigit := isDigit_eq_false_of_isAlpha hfirst
  refine ⟨⟨c, word, rfl, opens_of_isAlphanum halnum⟩, fun n rest hn hrest => ?_⟩
  obtain ⟨m, rfl⟩ := Nat.exists_eq_add_of_le' (Nat.lt_of_lt_of_le (Nat.succ_pos word.length) hn)
  rw [List.cons_append, readValue_atom (atomic_of_isAlphanum halnum)]
  refine readAtom_word (List.forall_mem_cons.mpr ⟨?_, hword⟩) ?_ hrest
  · simp [nameChar, halnum]
  · exact fun d hd => Option.some.inj hd ▸ hdigit

/-- A numeral is an expression of its number. -/
theorem reads_numeral (m : Numeral) : Reads N m.text (some (.number m.value)) := by
  obtain ⟨d, ds, hwhole⟩ := List.exists_cons_of_ne_nil m.whole_ne
  have hdigit : d.isDigit = true := m.whole_digits d (hwhole ▸ List.mem_cons_self)
  have halnum : d.isAlphanum = true := by simp [Char.isAlphanum, hdigit]
  have htext : m.text = d :: (ds ++ (m.fractionText ++ m.exponentText)) := by
    rw [Numeral.text, hwhole, List.cons_append]
  refine ⟨⟨d, _, htext, opens_of_isAlphanum halnum⟩, fun n rest hn hrest => ?_⟩
  have hnumber := readNumber_text m hrest
  rw [htext] at hn hnumber ⊢
  obtain ⟨k, rfl⟩ := Nat.exists_eq_add_of_le' (Nat.lt_of_lt_of_le (Nat.succ_pos _) hn)
  rw [List.cons_append, readValue_atom (atomic_of_isAlphanum halnum), readAtom,
    ← List.cons_append, hnumber]
  rfl

/-- A numeral after a minus is an expression of the negative number. -/
theorem reads_minus (m : Numeral) : Reads N ('-' :: m.text) (some (.number (-m.value))) := by
  refine ⟨⟨'-', _, rfl, rfl⟩, fun n rest hn hrest => ?_⟩
  obtain ⟨k, rfl⟩ := Nat.exists_eq_add_of_le' (Nat.lt_of_lt_of_le (Nat.succ_pos _) hn)
  rw [List.cons_append, readValue, skip_of_starts (reads_numeral (N := N) m).starts,
    readNumber_text m hrest]
  rfl

/-- A minus in front of a name is an expression of no value. -/
theorem reads_minus_word {c : Char} {word : Text} (hfirst : c.isAlpha = true) :
    Reads N ('-' :: c :: word) none := by
  have halnum : c.isAlphanum = true := by simp [Char.isAlphanum, hfirst]
  refine ⟨⟨'-', _, rfl, rfl⟩, fun n rest hn _ => ?_⟩
  obtain ⟨k, rfl⟩ := Nat.exists_eq_add_of_le' (Nat.lt_of_lt_of_le (Nat.succ_pos _) hn)
  have hnone : readNumber (c :: word ++ rest) = none :=
    readNumber_eq_none fun d hd => Option.some.inj hd ▸ isDigit_eq_false_of_isAlpha hfirst
  rw [List.cons_append, readValue, skip_of_starts ⟨c, word, rfl, opens_of_isAlphanum halnum⟩,
    hnone]
  rfl

/-- A string in quotes is an expression of its text, or of none. -/
theorem reads_string {spell : Char → Text} (h : ∀ c ∈ t, Spells c (spell c)) :
    Reads N ('"' :: (t.flatMap spell ++ ['"']))
      ((literal t).map fun text => .string (N.nfc text)) := by
  refine ⟨⟨'"', _, rfl, rfl⟩, fun n rest hn _ => ?_⟩
  obtain ⟨k, rfl⟩ := Nat.exists_eq_add_of_le' (Nat.lt_of_lt_of_le (Nat.succ_pos _) hn)
  rw [List.cons_append, List.append_assoc, List.singleton_append, readValue, readString,
    readQuoted_spelt h, Option.bind_some]
  cases hliteral : literal t with
  | none => simp [hliteral]
  | some text => simp [hliteral]

/-! ### Lists -/

/-- Texts with a comma between them. -/
def join (texts : List Text) : Text := List.intercalate [',', ' '] texts

theorem join_cons_cons (a b : Text) (texts : List Text) :
    join (a :: b :: texts) = a ++ ',' :: ' ' :: join (b :: texts) := by
  rw [join, List.intercalate_cons_cons]
  simp [join]

variable (N) in
/-- Texts are expressions of the items of a list, or one is of none. -/
inductive ReadsAll : List Text → Option (List Value) → Prop
  | nil : ReadsAll [] (some [])
  | cons {text : Text} {texts : List Text} {value : Option Value} {values : Option (List Value)}
      (h : Reads N text value) (hall : ReadsAll texts values) :
      ReadsAll (text :: texts) (value.bind fun v => values.map fun vs => v :: vs)

theorem readItems_starts (h : Starts t) (rest : Text) :
    readItems N (n + 1) (t ++ rest) = (readValue N n (t ++ rest)).bind fun (item, u) =>
      match skip u with
      | ',' :: u => (readItems N n u).map fun (items, u) => (item :: items, u)
      | ']' :: u => some ([item], u)
      | _ => none := by
  rw [readItems, skip_of_starts h]
  obtain ⟨c, u, rfl, hc⟩ := h
  split
  · next heq =>
      rw [(List.cons.inj heq).1] at hc
      cases hc
  · rfl

theorem readItems_space : readItems N n (' ' :: t) = readItems N n t := by
  cases n with
  | zero => rfl
  | succ n =>
      have hskip : skip (' ' :: t) = skip t := rfl
      rw [readItems, readItems, hskip]

/-- **The items of a tuple are read** as what they are expressions of. -/
theorem readItems_join {texts : List Text} {values : Option (List Value)}
    (h : ReadsAll N texts values) (hn : (join texts).length + 1 ≤ n) (rest : Text) :
    readItems N n (join texts ++ ']' :: rest) = values.map fun vs => (vs, rest) := by
  induction h generalizing n with
  | nil =>
      obtain ⟨m, rfl⟩ := Nat.exists_eq_add_of_le' (Nat.lt_of_lt_of_le (Nat.succ_pos _) hn)
      rfl
  | @cons text texts value values h hall ih =>
      obtain ⟨m, rfl⟩ := Nat.exists_eq_add_of_le' (Nat.lt_of_lt_of_le (Nat.succ_pos _) hn)
      cases hall with
      | nil =>
          have hjoin : join [text] = text := List.intercalate_singleton
          rw [hjoin] at hn ⊢
          rw [readItems_starts h.starts, h.read m _ (by omega) (ends_cons (by decide))]
          cases value with
          | none => rfl
          | some v => rfl
      | @cons next texts value' values' hnext hall =>
          rw [join_cons_cons] at hn ⊢
          simp only [List.length_append, List.length_cons] at hn
          rw [List.append_assoc, readItems_starts h.starts, List.cons_append,
            h.read m _ (by omega) (ends_cons (by decide))]
          cases value with
          | none => rfl
          | some v =>
              rw [Option.map_some, Option.bind_some]
              show (readItems N m (' ' :: (join (next :: texts) ++ ']' :: rest))).map _ = _
              rw [readItems_space, ih (by omega)]
              cases hvalues : (value'.bind fun v => values'.map fun vs => v :: vs) <;> rfl

/-- A tuple of what its items are expressions of. -/
theorem reads_tuple {texts : List Text} {values : Option (List Value)}
    (h : ReadsAll N texts values) :
    Reads N ('[' :: (join texts ++ [']'])) (values.map .tuple) := by
  refine ⟨⟨'[', _, rfl, rfl⟩, fun n rest hn _ => ?_⟩
  obtain ⟨k, rfl⟩ := Nat.exists_eq_add_of_le' (Nat.lt_of_lt_of_le (Nat.succ_pos _) hn)
  simp only [List.length_append, List.length_cons, List.length_nil] at hn
  rw [List.cons_append, List.append_assoc, List.singleton_append, readValue,
    readItems_join h (by omega)]
  cases values <;> rfl

variable (N) in
/-- A text is the key of an attribute, or of none, whatever comes after it. -/
structure ReadsKey (text : Text) (key : Option Text) : Prop where
  starts : Starts text
  read : ∀ rest, Ends rest → readKey N (text ++ rest) = key.map fun k => (k, rest)

/-- A string in quotes is the key of its text, or of none. -/
theorem readsKey_string {spell : Char → Text} (h : ∀ c ∈ t, Spells c (spell c)) :
    ReadsKey N ('"' :: (t.flatMap spell ++ ['"'])) ((literal t).map N.nfc) := by
  refine ⟨⟨'"', _, rfl, rfl⟩, fun rest _ => ?_⟩
  rw [List.cons_append, List.append_assoc, List.singleton_append, readKey, readString,
    readQuoted_spelt h, Option.bind_some]
  cases hliteral : literal t with
  | none => simp [hliteral]
  | some text => simp [hliteral]

/-- A name is a key. -/
theorem readsKey_word {c : Char} {word : Text} (hfirst : c.isAlphanum = true)
    (hword : ∀ d ∈ c :: word, nameChar d = true) : ReadsKey N (c :: word) (some (c :: word)) := by
  refine ⟨⟨c, word, rfl, opens_of_isAlphanum hfirst⟩, fun rest hrest => ?_⟩
  obtain ⟨htake, hdrop⟩ := Data.takeWhile_of_boundary rest hword fun d hd => (hrest d hd).1
  have hquote : c ≠ '"' := by
    rintro rfl
    cases hfirst
  unfold readKey
  split
  · next heq => exact absurd (List.cons.inj heq).1 hquote
  · rw [htake, hdrop]
    exact if_neg (List.cons_ne_nil c word)

/-- The text of an attribute. -/
def assign (key value : Text) : Text := key ++ ' ' :: '=' :: ' ' :: value

variable (N) in
/-- Texts are the attributes of an object, or one is of none. -/
inductive ReadsAttributes : List Text → Option (List (Text × Value)) → Prop
  | nil : ReadsAttributes [] (some [])
  | cons {key text : Text} {texts : List Text} {k : Option Text} {value : Option Value}
      {attributes : Option (List (Text × Value))} (hkey : ReadsKey N key k)
      (h : Reads N text value) (hall : ReadsAttributes texts attributes) :
      ReadsAttributes (assign key text :: texts)
        (k.bind fun k => value.bind fun v => attributes.map fun vs => (k, v) :: vs)

theorem readAttributes_starts {key : Text} {k : Option Text} (hkey : ReadsKey N key k)
    (hstarts : Starts text) (rest : Text) :
    readAttributes N (n + 1) (assign key text ++ rest) = k.bind fun k =>
      (readValue N n (text ++ rest)).bind fun (value, u) =>
        match skipBlank u with
        | ',' :: u | '\n' :: u =>
            (readAttributes N n u).map fun (attributes, u) => ((k, value) :: attributes, u)
        | '\x7d' :: u => some ([(k, value)], u)
        | _ => none := by
  have hblank : skipBlank (' ' :: (text ++ rest)) = text ++ rest := by
    obtain ⟨c, u, rfl, hc⟩ := hstarts
    rw [opens, Bool.not_eq_true'] at hc
    simp only [Bool.or_eq_false_iff] at hc
    rw [skipBlank, List.dropWhile_cons_of_pos rfl, List.cons_append]
    exact List.dropWhile_cons_of_neg (by simp [hc])
  obtain ⟨c, u, hcons, hc⟩ := hkey.starts
  rw [assign, List.append_assoc, readAttributes, skip_of_starts hkey.starts]
  split
  · next heq =>
      rw [hcons, List.cons_append] at heq
      rw [(List.cons.inj heq).1] at hc
      cases hc
  · rw [List.cons_append, hkey.read _ (ends_cons (by decide))]
    cases k with
    | none => rfl
    | some k =>
        show (readValue N n (skipBlank (' ' :: (text ++ rest)))).bind _ = _
        rw [hblank]
        rfl

theorem readAttributes_space : readAttributes N n (' ' :: t) = readAttributes N n t := by
  cases n with
  | zero => rfl
  | succ n =>
      have hskip : skip (' ' :: t) = skip t := rfl
      rw [readAttributes, readAttributes, hskip]

/-- **The attributes of an object are read** as what they are expressions of. -/
theorem readAttributes_join {texts : List Text} {attributes : Option (List (Text × Value))}
    (h : ReadsAttributes N texts attributes) (hn : (join texts).length + 1 ≤ n) (rest : Text) :
    readAttributes N n (join texts ++ '\x7d' :: rest) = attributes.map fun vs => (vs, rest) := by
  induction h generalizing n with
  | nil =>
      obtain ⟨m, rfl⟩ := Nat.exists_eq_add_of_le' (Nat.lt_of_lt_of_le (Nat.succ_pos _) hn)
      rfl
  | @cons key text texts k value attributes hkey h hall ih =>
      obtain ⟨m, rfl⟩ := Nat.exists_eq_add_of_le' (Nat.lt_of_lt_of_le (Nat.succ_pos _) hn)
      have hlength : text.length < (assign key text).length := by
        rw [assign, List.length_append, List.length_cons, List.length_cons, List.length_cons]
        omega
      cases k with
      | none =>
          cases hall with
          | nil =>
              have hjoin : join [assign key text] = assign key text :=
                List.intercalate_singleton
              rw [hjoin, readAttributes_starts hkey h.starts]
              rfl
          | cons =>
              rw [join_cons_cons, List.append_assoc, readAttributes_starts hkey h.starts]
              rfl
      | some k =>
          cases hall with
          | nil =>
              have hjoin : join [assign key text] = assign key text :=
                List.intercalate_singleton
              rw [hjoin] at hn ⊢
              rw [readAttributes_starts hkey h.starts, h.read m _ (by omega)
                (ends_cons (by decide))]
              cases value with
              | none => rfl
              | some v => rfl
          | @cons key' text' texts k' value' attributes' hkey' hnext hall =>
              rw [join_cons_cons] at hn ⊢
              simp only [List.length_append, List.length_cons] at hn
              rw [List.append_assoc, readAttributes_starts hkey h.starts, List.cons_append,
                h.read m _ (by omega) (ends_cons (by decide))]
              cases value with
              | none => rfl
              | some v =>
                  show (readAttributes N m (' ' :: (join (assign key' text' :: texts) ++
                    '\x7d' :: rest))).map _ = _
                  rw [readAttributes_space, ih (by omega)]
                  cases hattributes : (k'.bind fun k => value'.bind fun v =>
                    attributes'.map fun vs => (k, v) :: vs) <;> rfl

/-- An object of what its attributes are expressions of. -/
theorem reads_object {texts : List Text} {attributes : Option (List (Text × Value))}
    (h : ReadsAttributes N texts attributes) :
    Reads N ('\x7b' :: (join texts ++ ['\x7d'])) (attributes.map .object) := by
  refine ⟨⟨'\x7b', _, rfl, rfl⟩, fun n rest hn _ => ?_⟩
  obtain ⟨k, rfl⟩ := Nat.exists_eq_add_of_le' (Nat.lt_of_lt_of_le (Nat.succ_pos _) hn)
  simp only [List.length_append, List.length_cons, List.length_nil] at hn
  rw [List.cons_append, List.append_assoc, List.singleton_append, readValue,
    readAttributes_join h (by omega)]
  cases attributes <;> rfl

/-! ### Heredocs -/

/-- Every line of a heredoc ends in its value. -/
theorem length_le_count (lines : List Text) :
    lines.length ≤ (lines.flatMap fun l => l ++ ['\n']).count '\n' := by
  induction lines with
  | nil => exact Nat.le_refl _
  | cons l lines ih =>
      rw [List.flatMap_cons, List.count_append, List.count_append, List.count_singleton_self,
        List.length_cons]
      omega

/-- **The value of a heredoc** has a line end for each that its body has. -/
theorem count_readHeredoc {delimiter body : Text} {value : Value} (hdelimiter : '\n' ∉ delimiter)
    (h : readHeredoc N (delimiter ++ '\n' :: body) = some value) :
    ∃ text, value = .string text ∧ body.count '\n' ≤ text.count '\n' := by
  have hnot : ∀ c ∈ delimiter, (c != '\n') = true := by
    rintro c hc
    rw [bne_iff_ne]
    rintro rfl
    exact hdelimiter hc
  obtain ⟨htake, hdrop⟩ := Data.takeWhile_of_boundary ('\n' :: body) hnot (by simp)
  simp only [readHeredoc, htake, hdrop, List.drop_one, List.tail_cons] at h
  split at h
  · next hlength =>
      obtain ⟨text, htext, rfl⟩ := Option.map_eq_some_iff.mp h
      refine ⟨_, rfl, ?_⟩
      rw [N.count_inert _ _ (.inl (by decide)), count_literal htext (by decide) (by decide)]
      refine Nat.le_trans (Nat.le_of_eq ?_) (length_le_count _)
      rw [flush, List.length_map]
      rw [Data.length_splitOn] at hlength
      omega
  · cases h

end Expressions

end Hcl
