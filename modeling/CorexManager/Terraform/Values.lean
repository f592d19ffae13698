import CorexManager.Data.Hcl

/-!
# Values in a Terraform export

`services/terraform_export.py` writes the attributes of resources as HCL expressions:
`_hcl_value` of a Python value, with `_hcl_string` and `_hcl_heredoc` of a string.

* `hclValue` — the expression of a value.
* `Exported` — Terraform evaluates it to the value, and no template is executed.
* `exported_iff` — exactly the values that are `Kept`, and no text on more than one line or of
  more than 500 characters: these become heredocs, which end in a line end of their own, and in
  quoted strings template sequences are not escaped.
-/

namespace CorexManager.Terraform

open Data (Text intText natText)
open Hcl (Normalization Numeral Reads ReadsAll ReadsAttributes ReadsKey join literal plain)

/-! ### Python values -/

/-- A float, by the numeral that `str` writes. -/
inductive PyFloat where
  | finite (negative : Bool) (numeral : Numeral)
  | infinite (negative : Bool)
  | nan

/-- A key of a dict. -/
inductive PyKey where
  | none
  | bool (b : Bool)
  | int (n : Int)
  | float (f : PyFloat)
  | str (t : Text)

/-- A value built from `None`, booleans, numbers, strings, lists and dicts. -/
inductive PyValue where
  | none
  | bool (b : Bool)
  | int (n : Int)
  | float (f : PyFloat)
  | str (t : Text)
  | list (items : List PyValue)
  | dict (entries : List (PyKey × PyValue))

/-- `str` of a boolean. -/
def strBool (b : Bool) : Text := if b then "True".toList else "False".toList

/-- `str` of an integer, which fails for more than 4300 digits. -/
def strInt (n : Int) : Option Text :=
  if (natText n.natAbs).length ≤ 4300 then some (intText n) else .none

/-- `str` of a float. -/
def strFloat : PyFloat → Text
  | .finite negative numeral => if negative then '-' :: numeral.text else numeral.text
  | .infinite negative => if negative then ['-', 'i', 'n', 'f'] else ['i', 'n', 'f']
  | .nan => ['n', 'a', 'n']

/-! ### Their expressions -/

/-- `str.replace` of one character. -/
def replaceChar (c : Char) (by_ : Text) (t : Text) : Text :=
  t.flatMap fun d => if d = c then by_ else [d]

/-- The escapes of `_hcl_string`, and what is left of the control characters. -/
def escape (t : Text) : Text :=
  (replaceChar '\r' ['\\', 'r'] (replaceChar '\t' ['\\', 't'] (replaceChar '\n' ['\\', 'n']
    (replaceChar '"' ['\\', '"'] (replaceChar '\\' ['\\', '\\'] t))))).filter
      fun c => 32 ≤ c.toNat || c == '\t'

/-- The delimiter of a heredoc; one that is longer than the text is not in it. -/
def growDelimiter (t : Text) : Nat → Text → Text
  | 0, delimiter => delimiter
  | n + 1, delimiter =>
      if delimiter <:+: t then growDelimiter t n (delimiter ++ ['X']) else delimiter

/-- `str.replace` of `${` by `$${`. -/
def escapeInterpolation : Text → Text
  | '$' :: '\x7b' :: t => '$' :: '$' :: '\x7b' :: escapeInterpolation t
  | c :: t => c :: escapeInterpolation t
  | [] => []

/-- A character that is written. -/
def written (c : Char) : Bool := 32 ≤ c.toNat || c == '\n' || c == '\t' || c == '\r'

/-- `_hcl_heredoc`. -/
def hclHeredoc (t : Text) : Text :=
  let delimiter := growDelimiter t t.length ['E', 'O', 'T']
  '<' :: '<' :: '-' :: (delimiter ++ '\n' :: (escapeInterpolation (t.filter written) ++
    '\n' :: delimiter))

/-- `_hcl_string`. -/
def hclString (t : Text) (allowHeredoc : Bool) : Text :=
  if allowHeredoc && (t.contains '\n' || 500 < t.length) then hclHeredoc t
  else '"' :: (escape t ++ ['"'])

/-- `_hcl_string` of a key. -/
def hclKey : PyKey → Option Text
  | .none => some ['n', 'u', 'l', 'l']
  | .bool b => some (hclString (strBool b) false)
  | .int n => (strInt n).map fun t => hclString t false
  | .float f => some (hclString (strFloat f) false)
  | .str t => some (hclString t false)

mutual

/-- `_hcl_value`; the `ValueError` of a number that is too long is nothing. -/
def hclValue : PyValue → Bool → Option Text
  | .none, _ => some ['n', 'u', 'l', 'l']
  | .bool b, _ => some (if b then ['t', 'r', 'u', 'e'] else ['f', 'a', 'l', 's', 'e'])
  | .int n, _ => strInt n
  | .float f, _ => some (strFloat f)
  | .str t, allowHeredoc => some (hclString t allowHeredoc)
  | .list items, _ => (hclItems items).map fun texts => '[' :: (join texts ++ [']'])
  | .dict entries, _ =>
      (hclEntries entries).map fun texts => '\x7b' :: (join texts ++ ['\x7d'])

/-- The items of `_hcl_list`. -/
def hclItems : List PyValue → Option (List Text)
  | [] => some []
  | v :: items =>
      (hclValue v false).bind fun text => (hclItems items).map fun texts => text :: texts

/-- The items of `_hcl_map`. -/
def hclEntries : List (PyKey × PyValue) → Option (List Text)
  | [] => some []
  | (k, v) :: entries => (hclKey k).bind fun key => (hclValue v false).bind fun text =>
      (hclEntries entries).map fun texts => Hcl.assign key text :: texts

end

/-! ### What they stand for -/

mutual

/-- The value of HCL that a Python value is; the keys of an object are strings. -/
def denote : PyValue → Option Hcl.Value
  | .none => some .null
  | .bool b => some (.bool b)
  | .int n => some (.number n)
  | .float (.finite negative numeral) =>
      some (.number (if negative then -numeral.value else numeral.value))
  | .float _ => .none
  | .str t => some (.string t)
  | .list items => (denoteItems items).map .tuple
  | .dict entries => (denoteEntries entries).map .object

/-- The values of some items. -/
def denoteItems : List PyValue → Option (List Hcl.Value)
  | [] => some []
  | v :: items => (denote v).bind fun x => (denoteItems items).map fun xs => x :: xs

/-- The attributes of some entries. -/
def denoteEntries : List (PyKey × PyValue) → Option (List (Text × Hcl.Value))
  | [] => some []
  | (.str t, v) :: entries =>
      (denote v).bind fun x => (denoteEntries entries).map fun xs => (t, x) :: xs
  | _ :: _ => .none

end

section Export

variable (N : Normalization)

/-- **A value is exported**: its expression evaluates to it, without a template. -/
def Exported (v : PyValue) : Prop :=
  ∃ text x, hclValue v true = some text ∧ denote v = some x ∧ Hcl.evaluate N text = some x

/-- A text is kept: no control characters but line ends and tabs, no `${` and no `%{`, and in
normal form. -/
def KeptText (t : Text) : Prop :=
  (∀ c ∈ t, written c = true) ∧ plain t = true ∧ N.nfc t = t

mutual

/-- The texts in a value are kept, its numbers are finite and have at most 4300 digits, and its
keys are strings. -/
def Kept : PyValue → Prop
  | .none => True
  | .bool _ => True
  | .int n => (natText n.natAbs).length ≤ 4300
  | .float (.finite _ _) => True
  | .float _ => False
  | .str t => KeptText N t
  | .list items => KeptItems items
  | .dict entries => KeptEntries entries

/-- The same of some items. -/
def KeptItems : List PyValue → Prop
  | [] => True
  | v :: items => Kept v ∧ KeptItems items

/-- The same of some entries. -/
def KeptEntries : List (PyKey × PyValue) → Prop
  | [] => True
  | (.str t, v) :: entries => KeptText N t ∧ Kept v ∧ KeptEntries entries
  | _ :: _ => False

end

/-- A value that is a text is short, and on one line. -/
def OneLine : PyValue → Prop
  | .str t => '\n' ∉ t ∧ t.length ≤ 500
  | _ => True

end Export

/-! ### What the expressions evaluate to -/

/-- A character in a quoted string. -/
def spell (c : Char) : Text :=
  if c = '\r' then ['\\', 'r'] else if c = '\t' then ['\\', 't']
  else if c = '\n' then ['\\', 'n'] else if c = '"' then ['\\', '"']
  else if c = '\\' then ['\\', '\\'] else [c]

theorem spells_spell (c : Char) : Hcl.Spells c (spell c) := by
  unfold spell
  split
  · next h => exact .inr ⟨'r', rfl, by rw [h]; rfl⟩
  split
  · next h => exact .inr ⟨'t', rfl, by rw [h]; rfl⟩
  split
  · next h => exact .inr ⟨'n', rfl, by rw [h]; rfl⟩
  split
  · next h => exact .inr ⟨'"', rfl, by rw [h]; rfl⟩
  split
  · next h => exact .inr ⟨'\\', rfl, by rw [h]; rfl⟩
  · next hline hquote hslash => exact .inl ⟨rfl, hquote, hslash, hline⟩

theorem escape_append (t u : Text) : escape (t ++ u) = escape t ++ escape u := by
  simp only [escape, replaceChar, List.flatMap_append, List.filter_append]

theorem escape_singleton (c : Char) : escape [c] = if written c then spell c else [] := by
  by_cases hreturn : c = '\r'
  · subst hreturn; rfl
  by_cases htab : c = '\t'
  · subst htab; rfl
  by_cases hline : c = '\n'
  · subst hline; rfl
  by_cases hquote : c = '"'
  · subst hquote; rfl
  by_cases hslash : c = '\\'
  · subst hslash; rfl
  have hspell : spell c = [c] := by
    simp only [spell, if_neg hreturn, if_neg htab, if_neg hline, if_neg hquote, if_neg hslash]
  have hreplace : ∀ (d : Char) (u : Text), c ≠ d → replaceChar d u [c] = [c] := by
    intro d u hd
    simp [replaceChar, hd]
  simp only [escape, hreplace _ _ hslash, hreplace _ _ hquote, hreplace _ _ hline,
    hreplace _ _ htab, hreplace _ _ hreturn, hspell, written]
  rw [show (c == '\n') = false from beq_false_of_ne hline, show (c == '\r') = false from
    beq_false_of_ne hreturn, Bool.or_false, Bool.or_false]
  cases hc : decide (32 ≤ c.toNat) || c == '\t' <;> simp [hc]

/-- The replacements, one after the other, spell the characters that are written. -/
theorem escape_eq (t : Text) : escape t = (t.filter written).flatMap spell := by
  induction t with
  | nil => rfl
  | cons c t ih =>
      rw [← List.singleton_append, escape_append, escape_singleton, ih, List.filter_append,
        List.flatMap_append, List.filter_singleton]
      cases written c with
      | true => simp
      | false => rfl

theorem hclString_quoted (t : Text) :
    hclString t false = '"' :: ((t.filter written).flatMap spell ++ ['"']) := by
  rw [hclString, Bool.false_and, if_neg Bool.false_ne_true, escape_eq]

section Meaning

variable (N : Normalization)

/-- What a text in quotes evaluates to. -/
def meaningText (t : Text) : Option Text := (literal (t.filter written)).map N.nfc

/-- What a key stands for. -/
def meaningKey : PyKey → Option Text
  | .none => some ['n', 'u', 'l', 'l']
  | .bool b => meaningText N (strBool b)
  | .int n => (strInt n).bind fun t => meaningText N t
  | .float f => meaningText N (strFloat f)
  | .str t => meaningText N t

mutual

/-- What the expression of a value evaluates to. -/
def meaning : PyValue → Option Hcl.Value
  | .none => some .null
  | .bool b => some (.bool b)
  | .int n => some (.number n)
  | .float (.finite negative numeral) =>
      some (.number (if negative then -numeral.value else numeral.value))
  | .float _ => .none
  | .str t => (meaningText N t).map .string
  | .list items => (meaningItems items).map .tuple
  | .dict entries => (meaningEntries entries).map .object

/-- The same of some items. -/
def meaningItems : List PyValue → Option (List Hcl.Value)
  | [] => some []
  | v :: items => (meaning v).bind fun x => (meaningItems items).map fun xs => x :: xs

/-- The same of some entries. -/
def meaningEntries : List (PyKey × PyValue) → Option (List (Text × Hcl.Value))
  | [] => some []
  | (k, v) :: entries => (meaningKey N k).bind fun key => (meaning v).bind fun x =>
      (meaningEntries entries).map fun xs => (key, x) :: xs

end

variable {N}

theorem reads_hclString (t : Text) :
    Reads N (hclString t false) ((meaningText N t).map .string) := by
  rw [hclString_quoted, meaningText, Option.map_map]
  exact Hcl.reads_string fun c _ => spells_spell c

theorem readsKey_hclString (t : Text) : ReadsKey N (hclString t false) (meaningText N t) := by
  rw [hclString_quoted, meaningText]
  exact Hcl.readsKey_string fun c _ => spells_spell c

/-- The numeral of a natural number. -/
def natNumeral (n : Nat) : Numeral where
  whole := natText n
  fraction := []
  exponent := none
  whole_ne := Data.natText_ne_nil n
  whole_digits := Data.natText_isDigit n
  fraction_digits := nofun
  exponent_digits := nofun

theorem natNumeral_text (n : Nat) : (natNumeral n).text = natText n :=
  List.append_nil _

theorem natNumeral_value (n : Nat) : (natNumeral n).value = n := by
  show ((Nat.ofDigitChars 10 (natText n ++ []) 0 : ℕ) : ℚ) * 10 ^ ((0 : ℤ) - (0 : ℕ)) = n
  rw [List.append_nil, natText, Nat.ofDigitChars_ten_toDigits]
  simp

theorem reads_strInt {n : Int} {text : Text} (h : strInt n = some text) :
    Reads N text (some (.number n)) := by
  rw [strInt] at h
  split at h
  · obtain rfl := Option.some.inj h
    cases n with
    | ofNat n =>
        have hread := Hcl.reads_numeral (N := N) (natNumeral n)
        rw [natNumeral_text, natNumeral_value] at hread
        exact hread
    | negSucc n =>
        have hread := Hcl.reads_minus (N := N) (natNumeral (n + 1))
        rw [natNumeral_text, natNumeral_value] at hread
        rw [Int.cast_negSucc]
        exact hread
  · cases h

theorem reads_strFloat (f : PyFloat) : Reads N (strFloat f) (meaning N (.float f)) := by
  cases f with
  | finite negative numeral =>
      cases negative with
      | true => exact Hcl.reads_minus numeral
      | false => exact Hcl.reads_numeral numeral
  | infinite negative =>
      cases negative with
      | true => exact Hcl.reads_minus_word rfl
      | false => exact Hcl.reads_word rfl (by decide)
  | nan => exact Hcl.reads_word rfl (by decide)

theorem readsKey_hclKey {k : PyKey} {text : Text} (h : hclKey k = some text) :
    ReadsKey N text (meaningKey N k) := by
  cases k with
  | none =>
      obtain rfl := Option.some.inj h
      exact Hcl.readsKey_word rfl (by decide)
  | bool b =>
      obtain rfl := Option.some.inj h
      exact readsKey_hclString _
  | int n =>
      obtain ⟨t, ht, rfl⟩ := Option.map_eq_some_iff.mp h
      rw [meaningKey, ht, Option.bind_some]
      exact readsKey_hclString t
  | float f =>
      obtain rfl := Option.some.inj h
      exact readsKey_hclString _
  | str t =>
      obtain rfl := Option.some.inj h
      exact readsKey_hclString t

mutual

/-- **The expression of a value is read** as what it evaluates to. -/
theorem reads_hclValue : ∀ (v : PyValue) {text : Text}, hclValue v false = some text →
    Reads N text (meaning N v)
  | .none, _, h => by
      obtain rfl := Option.some.inj h
      exact Hcl.reads_word rfl (by decide)
  | .bool b, _, h => by
      obtain rfl := Option.some.inj h
      cases b with
      | true => exact Hcl.reads_word rfl (by decide)
      | false => exact Hcl.reads_word rfl (by decide)
  | .int n, _, h => reads_strInt h
  | .float f, _, h => by
      obtain rfl := Option.some.inj h
      exact reads_strFloat f
  | .str t, _, h => by
      obtain rfl := Option.some.inj h
      exact reads_hclString t
  | .list items, _, h => by
      obtain ⟨texts, htexts, rfl⟩ := Option.map_eq_some_iff.mp h
      exact Hcl.reads_tuple (reads_hclItems items htexts)
  | .dict entries, _, h => by
      obtain ⟨texts, htexts, rfl⟩ := Option.map_eq_some_iff.mp h
      exact Hcl.reads_object (reads_hclEntries entries htexts)

theorem reads_hclItems : ∀ (items : List PyValue) {texts : List Text},
    hclItems items = some texts → ReadsAll N texts (meaningItems N items)
  | [], _, h => by
      obtain rfl := Option.some.inj h
      exact .nil
  | v :: items, _, h => by
      rw [hclItems] at h
      obtain ⟨text, htext, h⟩ := Option.bind_eq_some_iff.mp h
      obtain ⟨texts, htexts, rfl⟩ := Option.map_eq_some_iff.mp h
      exact .cons (reads_hclValue v htext) (reads_hclItems items htexts)

theorem reads_hclEntries : ∀ (entries : List (PyKey × PyValue)) {texts : List Text},
    hclEntries entries = some texts → ReadsAttributes N texts (meaningEntries N entries)
  | [], _, h => by
      obtain rfl := Option.some.inj h
      exact .nil
  | (k, v) :: entries, _, h => by
      rw [hclEntries] at h
      obtain ⟨key, hkey, h⟩ := Option.bind_eq_some_iff.mp h
      obtain ⟨text, htext, h⟩ := Option.bind_eq_some_iff.mp h
      obtain ⟨texts, htexts, rfl⟩ := Option.map_eq_some_iff.mp h
      exact .cons (readsKey_hclKey hkey) (reads_hclValue v htext)
        (reads_hclEntries entries htexts)

end

/-! ### Values that are kept -/

/-- **A text in quotes is kept** exactly when it evaluates to itself. -/
theorem meaningText_eq_some_iff {t : Text} : meaningText N t = some t ↔ KeptText N t := by
  constructor
  · intro h
    obtain ⟨u, hu, hnfc⟩ := Option.map_eq_some_iff.mp h
    have hcount : ∀ c, Hcl.Inert c → u.count c = t.count c := by
      intro c hc
      rw [← N.count_inert u c hc, hnfc]
    -- no control character is written, so that there was none
    have hwritten : ∀ c ∈ t, written c = true := by
      intro c hc
      by_contra hnot
      rw [Bool.not_eq_true] at hnot
      have hcontrol : c.toNat < 32 := by
        by_contra hge
        rw [written, show decide (32 ≤ c.toNat) = true from decide_eq_true (by omega)] at hnot
        cases hnot
      have hnone : (t.filter written).count c = 0 := by
        refine List.count_eq_zero.mpr fun hmem => ?_
        rw [(List.mem_filter.mp hmem).2] at hnot
        cases hnot
      have hle := (Hcl.sublist_of_literal hu).count_le c
      rw [hcount c (.inl hcontrol)] at hle
      have hpos := List.count_pos_iff.mpr hc
      omega
    rw [List.filter_eq_self.mpr hwritten] at hu
    have hplain : plain t = true :=
      Hcl.plain_of_count hu (hcount '$' (.inr (.inl rfl))) (hcount '%' (.inr (.inr rfl)))
    rw [Hcl.literal_of_plain hplain] at hu
    exact ⟨hwritten, hplain, Option.some.inj hu ▸ hnfc⟩
  · rintro ⟨hwritten, hplain, hnfc⟩
    rw [meaningText, List.filter_eq_self.mpr hwritten, Hcl.literal_of_plain hplain,
      Option.map_some, hnfc]

/-- The results for an item and for those after it, put together. -/
theorem bind_map_cons {α β : Type*} {f : α → β} {a : Option α} {bs : Option (List β)}
    {l : List β} : (a.bind fun x => bs.map fun ys => f x :: ys) = some l ↔
      ∃ x ys, a = some x ∧ bs = some ys ∧ l = f x :: ys := by
  constructor
  · intro h
    obtain ⟨x, hx, h⟩ := Option.bind_eq_some_iff.mp h
    obtain ⟨ys, hys, rfl⟩ := Option.map_eq_some_iff.mp h
    exact ⟨x, ys, hx, hys, rfl⟩
  · rintro ⟨x, ys, rfl, rfl, rfl⟩
    rfl

mutual

/-- **A value evaluates to itself** exactly when it is kept. -/
theorem same_iff : ∀ v : PyValue,
    (∃ text x, hclValue v false = some text ∧ denote v = some x ∧ meaning N v = some x) ↔
      Kept N v
  | .none => ⟨fun _ => trivial, fun _ => ⟨_, _, rfl, rfl, rfl⟩⟩
  | .bool b => ⟨fun _ => trivial, fun _ => ⟨_, _, rfl, rfl, rfl⟩⟩
  | .int n => by
      constructor
      · rintro ⟨text, x, htext, -, -⟩
        rw [hclValue, strInt] at htext
        split at htext
        · next hlength => exact hlength
        · cases htext
      · intro h
        exact ⟨intText n, .number n, if_pos h, rfl, rfl⟩
  | .float (.finite negative numeral) => ⟨fun _ => trivial, fun _ => ⟨_, _, rfl, rfl, rfl⟩⟩
  | .float (.infinite negative) => ⟨fun ⟨_, _, _, h, _⟩ => (by cases h), fun h => h.elim⟩
  | .float .nan => ⟨fun ⟨_, _, _, h, _⟩ => (by cases h), fun h => h.elim⟩
  | .str t => by
      show _ ↔ KeptText N t
      rw [← meaningText_eq_some_iff]
      constructor
      · rintro ⟨text, x, -, hx, hmeaning⟩
        obtain rfl := Option.some.inj hx
        obtain ⟨u, hu, heq⟩ := Option.map_eq_some_iff.mp hmeaning
        rw [hu, (Hcl.Value.string.inj heq)]
      · intro h
        exact ⟨_, .string t, rfl, rfl, Option.map_eq_some_iff.mpr ⟨t, h, rfl⟩⟩
  | .list items => by
      show _ ↔ KeptItems N items
      rw [← sameItems_iff items]
      constructor
      · rintro ⟨text, x, htext, hx, hmeaning⟩
        obtain ⟨texts, htexts, -⟩ := Option.map_eq_some_iff.mp htext
        obtain ⟨xs, hxs, rfl⟩ := Option.map_eq_some_iff.mp hx
        obtain ⟨ys, hys, heq⟩ := Option.map_eq_some_iff.mp hmeaning
        exact ⟨texts, xs, htexts, hxs, hys.trans (congrArg some (Hcl.Value.tuple.inj heq))⟩
      · rintro ⟨texts, xs, htexts, hxs, hmeaning⟩
        exact ⟨_, _, Option.map_eq_some_iff.mpr ⟨texts, htexts, rfl⟩,
          Option.map_eq_some_iff.mpr ⟨xs, hxs, rfl⟩, Option.map_eq_some_iff.mpr ⟨xs, hmeaning, rfl⟩⟩
  | .dict entries => by
      show _ ↔ KeptEntries N entries
      rw [← sameEntries_iff entries]
      constructor
      · rintro ⟨text, x, htext, hx, hmeaning⟩
        obtain ⟨texts, htexts, -⟩ := Option.map_eq_some_iff.mp htext
        obtain ⟨xs, hxs, rfl⟩ := Option.map_eq_some_iff.mp hx
        obtain ⟨ys, hys, heq⟩ := Option.map_eq_some_iff.mp hmeaning
        exact ⟨texts, xs, htexts, hxs, hys.trans (congrArg some (Hcl.Value.object.inj heq))⟩
      · rintro ⟨texts, xs, htexts, hxs, hmeaning⟩
        exact ⟨_, _, Option.map_eq_some_iff.mpr ⟨texts, htexts, rfl⟩,
          Option.map_eq_some_iff.mpr ⟨xs, hxs, rfl⟩, Option.map_eq_some_iff.mpr ⟨xs, hmeaning, rfl⟩⟩

theorem sameItems_iff : ∀ items : List PyValue,
    (∃ texts xs, hclItems items = some texts ∧ denoteItems items = some xs ∧
      meaningItems N items = some xs) ↔ KeptItems N items
  | [] => ⟨fun _ => trivial, fun _ => ⟨_, _, rfl, rfl, rfl⟩⟩
  | v :: items => by
      show _ ↔ Kept N v ∧ KeptItems N items
      rw [← same_iff v, ← sameItems_iff items]
      constructor
      · rintro ⟨texts, xs, htexts, hxs, hmeaning⟩
        obtain ⟨text, texts', htext, htexts', -⟩ := bind_map_cons.mp htexts
        obtain ⟨x, xs', hx, hxs', rfl⟩ := bind_map_cons.mp hxs
        obtain ⟨y, ys, hy, hys, heq⟩ := bind_map_cons.mp hmeaning
        obtain ⟨rfl, rfl⟩ := List.cons.inj heq
        exact ⟨⟨text, x, htext, hx, hy⟩, texts', xs', htexts', hxs', hys⟩
      · rintro ⟨⟨text, x, htext, hx, hv⟩, texts, xs, htexts, hxs, hitems⟩
        exact ⟨text :: texts, x :: xs, bind_map_cons.mpr ⟨text, texts, htext, htexts, rfl⟩,
          bind_map_cons.mpr ⟨x, xs, hx, hxs, rfl⟩, bind_map_cons.mpr ⟨x, xs, hv, hitems, rfl⟩⟩

theorem sameEntries_iff : ∀ entries : List (PyKey × PyValue),
    (∃ texts xs, hclEntries entries = some texts ∧ denoteEntries entries = some xs ∧
      meaningEntries N entries = some xs) ↔ KeptEntries N entries
  | [] => ⟨fun _ => trivial, fun _ => ⟨_, _, rfl, rfl, rfl⟩⟩
  | (.str t, v) :: entries => by
      show _ ↔ KeptText N t ∧ Kept N v ∧ KeptEntries N entries
      rw [← same_iff v, ← sameEntries_iff entries, ← meaningText_eq_some_iff]
      constructor
      · rintro ⟨texts, xs, htexts, hxs, hmeaning⟩
        obtain ⟨key, -, htexts⟩ := Option.bind_eq_some_iff.mp htexts
        obtain ⟨text, texts', htext, htexts', -⟩ := bind_map_cons.mp htexts
        obtain ⟨x, xs', hx, hxs', rfl⟩ := bind_map_cons.mp hxs
        obtain ⟨k, hk, hmeaning⟩ := Option.bind_eq_some_iff.mp hmeaning
        obtain ⟨y, ys, hy, hys, heq⟩ := bind_map_cons.mp hmeaning
        obtain ⟨hpair, rfl⟩ := List.cons.inj heq
        obtain ⟨rfl, rfl⟩ := Prod.mk.inj hpair
        exact ⟨hk, ⟨text, x, htext, hx, hy⟩, texts', xs', htexts', hxs', hys⟩
      · rintro ⟨ht, ⟨text, x, htext, hx, hv⟩, texts, xs, htexts, hxs, hentries⟩
        refine ⟨Hcl.assign (hclString t false) text :: texts, (t, x) :: xs, ?_, ?_, ?_⟩
        · exact bind_map_cons.mpr ⟨text, texts, htext, htexts, rfl⟩
        · exact bind_map_cons.mpr ⟨x, xs, hx, hxs, rfl⟩
        · exact Option.bind_eq_some_iff.mpr
            ⟨t, ht, bind_map_cons.mpr ⟨x, xs, hv, hentries, rfl⟩⟩
  | (.none, v) :: entries => ⟨fun ⟨_, _, _, h, _⟩ => (by cases h), fun h => h.elim⟩
  | (.bool b, v) :: entries => ⟨fun ⟨_, _, _, h, _⟩ => (by cases h), fun h => h.elim⟩
  | (.int n, v) :: entries => ⟨fun ⟨_, _, _, h, _⟩ => (by cases h), fun h => h.elim⟩
  | (.float f, v) :: entries => ⟨fun ⟨_, _, _, h, _⟩ => (by cases h), fun h => h.elim⟩

end

/-! ### Heredocs -/

theorem growDelimiter_line {t delimiter : Text} (n : Nat) (h : '\n' ∉ delimiter) :
    '\n' ∉ growDelimiter t n delimiter := by
  induction n generalizing delimiter with
  | zero => exact h
  | succ n ih =>
      rw [growDelimiter]
      split
      · refine ih ?_
        rw [List.mem_append, not_or]
        exact ⟨h, by decide⟩
      · exact h

theorem count_escapeInterpolation (t : Text) :
    (escapeInterpolation t).count '\n' = t.count '\n' := by
  fun_induction escapeInterpolation t with
  | case1 t ih => simp [ih]
  | case2 c t _ ih => rw [List.count_cons, List.count_cons, ih]
  | case3 => rfl

/-- **A heredoc is not its text**: it has a line end more. -/
theorem evaluate_hclHeredoc (t : Text) :
    Hcl.evaluate N (hclHeredoc t) ≠ some (.string t) := by
  intro h
  have hdelimiter : '\n' ∉ growDelimiter t t.length ['E', 'O', 'T'] :=
    growDelimiter_line _ (by decide)
  obtain ⟨text, htext, hcount⟩ := Hcl.count_readHeredoc hdelimiter h
  obtain rfl := Hcl.Value.string.inj htext
  rw [List.count_append, count_escapeInterpolation, List.count_filter rfl,
    List.count_cons_self] at hcount
  omega

/-! ### Exported values -/

/-- Outside heredocs, a value is exported as what its expression evaluates to. -/
theorem exported_iff_same {v : PyValue} (h : hclValue v true = hclValue v false) :
    Exported N v ↔ Kept N v := by
  rw [← same_iff, Exported, h]
  constructor
  · rintro ⟨text, x, htext, hx, heval⟩
    exact ⟨text, x, htext, hx, (reads_hclValue v htext).evaluate.symm.trans heval⟩
  · rintro ⟨text, x, htext, hx, hmeaning⟩
    exact ⟨text, x, htext, hx, (reads_hclValue v htext).evaluate.trans hmeaning⟩

end Meaning

/-- **Exactly the values that are kept are exported**, of the texts those on one line of at most
500 characters. -/
theorem exported_iff (N : Normalization) (v : PyValue) :
    Exported N v ↔ Kept N v ∧ OneLine v := by
  cases v with
  | str t =>
      cases hheredoc : t.contains '\n' || decide (500 < t.length) with
      | true =>
          have hnot : ¬ OneLine (.str t) := by
            rintro ⟨hline, hlength⟩
            rw [Bool.or_eq_true, List.contains_iff_mem, decide_eq_true_iff] at hheredoc
            exact hheredoc.elim hline hlength.not_gt
          refine ⟨fun ⟨text, x, htext, hx, heval⟩ => ?_, fun h => absurd h.2 hnot⟩
          have hstring : hclString t true = hclHeredoc t := by
            rw [hclString, Bool.true_and, if_pos hheredoc]
          obtain rfl := Option.some.inj htext
          obtain rfl := Option.some.inj hx
          rw [hstring] at heval
          exact absurd heval (evaluate_hclHeredoc t)
      | false =>
          have hline : OneLine (.str t) := by
            rw [Bool.or_eq_false_iff, decide_eq_false_iff_not] at hheredoc
            refine ⟨fun hmem => ?_, Nat.le_of_not_lt hheredoc.2⟩
            rw [List.contains_iff_mem.mpr hmem] at hheredoc
            cases hheredoc.1
          have hstring : hclString t true = hclString t false := by
            rw [hclString, hclString, hheredoc, Bool.true_and, Bool.false_and]
          have hsame : hclValue (.str t) true = hclValue (.str t) false := congrArg some hstring
          rw [exported_iff_same hsame]
          exact (and_iff_left hline).symm
  | _ =>
      rw [exported_iff_same rfl]
      exact (and_iff_left trivial).symm

/-- The normalization of texts in normal form. -/
def normal : Normalization := ⟨id, fun _ _ _ => rfl⟩

/-- **A text with a template is executed**. -/
theorem template_executed : ¬ Exported normal (.str "$\x7bpath.cwd\x7d".toList) := by
  rintro ⟨text, x, htext, -, heval⟩
  obtain rfl := Option.some.inj htext
  have hnone : (Hcl.evaluate normal (hclString "$\x7bpath.cwd\x7d".toList true)).isNone = true := by
    decide +kernel
  rw [heval] at hnone
  cases hnone

end CorexManager.Terraform
