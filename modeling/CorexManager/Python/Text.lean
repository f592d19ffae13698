import CorexManager.Data.Text

/-!
# Strings of Python

What the source asks of `str`.  Python classifies characters by Unicode tables:
the ASCII part is written out, the rest is a parameter, `UnicodeTables`.
-/

namespace Python

open Data (Text)

/-- The Unicode tables behind `isspace`, `isalpha`, `isdigit`, `isalnum` and the
decimal value `int` takes of a character, for the characters outside ASCII, and
`lower` for the texts that have one. -/
structure UnicodeTables where
  isspace : Char → Bool
  isalpha : Char → Bool
  isdigit : Char → Bool
  isalnum : Char → Bool
  decimal : Char → Option Nat
  lowercase : Text → Text

/-- A text without the line end that `$` allows at its end. -/
def chopLineEnd (t : Text) : Text := if t.getLast? = some '\n' then t.dropLast else t

/-- Only a line end is chopped. -/
theorem mem_of_chopLineEnd {t : Text} {c : Char} (hc : c ∈ t) (hne : c ≠ '\n') :
    c ∈ chopLineEnd t := by
  unfold chopLineEnd
  split
  · next hlast =>
      rw [← List.dropLast_append_getLast? '\n' hlast] at hc
      simpa [hne] using hc
  · exact hc

theorem chopLineEnd_eq {t : Text} (h : '\n' ∉ t) : chopLineEnd t = t := by
  unfold chopLineEnd
  split
  · next hlast => exact absurd (List.mem_of_getLast? hlast) h
  · rfl

namespace UnicodeTables

/-- Tables that know no character outside ASCII. -/
def ascii : UnicodeTables :=
  ⟨fun _ => false, fun _ => false, fun _ => false, fun _ => false, fun _ => none, id⟩

variable (U : UnicodeTables)

/-- `str.isspace`. -/
def space (c : Char) : Bool :=
  if c.toNat < 128 then
    c == ' ' || (9 ≤ c.toNat && c.toNat ≤ 13) || (28 ≤ c.toNat && c.toNat ≤ 31)
  else U.isspace c

/-- `str.isalpha`. -/
def alpha (c : Char) : Bool := if c.toNat < 128 then c.isAlpha else U.isalpha c

/-- `str.isdigit`. -/
def digit (c : Char) : Bool := if c.toNat < 128 then c.isDigit else U.isdigit c

/-- `str.isalnum`. -/
def alnum (c : Char) : Bool := if c.toNat < 128 then c.isAlphanum else U.isalnum c

/-- The digit `int` reads a character as. -/
def decimalValue (c : Char) : Option Nat :=
  if c.toNat < 128 then
    if c.isDigit then some (c.toNat - '0'.toNat) else none
  else U.decimal c

/-- `int` on a run of digits; `none` is the `ValueError` of a digit that is not
decimal (such as a superscript), or of more digits than `int` converts. -/
def natOf (ds : Text) : Option Nat :=
  if 4300 < ds.length then none
  else ds.foldl (fun acc c => acc.bind fun n => (U.decimalValue c).map (n * 10 + ·)) (some 0)

/-- `str.lower`. -/
def lower (t : Text) : Text :=
  if t.all fun c => c.toNat < 128 then t.map Char.toLower else U.lowercase t

/-- `str.strip`. -/
def strip (t : Text) : Text :=
  ((t.dropWhile U.space).reverse.dropWhile U.space).reverse

/-- Nothing is stripped from a text without spaces. -/
theorem strip_eq_self {t : Text} (h : ∀ c ∈ t, U.space c = false) : U.strip t = t := by
  have hdrop : ∀ s : Text, (∀ c ∈ s, U.space c = false) → s.dropWhile U.space = s := by
    intro s hs
    cases s with
    | nil => rfl
    | cons c s => rw [List.dropWhile_cons_of_neg (by simp [hs c (by simp)])]
  unfold strip
  rw [hdrop t h, hdrop t.reverse fun c hc => h c (List.mem_reverse.mp hc), List.reverse_reverse]

/-- The lower case of an ASCII text. -/
theorem lower_eq_map {t : Text} (h : ∀ c ∈ t, c.toNat < 128) : U.lower t = t.map Char.toLower :=
  if_pos (List.all_eq_true.mpr fun c hc => decide_eq_true (h c hc))

end UnicodeTables

end Python
