import CorexManager.Python.Text

/-!
# Values of Python

The values an expression is evaluated over: the built-in ones, and objects of any
other type, of which only the identity is known.  What the built-in functions do
to such objects, and what else the interpreter decides, is the `Runtime`.
Everything that may raise gives `none` when it does.
-/

namespace Python

open Data

/-- A value. -/
inductive Value where
  | none
  | bool (b : Bool)
  | int (n : Int)
  | str (s : Text)
  | dict (entries : List (Text × Value))
  /-- An object of another type. -/
  | obj (id : Nat)

/-- What `int` does with an object: a value, an exception that callers of `int`
expect (`ValueError`, `TypeError`), or another one. -/
inductive IntResult where
  | value (n : Int)
  | refused
  | raised
  deriving DecidableEq, Repr

/-- What the interpreter decides. -/
structure Runtime where
  unicode : UnicodeTables
  /-- `bool` of an object. -/
  truthy : Nat → Option Bool
  /-- `str` of an object. -/
  strOf : Nat → Option Text
  /-- `int` of an object. -/
  intOf : Nat → IntResult
  /-- `==` between an object and a string or an integer. -/
  eqStr : Nat → Text → Option Bool
  eqInt : Nat → Int → Option Bool
  /-- `str` of a dictionary. -/
  strOfDict : List (Text × Value) → Option Text
  /-- An object called with two strings and a value. -/
  call : Nat → Text → Text → Value → Option Value
  /-- `re.search`: what a pattern finds a match in, if it compiles. -/
  search : Text → Option (Text → Bool)

/-- `dict.get` and `in`: keys are unique, so the first entry is the one. -/
def lookup (entries : List (Text × Value)) (key : Text) : Option Value :=
  (entries.find? fun e => e.1 == key).map Prod.snd

/-- The largest number of decimal digits `int` and `str` convert. -/
def maxStrDigits : Nat := 4300

namespace Runtime

variable (R : Runtime)

/-- `bool`. -/
def boolOf : Value → Option Bool
  | .none => some false
  | .bool b => some b
  | .int n => some (n != 0)
  | .str s => some !s.isEmpty
  | .dict entries => some !entries.isEmpty
  | .obj id => R.truthy id

/-- `str`. -/
def str : Value → Option Text
  | .none => some "None".toList
  | .bool b => some (if b then "True".toList else "False".toList)
  | .int n => if n.natAbs < 10 ^ maxStrDigits then some (intText n) else none
  | .str s => some s
  | .dict entries => R.strOfDict entries
  | .obj id => R.strOf id

/-- The digits of an `int` literal, in groups separated by single underscores. -/
def natOfText (t : Text) : Option Nat :=
  let groups := t.splitOn '_'
  if groups.all fun g => !g.isEmpty then R.unicode.natOf groups.flatten else none

/-- `int` of a string: blanks around, a sign, digits. -/
def intOfText (t : Text) : Option Int :=
  match R.unicode.strip t with
  | '-' :: ds => (R.natOfText ds).map fun n => -(n : Int)
  | '+' :: ds => (R.natOfText ds).map Int.ofNat
  | ds => (R.natOfText ds).map Int.ofNat

/-- `int`. -/
def int : Value → IntResult
  | .none => .refused
  | .bool b => .value (if b then 1 else 0)
  | .int n => .value n
  | .str s =>
      match R.intOfText s with
      | some n => .value n
      | none => .refused
  | .dict _ => .refused
  | .obj id => R.intOf id

/-- `value == s`. -/
def eqText (s : Text) : Value → Option Bool
  | .str t => some (t == s)
  | .obj id => R.eqStr id s
  | _ => some false

/-- `value == n`; booleans are integers. -/
def eqInteger (n : Int) : Value → Option Bool
  | .bool b => some ((if b then 1 else 0) == n)
  | .int m => some (m == n)
  | .obj id => R.eqInt id n
  | _ => some false

/-- A runtime without objects of other types, whose patterns are words. -/
def builtin : Runtime where
  unicode := .ascii
  truthy _ := none
  strOf _ := none
  intOf _ := .raised
  eqStr _ _ := none
  eqInt _ _ := none
  strOfDict _ := none
  call _ _ _ _ := none
  search p := if p.all Char.isAlphanum then some fun s => decide (p <:+: s) else none

end Runtime

end Python
