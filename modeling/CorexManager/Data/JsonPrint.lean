import CorexManager.Data.Json
import CorexManager.Logic.Priority
import Mathlib.Data.List.Lex

/-!
# The text of JSON values

JSON is printed on one line or with an indent, in the style of a printer: what stands between
the parts, how a character of a string is spelt, and how a floating-point number is.  A value
can be put in a canonical order first, by the keys of its objects.
-/

namespace Data.Json

open Priority (sortByKey)

/-- The style of a printer. -/
structure Style where
  /-- Between the items of an array, or the fields of an object. -/
  comma : Text
  /-- Between a key and its value. -/
  colon : Text
  escape : Char → Text
  float : UInt64 → Text

/-- A hexadecimal number of four digits. -/
def hex4 (n : Nat) : Text :=
  let digits := Nat.toDigits 16 n
  List.replicate (4 - digits.length) '0' ++ digits

/-- The escape of a code unit. -/
def unicodeEscape (n : Nat) : Text := '\\' :: 'u' :: hex4 n

/-- The short escapes. -/
def shortEscape (c : Char) : Option Text :=
  if c = '"' then some ['\\', '"']
  else if c = '\\' then some ['\\', '\\']
  else if c = '\n' then some ['\\', 'n']
  else if c = '\r' then some ['\\', 'r']
  else if c = '\t' then some ['\\', 't']
  else if c.toNat = 8 then some ['\\', 'b']
  else if c.toNat = 12 then some ['\\', 'f']
  else none

/-- A character outside ASCII stays as it is. -/
def escapeControl (c : Char) : Text :=
  (shortEscape c).getD (if c.toNat < 32 then unicodeEscape c.toNat else [c])

/-- Only printable ASCII characters stay; one outside the basic plane is spelt as two code
units. -/
def escapeAscii (c : Char) : Text :=
  (shortEscape c).getD
    (if 32 ≤ c.toNat ∧ c.toNat < 127 then [c]
    else if c.toNat < 0x10000 then unicodeEscape c.toNat
    else
      unicodeEscape (0xd800 + (c.toNat - 0x10000) / 0x400) ++
        unicodeEscape (0xdc00 + (c.toNat - 0x10000) % 0x400))

/-- A string in quotes. -/
def quote (st : Style) (t : Text) : Text := '"' :: (t.flatMap st.escape ++ ['"'])

mutual

/-- The text of a value. -/
def print (st : Style) : Json → Text
  | null => "null".toList
  | bool b => if b then "true".toList else "false".toList
  | num (.int n) => intText n
  | num (.float bits) => st.float bits
  | str t => quote st t
  | arr items => '[' :: (printItems st items ++ [']'])
  | obj fields => '{' :: (printFields st fields ++ ['}'])

/-- The text of the items of an array. -/
def printItems (st : Style) : List Json → Text
  | [] => []
  | j :: js => print st j ++ match js with
    | [] => []
    | _ :: _ => st.comma ++ printItems st js

/-- The text of the fields of an object. -/
def printFields (st : Style) : List (Text × Json) → Text
  | [] => []
  | (k, j) :: fs => quote st k ++ (st.colon ++ (print st j ++ match fs with
    | [] => []
    | _ :: _ => st.comma ++ printFields st fs))

end

/-- A new line, indented by two blanks a level. -/
def newline (level : Nat) : Text := '\n' :: List.replicate (2 * level) ' '

mutual

/-- The text of a value over several lines. -/
def indented (st : Style) (level : Nat) : Json → Text
  | arr (j :: js) =>
      '[' :: (newline (level + 1) ++ (indentedItems st (level + 1) (j :: js) ++
        (newline level ++ [']'])))
  | obj (f :: fs) =>
      '{' :: (newline (level + 1) ++ (indentedFields st (level + 1) (f :: fs) ++
        (newline level ++ ['}'])))
  | j => print st j

/-- The items of an array, a line each or more. -/
def indentedItems (st : Style) (level : Nat) : List Json → Text
  | [] => []
  | j :: js => indented st level j ++ match js with
    | [] => []
    | _ :: _ => st.comma ++ (newline level ++ indentedItems st level js)

/-- The fields of an object, a line each or more. -/
def indentedFields (st : Style) (level : Nat) : List (Text × Json) → Text
  | [] => []
  | (k, j) :: fs => quote st k ++ (st.colon ++ (indented st level j ++ match fs with
    | [] => []
    | _ :: _ => st.comma ++ (newline level ++ indentedFields st level fs)))

end

mutual

/-- A value with the fields of every object in the order of their keys. -/
def sortKeys : Json → Json
  | arr items => arr (sortItems items)
  | obj fields => obj (sortByKey Prod.fst (sortFields fields))
  | j => j

/-- The items of an array. -/
def sortItems : List Json → List Json
  | [] => []
  | j :: js => sortKeys j :: sortItems js

/-- The values of the fields of an object. -/
def sortFields : List (Text × Json) → List (Text × Json)
  | [] => []
  | (k, j) :: fs => (k, sortKeys j) :: sortFields fs

end

theorem sortFields_eq (fields : List (Text × Json)) :
    sortFields fields = fields.map fun f => (f.1, f.2.sortKeys) := by
  induction fields with
  | nil => rfl
  | cons f fs ih => rw [List.map_cons, ← ih, sortFields]

end Data.Json
