import CorexManager.Rust.Text

/-!
# Regular expressions

What the modules written in Rust use of the `regex` crate.  An engine compiles patterns;
of a compiled pattern only its operations are known.
-/

namespace Rust

open Data

/-- A compiled pattern. -/
structure Regex where
  isMatch : Text → Bool
  /-- The texts of the matches `find_iter` goes through. -/
  find : Text → List Text
  /-- The text with every match replaced. -/
  replaceAll : (Text → Text) → Text → Text

/-- The number of matches `find_iter` goes through. -/
def Regex.count (r : Regex) (t : Text) : Nat := (r.find t).length

/-- `RegexBuilder`: a pattern is compiled case-insensitively or not, with `^` and `$` at
every line or not, or it is refused. -/
structure RegexEngine where
  build : (caseInsensitive multiLine : Bool) → Text → Option Regex

namespace RegexEngine

/-- `Regex::new`. -/
def new (E : RegexEngine) (pattern : Text) : Option Regex := E.build false false pattern

/-- The occurrences of a word, from left to right and without overlaps; `skip` characters are
still those of the last one. -/
def occurrences (word : Text) : (skip : Nat) → Text → List Text
  | _, [] => []
  | skip + 1, _ :: t => occurrences word skip t
  | 0, c :: t =>
      if word <+: c :: t then word :: occurrences word (word.length - 1) t
      else occurrences word 0 t

/-- A text with these occurrences replaced. -/
def replaceOccurrences (word : Text) (f : Text → Text) : (skip : Nat) → Text → Text
  | _, [] => []
  | skip + 1, _ :: t => replaceOccurrences word f skip t
  | 0, c :: t =>
      if word <+: c :: t then f word ++ replaceOccurrences word f (word.length - 1) t
      else c :: replaceOccurrences word f 0 t

/-- An engine whose patterns are words of letters and digits. -/
def words : RegexEngine where
  build _ _ pattern :=
    if pattern ≠ [] ∧ pattern.all Char.isAlphanum then
      some ⟨fun t => decide (pattern <:+: t), occurrences pattern 0,
        fun f => replaceOccurrences pattern f 0⟩
    else none

end RegexEngine

end Rust
