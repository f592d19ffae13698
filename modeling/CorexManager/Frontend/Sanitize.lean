import CorexManager.HAProxy.Words
import CorexManager.Python.Text

/-!
# The sanitizers of the generator

`_safe_token` and its siblings: what they drop, and what the characters they leave
mean to HAProxy.  None of them drops a quote, a blank or a brace.
-/

namespace CorexManager.Frontend

open Data
open Python (UnicodeTables)

/-- The characters `_TOKEN_RE` drops. -/
def tokenDrops (c : Char) : Bool :=
  c == '\r' || c == '\n' || c == ';' || c == '#' || c == '|' || c == '&' || c == '`' ||
    c == '$' || c == '\\'

/-- The characters `_REGEX_SANITIZE_RE` drops. -/
def regexDrops (c : Char) : Bool := c == '\r' || c == '\n' || c == ';'

/-- `_safe_token`. -/
def safeToken (U : UnicodeTables) (value : Text) : Text :=
  U.strip (value.filter fun c => !tokenDrops c)

/-- `_safe_regex`. -/
def safeRegex (U : UnicodeTables) (value : Text) : Text :=
  U.strip (value.filter fun c => !regexDrops c)

/-- The characters of a name `_NAME_RE` keeps. -/
def nameChar (c : Char) : Bool :=
  c.isAlphanum || c == '_' || c == '.' || c == ':' || c == '-'

/-- Drop a character at both ends. -/
def stripChar (d : Char) (t : Text) : Text :=
  ((t.dropWhile (· == d)).reverse.dropWhile (· == d)).reverse

/-- `_safe_name`. -/
def safeName (name : Text) : Text :=
  let kept := stripChar '_' (name.map fun c => if nameChar c then c else '_')
  if kept = [] then "unnamed".toList else kept

theorem mem_of_mem_strip {U : UnicodeTables} {t : Text} {c : Char} (h : c ∈ U.strip t) :
    c ∈ t := by
  unfold UnicodeTables.strip at h
  have hrev := (List.dropWhile_sublist _).subset (List.mem_reverse.mp h)
  exact (List.dropWhile_sublist _).subset (List.mem_reverse.mp hrev)

theorem safeToken_keeps {U : UnicodeTables} {value : Text} {c : Char}
    (h : c ∈ safeToken U value) : c ∈ value ∧ tokenDrops c = false := by
  have hmem := mem_of_mem_strip h
  simpa using List.mem_filter.mp hmem

/-- `_safe_name` leaves the characters of a name. -/
theorem safeName_nameChar (name : Text) : ∀ c ∈ safeName name, nameChar c = true := by
  intro c hc
  simp only [safeName] at hc
  split at hc
  · revert c hc
    decide
  · have hrev := (List.dropWhile_sublist _).subset (List.mem_reverse.mp hc)
    have hmem := (List.dropWhile_sublist _).subset (List.mem_reverse.mp hrev)
    obtain ⟨d, -, rfl⟩ := List.mem_map.mp hmem
    split
    · assumption
    · rfl

/-- What `_safe_token` leaves, without a double quote, is one word between double
quotes. -/
theorem safeToken_quoted {U : UnicodeTables} {value : Text} (h : '"' ∉ safeToken U value) :
    HAProxy.Piece ('"' :: (safeToken U value ++ ['"'])) (safeToken U value) := by
  have hkeeps : ∀ c ∈ safeToken U value, tokenDrops c = false := fun c hc =>
    (safeToken_keeps hc).2
  have hescape : HAProxy.weakEscape (safeToken U value) = safeToken U value := by
    unfold HAProxy.weakEscape
    refine (List.flatMap_congr fun c hc => ?_).trans (List.flatMap_singleton' _)
    refine if_neg fun hor => ?_
    rcases hor with rfl | rfl
    · exact absurd (hkeeps _ hc) (by decide)
    · exact h hc
  have hquotable : ∀ c ∈ safeToken U value, HAProxy.quotable c = true := by
    intro c hc
    have hdrop := hkeeps c hc
    simp only [tokenDrops, Bool.or_eq_false_iff, beq_eq_false_iff_ne, ne_eq] at hdrop
    simp [HAProxy.quotable, hdrop]
  have hpiece := HAProxy.piece_quoted hquotable
  rwa [hescape] at hpiece

end CorexManager.Frontend
