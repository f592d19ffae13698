import CorexManager.Rust.Text

/-!
# Replacement templates

What the `regex` crate puts in the place of a match: in a template `$name` and `${name}` stand
for a group, given by its number or its name, `$$` for a dollar sign, and everything else for
itself.
-/

namespace Rust

open Data

/-- `str::parse::<usize>`: digits, with an optional sign. -/
def parseUsize : Text → Option Nat
  | '+' :: ds => (readNat ds).filter (· < 2 ^ 64)
  | ds => (readNat ds).filter (· < 2 ^ 64)

/-- The groups of a match by their numbers, and the numbers of the names. -/
structure Captures where
  /-- Group 0 is the match; a group may have taken no part in it. -/
  groups : List (Option Text)
  names : List (Text × Nat)
  /-- Groups are numbered by `usize`. -/
  few : groups.length ≤ 2 ^ 64
  named : ∀ n ∈ names, ∃ ch t, n.1 = ch :: t ∧ ch.isDigit = false

/-- A character of a name without braces. -/
def isCapLetter (ch : Char) : Bool := ch.isAlphanum || ch == '_'

/-- `find_cap_ref`: the name that follows a dollar sign, and how many characters it takes. -/
def capRef : Text → Option (Text × Nat)
  | '{' :: t =>
      if '}' ∈ t then
        some (t.takeWhile (· != '}'), (t.takeWhile (· != '}')).length + 2)
      else none
  | t =>
      if t.takeWhile isCapLetter = [] then none
      else some (t.takeWhile isCapLetter, (t.takeWhile isCapLetter).length)

namespace Captures

variable (c : Captures)

/-- The text of a group; a group that is not there has none. -/
def group (i : Nat) : Text := (c.groups[i]?.join).getD []

/-- What a name stands for. -/
def reference (name : Text) : Text :=
  match parseUsize name with
  | some i => c.group i
  | none => (c.names.find? fun n => n.1 == name).elim [] fun n => c.group n.2

/-- What a dollar sign stands for, and how many of the characters after it belong to it. -/
def dollar (t : Text) : Text × Nat :=
  if t.head? = some '$' then (['$'], 1)
  else (capRef t).elim (['$'], 0) fun r => (c.reference r.1, r.2)

/-- The loop of `expand` over a template, of which some characters still belong to the last
dollar sign. -/
def expandFrom : (skip : Nat) → Text → Text
  | _, [] => []
  | skip + 1, _ :: t => expandFrom skip t
  | 0, ch :: t =>
      if ch = '$' then (c.dollar t).1 ++ expandFrom (c.dollar t).2 t
      else ch :: expandFrom 0 t

/-- `Captures::expand`. -/
def expand (template : Text) : Text := c.expandFrom 0 template

variable {c} {t : Text} {ch : Char}

theorem expandFrom_drop (n : Nat) (t : Text) : c.expandFrom n t = c.expand (t.drop n) := by
  induction t generalizing n with
  | nil =>
      rw [List.drop_nil]
      cases n <;> rfl
  | cons ch t ih =>
      cases n with
      | zero => rfl
      | succ n => exact ih n

@[simp] theorem expand_nil : c.expand [] = [] := rfl

theorem expand_cons (h : ch ≠ '$') : c.expand (ch :: t) = ch :: c.expand t := by
  rw [expand, expandFrom, if_neg h]
  rfl

theorem expand_dollar :
    c.expand ('$' :: t) = (c.dollar t).1 ++ c.expand (t.drop (c.dollar t).2) := by
  rw [expand, expandFrom, if_pos rfl, expandFrom_drop]

/-- A text without dollar signs stands for itself. -/
theorem expand_append (h : '$' ∉ t) (u : Text) : c.expand (t ++ u) = t ++ c.expand u := by
  induction t with
  | nil => rfl
  | cons ch t ih =>
      obtain ⟨hch, ht⟩ := not_or.mp (mt List.mem_cons.mpr h)
      rw [List.cons_append, expand_cons (Ne.symm hch), ih ht]
      rfl

/-- A doubled dollar sign. -/
theorem expand_doubled : c.expand ('$' :: '$' :: t) = '$' :: c.expand t := expand_dollar

/-- A dollar sign that begins no name. -/
theorem expand_copied (hhead : t.head? ≠ some '$') (h : capRef t = none) :
    c.expand ('$' :: t) = '$' :: c.expand t := by
  rw [expand_dollar, dollar, if_neg hhead, h]
  rfl

/-- A dollar sign that begins a name. -/
theorem expand_name {name : Text} {n : Nat} (hhead : t.head? ≠ some '$')
    (h : capRef t = some (name, n)) :
    c.expand ('$' :: t) = c.reference name ++ c.expand (t.drop n) := by
  rw [expand_dollar, dollar, if_neg hhead, h]
  rfl

end Captures

variable {t : Text}

/-- A name without braces. -/
theorem capRef_letters (h : t.takeWhile isCapLetter ≠ []) :
    capRef t = some (t.takeWhile isCapLetter, (t.takeWhile isCapLetter).length) := by
  unfold capRef
  split
  · exact absurd (List.takeWhile_cons_of_neg (by decide)) h
  · exact if_neg h

/-- Neither a letter nor a brace begins a name. -/
theorem capRef_eq_none (h : t.takeWhile isCapLetter = []) (hbrace : t.head? ≠ some '{') :
    capRef t = none := by
  unfold capRef
  split
  · exact absurd rfl hbrace
  · exact if_pos h

/-- A brace that is not closed begins no name. -/
theorem capRef_open (h : '}' ∉ t) : capRef ('{' :: t) = none := if_neg h

/-- A name in braces. -/
theorem capRef_braces {name : Text} (h : '}' ∉ name) (u : Text) :
    capRef ('{' :: (name ++ '}' :: u)) = some (name, name.length + 2) := by
  have hname : ∀ x ∈ name, (x != '}') = true := fun x hx => bne_iff_ne.mpr fun hbrace => h (hbrace ▸ hx)
  have htake : (name ++ '}' :: u).takeWhile (· != '}') = name :=
    (takeWhile_of_boundary ('}' :: u) hname (by simp)).1
  rw [capRef, if_pos (by simp), htake]

theorem Captures.expand_braces {c : Captures} {name : Text} (h : '}' ∉ name) (u : Text) :
    c.expand ('$' :: '{' :: (name ++ '}' :: u)) = c.reference name ++ c.expand u := by
  have hsplit : '{' :: (name ++ '}' :: u) = ('{' :: (name ++ ['}'])) ++ u := by simp
  have hlength : ('{' :: (name ++ ['}'])).length = name.length + 2 := by simp
  rw [expand_name (by simp) (capRef_braces h u), hsplit, ← hlength, List.drop_left]

/-- A number stands for its group, however it is written. -/
theorem Captures.reference_number {c : Captures} {ds : Text} (hne : ds ≠ []) (hds : ds.all Char.isDigit) :
    c.reference ds = c.group ((readNat ds).getD 0) := by
  obtain ⟨d, rest, rfl⟩ := List.exists_cons_of_ne_nil hne
  have hd : d.isDigit = true := List.all_eq_true.mp hds d List.mem_cons_self
  have hparse : parseUsize (d :: rest) = (readNat (d :: rest)).filter (· < 2 ^ 64) := by
    unfold parseUsize
    split
    · next heq =>
        obtain ⟨rfl, -⟩ := List.cons.inj heq
        cases hd
    · rfl
  obtain ⟨n, hn⟩ : ∃ n, readNat (d :: rest) = some n := ⟨_, if_pos ⟨hne, hds⟩⟩
  rw [reference, hparse, hn, Option.getD_some, Option.filter_some]
  by_cases hlt : n < 2 ^ 64
  · rw [if_pos (decide_eq_true hlt)]
  · rw [if_neg (by rw [decide_eq_false hlt]; exact Bool.false_ne_true)]
    -- Neither a name nor a group has such a number.
    have hnone : (c.names.find? fun e => e.1 == d :: rest) = none := by
      refine List.find?_eq_none.mpr fun e he heq => ?_
      obtain ⟨ch, t, hname, hch⟩ := c.named e he
      rw [hname, beq_iff_eq] at heq
      obtain ⟨rfl, -⟩ := List.cons.inj heq
      exact Bool.false_ne_true (hch.symm.trans hd)
    have hgroup : c.groups[n]? = none :=
      List.getElem?_eq_none (Nat.le_trans c.few (Nat.le_of_not_lt hlt))
    show (c.names.find? fun e => e.1 == d :: rest).elim [] _ = (c.groups[n]?.join).getD []
    rw [hnone, hgroup]
    rfl

end Rust
