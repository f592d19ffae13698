import CorexManager.Data.Text

/-!
# Strings of Rust

The functions of `str` the modules written in Rust read texts with.  White space is
the Unicode property, and the case mapping is that of ASCII.
-/

namespace Rust

open Data

/-- `char::is_whitespace`. -/
def isWhitespace (c : Char) : Bool :=
  let n := c.toNat
  (9 ≤ n && n ≤ 13) || n == 0x20 || n == 0x85 || n == 0xa0 || n == 0x1680 ||
    (0x2000 ≤ n && n ≤ 0x200a) || n == 0x2028 || n == 0x2029 || n == 0x202f || n == 0x205f ||
    n == 0x3000

/-- `str::trim`. -/
def trim (t : Text) : Text :=
  ((t.dropWhile isWhitespace).reverse.dropWhile isWhitespace).reverse

/-- `str::to_ascii_lowercase`. -/
def toAsciiLowercase (t : Text) : Text := t.map Char.toLower

/-- `str::eq_ignore_ascii_case`. -/
def eqIgnoreAsciiCase (a b : Text) : Bool := toAsciiLowercase a == toAsciiLowercase b

/-- `str::split` at a character. -/
def split (c : Char) (t : Text) : List Text := t.splitOn c

/-- `str::split_once` at a character. -/
def splitOnce (c : Char) (t : Text) : Option (Text × Text) :=
  if c ∈ t then some (t.takeWhile (· != c), (t.dropWhile (· != c)).drop 1) else none

/-- What is before the character has none in it. -/
theorem splitOnce_append {c : Char} {a : Text} (b : Text) (ha : c ∉ a) :
    splitOnce c (a ++ c :: b) = some (a, b) := by
  have hall : ∀ x ∈ a, (x != c) = true := fun x hx => bne_iff_ne.mpr fun h => ha (h ▸ hx)
  rw [splitOnce, if_pos (by simp), List.takeWhile_append_of_pos hall,
    List.dropWhile_append_of_pos hall]
  simp

/-- A line without the carriage return that ends it. -/
def chopReturn (line : Text) : Text :=
  if line.getLast? = some '\r' then line.dropLast else line

/-- `str::lines`: the last line may lack its line feed. -/
def lines (t : Text) : List Text :=
  let parts := split '\n' t
  ((if parts.getLast? = some [] then parts.dropLast else parts)).map chopReturn

/-! ### Texts of lines -/

/-- Every entry on a line of its own. -/
def unlines (entries : List Text) : Text := entries.flatMap fun v => v ++ ['\n']

/-- An entry that a line can hold. -/
def IsLine (v : Text) : Prop := '\n' ∉ v ∧ v.getLast? ≠ some '\r'

theorem split_unlines (entries : List Text) :
    split '\n' (unlines entries) = entries.flatMap (split '\n') ++ [[]] := by
  induction entries with
  | nil => exact List.splitOn_nil '\n'
  | cons v entries ih =>
      have hcons : unlines (v :: entries) = v ++ '\n' :: unlines entries := by
        simp [unlines]
      rw [hcons, split, List.splitOn_append_cons_self]
      show split '\n' v ++ split '\n' (unlines entries) = _
      rw [ih, List.flatMap_cons, List.append_assoc]

theorem lines_unlines (entries : List Text) :
    lines (unlines entries) = (entries.flatMap (split '\n')).map chopReturn := by
  unfold lines
  rw [split_unlines]
  dsimp only
  rw [if_pos (List.getLast?_concat ..), List.dropLast_concat]

theorem split_length_pos (c : Char) (v : Text) : 0 < (split c v).length :=
  List.length_pos_of_ne_nil (List.splitOn_ne_nil c v)

/-- A text that is split into one part is that part. -/
theorem split_singleton {c : Char} {v : Text} (h : (split c v).length = 1) :
    c ∉ v ∧ split c v = [v] := by
  have hnot : c ∉ v := by
    intro hc
    obtain ⟨a, b, rfl⟩ := List.append_of_mem hc
    rw [split, List.splitOn_append_cons_self, List.length_append] at h
    have ha := split_length_pos c a
    have hb := split_length_pos c b
    unfold split at ha hb
    omega
  exact ⟨hnot, List.splitOn_eq_singleton hnot⟩

private theorem length_flatMap_split (entries : List Text) :
    entries.length ≤ (entries.flatMap (split '\n')).length := by
  induction entries with
  | nil => exact le_refl 0
  | cons v entries ih =>
      have hv := split_length_pos '\n' v
      rw [List.flatMap_cons, List.length_append, List.length_cons]
      omega

theorem chopReturn_eq_iff {v : Text} : chopReturn v = v ↔ v.getLast? ≠ some '\r' := by
  unfold chopReturn
  constructor
  · intro h hlast
    rw [if_pos hlast] at h
    have hne : v ≠ [] := by
      rintro rfl
      cases hlast
    have hlength := congrArg List.length h
    have hpos := List.length_pos_of_ne_nil hne
    rw [List.length_dropLast] at hlength
    omega
  · exact fun h => if_neg h

/-- **When the lines are the entries**: exactly when a line can hold every entry. -/
theorem lines_unlines_iff (entries : List Text) :
    lines (unlines entries) = entries ↔ ∀ v ∈ entries, IsLine v := by
  rw [lines_unlines]
  induction entries with
  | nil => simp
  | cons v entries ih =>
      rw [List.flatMap_cons, List.map_append, List.forall_mem_cons]
      constructor
      · intro h
        have hlength := congrArg List.length h
        have hpos := split_length_pos '\n' v
        have hrest := length_flatMap_split entries
        rw [List.length_append, List.length_map, List.length_map, List.length_cons] at hlength
        obtain ⟨hnot, hsplit⟩ := split_singleton (c := '\n') (v := v) (by omega)
        rw [hsplit] at h
        obtain ⟨hv, hentries⟩ := List.cons.inj h
        exact ⟨⟨hnot, chopReturn_eq_iff.mp hv⟩, ih.mp hentries⟩
      · rintro ⟨⟨hnot, hlast⟩, hentries⟩
        have hsplit : split '\n' v = [v] := List.splitOn_eq_singleton hnot
        rw [hsplit, ih.mpr hentries, List.map_singleton, chopReturn_eq_iff.mpr hlast]
        rfl

/-- `str::len`, in bytes of UTF-8. -/
def len (t : Text) : Nat := (t.map Char.utf8Size).sum

/-- A text has no more characters than bytes. -/
theorem length_le_len (t : Text) : t.length ≤ len t := by
  induction t with
  | nil => exact le_refl 0
  | cons c t ih =>
      have hpos : 1 ≤ c.utf8Size := Char.utf8Size_pos c
      rw [len, List.map_cons, List.sum_cons, List.length_cons, Nat.add_comm]
      exact Nat.add_le_add hpos ih

/-! ### Characters outside ASCII -/

/-- The Unicode tables behind `char::is_alphabetic` and `char::is_numeric`, for the
characters outside ASCII, and `str::to_lowercase` for the texts that have one. -/
structure UnicodeTables where
  alphabetic : Char → Bool
  numeric : Char → Bool
  lowercase : Text → Text

namespace UnicodeTables

/-- Tables that know no character outside ASCII. -/
def ascii : UnicodeTables := ⟨fun _ => false, fun _ => false, id⟩

/-- `char::is_alphabetic`. -/
def isAlphabetic (U : UnicodeTables) (c : Char) : Bool :=
  if c.toNat < 128 then c.isAlpha else U.alphabetic c

/-- `char::is_alphanumeric`. -/
def isAlphanumeric (U : UnicodeTables) (c : Char) : Bool :=
  if c.toNat < 128 then c.isAlphanum else U.alphabetic c || U.numeric c

/-- `str::to_lowercase`. -/
def toLowercase (U : UnicodeTables) (t : Text) : Text :=
  if t.all fun c => c.toNat < 128 then t.map Char.toLower else U.lowercase t

end UnicodeTables

/-! ### Numbers and parts of a text -/

/-- The range of `i64`. -/
def InI64 (n : Int) : Prop := -2 ^ 63 ≤ n ∧ n < 2 ^ 63

instance (n : Int) : Decidable (InI64 n) := inferInstanceAs (Decidable (_ ∧ _))

/-- A number, if it is in the range of `i64`. -/
def toI64 (n : Int) : Option Int := if InI64 n then some n else none

/-- `str::parse::<i64>`: a sign, and digits of ASCII. -/
def parseI64 : Text → Option Int
  | '-' :: ds => (readNat ds).bind fun n => toI64 (-(n : Int))
  | '+' :: ds => (readNat ds).bind fun n => toI64 n
  | ds => (readNat ds).bind fun n => toI64 n

/-- `str::rfind` of a pattern: where its last occurrence begins. -/
def rfind (pattern : Text) : Text → Option Nat
  | [] => if pattern = [] then some 0 else none
  | c :: cs =>
      match rfind pattern cs with
      | some i => some (i + 1)
      | none => if pattern.isPrefixOf (c :: cs) then some 0 else none

/-- A pattern is where it is found. -/
theorem rfind_eq_some {pattern t : Text} {i : Nat} (h : rfind pattern t = some i) :
    pattern <+: t.drop i := by
  induction t generalizing i with
  | nil =>
      rw [rfind] at h
      split at h
      · next hnil => exact hnil ▸ List.nil_prefix
      · cases h
  | cons c cs ih =>
      rw [rfind] at h
      cases hrest : rfind pattern cs with
      | some j =>
          rw [hrest] at h
          obtain rfl := Option.some.inj h
          exact ih hrest
      | none =>
          rw [hrest] at h
          dsimp only at h
          split at h
          · next hprefix =>
              obtain rfl := Option.some.inj h
              exact List.isPrefixOf_iff_prefix.mp hprefix
          · cases h
/-- `&t[from..to]`; a range that ends before it begins panics. -/
def slice (t : Text) (first last : Nat) : Option Text :=
  if first ≤ last then some ((t.take last).drop first) else none

/-- `&t[..n]` for a number of bytes; an end inside a character panics. -/
def sliceTo (n : Nat) : Text → Option Text
  | [] => if n = 0 then some [] else none
  | c :: cs =>
      if n = 0 then some []
      else if c.utf8Size ≤ n then (sliceTo (n - c.utf8Size) cs).map (c :: ·)
      else none

/-- `str::split_once` at a text of two equal characters. -/
def splitOncePair (c : Char) : Text → Option (Text × Text)
  | [] => none
  | [_] => none
  | d :: e :: t =>
      if d = c ∧ e = c then some ([], t)
      else (splitOncePair c (e :: t)).map fun r => (d :: r.1, r.2)

/-- What is split is the parts with the pair between them. -/
theorem splitOncePair_eq_some {c : Char} {t a b : Text} (h : splitOncePair c t = some (a, b)) :
    t = a ++ c :: c :: b := by
  fun_induction splitOncePair c t generalizing a with
  | case1 => cases h
  | case2 => cases h
  | case3 d e t hpair =>
      obtain ⟨rfl, rfl⟩ := Prod.mk.inj (Option.some.inj h)
      rw [List.nil_append, hpair.1, hpair.2]
  | case4 d e t hpair ih =>
      obtain ⟨⟨a', b'⟩, hrest, hparts⟩ := Option.map_eq_some_iff.mp h
      obtain ⟨rfl, rfl⟩ := Prod.mk.inj hparts
      rw [ih hrest]
      rfl

/-- A pair is found where it is, if there is none before: a text that ends in the character
would have it one place earlier. -/
theorem splitOncePair_append {c : Char} {a : Text} (b : Text)
    (ha : splitOncePair c (a ++ [c]) = none) : splitOncePair c (a ++ c :: c :: b) = some (a, b) := by
  induction a with
  | nil => simp [splitOncePair]
  | cons d a ih =>
      cases a with
      | nil =>
          have hd : d ≠ c := by
            rintro rfl
            simp [splitOncePair] at ha
          simp [splitOncePair, hd]
      | cons e a =>
          rw [List.cons_append, List.cons_append, splitOncePair] at ha ⊢
          split at ha
          · cases ha
          · next hpair => rw [if_neg hpair, ← List.cons_append, ih (Option.map_eq_none_iff.mp ha)]; rfl

/-- A text that is not split has no pair. -/
theorem splitOncePair_eq_none_iff {c : Char} {t : Text} :
    splitOncePair c t = none ↔ ¬ [c, c] <:+: t := by
  fun_induction splitOncePair c t with
  | case1 => simp
  | case2 d => exact iff_of_true rfl fun h => by simpa using h.length_le
  | case3 d e t hpair =>
      obtain ⟨rfl, rfl⟩ := hpair
      exact iff_of_false nofun fun h => h ⟨[], t, rfl⟩
  | case4 d e t hpair ih =>
      have hprefix : ¬ [c, c] <+: d :: e :: t := by
        intro h
        obtain ⟨hd, h⟩ := List.cons_prefix_cons.mp h
        exact hpair ⟨hd.symm, (List.cons_prefix_cons.mp h).1.symm⟩
      have hinfix : [c, c] <:+: d :: e :: t ↔ [c, c] <:+: e :: t :=
        List.infix_cons_iff.trans (or_iff_right hprefix)
      rw [Option.map_eq_none_iff, ih, hinfix]

/-- There is no pair before the one at which a text is split, not even one that overlaps it. -/
theorem splitOncePair_first {c : Char} {t a b : Text} (h : splitOncePair c t = some (a, b)) :
    splitOncePair c (a ++ [c]) = none := by
  fun_induction splitOncePair c t generalizing a with
  | case1 => cases h
  | case2 => cases h
  | case3 d e t hpair =>
      cases h
      rfl
  | case4 d e t hpair ih =>
      obtain ⟨⟨a', b'⟩, hrest, hparts⟩ := Option.map_eq_some_iff.mp h
      obtain ⟨rfl, rfl⟩ := Prod.mk.inj hparts
      have hfirst := ih hrest
      have hparts := splitOncePair_eq_some hrest
      -- The character after the first is that of the text.
      obtain ⟨u, hu⟩ : ∃ u, a' ++ [c] = e :: u := by
        cases a' with
        | nil => exact ⟨[], by rw [List.nil_append, (List.cons.inj hparts).1]⟩
        | cons x a' => exact ⟨a' ++ [c], by rw [List.cons_append, (List.cons.inj hparts).1]⟩
      show splitOncePair c (d :: (a' ++ [c])) = none
      rw [hu] at hfirst ⊢
      rw [splitOncePair, if_neg hpair, hfirst]
      rfl

/-- `str::contains` of a text. -/
def contains (t part : Text) : Bool := decide (part <:+: t)

end Rust
