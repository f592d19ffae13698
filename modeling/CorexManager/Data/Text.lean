import Mathlib

/-!
# Texts

Texts are lists of characters, for the configuration as for the language that
writes it.  This file has their type and the decimal spelling of integers.
-/

namespace Data

/-- A text. -/
abbrev Text := List Char

/-- A property of the characters of a text is decided on the text; enumerating all
characters, as a general instance for `Char` would, is not feasible. -/
instance (priority := high) Text.decidableForallMem {P : Char → Prop} [DecidablePred P]
    (t : List Char) : Decidable (∀ c ∈ t, P c) :=
  List.decidableBAll P t

instance (priority := high) Text.lawfulBEq : LawfulBEq (List Char) := inferInstance

/-- The decimal spelling of a natural number. -/
def natText (n : Nat) : Text := Nat.toDigits 10 n

/-- The decimal spelling of an integer. -/
def intText : Int → Text
  | .ofNat n => natText n
  | .negSucc n => '-' :: natText (n + 1)

/-- Read a decimal natural number. -/
def readNat (t : Text) : Option Nat :=
  if t ≠ [] ∧ t.all Char.isDigit then some (Nat.ofDigitChars 10 t 0) else none

/-- Read a decimal integer. -/
def readInt : Text → Option Int
  | '-' :: t => (readNat t).map fun n => -(n : Int)
  | t => (readNat t).map Int.ofNat

theorem natText_isDigit (n : Nat) : ∀ c ∈ natText n, c.isDigit = true := fun _ hc =>
  Nat.isDigit_of_mem_toDigits (by decide) (by decide) hc

theorem natText_ne_nil (n : Nat) : natText n ≠ [] := Nat.toDigits_ne_nil

@[simp] theorem readNat_natText (n : Nat) : readNat (natText n) = some n := by
  have hall : (natText n).all Char.isDigit = true :=
    List.all_eq_true.mpr (natText_isDigit n)
  rw [readNat, if_pos ⟨natText_ne_nil n, hall⟩]
  exact congrArg some Nat.ofDigitChars_ten_toDigits

/-- **Integers survive their spelling.** -/
@[simp] theorem readInt_intText (n : Int) : readInt (intText n) = some n := by
  cases n with
  | ofNat n =>
      have hne := natText_ne_nil n
      have hdigit := natText_isDigit n
      rw [intText]
      cases htext : natText n with
      | nil => exact absurd htext hne
      | cons c t =>
          have hc : c ≠ '-' := by
            rintro rfl
            have := hdigit '-' (by simp [htext])
            simp at this
          have hread : readInt (c :: t) = (readNat (c :: t)).map Int.ofNat := by
            unfold readInt
            split
            · next heq => exact absurd (List.cons.inj heq).1 hc
            · rfl
          rw [hread, ← htext, readNat_natText]
          rfl
  | negSucc n => simp [intText, readInt, Int.negSucc_eq]

/-! ### Literals -/

/-- A literal is its characters.  The kernel compares the two without decoding the
literal, which evaluating `toList` would make it do. -/
theorem toList_of_eq {s : String} {l : List Char} (h : s = String.ofList l) : s.toList = l := by
  rw [h, String.toList_ofList]

/-- The literals of a list of texts, spelt. -/
inductive SpeltList : List Text → List Text → Prop
  | nil : SpeltList [] []
  | cons {l : Text} {rest texts : List Text} (h : SpeltList rest texts) :
      SpeltList ((String.ofList l).toList :: rest) (l :: texts)

theorem SpeltList.eq {a b : List Text} (h : SpeltList a b) : a = b := by
  induction h with
  | nil => rfl
  | cons h ih => rw [ih, String.toList_ofList]

/-- The literal keys of a table, spelt. -/
inductive SpeltKeys {α : Type*} : List (String × α) → List (Text × α) → Prop
  | nil : SpeltKeys [] []
  | cons {l : Text} {a : α} {rest : List (String × α)} {table : List (Text × α)}
      (h : SpeltKeys rest table) : SpeltKeys ((String.ofList l, a) :: rest) ((l, a) :: table)

theorem SpeltKeys.find? {α : Type*} {a : List (String × α)} {b : List (Text × α)}
    (h : SpeltKeys a b) (key : Text) :
    (a.find? fun e => e.1.toList == key).map Prod.snd
      = (b.find? fun e => e.1 == key).map Prod.snd := by
  induction h with
  | nil => rfl
  | cons h ih =>
      rw [List.find?_cons, List.find?_cons, String.toList_ofList]
      cases hkey : (_ == key : Bool)
      · exact ih
      · rfl

/-! ### Characters -/

/-- A fact about ASCII characters can be checked on all of them. -/
theorem ascii_forall {P : Char → Prop} (h : ∀ n < 128, P (Char.ofNat n)) (c : Char)
    (hc : c.toNat < 128) : P c := by
  have hP := h c.toNat hc
  rwa [Char.ofNat_toNat] at hP

theorem isAlphanum_ascii {c : Char} (h : c.isAlphanum = true) : c.toNat < 128 := by
  simp only [Char.isAlphanum, Char.isAlpha, Char.isUpper, Char.isLower, Char.isDigit,
    Bool.or_eq_true, Bool.and_eq_true, decide_eq_true_eq, UInt32.le_iff_toNat_le,
    ge_iff_le] at h
  have hc : c.toNat = c.val.toNat := rfl
  have hZ : 'Z'.val.toNat = 90 := rfl
  have hz : 'z'.val.toNat = 122 := rfl
  have h9 : '9'.val.toNat = 57 := rfl
  omega

/-- A class of characters that does not go on ends where the first text does. -/
theorem takeWhile_append_boundary {α : Type*} {p : α → Bool} {ys : List α}
    (hys : ∀ y ∈ ys.head?, p y = false) (xs : List α) :
    (xs ++ ys).takeWhile p = xs.takeWhile p ∧
      (xs ++ ys).dropWhile p = xs.dropWhile p ++ ys := by
  induction xs with
  | nil =>
      cases ys with
      | nil => simp
      | cons y ys => simp [hys y rfl]
  | cons x xs ih =>
      cases hx : p x with
      | true => simp [hx, ih]
      | false => simp [hx]

/-- It takes a whole text of its characters. -/
theorem takeWhile_of_boundary {α : Type*} {p : α → Bool} {xs : List α} (ys : List α)
    (hxs : ∀ x ∈ xs, p x = true) (hys : ∀ y ∈ ys.head?, p y = false) :
    (xs ++ ys).takeWhile p = xs ∧ (xs ++ ys).dropWhile p = ys := by
  obtain ⟨htake, hdrop⟩ := takeWhile_append_boundary hys xs
  rw [htake, hdrop, List.takeWhile_eq_self_iff.mpr hxs, List.dropWhile_eq_nil_iff.mpr hxs]
  exact ⟨rfl, rfl⟩

/-- The parts between the occurrences of a character are one more than these. -/
theorem length_splitOn (c : Char) (t : Text) : (t.splitOn c).length = t.count c + 1 := by
  induction t with
  | nil => rfl
  | cons d t ih =>
      rw [List.splitOn_cons_eq_if_modifyHead, List.count_cons]
      split
      · rw [List.length_cons, ih]
      · rw [List.length_modifyHead, ih, Nat.add_zero]

end Data
