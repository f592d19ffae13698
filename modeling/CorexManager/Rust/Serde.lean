import CorexManager.Data.Json

/-!
# Deserialisation

`serde` on JSON documents: a deserializer reads a value or fails, and the failure of any
part is the failure of the whole document.  A field the type does not name is skipped; a
field of type `Option` may be missing.
-/

namespace Rust

open Data

/-- A deserializer. -/
abbrev Deserialize (α : Type) := Json → Option α

/-- `i64`. -/
def i64 : Deserialize Int
  | .num (.int n) => if -2 ^ 63 ≤ n ∧ n < 2 ^ 63 then some n else none
  | _ => none

/-- `Value::as_u64`. -/
def asU64 : Json → Option Nat
  | .num (.int (.ofNat n)) => if n < 2 ^ 64 then some n else none
  | _ => none

/-- `String`. -/
def string : Deserialize Text
  | .str t => some t
  | _ => none

/-- `Vec`. -/
def vec {α : Type} (d : Deserialize α) : Deserialize (List α)
  | .arr items => items.mapM d
  | _ => none

/-- `Option`. -/
def optional {α : Type} (d : Deserialize α) : Deserialize (Option α)
  | .null => some none
  | j => (d j).map some

/-- A field of a struct. -/
def field {α : Type} (key : Text) (d : Deserialize α) (j : Json) : Option α :=
  (j.get key).bind d

/-- A field of type `Option`. -/
def optionField {α : Type} (key : Text) (d : Deserialize α) (j : Json) : Option (Option α) :=
  match j.get key with
  | none => some none
  | some v => optional d v

/-! ### Reading back -/

variable {α β : Type} {d : Deserialize α} {j v : Json} {key : Text}

theorem i64_int {n : Int} (h : -2 ^ 63 ≤ n ∧ n < 2 ^ 63) : i64 (.num (.int n)) = some n := if_pos h

theorem asU64_nat {n : Nat} (h : n < 2 ^ 64) : asU64 (.num (.int n)) = some n := if_pos h

theorem field_of_get (h : j.get key = some v) : field key d j = d v := by rw [field, h]; rfl

theorem optionField_of_get (h : j.get key = some v) : optionField key d j = optional d v := by
  rw [optionField, h]

/-- An optional text, as a dictionary holds it. -/
theorem optional_string (t : Option Text) : optional string (t.elim .null .str) = some t := by
  cases t <;> rfl

/-- An optional number. -/
theorem optional_i64 {n : Option Int} (h : ∀ i ∈ n, -2 ^ 63 ≤ i ∧ i < 2 ^ 63) :
    optional i64 (n.elim .null fun i => .num (.int i)) = some n := by
  cases n with
  | none => rfl
  | some i =>
      show (i64 (.num (.int i))).map some = some (some i)
      rw [i64_int (h i rfl)]
      rfl

/-- A list is read when each of its items is. -/
theorem vec_map (write : β → Json) (read : β → α) {bs : List β}
    (h : ∀ b ∈ bs, d (write b) = some (read b)) :
    vec d (.arr (bs.map write)) = some (bs.map read) := by
  show (bs.map write).mapM d = some (bs.map read)
  induction bs with
  | nil => rfl
  | cons b bs ih =>
      rw [List.map_cons, List.mapM_cons, h b List.mem_cons_self,
        ih fun c hc => h c (List.mem_cons_of_mem b hc)]
      rfl

/-- One item that is not read makes the list unreadable. -/
theorem vec_eq_none {items : List Json} (hv : v ∈ items) (h : d v = none) :
    vec d (.arr items) = none := by
  show items.mapM d = none
  induction items with
  | nil => cases hv
  | cons i items ih =>
      rw [List.mapM_cons]
      rcases List.mem_cons.mp hv with rfl | hrest
      · rw [h]
        rfl
      · rw [ih hrest]
        cases d i <;> rfl

end Rust
