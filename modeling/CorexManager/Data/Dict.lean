import Mathlib.Data.List.Nodup

/-!
# Dictionaries

Dictionaries that keep their keys in the order of insertion, as lists of entries: an
assignment replaces the value of a key in its place, or appends the entry.
-/

namespace Data

namespace Dict

variable {α β γ : Type*} [DecidableEq α]

/-- The value of a key. -/
def lookup (d : List (α × β)) (key : α) : Option β := (d.find? fun e => e.1 == key).map Prod.snd

/-- Assign a value to a key. -/
def set (d : List (α × β)) (key : α) (value : β) : List (α × β) :=
  match d with
  | [] => [(key, value)]
  | e :: d => if e.1 = key then (key, value) :: d else e :: set d key value

/-- No key occurs twice. -/
def Distinct (d : List (α × β)) : Prop := (d.map Prod.fst).Nodup

variable {d : List (α × β)} {key k : α} {value v : β}

@[simp]
theorem lookup_nil : lookup ([] : List (α × β)) key = none := rfl

theorem lookup_cons (e : α × β) (d : List (α × β)) (key : α) :
    lookup (e :: d) key = if e.1 = key then some e.2 else lookup d key := by
  unfold lookup
  rw [List.find?_cons]
  by_cases h : e.1 = key
  · rw [beq_iff_eq.mpr h, if_pos h]
    rfl
  · rw [beq_eq_false_iff_ne.mpr h, if_neg h]

theorem lookup_isSome_iff : (lookup d key).isSome ↔ key ∈ d.map Prod.fst := by
  induction d with
  | nil => simp
  | cons e d ih =>
      rw [lookup_cons, List.map_cons, List.mem_cons]
      by_cases h : e.1 = key
      · simp [h]
      · rw [if_neg h, ih]
        simp [Ne.symm h]

theorem mem_of_lookup (h : lookup d key = some value) : (key, value) ∈ d := by
  induction d with
  | nil => cases h
  | cons e d ih =>
      rw [lookup_cons] at h
      by_cases he : e.1 = key
      · rw [if_pos he] at h
        rw [← Option.some.inj h, ← he]
        exact List.mem_cons_self
      · rw [if_neg he] at h
        exact List.mem_cons_of_mem e (ih h)

/-- With distinct keys an entry is the value of its key. -/
theorem lookup_of_mem (hd : Distinct d) (h : (key, value) ∈ d) : lookup d key = some value := by
  induction d with
  | nil => cases h
  | cons e d ih =>
      rw [Distinct, List.map_cons, List.nodup_cons] at hd
      rw [lookup_cons]
      rcases List.mem_cons.mp h with rfl | hrest
      · rw [if_pos rfl]
      · have hne : e.1 ≠ key := fun he => hd.1 (he ▸ List.mem_map_of_mem hrest)
        rw [if_neg hne]
        exact ih hd.2 hrest

theorem mem_iff_lookup (hd : Distinct d) : (key, value) ∈ d ↔ lookup d key = some value :=
  ⟨lookup_of_mem hd, mem_of_lookup⟩

/-- Change every value. -/
theorem lookup_map (f : β → γ) (d : List (α × β)) (key : α) :
    lookup (d.map fun e => (e.1, f e.2)) key = (lookup d key).map f := by
  induction d with
  | nil => rfl
  | cons e d ih =>
      rw [List.map_cons, lookup_cons, lookup_cons]
      by_cases h : e.1 = key
      · rw [if_pos h, if_pos h]
        rfl
      · rw [if_neg h, if_neg h, ih]

theorem keys_map (f : β → γ) (d : List (α × β)) :
    (d.map fun e => (e.1, f e.2)).map Prod.fst = d.map Prod.fst := by
  rw [List.map_map]
  rfl

theorem set_nil (key : α) (value : β) : set [] key value = [(key, value)] := rfl

theorem set_cons (e : α × β) (d : List (α × β)) (key : α) (value : β) :
    set (e :: d) key value = if e.1 = key then (key, value) :: d else e :: set d key value := rfl

theorem lookup_set_self (d : List (α × β)) (key : α) (value : β) :
    lookup (set d key value) key = some value := by
  induction d with
  | nil => rw [set_nil, lookup_cons, if_pos rfl]
  | cons e d ih =>
      rw [set_cons]
      by_cases h : e.1 = key
      · rw [if_pos h, lookup_cons, if_pos rfl]
      · rw [if_neg h, lookup_cons, if_neg h, ih]

theorem lookup_set_other (d : List (α × β)) (value : β) (h : k ≠ key) :
    lookup (set d key value) k = lookup d k := by
  induction d with
  | nil => rw [set_nil, lookup_cons, if_neg (Ne.symm h)]
  | cons e d ih =>
      rw [set_cons]
      by_cases he : e.1 = key
      · rw [if_pos he, lookup_cons, if_neg (Ne.symm h), lookup_cons, if_neg (he ▸ Ne.symm h)]
      · rw [if_neg he, lookup_cons, lookup_cons, ih]

/-- A new entry comes last. -/
theorem set_of_lookup_none (value : β) (h : lookup d key = none) :
    set d key value = d ++ [(key, value)] := by
  induction d with
  | nil => rfl
  | cons e d ih =>
      rw [lookup_cons] at h
      by_cases he : e.1 = key
      · rw [if_pos he] at h
        cases h
      · rw [if_neg he] at h
        rw [set_cons, if_neg he, ih h]
        rfl

/-- The value that is there is assigned again. -/
theorem set_of_lookup_some (h : lookup d key = some value) : set d key value = d := by
  induction d with
  | nil => cases h
  | cons e d ih =>
      rw [lookup_cons] at h
      by_cases he : e.1 = key
      · rw [if_pos he] at h
        rw [set_cons, if_pos he, ← he, ← Option.some.inj h]
      · rw [if_neg he] at h
        rw [set_cons, if_neg he, ih h]

theorem keys_set (d : List (α × β)) (key : α) (value : β) :
    (set d key value).map Prod.fst =
      if key ∈ d.map Prod.fst then d.map Prod.fst else d.map Prod.fst ++ [key] := by
  induction d with
  | nil => rfl
  | cons e d ih =>
      rw [set_cons]
      by_cases he : e.1 = key
      · rw [if_pos he, List.map_cons, List.map_cons, if_pos (List.mem_cons.mpr (Or.inl he.symm)), he]
      · have hmem : key ∈ (e :: d).map Prod.fst ↔ key ∈ d.map Prod.fst := by
          simp [Ne.symm he]
        rw [if_neg he, List.map_cons, ih]
        by_cases hk : key ∈ d.map Prod.fst
        · rw [if_pos hk, if_pos (hmem.mpr hk), List.map_cons]
        · rw [if_neg hk, if_neg (hmem.not.mpr hk), List.map_cons, List.cons_append]

theorem Distinct.set (hd : Distinct d) (key : α) (value : β) : Distinct (set d key value) := by
  rw [Distinct, keys_set]
  by_cases hk : key ∈ d.map Prod.fst
  · rw [if_pos hk]
    exact hd
  · rw [if_neg hk]
    exact List.nodup_append.mpr
      ⟨hd, List.nodup_singleton key, fun a ha b hb heq => hk (List.mem_singleton.mp hb ▸ heq ▸ ha)⟩

/-- Two keys that are there are assigned in either order. -/
theorem set_comm (h : k ≠ key) (hk : (lookup d k).isSome) (hkey : (lookup d key).isSome) :
    set (set d key value) k v = set (set d k v) key value := by
  induction d with
  | nil => cases hk
  | cons e d ih =>
      by_cases he : e.1 = key
      · have hne : e.1 ≠ k := he ▸ h.symm
        rw [set_cons, if_pos he, set_cons, if_neg h.symm, set_cons, if_neg hne, set_cons, if_pos he]
      · by_cases hek : e.1 = k
        · rw [set_cons, if_neg he, set_cons, if_pos hek, set_cons, if_pos hek, set_cons, if_neg h]
        · rw [lookup_cons, if_neg hek] at hk
          rw [lookup_cons, if_neg he] at hkey
          rw [set_cons, if_neg he, set_cons, if_neg hek, set_cons, if_neg hek, set_cons, if_neg he,
            ih hk hkey]

/-- A value is changed and then assigned, or assigned and then changed. -/
theorem map_set (f : β → γ) (d : List (α × β)) (key : α) (value : β) :
    (set d key value).map (fun e => (e.1, f e.2)) =
      set (d.map fun e => (e.1, f e.2)) key (f value) := by
  induction d with
  | nil => rfl
  | cons e d ih =>
      rw [set_cons, List.map_cons, set_cons]
      by_cases he : e.1 = key
      · rw [if_pos he, if_pos he, List.map_cons]
      · rw [if_neg he, if_neg he, List.map_cons, ih]

/-! ### Updates one after another -/

/-- Merge the entries of one dictionary into another. -/
def merge (f : β → β → β) (d e : List (α × β)) : List (α × β) :=
  match e with
  | [] => d
  | (key, value) :: e =>
      merge f (set d key (((lookup d key).map fun v => f v value).getD value)) e

theorem Distinct.merge (f : β → β → β) (e : List (α × β)) (hd : Distinct d) :
    Distinct (merge f d e) := by
  induction e generalizing d with
  | nil => exact hd
  | cons entry e ih => exact ih (hd.set _ _)

/-- The value of a key after a merge. -/
def mergeValue (f : β → β → β) : Option β → Option β → Option β
  | some v, some w => some (f v w)
  | some v, none => some v
  | none, w => w

/-- A merge reads key by key. -/
theorem lookup_merge (f : β → β → β) (d : List (α × β)) {e : List (α × β)} (he : Distinct e)
    (key : α) : lookup (merge f d e) key = mergeValue f (lookup d key) (lookup e key) := by
  induction e generalizing d with
  | nil => cases h : lookup d key <;> simp [merge, mergeValue, h]
  | cons entry e ih =>
      obtain ⟨k, w⟩ := entry
      rw [Distinct, List.map_cons, List.nodup_cons] at he
      rw [merge, ih _ he.2, lookup_cons]
      by_cases hk : k = key
      · subst hk
        have hnone : lookup e k = none := by
          rw [← Option.not_isSome_iff_eq_none, lookup_isSome_iff]
          exact he.1
        rw [lookup_set_self, hnone, if_pos rfl]
        cases lookup d k <;> rfl
      · rw [lookup_set_other _ _ (Ne.symm hk), if_neg hk]

end Dict

end Data
