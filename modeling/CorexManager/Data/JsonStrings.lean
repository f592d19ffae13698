import CorexManager.Data.Json

/-!
# The strings in a JSON value

A value is read and rewritten through the strings it holds, at any depth; its keys and its
other leaves are left out.
-/

namespace Data.Json

mutual

/-- The strings in a value. -/
def strings : Json → List Text
  | .str t => [t]
  | .arr items => stringsItems items
  | .obj fields => stringsFields fields
  | _ => []

/-- The strings in the items of an array. -/
def stringsItems : List Json → List Text
  | [] => []
  | j :: items => j.strings ++ stringsItems items

/-- The strings in the fields of an object. -/
def stringsFields : List (Text × Json) → List Text
  | [] => []
  | (_, j) :: fields => j.strings ++ stringsFields fields

end

mutual

/-- A value with each of its strings rewritten. -/
def mapStrings (f : Text → Text) : Json → Json
  | .str t => .str (f t)
  | .arr items => .arr (mapItems f items)
  | .obj fields => .obj (mapFields f fields)
  | j => j

/-- The items of an array with their strings rewritten. -/
def mapItems (f : Text → Text) : List Json → List Json
  | [] => []
  | j :: items => j.mapStrings f :: mapItems f items

/-- The fields of an object with their strings rewritten. -/
def mapFields (f : Text → Text) : List (Text × Json) → List (Text × Json)
  | [] => []
  | (k, j) :: fields => (k, j.mapStrings f) :: mapFields f fields

end

variable {f : Text → Text} {key : Text}

@[simp] theorem strings_str (t : Text) : (str t).strings = [t] := rfl

theorem strings_arr (items : List Json) : (arr items).strings = items.flatMap strings := by
  show stringsItems items = _
  induction items with
  | nil => rfl
  | cons j items ih => rw [stringsItems, ih, List.flatMap_cons]

theorem strings_obj (fields : List (Text × Json)) :
    (obj fields).strings = fields.flatMap fun e => e.2.strings := by
  show stringsFields fields = _
  induction fields with
  | nil => rfl
  | cons e fields ih => rw [stringsFields, ih, List.flatMap_cons]

theorem mapStrings_arr (f : Text → Text) (items : List Json) :
    (arr items).mapStrings f = arr (items.map (mapStrings f)) := by
  show arr (mapItems f items) = _
  refine congrArg arr ?_
  induction items with
  | nil => rfl
  | cons j items ih => rw [mapItems, ih, List.map_cons]

theorem mapFields_eq (f : Text → Text) (fields : List (Text × Json)) :
    mapFields f fields = fields.map fun e => (e.1, e.2.mapStrings f) := by
  induction fields with
  | nil => rfl
  | cons e fields ih => rw [mapFields, ih, List.map_cons]

theorem mapStrings_obj (f : Text → Text) (fields : List (Text × Json)) :
    (obj fields).mapStrings f = obj (fields.map fun e => (e.1, e.2.mapStrings f)) :=
  congrArg obj (mapFields_eq f fields)

/-- **The strings of a rewritten value are the rewritten strings.** -/
theorem strings_mapStrings (f : Text → Text) (j : Json) :
    (j.mapStrings f).strings = j.strings.map f := by
  induction j using partsInduction with
  | arr items ih =>
      rw [mapStrings_arr, strings_arr, strings_arr, List.flatMap_map, List.map_flatMap]
      exact List.flatMap_congr ih
  | obj fields ih =>
      rw [mapStrings_obj, strings_obj, strings_obj, List.flatMap_map, List.map_flatMap]
      exact List.flatMap_congr ih
  | _ => rfl

/-- If no string changes, the value does not. -/
theorem mapStrings_eq_self (hf : ∀ t, f t = t) (j : Json) : j.mapStrings f = j := by
  induction j using partsInduction with
  | str t => exact congrArg str (hf t)
  | arr items ih =>
      rw [mapStrings_arr]
      exact congrArg arr ((List.map_congr_left ih).trans items.map_id')
  | obj fields ih =>
      rw [mapStrings_obj]
      have hsame : ∀ e ∈ fields, (e.1, e.2.mapStrings f) = e := fun e he => Prod.ext rfl (ih e he)
      exact congrArg obj ((List.map_congr_left hsame).trans fields.map_id')
  | _ => rfl

/-- The fields of a rewritten value are rewritten. -/
theorem get_mapStrings (f : Text → Text) (key : Text) (j : Json) :
    (j.mapStrings f).get key = (j.get key).map (mapStrings f) := by
  cases j with
  | obj fields => rw [mapStrings_obj, get_obj, get_obj, Dict.lookup_map]
  | _ => rfl

end Data.Json
