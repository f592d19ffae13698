import CorexManager.Data.Json
import CorexManager.Python.DateTime

/-!
# Rows of configuration tables in a snapshot

A snapshot holds the rows of the tables as JSON objects: dates as texts, everything else
as it is.  `restoreRow_serializeRow` is the round trip of a row, over its columns.
-/

namespace CorexManager.Config

open Data
open Python (DateTime)

/-- The types of columns a snapshot tells apart. -/
inductive ColumnType where
  | plain | dateTime
  deriving DecidableEq, Repr

/-- What a column holds; a missing value is the plain `null`. -/
inductive Cell where
  | plain (j : Json)
  | dateTime (d : DateTime)
  deriving DecidableEq

/-- A column, with what an insert fills in when a row says nothing about it. -/
structure Column where
  name : Text
  type : ColumnType
  default : Cell
  deriving DecidableEq

/-- The value is of the type. -/
def Cell.fits : ColumnType → Cell → Bool
  | .plain, .plain _ => true
  | .dateTime, .plain .null => true
  | .dateTime, .dateTime _ => true
  | _, _ => false

/-- The values are of the types of the columns. -/
def cellsFit : List Column → List Cell → Bool
  | [], [] => true
  | c :: cs, v :: vs => v.fits c.type && cellsFit cs vs
  | _, _ => false

/-- A row of a table with these columns. -/
structure Row (columns : List Column) where
  cells : List Cell
  typed : cellsFit columns cells = true
  deriving DecidableEq

/-! ### Out and in -/

/-- `_jsonable`. -/
def jsonable : Cell → Json
  | .plain j => j
  | .dateTime d => .str d.isoformat

/-- `_serialize_row`. -/
def serializeRow (columns : List Column) (row : Row columns) : List (Text × Json) :=
  List.zipWith (fun c v => (c.name, jsonable v)) columns row.cells

/-- `_parse_value`; a text that is no date raises. -/
def parseValue (type : ColumnType) (value : Json) : Option Cell :=
  match value, type with
  | .null, _ => some (.plain .null)
  | .str t, .dateTime => (DateTime.fromisoformat t).map .dateTime
  | v, _ => some (.plain v)

/-- The value of a column in an object. -/
def restoreCell (fields : List (Text × Json)) (c : Column) : Option Cell :=
  match (fields.find? fun f => f.1 == c.name).map Prod.snd with
  | some v => parseValue c.type v
  | none => some c.default

/-- The row an object of a snapshot spells; a value of another type is refused. -/
def restoreRow (columns : List Column) (fields : List (Text × Json)) : Option (Row columns) :=
  match columns.mapM (restoreCell fields) with
  | some cells => if h : cellsFit columns cells = true then some ⟨cells, h⟩ else none
  | none => none

/-! ### The round trip -/

theorem parseValue_jsonable {type : ColumnType} {v : Cell} (h : v.fits type = true) :
    parseValue type (jsonable v) = some v := by
  cases v with
  | plain j =>
      cases type with
      | plain => cases j <;> rfl
      | dateTime =>
          cases j with
          | null => rfl
          | _ => cases h
  | dateTime d =>
      cases type with
      | plain => cases h
      | dateTime =>
          show (DateTime.fromisoformat d.isoformat).map _ = _
          rw [DateTime.fromisoformat_isoformat]
          rfl

/-- Names are found where they stand. -/
private theorem find?_zipWith {columns : List Column} (hnames : (columns.map Column.name).Nodup)
    {cells : List Cell} {c : Column} {v : Cell} (h : (c, v) ∈ columns.zip cells) :
    ((List.zipWith (fun c v => (c.name, jsonable v)) columns cells).find? fun f =>
      f.1 == c.name).map Prod.snd = some (jsonable v) := by
  induction columns generalizing cells with
  | nil => simp at h
  | cons d ds ih =>
      cases cells with
      | nil => simp at h
      | cons w ws =>
          rw [List.map_cons, List.nodup_cons] at hnames
          rw [List.zip_cons_cons, List.mem_cons] at h
          rw [List.zipWith_cons_cons]
          rcases h with heq | h
          · obtain ⟨rfl, rfl⟩ := Prod.mk.inj heq
            rw [List.find?_cons_of_pos (by simp)]
            rfl
          · have hmem : c.name ∈ ds.map Column.name :=
              List.mem_map_of_mem (List.of_mem_zip h).1
            have hne : d.name ≠ c.name := fun heq => hnames.1 (heq ▸ hmem)
            rw [List.find?_cons_of_neg (by simpa using hne)]
            exact ih hnames.2 h

private theorem mapM_restoreCell {fields : List (Text × Json)} {columns : List Column}
    {cells : List Cell} (hfit : cellsFit columns cells = true)
    (h : ∀ c v, (c, v) ∈ columns.zip cells →
      (fields.find? fun f => f.1 == c.name).map Prod.snd = some (jsonable v)) :
    columns.mapM (restoreCell fields) = some cells := by
  induction columns generalizing cells with
  | nil =>
      cases cells with
      | nil => rfl
      | cons => cases hfit
  | cons c cs ih =>
      cases cells with
      | nil => cases hfit
      | cons v vs =>
          rw [cellsFit, Bool.and_eq_true] at hfit
          have hfirst : restoreCell fields c = some v := by
            unfold restoreCell
            rw [h c v List.mem_cons_self]
            exact parseValue_jsonable hfit.1
          have hrest := ih hfit.2 fun d w hd => h d w (List.mem_cons_of_mem _ hd)
          rw [List.mapM_cons, hfirst, hrest]
          rfl

/-- **A row survives a snapshot.** -/
theorem restoreRow_serializeRow {columns : List Column} (hnames : (columns.map Column.name).Nodup)
    (row : Row columns) : restoreRow columns (serializeRow columns row) = some row := by
  have hcells : columns.mapM (restoreCell (serializeRow columns row)) = some row.cells :=
    mapM_restoreCell row.typed fun c v h => find?_zipWith hnames h
  unfold restoreRow
  rw [hcells]
  exact dif_pos row.typed

end CorexManager.Config
