import CorexManager.ApiArmor.SchemaStore
import CorexManager.ApiArmor.SchemaValidator

/-!
# Learning schemas from traffic

The body parser writes a sample of every JSON body to the profiling log, cut short; the
learner (`api_armor_schema_learner.py`) reads the log entry by entry, cuts the sample again,
infers a schema of it and merges it into the learned schema of the endpoint.
-/

namespace CorexManager.ApiArmor

open Data

/-! ### The profiling log -/

/-- A request as the profiling log describes it: its JSON body, and the metrics of its query
when it is a GraphQL request. -/
structure LoggedRequest where
  method : Text
  path : Text
  json : Option Json
  graphql : Option Json

/-- An entry of the log; `none` is a field that is missing. -/
structure SampleEntry where
  method : Text
  path : Text
  bodySample : Option Json
  graphql : Option Json

/-- A text of more bytes than the limit is cut to as many characters. -/
def cutBytes (maxBytes : Nat) (s : Text) : Text :=
  if maxBytes < Rust.len s then s.take maxBytes else s

mutual

/-- `truncate_body_sample`. -/
def truncateBodySample (maxBytes : Nat) : Json → Json
  | .str s => .str (cutBytes maxBytes s)
  | .obj fields => .obj (truncateFields maxBytes fields)
  | .arr (item :: _) => .arr [truncateBodySample maxBytes item]
  | value => value

/-- The fields of an object, each cut short. -/
def truncateFields (maxBytes : Nat) : List (Text × Json) → List (Text × Json)
  | [] => []
  | (key, value) :: fields =>
      (key, truncateBodySample maxBytes value) :: truncateFields maxBytes fields

end

/-- What `write_profiling_log` writes of a request; `API_ARMOR_PROFILE_LOG_MAX_BODY_BYTES`
is a `usize`. -/
def writeProfilingLog (maxBytes : UInt64) (r : LoggedRequest) : SampleEntry :=
  ⟨r.method, r.path, r.json.map (truncateBodySample maxBytes.toNat), r.graphql⟩

/-! ### Samples -/

/-- `_MAX_BODY_SAMPLE_SIZE`. -/
def maxBodySampleSize : Nat := 4096

mutual

/-- `_truncate_body_sample`. -/
def truncateSample : Json → Json
  | .obj fields => .obj (truncateSampleFields fields)
  | .arr (item :: _) => .arr [truncateSample item]
  | value => value

/-- The fields of a dictionary; a text is cut there, and only there. -/
def truncateSampleFields : List (Text × Json) → List (Text × Json)
  | [] => []
  | (key, value) :: fields =>
      (key, match value with
        | .str s => .str (if maxBodySampleSize < s.length then s.take maxBodySampleSize else s)
        | value => truncateSample value) :: truncateSampleFields fields

end

/-! ### Schemas -/

/-- An integer, as Python writes it. -/
def intValue (n : Nat) : Json := .num (.int n)

/-- The schema of an array. -/
def arraySchema (items : Json) (length : Nat) : Json :=
  .obj [("type".toList, .str "array".toList), ("items".toList, items),
    ("minItems".toList, intValue 0), ("maxItems".toList, intValue length)]

mutual

/-- `_infer_schema_python`. -/
def inferSchema : Json → Json
  | .null => .obj [("type".toList, .str "null".toList)]
  | .bool _ => .obj [("type".toList, .str "boolean".toList)]
  | .num (.int _) => .obj [("type".toList, .str "integer".toList)]
  | .num (.float _) => .obj [("type".toList, .str "number".toList)]
  | .str s =>
      .obj [("type".toList, .str "string".toList), ("minLength".toList, intValue 0),
        ("maxLength".toList, intValue s.length)]
  | .arr [] => arraySchema (.obj []) 0
  | .arr (item :: items) => arraySchema (inferSchema item) (items.length + 1)
  | .obj fields =>
      .obj [("type".toList, .str "object".toList),
        ("properties".toList, .obj (inferFields fields)),
        ("required".toList, .arr (fields.map fun f => .str f.1)),
        ("additionalProperties".toList, .bool true)]

/-- The schemas of the values of a dictionary. -/
def inferFields : List (Text × Json) → List (Text × Json)
  | [] => []
  | (key, value) :: fields => (key, inferSchema value) :: inferFields fields

end

/-- A value, or a missing one, in the place of a condition. -/
def truthy : Option Json → Bool
  | none | some .null | some (.bool false) | some (.num (.int 0)) | some (.str [])
  | some (.arr []) | some (.obj []) => false
  | some _ => true

/-- `s.get(key, {})`, of a dictionary. -/
def dictAt (s : Json) (key : Text) : List (Text × Json) := ((s.get key).bind Json.asObject).getD []

/-- `s.get(key, [])`, of texts. -/
def textsAt (s : Json) (key : Text) : List Text :=
  (((s.get key).bind Json.asArray).getD []).filterMap Json.asStr

/-- `s.get(key, 0)`, of an integer. -/
def intAt (s : Json) (key : Text) : Int :=
  match s.get key with
  | some (.num (.int n)) => n
  | _ => 0

/-- `merged[key] = value`. -/
def assign (s : Json) (key : Text) (value : Json) : Json :=
  match s with
  | .obj fields => .obj (Dict.set fields key value)
  | s => s

theorem sizeOf_dictAt (s : Json) (key : Text) : sizeOf (dictAt s key) < 1 + sizeOf s := by
  have hempty : sizeOf ([] : List (Text × Json)) < 1 + sizeOf s := by
    cases s <;> simp
  cases s with
  | obj fields =>
      rw [dictAt, Json.get_obj]
      cases hget : Dict.lookup fields key with
      | none => exact hempty
      | some v =>
          have hmem := List.sizeOf_lt_of_mem (Dict.mem_of_lookup hget)
          rw [Prod.mk.sizeOf_spec] at hmem
          cases v with
          | obj inner =>
              show sizeOf inner < 1 + sizeOf (Json.obj fields)
              rw [Json.obj.sizeOf_spec] at hmem ⊢
              omega
          | _ => exact hempty
  | _ => exact hempty

mutual

/-- `_merge_schemas_python`; the common texts of a set are in the order of the first. -/
def mergeSchemas (s1 s2 : Json) : Json :=
  let t1 := s1.get "type".toList
  let t2 := s2.get "type".toList
  if t1 ≠ t2 then
    if truthy t1 && truthy t2 then
      .obj [("type".toList, .arr [t1.getD .null, t2.getD .null])]
    else .obj []
  else if t1 = some (.str "object".toList) then
    let required := (textsAt s1 "required".toList).filter (textsAt s2 "required".toList).contains
    assign (assign s1 "properties".toList (.obj
      (mergeProperties (dictAt s1 "properties".toList) (dictAt s2 "properties".toList))))
      "required".toList (.arr (required.map .str))
  else if t1 = some (.str "string".toList) then
    assign (assign s1 "maxLength".toList
      (.num (.int (max (intAt s1 "maxLength".toList) (intAt s2 "maxLength".toList)))))
      "minLength".toList
      (.num (.int (min (intAt s1 "minLength".toList) (intAt s2 "minLength".toList))))
  else s1
termination_by 1 + sizeOf s2
decreasing_by exact sizeOf_dictAt s2 _

/-- The properties of both. -/
def mergeProperties (props1 : List (Text × Json)) : List (Text × Json) → List (Text × Json)
  | [] => props1
  | (key, val2) :: rest =>
      mergeProperties (Dict.set props1 key
        (match Dict.lookup props1 key with
          | some val1 => mergeSchemas val1 val2
          | none => val2)) rest
termination_by props2 => sizeOf props2
decreasing_by
  all_goals
    simp only [List.cons.sizeOf_spec, Prod.mk.sizeOf_spec]
    omega

end

/-! ### Rows -/

/-- A row of `api_schemas`, with the number of its samples. -/
structure LearnedRow extends ApiSchema where
  sampleCount : Nat

/-- The filters of `merge_learned_schema`. -/
def LearnedRow.isFor (method path : Text) (r : LearnedRow) : Bool :=
  r.method == upper method && r.path == path && r.source == .learned

/-- Merge an inferred schema into a row. -/
def LearnedRow.merged (new : Json) (r : LearnedRow) : LearnedRow :=
  { r with schema := mergeSchemas (orEmpty r.schema) new, sampleCount := r.sampleCount + 1 }

/-- A new row; the database gives it an id. -/
def LearnedRow.fresh (id : Int) (method path : Text) (new : Json) : LearnedRow where
  id := id
  name := "learned:".toList ++ upper method ++ ' ' :: path
  method := upper method
  path := path
  schema := new
  source := .learned
  enabled := true
  sampleCount := 1

/-- Change the first row that is meant, or add one. -/
def upsert {α : Type*} (meant : α → Bool) (change : α → α) (new : α) : List α → List α
  | [] => [new]
  | r :: rows => if meant r then change r :: rows else r :: upsert meant change new rows

/-- `merge_learned_schema`. -/
def mergeLearnedSchema (nextId : List LearnedRow → Int) (table : List LearnedRow)
    (method path : Text) (body : Json) : List LearnedRow :=
  let new := inferSchema body
  upsert (LearnedRow.isFor method path) (LearnedRow.merged new)
    (LearnedRow.fresh (nextId table) method path new) table

/-- What an entry gives to learn from: the sample of the body, or else the variables of the
query, or its metrics. -/
def SampleEntry.body (e : SampleEntry) : Option Json :=
  match e.bodySample with
  | none | some .null =>
      match e.graphql with
      | some (.obj (field :: fields)) =>
          let graphql := .obj (field :: fields)
          if truthy (graphql.get "variables".toList) then graphql.get "variables".toList
          else some graphql
      | _ => none
  | some body => some body

/-- `ingest_schema_learning_entry_from_log`. -/
def ingestSample (nextId : List LearnedRow → Int) (table : List LearnedRow) (e : SampleEntry) :
    List LearnedRow :=
  if e.method.isEmpty || e.path.isEmpty then table
  else
    match e.body with
    | some (.obj fields) =>
        mergeLearnedSchema nextId table e.method e.path (truncateSample (.obj fields))
    | _ => table

/-- The table once the requests are logged and the log is read. -/
def learnFrom (nextId : List LearnedRow → Int) (maxBytes : UInt64) (table : List LearnedRow)
    (log : List LoggedRequest) : List LearnedRow :=
  (log.map (writeProfilingLog maxBytes)).foldl (ingestSample nextId) table

/-! ### The rows of other endpoints -/

section Upsert

variable {α : Type*} {meant other : α → Bool} {change : α → α} {new : α}

theorem find?_upsert (hchange : ∀ r, meant r = true → meant (change r) = true)
    (hnew : meant new = true) (rows : List α) :
    (upsert meant change new rows).find? meant =
      some (((rows.find? meant).map change).getD new) := by
  induction rows with
  | nil => simp [upsert, hnew]
  | cons r rows ih =>
      rw [upsert]
      by_cases hr : meant r = true
      · rw [if_pos hr, List.find?_cons_of_pos (hchange r hr), List.find?_cons_of_pos hr]
        rfl
      · rw [if_neg hr, List.find?_cons_of_neg hr, ih, List.find?_cons_of_neg hr]

theorem find?_upsert_other
    (hchange : ∀ r, meant r = true → other r = false ∧ other (change r) = false)
    (hnew : other new = false) (rows : List α) :
    (upsert meant change new rows).find? other = rows.find? other := by
  induction rows with
  | nil => simp [upsert, hnew]
  | cons r rows ih =>
      rw [upsert]
      by_cases hr : meant r = true
      · obtain ⟨hother, hchanged⟩ := hchange r hr
        rw [if_pos hr, List.find?_cons, hchanged, List.find?_cons, hother]
      · rw [if_neg hr, List.find?_cons, ih, List.find?_cons]

end Upsert

theorem LearnedRow.isFor_iff {method path : Text} {r : LearnedRow} :
    r.isFor method path = true ↔ r.method = upper method ∧ r.path = path ∧ r.source = .learned := by
  simp only [LearnedRow.isFor, Bool.and_eq_true, beq_iff_eq, and_assoc]

/-- The learned row of an endpoint after a body is merged there. -/
theorem find?_mergeLearnedSchema (nextId : List LearnedRow → Int) (table : List LearnedRow)
    (method path : Text) (body : Json) :
    ((mergeLearnedSchema nextId table method path body).find?
        (LearnedRow.isFor method path)).map (·.schema) =
      some ((((table.find? (LearnedRow.isFor method path)).map (·.schema)).map fun s =>
        mergeSchemas (orEmpty s) (inferSchema body)).getD (inferSchema body)) := by
  rw [mergeLearnedSchema, find?_upsert]
  · cases table.find? (LearnedRow.isFor method path) <;> rfl
  · intro r hr
    exact LearnedRow.isFor_iff.mpr (LearnedRow.isFor_iff.mp hr)
  · exact LearnedRow.isFor_iff.mpr ⟨rfl, rfl, rfl⟩

theorem find?_mergeLearnedSchema_other (nextId : List LearnedRow → Int) (table : List LearnedRow)
    {method path m p : Text} (body : Json) (h : ¬ (upper method = upper m ∧ path = p)) :
    (mergeLearnedSchema nextId table method path body).find? (LearnedRow.isFor m p) =
      table.find? (LearnedRow.isFor m p) := by
  have hother : ∀ r : LearnedRow, r.method = upper method → r.path = path →
      r.isFor m p = false := fun r hmethod hpath =>
    Bool.eq_false_iff.mpr fun hr =>
      h ⟨hmethod.symm.trans (LearnedRow.isFor_iff.mp hr).1,
        hpath.symm.trans (LearnedRow.isFor_iff.mp hr).2.1⟩
  refine find?_upsert_other (fun r hr => ?_) (hother _ rfl rfl) table
  obtain ⟨hmethod, hpath, -⟩ := LearnedRow.isFor_iff.mp hr
  exact ⟨hother r hmethod hpath, hother _ hmethod hpath⟩

end CorexManager.ApiArmor
