import CorexManager.ApiArmor.BodyParser
import CorexManager.Python.Orm
import CorexManager.Python.Text

/-!
# The profiler

`api_armor_profiler.py`: entries of the profiling log are ingested one by one, each in a
session of its own, into the profile of their endpoint, and checked against it once the
profile is learned.

* `ingest`, `checkAnomaly`, `finalizeProfile` — the code.
* `ingestAll_profile` — what a run of entries leaves in the profile.
* `rightlyStored_iff` — the profile holds what occurred exactly when no more than one entry
  had something to store, since the flush loses every change in place.
* `baselineGuarded_iff` — a learned profile reports what it has not learned exactly when the
  dimension is full, since a value is recorded before it is checked.
-/

namespace CorexManager.Profiler

open Data
open Python (Held UnicodeTables)

/-! ### Entries -/

/-- `DIMENSIONS`. -/
inductive Dimension where
  | bodyStructure | graphql | contentType | authType | reqFp | reqFpParamKeys | reqFpParamTypes
  deriving DecidableEq, Repr

/-- In their order. -/
def dimensions : List Dimension :=
  [.bodyStructure, .graphql, .contentType, .authType, .reqFp, .reqFpParamKeys, .reqFpParamTypes]

/-- The key of a dimension. -/
def Dimension.name : Dimension → Text
  | .bodyStructure => "body_structure".toList
  | .graphql => "graphql".toList
  | .contentType => "content_type".toList
  | .authType => "auth_type".toList
  | .reqFp => "req_fp".toList
  | .reqFpParamKeys => "req_fp_param_keys".toList
  | .reqFpParamTypes => "req_fp_param_types".toList

/-- The metrics of a query that are compared. -/
structure Graphql where
  operation : Text
  depth : Int
  queryHash : Text
  deriving DecidableEq

/-- An entry of the log; `none` is a field that is missing or null. -/
structure LogEntry where
  method : Text
  path : Text
  /-- The `top_keys` of `body_structure`. -/
  topKeys : Option (List Text)
  graphql : Option Graphql
  contentType : Option Text
  /-- A missing field is `some none`, which reads as `n`. -/
  authType : Option (Option Text)
  reqFp : Option Text
  reqFpParamKeys : Option Text
  reqFpParamTypes : Option Text
  responseStatus : Option Int
  listenerId : Option Int
  requestId : Option Text
  clientIp : Option Text
  deriving DecidableEq

/-- What the profiler uses of Python: `json.dumps`, and the tables of characters. -/
structure Runtime where
  dumps : Json → Text
  tables : UnicodeTables

/-! ### Paths -/

/-- A character of `[0-9a-f]`, ignoring case. -/
def hexChar (c : Char) : Bool :=
  c.isDigit || ['a', 'b', 'c', 'd', 'e', 'f'].contains c.toLower

/-- `n` hexadecimal characters. -/
def takeHex (n : Nat) (t : Text) : Option Text :=
  if (t.take n).length = n ∧ (t.take n).all hexChar then some (t.drop n) else none

/-- A hyphen. -/
def takeHyphen : Text → Option Text
  | '-' :: t => some t
  | _ => none

/-- A UUID. -/
def takeUuid (t : Text) : Option Text := do
  let t ← takeHex 8 t
  let t ← takeHex 4 (← takeHyphen t)
  let t ← takeHex 4 (← takeHyphen t)
  let t ← takeHex 4 (← takeHyphen t)
  takeHex 12 (← takeHyphen t)

/-- A run of decimal digits. -/
def takeDigits (U : UnicodeTables) (t : Text) : Option Text :=
  if t.head?.any fun c => (U.decimalValue c).isSome then
    some (t.dropWhile fun c => (U.decimalValue c).isSome)
  else none

/-- `re.sub` of a slash and a match by `/:id`, from the left. -/
def subId (take : Text → Option Text) : Nat → Text → Text
  | 0, t => t
  | _ + 1, [] => []
  | n + 1, c :: t =>
      if c = '/' then
        match take t with
        | some rest => "/:id".toList ++ subId take n rest
        | none => c :: subId take n t
      else c :: subId take n t

/-- `normalize_path`. -/
def normalizePath (U : UnicodeTables) (path : Text) : Text :=
  let path := subId takeUuid path.length path
  let path := subId (takeHex 24) path.length path
  subId (takeDigits U) path.length path

/-! ### Dimensions -/

variable (R : Runtime)

/-- The order of texts by their characters. -/
def textLE (a b : Text) : Prop := a ≤ b

instance : DecidableRel textLE := fun a b => inferInstanceAs (Decidable (a ≤ b))

/-- `extract_dimension`. -/
def extractDimension (e : LogEntry) : Dimension → Option Json
  | .bodyStructure => e.topKeys.bind fun keys =>
      if keys = [] then none else some (.arr ((keys.insertionSort textLE).map .str))
  | .graphql => e.graphql.map fun g => .obj [("operation".toList, .str g.operation),
      ("depth".toList, .num (.int g.depth)), ("query_hash".toList, .str g.queryHash)]
  | .contentType => e.contentType.map .str
  | .authType => e.authType.map fun t => .str (t.getD ['n'])
  | .reqFp => e.reqFp.map .str
  | .reqFpParamKeys => e.reqFpParamKeys.map .str
  | .reqFpParamTypes => e.reqFpParamTypes.map .str

/-- `json.dumps` of what is no text. -/
def valueStr : Json → Text
  | .str t => t
  | value => R.dumps value

/-- The value of a dimension as it is stored. -/
def observed (e : LogEntry) (dim : Dimension) : Option Text :=
  (extractDimension e dim).map (valueStr R)

/-- What a profile holds of a dimension. -/
structure DimData where
  values : List Text
  count : Nat
  deriving DecidableEq

/-- The dictionary of dimensions. -/
abbrev Dims := Dimension → Option DimData

/-- The dictionary is not empty. -/
def Dims.truthy (dims : Dims) : Bool := dimensions.any fun dim => (dims dim).isSome

/-- The values of a dimension. -/
def Dims.known (dims : Dims) (dim : Dimension) : List Text := ((dims dim).map DimData.values).getD []

/-- The observations of a dimension. -/
def Dims.count (dims : Dims) (dim : Dimension) : Nat := ((dims dim).map DimData.count).getD 0

/-- Record a value, up to 1000 different ones. -/
def DimData.record (d : DimData) (v : Text) : DimData where
  values := if v ∉ d.values ∧ d.values.length < 1000 then d.values ++ [v] else d.values
  count := d.count + 1

/-- One turn of the loop over the dimensions. -/
def updateDimension (e : LogEntry) (dims : Dims) (dim : Dimension) : Dims :=
  match observed R e dim with
  | none => dims
  | some v => fun k => if k = dim then some (((dims dim).getD ⟨[], 0⟩).record v) else dims k

/-- The loop. -/
def updateDimensions (e : LogEntry) (dims : Dims) : Dims :=
  dimensions.foldl (updateDimension R e) dims

/-- `check_anomaly`. -/
def checkAnomaly (dims : Dims) (e : LogEntry) : Option Dimension :=
  dimensions.find? fun dim => (observed R e dim).any fun v => !(dims.known dim).contains v

/-! ### Profiles -/

/-- The counts of the status codes. -/
abbrev Codes := List (Text × Nat)

/-- The count of a code. -/
def Codes.count (codes : Codes) (code : Text) : Nat :=
  ((codes.find? fun c => c.1 == code).map Prod.snd).getD 0

/-- One more of a code. -/
def Codes.bump (code : Text) : Codes → Codes
  | [] => [(code, 1)]
  | c :: codes => if c.1 = code then (code, c.2 + 1) :: codes else c :: bump code codes

/-- A row of `api_profiles`. -/
structure Profile where
  id : Nat
  method : Text
  path : Text
  dimensions : Dims
  sampleCount : Nat
  statusCodes : Codes
  learned : Bool

/-- A row of `api_anomalies`. -/
structure Anomaly where
  listenerId : Option Int
  method : Text
  path : Text
  dimension : Dimension
  observedValue : Text
  expectedValues : Text
  requestId : Option Text
  clientIp : Option Text
  deriving DecidableEq

/-- The two tables. -/
structure Db where
  profiles : List Profile
  anomalies : List Anomaly
  nextId : Nat

/-- The status of an entry when it has one. -/
def statusStr (e : LogEntry) : Option Text :=
  e.responseStatus.bind fun status => if status = 0 then none else some (intText status)

/-- The profile of an endpoint. -/
def Profile.isOf (method path : Text) (p : Profile) : Bool := p.method == method && p.path == path

/-- What an entry makes of a new profile. -/
def newProfile (id : Nat) (path : Text) (e : LogEntry) : Profile where
  id := id
  method := e.method
  path := path
  dimensions := updateDimensions R e fun _ => none
  sampleCount := 1
  statusCodes := (statusStr e).elim [] fun code => Codes.bump code []
  learned := false

/-- The dictionary `profile.dimensions or {}` after the loop. -/
def heldDimensions (e : LogEntry) (p : Profile) : Held Dims :=
  ((Held.load p.dimensions).orNew Dims.truthy fun _ => none).mutate (updateDimensions R e)

/-- The dictionary `profile.status_codes or {}` after the update. -/
def heldCodes (code : Text) (p : Profile) : Held Codes :=
  ((Held.load p.statusCodes).orNew (fun codes => !codes.isEmpty) []).mutate (Codes.bump code)

/-- What a flush leaves of a profile after an entry. -/
def flushed (e : LogEntry) (p : Profile) : Profile :=
  { p with
    dimensions := (heldDimensions R e p).flush p.dimensions
    sampleCount := p.sampleCount + 1
    statusCodes := (statusStr e).elim p.statusCodes fun code =>
      (heldCodes code p).flush p.statusCodes }

/-- The anomaly of an entry, against the dictionary the session holds. -/
def anomalyOf (path : Text) (e : LogEntry) (p : Profile) : Option Anomaly :=
  let dims := (heldDimensions R e p).value
  if p.learned then
    (checkAnomaly R dims e).map fun dim =>
      { listenerId := e.listenerId
        method := e.method
        path := path
        dimension := dim
        observedValue := R.dumps ((extractDimension e dim).getD .null)
        expectedValues := R.dumps (.arr ((dims.known dim).map .str))
        requestId := e.requestId
        clientIp := e.clientIp }
  else none

/-- Update the first of a list, or add one. -/
def upsert {α : Type} (found : α → Bool) (update : α → α) (new : α) : List α → List α
  | [] => [new]
  | a :: as => if found a then update a :: as else a :: upsert found update new as

/-- `ingest_profiling_entry` and the commit. -/
def ingest (db : Db) (e : LogEntry) : Db :=
  if e.method = [] ∨ e.path = [] then db
  else
    let path := normalizePath R.tables e.path
    let found := Profile.isOf e.method path
    { profiles := upsert found (flushed R e) (newProfile R db.nextId path e) db.profiles
      anomalies := db.anomalies ++
        ((db.profiles.find? found).bind (anomalyOf R path e)).toList
      nextId := if (db.profiles.find? found).isSome then db.nextId else db.nextId + 1 }

/-- The entries of a log. -/
def ingestAll (db : Db) (es : List LogEntry) : Db := es.foldl (ingest R) db

/-- `finalize_profile`. -/
def finalizeProfile (minSamples : Nat) (id : Nat) (db : Db) : Db :=
  { db with profiles := db.profiles.map fun p =>
      if p.id = id ∧ minSamples ≤ p.sampleCount then { p with learned := true } else p }

/-! ### One entry -/

variable {R}

theorem mem_dimensions (dim : Dimension) : dim ∈ dimensions := by
  cases dim <;> decide

theorem dimensions_nodup : dimensions.Nodup := by decide

/-- What the loop leaves of a dimension depends on that dimension alone. -/
private theorem foldl_updateDimension (e : LogEntry) {dims : Dims} {ds : List Dimension}
    (hnodup : ds.Nodup) (dim : Dimension) :
    ds.foldl (updateDimension R e) dims dim = if dim ∈ ds then updateDimension R e dims dim dim
      else dims dim := by
  induction ds generalizing dims with
  | nil => rfl
  | cons d ds ih =>
      obtain ⟨hd, hds⟩ := List.nodup_cons.mp hnodup
      have hother : ∀ k, k ≠ d → updateDimension R e dims d k = dims k := by
        intro k hk
        unfold updateDimension
        cases observed R e d with
        | none => rfl
        | some v => exact if_neg hk
      rw [List.foldl_cons, ih hds]
      by_cases hdim : dim = d
      · rw [hdim, if_neg hd, if_pos List.mem_cons_self]
      · by_cases hmem : dim ∈ ds
        · rw [if_pos hmem, if_pos (List.mem_cons_of_mem _ hmem)]
          unfold updateDimension
          cases observed R e dim with
          | none => exact hother dim hdim
          | some v =>
              dsimp only
              rw [if_pos rfl, if_pos rfl]
              have hsame := hother dim hdim
              unfold updateDimension at hsame
              rw [hsame]
        · have hnot : dim ∉ d :: ds := by
            simp [hdim, hmem]
          rw [if_neg hmem, if_neg hnot, hother dim hdim]

/-- **The loop records every value of the entry.** -/
theorem updateDimensions_apply (e : LogEntry) (dims : Dims) (dim : Dimension) :
    updateDimensions R e dims dim = match observed R e dim with
      | none => dims dim
      | some v => some (((dims dim).getD ⟨[], 0⟩).record v) := by
  unfold updateDimensions
  rw [foldl_updateDimension e dimensions_nodup, if_pos (mem_dimensions dim)]
  unfold updateDimension
  cases observed R e dim with
  | none => rfl
  | some v => exact if_pos rfl

/-- The entry has a value of some dimension. -/
def hasObservation (R : Runtime) (e : LogEntry) : Bool :=
  dimensions.any fun dim => (observed R e dim).isSome

/-- A dictionary without a dimension. -/
def noDims : Dims := fun _ => none

theorem eq_noDims {dims : Dims} (h : dims.truthy = false) : dims = noDims := by
  funext dim
  have hall := List.any_eq_false.mp h dim (mem_dimensions dim)
  exact Option.not_isSome_iff_eq_none.mp hall

theorem updateDimensions_noObservation {e : LogEntry} (h : hasObservation R e = false)
    (dims : Dims) : updateDimensions R e dims = dims := by
  funext dim
  have hnone : observed R e dim = none :=
    Option.not_isSome_iff_eq_none.mp (List.any_eq_false.mp h dim (mem_dimensions dim))
  rw [updateDimensions_apply, hnone]

theorem updateDimensions_truthy {e : LogEntry} (h : hasObservation R e = true) (dims : Dims) :
    (updateDimensions R e dims).truthy = true := by
  obtain ⟨dim, hdim, hsome⟩ := List.any_eq_true.mp h
  obtain ⟨v, hv⟩ := Option.isSome_iff_exists.mp hsome
  refine List.any_eq_true.mpr ⟨dim, hdim, ?_⟩
  rw [updateDimensions_apply, hv]
  rfl

/-- What a flush leaves of the dimensions: what was there, or the first values. -/
theorem flushed_dimensions (e : LogEntry) (p : Profile) : (flushed R e p).dimensions =
    if p.dimensions.truthy then p.dimensions else updateDimensions R e noDims :=
  Held.flush_mutate Dims.truthy noDims p.dimensions (updateDimensions R e)

/-- And of the status codes. -/
theorem flushed_statusCodes (e : LogEntry) (p : Profile) : (flushed R e p).statusCodes =
    if p.statusCodes = [] then (statusStr e).elim [] fun code => [(code, 1)]
    else p.statusCodes := by
  cases hcode : statusStr e with
  | none =>
      have hsame : (flushed R e p).statusCodes = p.statusCodes := by
        show (statusStr e).elim p.statusCodes _ = _
        rw [hcode]
        rfl
      rw [hsame]
      split_ifs with hempty
      · exact hempty
      · rfl
  | some code =>
      have hflush : (flushed R e p).statusCodes = (heldCodes code p).flush p.statusCodes := by
        show (statusStr e).elim p.statusCodes _ = _
        rw [hcode]
        rfl
      have hmutate : (heldCodes code p).flush p.statusCodes =
          if !p.statusCodes.isEmpty then p.statusCodes else Codes.bump code [] :=
        Held.flush_mutate (fun codes : Codes => !codes.isEmpty) [] p.statusCodes (Codes.bump code)
      rw [hflush, hmutate]
      cases p.statusCodes with
      | nil => rfl
      | cons c codes => rfl

/-! ### Runs -/

/-- The profile of an endpoint. -/
def profileOf (db : Db) (method path : Text) : Option Profile :=
  db.profiles.find? (Profile.isOf method path)

/-- What is stored of an endpoint. -/
def storedDims (db : Db) (method path : Text) : Dims :=
  ((profileOf db method path).map Profile.dimensions).getD noDims

def storedCodes (db : Db) (method path : Text) : Codes :=
  ((profileOf db method path).map Profile.statusCodes).getD []

/-- An entry of an endpoint. -/
structure LogEntry.IsOf (R : Runtime) (method path : Text) (e : LogEntry) : Prop where
  method_eq : e.method = method
  method_ne : method ≠ []
  path_ne : e.path ≠ []
  path_eq : normalizePath R.tables e.path = path

theorem find?_upsert {α : Type} {found : α → Bool} {update : α → α} {new : α}
    (hupdate : ∀ a, found a = true → found (update a) = true) (hnew : found new = true)
    (as : List α) : (upsert found update new as).find? found =
      some ((as.find? found).elim new update) := by
  induction as with
  | nil => exact List.find?_cons_of_pos hnew
  | cons a as ih =>
      unfold upsert
      by_cases ha : found a = true
      · rw [if_pos ha, List.find?_cons_of_pos (hupdate a ha), List.find?_cons_of_pos ha]
        rfl
      · rw [if_neg ha, List.find?_cons_of_neg ha, List.find?_cons_of_neg ha, ih]

/-- **What an entry makes of the profile of its endpoint.** -/
theorem ingest_profile (db : Db) {method path : Text} {e : LogEntry} (h : e.IsOf R method path) :
    profileOf (ingest R db e) method path =
      some ((profileOf db method path).elim (newProfile R db.nextId path e) (flushed R e)) := by
  have hfields : ¬ (e.method = [] ∨ e.path = []) := by
    rintro (hm | hp)
    · exact h.method_ne (h.method_eq ▸ hm)
    · exact h.path_ne hp
  unfold ingest profileOf
  rw [if_neg hfields]
  dsimp only
  rw [h.path_eq, h.method_eq]
  have hflushed : ∀ p, Profile.isOf method path p = true →
      Profile.isOf method path (flushed R e p) = true := fun p hp => hp
  refine find?_upsert hflushed ?_ db.profiles
  show (e.method == method && path == path) = true
  rw [h.method_eq, beq_self_eq_true, beq_self_eq_true]
  rfl

theorem ingest_storedDims (db : Db) {method path : Text} {e : LogEntry} (h : e.IsOf R method path) :
    storedDims (ingest R db e) method path = if (storedDims db method path).truthy then
      storedDims db method path else updateDimensions R e noDims := by
  unfold storedDims
  rw [ingest_profile db h]
  cases profileOf db method path with
  | none => rfl
  | some p => exact flushed_dimensions e p

theorem ingest_storedCodes (db : Db) {method path : Text} {e : LogEntry}
    (h : e.IsOf R method path) : storedCodes (ingest R db e) method path =
      if storedCodes db method path = [] then (statusStr e).elim [] fun code => [(code, 1)]
      else storedCodes db method path := by
  unfold storedCodes
  rw [ingest_profile db h]
  cases profileOf db method path with
  | none => rfl
  | some p => exact flushed_statusCodes e p

/-- The values of the first entry that has some. -/
def firstDims (R : Runtime) (es : List LogEntry) : Dims :=
  ((es.filter (hasObservation R)).head?).elim noDims fun e => updateDimensions R e noDims

/-- The code of the first entry that has one. -/
def firstCodes (es : List LogEntry) : Codes :=
  ((es.filterMap statusStr).head?).elim [] fun code => [(code, 1)]

/-- **A run stores the values of the first entry that has some, and no others.** -/
theorem ingestAll_storedDims {method path : Text} {es : List LogEntry}
    (hes : ∀ e ∈ es, e.IsOf R method path) (db : Db) :
    storedDims (ingestAll R db es) method path = if (storedDims db method path).truthy then
      storedDims db method path else firstDims R es := by
  induction es generalizing db with
  | nil =>
      split_ifs with h
      · rfl
      · exact eq_noDims (Bool.not_eq_true _ ▸ h)
  | cons e es ih =>
      show storedDims (ingestAll R (ingest R db e) es) method path = _
      rw [ih fun e' he' => hes e' (List.mem_cons_of_mem _ he'),
        ingest_storedDims db (hes e List.mem_cons_self)]
      by_cases hstored : (storedDims db method path).truthy = true
      · rw [if_pos hstored, if_pos hstored, if_pos hstored]
      · rw [if_neg hstored, if_neg hstored]
        unfold firstDims
        by_cases hobs : hasObservation R e = true
        · rw [if_pos (updateDimensions_truthy hobs noDims), List.filter_cons_of_pos hobs]
          rfl
        · rw [updateDimensions_noObservation (Bool.not_eq_true _ ▸ hobs), if_neg (by decide),
            List.filter_cons_of_neg hobs]

theorem ingestAll_storedCodes {method path : Text} {es : List LogEntry}
    (hes : ∀ e ∈ es, e.IsOf R method path) (db : Db) :
    storedCodes (ingestAll R db es) method path = if storedCodes db method path = [] then
      firstCodes es else storedCodes db method path := by
  induction es generalizing db with
  | nil =>
      split_ifs with h
      · exact h
      · rfl
  | cons e es ih =>
      show storedCodes (ingestAll R (ingest R db e) es) method path = _
      rw [ih fun e' he' => hes e' (List.mem_cons_of_mem _ he'),
        ingest_storedCodes db (hes e List.mem_cons_self)]
      by_cases hstored : storedCodes db method path = []
      · rw [if_pos hstored, if_pos hstored]
        unfold firstCodes
        cases hcode : statusStr e with
        | none => rw [List.filterMap_cons_none hcode]; rfl
        | some code => rw [List.filterMap_cons_some hcode]; rfl
      · rw [if_neg hstored, if_neg hstored, if_neg hstored]

/-! ### What is stored -/

/-- Different values that occurred: all of them, or a thousand. -/
structure HoldsDistinct (stored occurred : List Text) : Prop where
  nodup : stored.Nodup
  bound : stored.length ≤ 1000
  sound : ∀ v ∈ stored, v ∈ occurred
  complete : (∀ v ∈ occurred, v ∈ stored) ∨ stored.length = 1000

/-- The observations of a dimension. -/
def observations (R : Runtime) (es : List LogEntry) (dim : Dimension) : List Text :=
  es.filterMap fun e => observed R e dim

/-- **What a profile is to hold of a sequence of entries.** -/
structure RightlyStored (R : Runtime) (es : List LogEntry) (dims : Dims) (codes : Codes) :
    Prop where
  values : ∀ dim, HoldsDistinct (dims.known dim) (observations R es dim)
  counts : ∀ dim, dims.count dim = (observations R es dim).length
  codes : ∀ code, codes.count code = (es.filterMap statusStr).count code

theorem observations_cons (e : LogEntry) (es : List LogEntry) (dim : Dimension) :
    observations R (e :: es) dim = (observed R e dim).toList ++ observations R es dim := by
  unfold observations
  rw [List.filterMap_cons]
  cases observed R e dim <;> rfl

theorem observations_filter (es : List LogEntry) (dim : Dimension) :
    observations R (es.filter (hasObservation R)) dim = observations R es dim := by
  induction es with
  | nil => rfl
  | cons e es ih =>
      rw [observations_cons]
      by_cases hobs : hasObservation R e = true
      · rw [List.filter_cons_of_pos hobs, observations_cons, ih]
      · have hnone : observed R e dim = none := Option.not_isSome_iff_eq_none.mp
          (List.any_eq_false.mp (Bool.not_eq_true _ ▸ hobs) dim (mem_dimensions dim))
        rw [List.filter_cons_of_neg hobs, hnone, ih]
        rfl

/-- What one entry leaves in an empty dictionary. -/
theorem updateDimensions_noDims (e : LogEntry) (dim : Dimension) :
    (updateDimensions R e noDims).known dim = (observed R e dim).toList ∧
      (updateDimensions R e noDims).count dim = (observed R e dim).toList.length := by
  unfold Dims.known Dims.count
  rw [updateDimensions_apply]
  cases observed R e dim with
  | none => exact ⟨rfl, rfl⟩
  | some v =>
      refine ⟨?_, rfl⟩
      show (DimData.record ⟨[], 0⟩ v).values = [v]
      simp [DimData.record]

theorem holdsDistinct_self {vs : List Text} (h : vs.length ≤ 1) : HoldsDistinct vs vs where
  nodup := by
    match vs, h with
    | [], _ => exact List.nodup_nil
    | [v], _ => exact List.nodup_singleton v
  bound := h.trans (by omega)
  sound _ hv := hv
  complete := .inl fun _ hv => hv

theorem firstCodes_count (es : List LogEntry) (code : Text) :
    (firstCodes es).count code = ((es.filterMap statusStr).take 1).count code := by
  unfold firstCodes
  cases es.filterMap statusStr with
  | nil => rfl
  | cons c codes =>
      show Codes.count [(c, 1)] code = [c].count code
      rw [List.count_singleton, Codes.count, List.find?_singleton]
      by_cases hc : (c == code) = true
      · rw [if_pos hc, if_pos hc]
        rfl
      · rw [if_neg hc, if_neg hc]
        rfl

private theorem two_of_many {α : Type} {as : List α} (h : ¬ as.length ≤ 1) :
    ∃ a b rest, as = a :: b :: rest := by
  match as, h with
  | [], h => exact absurd (Nat.zero_le 1) h
  | [a], h => exact absurd (le_refl 1) h
  | a :: b :: rest, _ => exact ⟨a, b, rest, rfl⟩

/-- The second entry with a value is not counted. -/
theorem firstDims_count_lt {es : List LogEntry}
    (h : ¬ (es.filter (hasObservation R)).length ≤ 1) :
    ∃ dim, (firstDims R es).count dim < (observations R es dim).length := by
  obtain ⟨e, e', rest, hfilter⟩ := two_of_many h
  have hobs : hasObservation R e' = true :=
    (List.mem_filter.mp (hfilter ▸ List.mem_cons_of_mem _ List.mem_cons_self)).2
  obtain ⟨dim, -, hsome⟩ := List.any_eq_true.mp hobs
  obtain ⟨v, hv⟩ := Option.isSome_iff_exists.mp hsome
  have hfirst : firstDims R es = updateDimensions R e noDims := by
    rw [firstDims, hfilter]
    rfl
  refine ⟨dim, ?_⟩
  rw [hfirst, (updateDimensions_noDims e dim).2, ← observations_filter es dim, hfilter,
    observations_cons, observations_cons, hv, List.length_append, List.length_append]
  show _ < _ + (1 + _)
  omega

/-- One entry with values is all there is. -/
theorem firstDims_one {es : List LogEntry} (h : (es.filter (hasObservation R)).length ≤ 1)
    (dim : Dimension) : (firstDims R es).known dim = observations R es dim ∧
      (firstDims R es).count dim = (observations R es dim).length := by
  rw [← observations_filter es dim, firstDims]
  generalize es.filter (hasObservation R) = filtered at h ⊢
  rcases filtered with _ | ⟨e, _ | ⟨e', rest⟩⟩
  · exact ⟨rfl, rfl⟩
  · have hlist : observations R [e] dim = (observed R e dim).toList := by
      rw [observations_cons]
      exact List.append_nil _
    rw [hlist]
    exact updateDimensions_noDims e dim
  · rw [List.length_cons, List.length_cons] at h
    omega

/-- **The profile is right about at most one entry**: exactly when no more than one has a
value of some dimension, and no more than one a status. -/
theorem rightlyStored_iff (R : Runtime) (db : Db) (method path : Text)
    (hnew : profileOf db method path = none) (es : List LogEntry)
    (hes : ∀ e ∈ es, e.IsOf R method path) :
    RightlyStored R es (storedDims (ingestAll R db es) method path)
        (storedCodes (ingestAll R db es) method path) ↔
      (es.filter (hasObservation R)).length ≤ 1 ∧ (es.filterMap statusStr).length ≤ 1 := by
  have hdims : storedDims (ingestAll R db es) method path = firstDims R es := by
    rw [ingestAll_storedDims hes, storedDims, hnew]
    rfl
  have hcodes : storedCodes (ingestAll R db es) method path = firstCodes es := by
    rw [ingestAll_storedCodes hes, storedCodes, hnew]
    rfl
  rw [hdims, hcodes]
  constructor
  · intro h
    constructor
    · by_contra hmany
      obtain ⟨dim, hlt⟩ := firstDims_count_lt hmany
      rw [h.counts dim] at hlt
      exact absurd hlt (lt_irrefl _)
    · by_contra hmany
      obtain ⟨c, c', rest, hlist⟩ := two_of_many hmany
      have hcount := h.codes c'
      rw [firstCodes_count, hlist, List.take_succ_cons, List.take_zero, List.count_cons,
        List.count_cons, List.count_cons_self, List.count_nil] at hcount
      omega
  · rintro ⟨hobs, hstatus⟩
    refine ⟨fun dim => ?_, fun dim => (firstDims_one hobs dim).2, fun code => ?_⟩
    · rw [(firstDims_one hobs dim).1]
      refine holdsDistinct_self ?_
      rw [← observations_filter es dim]
      exact (List.length_filterMap_le _ _).trans hobs
    · rw [firstCodes_count, List.take_of_length_le hstatus]

/-- An entry that says the method, the path and the content type. -/
def plainEntry (contentType : Text) : LogEntry where
  method := "POST".toList
  path := "/a".toList
  topKeys := none
  graphql := none
  contentType := some contentType
  authType := some none
  reqFp := none
  reqFpParamKeys := none
  reqFpParamTypes := none
  responseStatus := none
  listenerId := none
  requestId := none
  clientIp := none

/-- A runtime that prints nothing, for entries of texts. -/
def textRuntime : Runtime := ⟨fun _ => [], UnicodeTables.ascii⟩

theorem plainEntry_isOf (contentType : Text) :
    (plainEntry contentType).IsOf textRuntime "POST".toList "/a".toList :=
  ⟨rfl, by decide, show "/a".toList ≠ [] by decide,
    show normalizePath UnicodeTables.ascii "/a".toList = "/a".toList by decide⟩

/-- **The second entry is lost.** -/
theorem second_lost : ¬ ∀ (R : Runtime) (db : Db) (method path : Text),
    profileOf db method path = none → ∀ es : List LogEntry, (∀ e ∈ es, e.IsOf R method path) →
      RightlyStored R es (storedDims (ingestAll R db es) method path)
        (storedCodes (ingestAll R db es) method path) := by
  intro hall
  have hes : ∀ e ∈ [plainEntry ['x'], plainEntry ['y']],
      e.IsOf textRuntime "POST".toList "/a".toList := by
    intro e he
    rcases List.mem_pair.mp he with rfl | rfl
    · exact plainEntry_isOf ['x']
    · exact plainEntry_isOf ['y']
  have hstored := hall textRuntime ⟨[], [], 1⟩ _ _ rfl _ hes
  have hcount := hstored.counts .contentType
  revert hcount
  decide

/-- One entry is stored. -/
theorem rightlyStored_iff_plain :
    RightlyStored textRuntime [plainEntry ['x']]
        (storedDims (ingestAll textRuntime ⟨[], [], 1⟩ [plainEntry ['x']]) "POST".toList "/a".toList)
        (storedCodes (ingestAll textRuntime ⟨[], [], 1⟩ [plainEntry ['x']]) "POST".toList
          "/a".toList) ↔
      ([plainEntry ['x']].filter (hasObservation textRuntime)).length ≤ 1 ∧
        ([plainEntry ['x']].filterMap statusStr).length ≤ 1 :=
  rightlyStored_iff textRuntime ⟨[], [], 1⟩ _ _ rfl _ fun _ he =>
    List.mem_singleton.mp he ▸ plainEntry_isOf ['x']

/-! ### Learned profiles -/

/-- A dimension of an entry has a value that is not in a baseline. -/
def UnseenIn (R : Runtime) (baseline : Dims) (e : LogEntry) (dim : Dimension) : Prop :=
  ∃ v, observed R e dim = some v ∧ v ∉ baseline.known dim

/-- **What a baseline is for**: an entry with an unseen value is reported for one, and no
entry enlarges the baseline. -/
structure BaselineGuarded (R : Runtime) (db : Db) (method path : Text) (baseline : Dims)
    (es : List LogEntry) : Prop where
  reported : ∀ pre e post, es = pre ++ e :: post → (∃ dim, UnseenIn R baseline e dim) →
    ∃ a : Anomaly, (ingestAll R db (pre ++ [e])).anomalies = (ingestAll R db pre).anomalies ++ [a] ∧
      a.method = method ∧ a.path = path ∧ UnseenIn R baseline e a.dimension
  kept : ∀ pre, pre <+: es → storedDims (ingestAll R db pre) method path = baseline

/-- What is recorded before the check is seen, but for full dimensions. -/
theorem record_contains (d : DimData) (v : Text) :
    v ∈ (d.record v).values ↔ v ∈ d.values ∨ d.values.length < 1000 := by
  unfold DimData.record
  split_ifs with h
  · simp [h.2]
  · constructor
    · exact .inl
    · rintro (hv | hlt)
      · exact hv
      · by_contra hv
        exact h ⟨hv, hlt⟩

/-- **The check after the record**: a value is unseen where the dimension is full. -/
theorem checkAnomaly_updated (dims : Dims) (e : LogEntry) (dim : Dimension) :
    (observed R e dim).any (fun v => !((updateDimensions R e dims).known dim).contains v) = true ↔
      UnseenIn R dims e dim ∧ 1000 ≤ (dims.known dim).length := by
  unfold UnseenIn
  cases hv : observed R e dim with
  | none => simp
  | some v =>
      have hknown : (updateDimensions R e dims).known dim =
          (((dims dim).getD ⟨[], 0⟩).record v).values := by
        rw [Dims.known, updateDimensions_apply, hv]
        rfl
      have hvalues : ((dims dim).getD ⟨[], 0⟩).values = dims.known dim := by
        unfold Dims.known
        cases dims dim <;> rfl
      rw [Option.any_some, hknown, Bool.not_eq_true', List.contains_eq_mem, decide_eq_false_iff_not,
        record_contains, hvalues, not_or, not_lt]
      simp

/-- The anomaly of an entry of a learned profile. -/
theorem anomalyOf_learned {path : Text} {e : LogEntry} {p : Profile} (hlearned : p.learned = true) :
    (∀ a, anomalyOf R path e p = some a → a.method = e.method ∧ a.path = path ∧
      (observed R e a.dimension).any
        (fun v => !((heldDimensions R e p).value.known a.dimension).contains v) = true) ∧
      ((anomalyOf R path e p).isSome ↔ ∃ dim, (observed R e dim).any
        (fun v => !((heldDimensions R e p).value.known dim).contains v) = true) := by
  unfold anomalyOf checkAnomaly
  dsimp only
  rw [if_pos hlearned]
  constructor
  · intro a ha
    obtain ⟨dim, hfind, rfl⟩ := Option.map_eq_some_iff.mp ha
    exact ⟨rfl, rfl, by simpa using List.find?_some hfind⟩
  · rw [Option.isSome_map, List.find?_isSome]
    exact ⟨fun ⟨dim, _, h⟩ => ⟨dim, h⟩, fun ⟨dim, h⟩ => ⟨dim, mem_dimensions dim, h⟩⟩

theorem ingest_anomalies (db : Db) {method path : Text} {e : LogEntry} (h : e.IsOf R method path) :
    (ingest R db e).anomalies =
      db.anomalies ++ ((profileOf db method path).bind (anomalyOf R path e)).toList := by
  have hfields : ¬ (e.method = [] ∨ e.path = []) := by
    rintro (hm | hp)
    · exact h.method_ne (h.method_eq ▸ hm)
    · exact h.path_ne hp
  unfold ingest profileOf
  rw [if_neg hfields]
  dsimp only
  rw [h.path_eq, h.method_eq]

theorem heldDimensions_value (e : LogEntry) (p : Profile) :
    (heldDimensions R e p).value = updateDimensions R e p.dimensions := by
  unfold heldDimensions
  rw [Held.mutate_value, Held.orNew_value]
  by_cases h : p.dimensions.truthy = true
  · rw [if_pos h]
  · have hnone : p.dimensions = noDims := eq_noDims (Bool.not_eq_true _ ▸ h)
    rw [if_neg h, hnone]
    rfl

/-- A profile with enough samples becomes a learned one, of what it holds. -/
theorem finalizeProfile_learned {db : Db} {method path : Text} {p : Profile}
    (hp : profileOf db method path = some p) {minSamples : Nat} (h : minSamples ≤ p.sampleCount) :
    ∃ q, profileOf (finalizeProfile minSamples p.id db) method path = some q ∧
      q.learned = true ∧ q.dimensions = p.dimensions := by
  refine ⟨{ p with learned := true }, ?_, rfl, rfl⟩
  unfold profileOf finalizeProfile at *
  rw [List.find?_map]
  have hsame : (Profile.isOf method path ∘ fun q : Profile =>
      if q.id = p.id ∧ minSamples ≤ q.sampleCount then { q with learned := true } else q) =
      Profile.isOf method path := by
    funext q
    show Profile.isOf method path (if _ then _ else q) = _
    split_ifs
    · rfl
    · rfl
  rw [hsame, hp, Option.map_some, if_pos ⟨rfl, h⟩]

/-- A learned profile stays, and stays learned. -/
theorem ingestAll_learned {method path : Text} {es : List LogEntry}
    (hes : ∀ e ∈ es, e.IsOf R method path) {db : Db} {p : Profile}
    (hp : profileOf db method path = some p) (hlearned : p.learned = true) :
    ∃ q, profileOf (ingestAll R db es) method path = some q ∧ q.learned = true := by
  induction es generalizing db p with
  | nil => exact ⟨p, hp, hlearned⟩
  | cons e es ih =>
      have hstep : profileOf (ingest R db e) method path = some (flushed R e p) := by
        rw [ingest_profile db (hes e List.mem_cons_self), hp]
        rfl
      exact ih (fun e' he' => hes e' (List.mem_cons_of_mem _ he')) hstep hlearned

/-- **When a baseline guards**: exactly when every entry with an unseen value has one in a
dimension that is full. -/
theorem baselineGuarded_iff (R : Runtime) (db : Db) (method path : Text) (p : Profile)
    (hp : profileOf db method path = some p) (hlearned : p.learned = true) (es : List LogEntry)
    (hes : ∀ e ∈ es, e.IsOf R method path) :
    BaselineGuarded R db method path p.dimensions es ↔
      ∀ e ∈ es, (∃ dim, UnseenIn R p.dimensions e dim) →
        ∃ dim, UnseenIn R p.dimensions e dim ∧ 1000 ≤ (p.dimensions.known dim).length := by
  -- the anomaly of an entry, while the baseline is what it was
  have hstep : ∀ pre e post, es = pre ++ e :: post →
      storedDims (ingestAll R db pre) method path = p.dimensions →
      ∃ q : Profile, q.learned = true ∧
        (heldDimensions R e q).value = updateDimensions R e p.dimensions ∧
        (ingestAll R db (pre ++ [e])).anomalies =
          (ingestAll R db pre).anomalies ++ (anomalyOf R path e q).toList := by
    intro pre e post hsplit hkept
    have hpre : ∀ e' ∈ pre, e'.IsOf R method path := fun e' he' =>
      hes e' (hsplit ▸ List.mem_append_left _ he')
    have he : e.IsOf R method path :=
      hes e (hsplit ▸ List.mem_append_right _ List.mem_cons_self)
    obtain ⟨q, hq, hqlearned⟩ := ingestAll_learned hpre hp hlearned
    have hdims : q.dimensions = p.dimensions := by
      rw [← hkept, storedDims, hq]
      rfl
    refine ⟨q, hqlearned, by rw [heldDimensions_value, hdims], ?_⟩
    have hrun : ingestAll R db (pre ++ [e]) = ingest R (ingestAll R db pre) e :=
      List.foldl_concat _ _ _ _
    rw [hrun, ingest_anomalies _ he, hq]
    rfl
  constructor
  · intro hguard e he hunseen
    obtain ⟨pre, post, hsplit⟩ := List.append_of_mem he
    have hkept := hguard.kept pre (hsplit ▸ List.prefix_append pre (e :: post))
    obtain ⟨q, hqlearned, hheld, hanomalies⟩ := hstep pre e post hsplit hkept
    obtain ⟨a, ha, -, -, -⟩ := hguard.reported pre e post hsplit hunseen
    rw [hanomalies] at ha
    have hsome : anomalyOf R path e q = some a := by
      have htoList := List.append_cancel_left ha
      cases hq : anomalyOf R path e q with
      | none =>
          rw [hq] at htoList
          cases htoList
      | some b =>
          rw [hq] at htoList
          rw [(List.cons.inj htoList).1]
    have hunknown := ((anomalyOf_learned hqlearned).1 a hsome).2.2
    rw [hheld] at hunknown
    exact ⟨a.dimension, (checkAnomaly_updated p.dimensions e a.dimension).mp hunknown⟩
  · intro hfull
    have hkept : ∀ pre, pre <+: es →
        storedDims (ingestAll R db pre) method path = p.dimensions := by
      intro pre hpre
      have hdims : storedDims db method path = p.dimensions := by
        rw [storedDims, hp]
        rfl
      rw [ingestAll_storedDims fun e he => hes e (hpre.subset he), hdims]
      by_cases htruthy : p.dimensions.truthy = true
      · rw [if_pos htruthy]
      · -- nothing was learned, and nothing is to be learned
        have hnone := eq_noDims (Bool.not_eq_true _ ▸ htruthy)
        have hnothing : pre.filter (hasObservation R) = [] := by
          refine List.filter_eq_nil_iff.mpr fun e he hobs => ?_
          obtain ⟨dim, -, hsome⟩ := List.any_eq_true.mp hobs
          obtain ⟨v, hv⟩ := Option.isSome_iff_exists.mp hsome
          have hunseen : UnseenIn R p.dimensions e dim := ⟨v, hv, by rw [hnone]; exact List.not_mem_nil⟩
          obtain ⟨dim', -, hlength⟩ := hfull e (hpre.subset he) ⟨dim, hunseen⟩
          rw [hnone] at hlength
          exact absurd hlength (show ¬ 1000 ≤ 0 by decide)
        rw [if_neg htruthy, firstDims, hnothing, hnone]
        rfl
    refine ⟨fun pre e post hsplit hunseen => ?_, hkept⟩
    have he : e ∈ es := hsplit ▸ List.mem_append_right _ List.mem_cons_self
    obtain ⟨q, hqlearned, hheld, hanomalies⟩ := hstep pre e post hsplit
      (hkept pre (hsplit ▸ List.prefix_append pre (e :: post)))
    obtain ⟨dim, hdim⟩ := hfull e he hunseen
    have hunknown := (checkAnomaly_updated p.dimensions e dim).mpr hdim
    rw [← hheld] at hunknown
    obtain ⟨a, ha⟩ := Option.isSome_iff_exists.mp
      ((anomalyOf_learned hqlearned).2.mpr ⟨dim, hunknown⟩)
    obtain ⟨hmethod, hpath, hnamed⟩ := (anomalyOf_learned hqlearned).1 a ha
    rw [hheld] at hnamed
    refine ⟨a, by rw [hanomalies, ha]; rfl, hmethod.trans (hes e he).method_eq, hpath, ?_⟩
    exact ((checkAnomaly_updated p.dimensions e a.dimension).mp hnamed).1

/-- A profile that has learned one content type. -/
def learnedProfile : Profile where
  id := 1
  method := "POST".toList
  path := "/a".toList
  dimensions := updateDimensions textRuntime (plainEntry ['x']) noDims
  sampleCount := 1
  statusCodes := []
  learned := true

/-- **The check never fails**: another content type is recorded, and then known. -/
theorem anomaly_unreported : ¬ ∀ (R : Runtime) (db : Db) (method path : Text) (p : Profile),
    profileOf db method path = some p → p.learned = true → ∀ es : List LogEntry,
      (∀ e ∈ es, e.IsOf R method path) → BaselineGuarded R db method path p.dimensions es := by
  intro hall
  have hguard := hall textRuntime ⟨[learnedProfile], [], 2⟩ "POST".toList "/a".toList
    learnedProfile rfl rfl [plainEntry ['y']] fun _ he =>
      List.mem_singleton.mp he ▸ plainEntry_isOf ['y']
  have hunseen : UnseenIn textRuntime learnedProfile.dimensions (plainEntry ['y']) .contentType :=
    ⟨['y'], rfl, by decide⟩
  obtain ⟨a, ha, -⟩ := hguard.reported [] (plainEntry ['y']) [] rfl ⟨_, hunseen⟩
  have hnone : (ingestAll textRuntime ⟨[learnedProfile], [], 2⟩ [plainEntry ['y']]).anomalies = [] := by
    decide
  cases hnone.symm.trans ha

/-- What was learned is not reported. -/
theorem baselineGuarded_iff_learned :
    BaselineGuarded textRuntime ⟨[learnedProfile], [], 2⟩ "POST".toList "/a".toList
        learnedProfile.dimensions [plainEntry ['x']] ↔
      ∀ e ∈ [plainEntry ['x']], (∃ dim, UnseenIn textRuntime learnedProfile.dimensions e dim) →
        ∃ dim, UnseenIn textRuntime learnedProfile.dimensions e dim ∧
          1000 ≤ (learnedProfile.dimensions.known dim).length :=
  baselineGuarded_iff textRuntime ⟨[learnedProfile], [], 2⟩ _ _ learnedProfile rfl rfl _
    fun _ he => List.mem_singleton.mp he ▸ plainEntry_isOf ['x']

end CorexManager.Profiler
