import CorexManager.ApiArmor.Profiler
import CorexManager.ApiArmor.SchemaGate

/-!
# The two checks against a learned profile

`write_api_armor_profiles` writes the learned profiles for the body parser, whose
`check_profile_anomaly` denies what deviates; `check_anomaly` of the profiler reads the
same profiles in the database.

* `writtenProfiles` — the profiles as the body parser loads them.
* `checkProfileAnomaly_iff` — what the body parser finds, in terms of the baseline.
* `checks_agree_iff` — for which requests the two checks agree.
-/

namespace CorexManager.Profiler

open Data
open HAProxy (Txn)

/-! ### The file -/

/-- The values of a dimension, as JSON. -/
def DimData.json (d : DimData) : Json :=
  .obj [("values".toList, .arr (d.values.map .str)), ("count".toList, .num (.int d.count))]

/-- The dictionary of dimensions, as JSON. -/
def Dims.fields (dims : Dims) : List (Text × Json) :=
  dimensions.filterMap fun dim => (dims dim).map fun d => (dim.name, d.json)

/-- What the body parser reads of a profile. -/
def Profile.written (p : Profile) : ApiArmor.Profile := ⟨p.method, p.path, .obj p.dimensions.fields⟩

/-- `write_api_armor_profiles`: the learned ones. -/
def writtenProfiles (table : List Profile) : List ApiArmor.Profile :=
  (table.filter (·.learned)).map Profile.written

/-- The body parser once it has loaded the file. -/
def withProfiles (H : ApiArmor.Host) (table : List Profile) : ApiArmor.Host :=
  { H with data := { H.data with profiles := writtenProfiles table } }

/-! ### A request -/

/-- What both checks are about. -/
structure Request where
  method : Text
  path : Text
  contentType : Text
  authType : Text
  /-- The body, when it is JSON. -/
  json : Option Json

/-- The entry `write_profiling_log` writes of a request, without the fingerprint. -/
def Request.entry (r : Request) : LogEntry where
  method := r.method
  path := r.path
  topKeys := r.json.map fun json => ((json.asObject.map (List.map Prod.fst)).getD [])
  graphql := none
  contentType := some r.contentType
  authType := some (some r.authType)
  reqFp := none
  reqFpParamKeys := none
  reqFpParamTypes := none
  responseStatus := none
  listenerId := none
  requestId := none
  clientIp := none

/-- The dimensions the body parser evaluates. -/
def parserDimensions : List Dimension := [.bodyStructure, .contentType, .authType]

/-- `check_anomaly` on some dimensions. -/
def checkAnomalyOn (R : Runtime) (ds : List Dimension) (dims : Dims) (e : LogEntry) :
    Option Dimension :=
  ds.find? fun dim => (observed R e dim).any fun v => !(dims.known dim).contains v

theorem checkAnomaly_eq (R : Runtime) (dims : Dims) (e : LogEntry) :
    checkAnomaly R dims e = checkAnomalyOn R dimensions dims e := rfl

/-- The request deviates from a baseline. -/
def Deviates (R : Runtime) (p : Profile) (r : Request) : Prop :=
  ∃ dim ∈ parserDimensions, UnseenIn R p.dimensions r.entry dim

theorem checkAnomalyOn_isSome (R : Runtime) (p : Profile) (r : Request) :
    (checkAnomalyOn R parserDimensions p.dimensions r.entry).isSome = true ↔ Deviates R p r := by
  unfold checkAnomalyOn Deviates UnseenIn
  rw [List.find?_isSome]
  refine exists_congr fun dim => and_congr_right fun _ => ?_
  rw [Option.any_eq_true]
  refine exists_congr fun v => and_congr_right fun _ => ?_
  rw [Bool.not_eq_true', List.contains_eq_mem, decide_eq_false_iff_not]

/-! ### What the body parser finds -/

/-- A recorded dimension without a value. -/
def Outside (p : Profile) (dim : Dimension) (v : Text) : Prop :=
  ∃ d, p.dimensions dim = some d ∧ v ∉ d.values

/-- The profile the body parser takes. -/
def parserProfile (table : List Profile) (r : Request) : Option Profile :=
  (table.filter (·.learned)).find? fun p =>
    Rust.eqIgnoreAsciiCase p.method r.method && p.path == ApiArmor.normalizePath r.path

theorem findProfile_written (H : ApiArmor.Host) (table : List Profile) (r : Request) :
    (withProfiles H table).findProfile r.method r.path =
      (parserProfile table r).map Profile.written := by
  show (writtenProfiles table).find? _ = _
  unfold writtenProfiles parserProfile
  rw [List.find?_map]
  rfl

/-- A text is outside of a written dimension when it is none of its values. -/
theorem outsideSet_json (v : Text) (d : DimData) :
    ApiArmor.outsideSet (.str v) d.json = true ↔ v ∉ d.values := by
  have hmem : Json.str v ∈ d.values.map Json.str ↔ v ∈ d.values := by
    constructor
    · intro h
      obtain ⟨w, hw, heq⟩ := List.mem_map.mp h
      rwa [← Json.str.inj heq]
    · exact List.mem_map_of_mem
  have hvalues : (d.json.get "values".toList).getD d.json = .arr (d.values.map .str) := rfl
  unfold ApiArmor.outsideSet
  rw [hvalues]
  show (!(d.values.map Json.str).contains (.str v)) = true ↔ _
  rw [Bool.not_eq_true', ← Bool.not_eq_true, List.contains_iff_mem, hmem]

theorem mem_fields {dims : Dims} {f : Text × Json} :
    f ∈ dims.fields ↔ ∃ dim d, dims dim = some d ∧ f = (dim.name, d.json) := by
  unfold Dims.fields
  rw [List.mem_filterMap]
  constructor
  · rintro ⟨dim, -, hf⟩
    obtain ⟨d, hd, rfl⟩ := Option.map_eq_some_iff.mp hf
    exact ⟨dim, d, hd, rfl⟩
  · rintro ⟨dim, d, hd, rfl⟩
    exact ⟨dim, mem_dimensions dim, by rw [hd]; rfl⟩

theorem name_inj {a b : Dimension} (h : a.name = b.name) : a = b := by
  revert h
  cases a <;> cases b <;> decide

/-- What the body parser observes is the content type and the type of the credentials. -/
theorem observation_get (a b : Json) (dim : Dimension) :
    (Json.obj [("content_type".toList, a), ("auth_type".toList, b)]).get dim.name =
      match dim with
      | .contentType => some a
      | .authType => some b
      | _ => none := by
  cases dim <;> rfl

/-- **What the body parser finds**: a recorded structure of the body, whatever it is, or a
content type or credentials outside of what was recorded. -/
theorem checkProfileAnomaly_iff (H : ApiArmor.Host) (table : List Profile) (t : Txn) (r : Request) :
    (withProfiles H table).checkProfileAnomaly t r.method r.path r.contentType r.authType = true ↔
      ∃ p, parserProfile table r = some p ∧ ((p.dimensions .bodyStructure).isSome = true ∨
        Outside p .contentType r.contentType ∨ Outside p .authType r.authType) := by
  unfold ApiArmor.Host.checkProfileAnomaly
  rw [findProfile_written]
  cases parserProfile table r with
  | none => simp
  | some p =>
      have hobserved : (p.dimensions.fields.any fun d => ((Json.obj [("content_type".toList,
          .str r.contentType), ("auth_type".toList, .str r.authType)]).get d.1).any
            (ApiArmor.outsideSet · d.2)) = true ↔
          Outside p .contentType r.contentType ∨ Outside p .authType r.authType := by
        rw [List.any_eq_true]
        constructor
        · rintro ⟨f, hf, hany⟩
          obtain ⟨dim, d, hd, rfl⟩ := mem_fields.mp hf
          rw [observation_get] at hany
          cases dim with
          | contentType => exact .inl ⟨d, hd, (outsideSet_json _ d).mp hany⟩
          | authType => exact .inr ⟨d, hd, (outsideSet_json _ d).mp hany⟩
          | _ => cases hany
        · rintro (⟨d, hd, hv⟩ | ⟨d, hd, hv⟩)
          · refine ⟨_, mem_fields.mpr ⟨.contentType, d, hd, rfl⟩, ?_⟩
            rw [observation_get]
            exact (outsideSet_json _ d).mpr hv
          · refine ⟨_, mem_fields.mpr ⟨.authType, d, hd, rfl⟩, ?_⟩
            rw [observation_get]
            exact (outsideSet_json _ d).mpr hv
      -- an object is no set of values
      have hbody : (((Json.obj p.dimensions.fields).get "body_structure".toList).any fun allowed =>
          !ApiArmor.isValueInSet ((withProfiles H table).topKeys t) allowed) = true ↔
          (p.dimensions .bodyStructure).isSome = true := by
        unfold Json.get
        rw [Option.any_map, Option.any_eq_true]
        constructor
        · rintro ⟨f, hf, -⟩
          obtain ⟨dim, d, hd, rfl⟩ := mem_fields.mp (List.mem_of_find?_eq_some hf)
          have hfound := List.find?_some hf
          have hname : dim.name = Dimension.bodyStructure.name := beq_iff_eq.mp hfound
          rw [← name_inj hname, hd]
          rfl
        · intro hsome
          obtain ⟨d, hd⟩ := Option.isSome_iff_exists.mp hsome
          have hfound : (p.dimensions.fields.find? fun f => f.1 == "body_structure".toList).isSome := by
            rw [List.find?_isSome]
            exact ⟨_, mem_fields.mpr ⟨.bodyStructure, d, hd, rfl⟩, beq_self_eq_true _⟩
          obtain ⟨f, hf⟩ := Option.isSome_iff_exists.mp hfound
          obtain ⟨dim, d', -, rfl⟩ := mem_fields.mp (List.mem_of_find?_eq_some hf)
          exact ⟨_, hf, rfl⟩
      show (_ || _) = true ↔ _
      rw [Bool.or_eq_true, hobserved, hbody]
      simp [or_comm, or_assoc]

/-! ### The two checks -/

/-- The profile of a request in the database, when it is learned. -/
def IsProfileOf (R : Runtime) (table : List Profile) (r : Request) (p : Profile) : Prop :=
  table.find? (Profile.isOf r.method (normalizePath R.tables r.path)) = some p ∧ p.learned = true

/-- The two checks of a request agree. -/
def ChecksAgree (R : Runtime) (H : ApiArmor.Host) (table : List Profile) (t : Txn) (r : Request)
    (p : Profile) : Prop :=
  (withProfiles H table).checkProfileAnomaly t r.method r.path r.contentType r.authType = true ↔
    (checkAnomalyOn R parserDimensions p.dimensions r.entry).isSome = true

/-- The content type or the credentials are outside of what was recorded. -/
def OutsideTypes (p : Profile) (r : Request) : Prop :=
  Outside p .contentType r.contentType ∨ Outside p .authType r.authType

/-- When they do.  A body parser that takes no profile of the request misses what deviates;
one that takes a profile with a structure of the body denies everything; otherwise the one
profile has to have recorded a type the request deviates in, and another one to be left in
the same requests. -/
def LinesUp (R : Runtime) (table : List Profile) (r : Request) (p : Profile) : Prop :=
  match parserProfile table r with
  | none => ¬ Deviates R p r
  | some q =>
      ((q.dimensions .bodyStructure).isSome = true → Deviates R p r) ∧
      ((q.dimensions .bodyStructure).isSome = false →
        (q = p → Deviates R p r → OutsideTypes p r) ∧
        (q ≠ p → (Deviates R p r ↔ OutsideTypes q r)))

/-- What is outside of the recorded types deviates. -/
theorem deviates_of_outsideTypes (R : Runtime) {p : Profile} {r : Request} (h : OutsideTypes p r) :
    Deviates R p r := by
  have hunseen : ∀ {dim : Dimension} {v : Text}, observed R r.entry dim = some v →
      Outside p dim v → UnseenIn R p.dimensions r.entry dim := by
    rintro dim v hv ⟨d, hd, hnot⟩
    refine ⟨v, hv, ?_⟩
    rw [Dims.known, hd]
    exact hnot
  rcases h with h | h
  · exact ⟨.contentType, by decide, hunseen rfl h⟩
  · exact ⟨.authType, by decide, hunseen rfl h⟩

/-- **When the two checks agree.** -/
theorem checks_agree_iff (R : Runtime) (H : ApiArmor.Host) (table : List Profile) (t : Txn)
    (r : Request) (p : Profile) : ChecksAgree R H table t r p ↔ LinesUp R table r p := by
  unfold ChecksAgree LinesUp
  rw [checkProfileAnomaly_iff, checkAnomalyOn_isSome]
  cases parserProfile table r with
  | none => simp
  | some q =>
      have hfound : (∃ p', some q = some p' ∧ ((p'.dimensions .bodyStructure).isSome = true ∨
          Outside p' .contentType r.contentType ∨ Outside p' .authType r.authType)) ↔
          ((q.dimensions .bodyStructure).isSome = true ∨ OutsideTypes q r) := by
        simp [OutsideTypes]
      rw [hfound]
      dsimp only
      by_cases hbody : (q.dimensions .bodyStructure).isSome = true
      · simp [hbody]
      · rw [Bool.not_eq_true] at hbody
        rw [hbody]
        by_cases hsame : q = p
        · subst hsame
          have hback := deviates_of_outsideTypes R (p := q) (r := r)
          simp only [Bool.false_eq_true, false_or, false_implies, true_and, true_implies, ne_eq,
            not_true_eq_false, and_true]
          exact ⟨fun h => h.mpr, fun h => ⟨hback, h⟩⟩
        · simp only [Bool.false_eq_true, false_or, false_implies, true_and, true_implies, ne_eq,
            hsame, not_false_eq_true]
          exact ⟨Iff.symm, Iff.symm⟩

/-- A printer, on a list of the key `k`. -/
def keyRuntime : Runtime where
  dumps json := if json = .arr [.str ['k']] then "[\"k\"]".toList else []
  tables := Python.UnicodeTables.ascii

/-- A profile that has recorded JSON bodies with the key `k`. -/
def bodyProfile : Profile where
  id := 1
  method := "POST".toList
  path := "/a".toList
  dimensions dim := if dim = .bodyStructure then some ⟨["[\"k\"]".toList], 1⟩
    else if dim = .contentType then some ⟨["application/json".toList], 1⟩
    else if dim = .authType then some ⟨[['n']], 1⟩ else none
  sampleCount := 1
  statusCodes := []
  learned := true

/-- The request it was learned from. -/
def learnedRequest : Request where
  method := "POST".toList
  path := "/a".toList
  contentType := "application/json".toList
  authType := ['n']
  json := some (.obj [(['k'], .null)])

/-- **A learned request is denied**: no structure of a body is in the object that records
them. -/
theorem learned_denied : ¬ ∀ (R : Runtime) (H : ApiArmor.Host) (table : List Profile) (t : Txn)
    (r : Request) (p : Profile), IsProfileOf R table r p → ChecksAgree R H table t r p := by
  intro hall
  have hprofile : IsProfileOf keyRuntime [bodyProfile] learnedRequest bodyProfile :=
    ⟨List.find?_cons_of_pos (by decide), rfl⟩
  have hagree := hall keyRuntime ApiArmor.ordersHost [bodyProfile] (ApiArmor.emptyOrder [])
    learnedRequest bodyProfile hprofile
  have hparser : parserProfile [bodyProfile] learnedRequest = some bodyProfile :=
    List.find?_cons_of_pos (by decide)
  have hdenied := (checkProfileAnomaly_iff ApiArmor.ordersHost [bodyProfile]
    (ApiArmor.emptyOrder []) learnedRequest).mpr ⟨bodyProfile, hparser, .inl rfl⟩
  have hreported := hagree.mp hdenied
  revert hreported
  decide

end CorexManager.Profiler
