import CorexManager.ApiArmor.SchemaStore
import CorexManager.Data.Store
import CorexManager.Logic.Priority

/-!
# The files of response transforms

`write_resp_transform_files` of `services/resp_transform.py`: the rules of a backend are written
to a file named by sanitizing its name, in a directory that also holds the configuration of the
query action under a name of its own; files that are not expected are removed.

* `writeFiles` — the directory after a run.
* `Served` — every backend finds its own rules, or no file, and no file is written twice.
* `servedRules_iff` — exactly when no two backends of which one has rules share a file name, and none
  has that of the query action.
-/

namespace CorexManager.TransformFiles

open ApiArmor (filenameChar stripChars)
open Data (Store Text)
open Priority (sortByKey)

/-! ### Backends and transforms -/

/-- A row of `backends`. -/
structure Backend where
  id : Nat
  name : Text
  deriving DecidableEq

/-- A row of `response_transforms`; what else it has is in `spec`. -/
structure Transform (α : Type*) where
  backendId : Option Nat
  backendIds : List Nat
  priority : Int
  enabled : Bool
  spec : α

/-- The settings of the beacon. -/
structure Beacon where
  enabled : Bool
  trustEnabled : Bool
  backendIds : List Nat

/-- What a file holds: the rules of a backend, or the configuration of the query action. -/
inductive Content (β γ : Type*) where
  | rules (rules : List β)
  | queryDetokenize (config : γ)
  deriving DecidableEq

/-- `_matches_backend`.  An id of zero is none. -/
def matchesBackend {α : Type*} (t : Transform α) (b : Backend) : Bool :=
  t.enabled && (t.backendId.any (fun id => id ≠ 0 && id = b.id) || t.backendIds.contains b.id ||
    (t.backendId.all (fun id => id = 0) && t.backendIds.isEmpty))

/-- `_safe_path_name`; no white space is left for its last `strip`. -/
def safePathName (name : Text) : Text :=
  let cleaned := stripChars (fun c => c == '_' || c == '.' || c == '-')
    (name.map fun c => if filenameChar c then c else '_')
  if cleaned = [] then "unnamed".toList else cleaned

/-- The file of a backend, which its filter reads. -/
def fileOf (b : Backend) : Text := safePathName b.name ++ ".json".toList

/-- `QUERY_DETOKENIZE_FILENAME`. -/
def queryDetokenizeFile : Text := "query_detokenize".toList ++ ".json".toList

section Write

variable {α β γ : Type*}

/-- The database: the rows in the order of the queries. -/
structure Database (α : Type*) where
  backends : List Backend
  transforms : List (Transform α)
  beacon : Beacon

/-- How rules are written: `_rule_to_dict`, `build_beacon_rule` and
`_build_query_detok_config`. -/
structure Writer (α β γ : Type*) where
  ruleToDict : Transform α → β
  beaconRule : Beacon → β
  queryDetok : List (Transform α) → γ

variable (W : Writer α β γ) (db : Database α)

/-- The beacon is injected into the responses of a backend. -/
def hasBeacon (b : Backend) : Bool :=
  (db.beacon.enabled || db.beacon.trustEnabled) &&
    (db.beacon.backendIds.isEmpty || db.beacon.backendIds.contains b.id)

/-- The transforms that apply to a backend, in the order of their priority. -/
def applicable (b : Backend) : List (Transform α) :=
  (sortByKey Transform.priority db.transforms).filter fun t => matchesBackend t b

/-- The rules of a backend. -/
def rulesOf (b : Backend) : List β :=
  (if hasBeacon db b then [W.beaconRule db.beacon] else []) ++
    (applicable db b).map W.ruleToDict

/-- `_build_resp_transform_configs`: the assignments to its dict. -/
def configs : List (Text × Content β γ) :=
  (db.backends.filter fun b => !(rulesOf W db b).isEmpty).map fun b =>
    (fileOf b, .rules (rulesOf W db b))

/-- The files that are written, with that of `write_query_detokenize_config` at the end. -/
def writes : List (Text × Content β γ) :=
  configs W db ++ [(queryDetokenizeFile, .queryDetokenize (W.queryDetok db.transforms))]

/-- `write_resp_transform_files`: a file that is not expected is removed if it is JSON. -/
def writeFiles (dir : Store Text (Content β γ)) : Store Text (Content β γ) :=
  (dir.writeAll (writes W db)).keep fun file =>
    !(".json".toList.isSuffixOf file) || ((writes W db).map Prod.fst).contains file

/-! ### Backends with files of their own -/

/-- **Every backend is served**: it finds its rules in its file, or no file when it has none, and
no file is written twice. -/
structure Served (dir : Store Text (Content β γ)) : Prop where
  rules : ∀ b ∈ db.backends, rulesOf W db b ≠ [] →
    writeFiles W db dir (fileOf b) = some (.rules (rulesOf W db b))
  absent : ∀ b ∈ db.backends, rulesOf W db b = [] → writeFiles W db dir (fileOf b) = none
  once : ((writes W db).map Prod.fst).Nodup

/-- Two backends of which one has rules do not share a file name, and none has that of the query
action. -/
structure Apart : Prop where
  names : db.backends.Pairwise fun b c => fileOf b = fileOf c →
    rulesOf W db b = [] ∧ rulesOf W db c = []
  query : ∀ b ∈ db.backends, fileOf b ≠ queryDetokenizeFile

variable {W db} {dir : Store Text (Content β γ)} {b c : Backend}

/-- **The rules of a backend** are those of the enabled transforms that apply to it, in ascending
priority. -/
theorem applicable_spec (b : Backend) :
    (applicable db b).Perm (db.transforms.filter fun t => matchesBackend t b) ∧
      (applicable db b).Pairwise fun t u => t.priority ≤ u.priority :=
  ⟨(List.perm_insertionSort _ _).filter _, (Priority.pairwise_sortByKey db.transforms).filter _⟩

theorem json_fileOf (b : Backend) : ".json".toList.isSuffixOf (fileOf b) = true :=
  List.isSuffixOf_iff_suffix.mpr (List.suffix_append _ _)

/-- A JSON file holds what was written last, and is gone if nothing was. -/
theorem writeFiles_json {file : Text} (h : ".json".toList.isSuffixOf file = true) :
    writeFiles W db dir file = Store.lastWrite (writes W db) file := by
  rw [writeFiles, Store.keep, h, Bool.not_true, Bool.false_or, Store.read_writeAll]
  cases hlast : Store.lastWrite (writes W db) file with
  | none =>
      have hnot : file ∉ (writes W db).map Prod.fst := by
        rw [← Store.lastWrite_isSome_iff, hlast]
        exact Bool.false_ne_true
      rw [if_neg]
      rwa [List.contains_iff_mem]
  | some content =>
      have hmem : file ∈ (writes W db).map Prod.fst :=
        Store.lastWrite_isSome_iff.mp (hlast ▸ rfl)
      rw [if_pos (List.contains_iff_mem.mpr hmem), Option.some_or]

/-- The files that are written are those of the backends with rules, and one more. -/
theorem names_writes :
    (writes W db).map Prod.fst =
      (db.backends.filter fun b => !(rulesOf W db b).isEmpty).map fileOf ++
        [queryDetokenizeFile] := by
  rw [writes, configs, List.map_append, List.map_map]
  rfl

theorem mem_withRules : b ∈ (db.backends.filter fun b => !(rulesOf W db b).isEmpty) ↔
    b ∈ db.backends ∧ rulesOf W db b ≠ [] := by
  rw [List.mem_filter, Bool.not_eq_true', List.isEmpty_eq_false_iff]

/-- A backend without rules finds no file exactly when none of its name is written. -/
theorem absent_iff : writeFiles W db dir (fileOf b) = none ↔
    fileOf b ∉ (writes W db).map Prod.fst := by
  rw [writeFiles_json (json_fileOf b), ← Store.lastWrite_isSome_iff, Option.not_isSome_iff_eq_none]

theorem Served.apart (h : Served W db dir) : Apart W db := by
  have honce := h.once
  rw [names_writes] at honce
  obtain ⟨hnodup, -, hquery⟩ := List.nodup_append.mp honce
  have hwritten : ∀ b ∈ db.backends, rulesOf W db b ≠ [] →
      fileOf b ∈ (writes W db).map Prod.fst := by
    intro b hb hrules
    rw [names_writes]
    exact List.mem_append_left _ (List.mem_map_of_mem (mem_withRules.mpr ⟨hb, hrules⟩))
  constructor
  · rw [List.pairwise_iff_forall_sublist]
    intro b c hsub hfile
    have hb : b ∈ db.backends := hsub.subset List.mem_cons_self
    have hc : c ∈ db.backends := hsub.subset (List.mem_cons_of_mem _ List.mem_cons_self)
    by_cases hrb : rulesOf W db b = []
    · by_cases hrc : rulesOf W db c = []
      · exact ⟨hrb, hrc⟩
      · exact absurd (hfile ▸ hwritten c hc hrc) (absent_iff.mp (h.absent b hb hrb))
    · by_cases hrc : rulesOf W db c = []
      · exact absurd (hfile ▸ hwritten b hb hrb) (absent_iff.mp (h.absent c hc hrc))
      · -- both are written, so that the name would be there twice
        have hpair : [b, c].Sublist (db.backends.filter fun b => !(rulesOf W db b).isEmpty) := by
          have hfiltered := hsub.filter fun b => !(rulesOf W db b).isEmpty
          rwa [List.filter_eq_self.mpr] at hfiltered
          intro d hd
          simp only [List.mem_cons, List.not_mem_nil, or_false] at hd
          rcases hd with rfl | rfl
          · simp [hrb]
          · simp [hrc]
        have htwice := hnodup.sublist (hpair.map fileOf)
        simp [hfile] at htwice
  · intro b hb hfile
    by_cases hrules : rulesOf W db b = []
    · refine absent_iff.mp (h.absent b hb hrules) ?_
      rw [names_writes, hfile]
      exact List.mem_append_right _ List.mem_cons_self
    · have hmem := List.mem_map_of_mem (f := fileOf) (mem_withRules.mpr ⟨hb, hrules⟩)
      exact hquery _ hmem _ List.mem_cons_self hfile

theorem Apart.served (h : Apart W db) (dir : Store Text (Content β γ)) : Served W db dir := by
  have hfiltered := h.names.filter fun b => !(rulesOf W db b).isEmpty
  have honce : ((writes W db).map Prod.fst).Nodup := by
    rw [names_writes]
    refine List.nodup_append.mpr ⟨?_, List.nodup_singleton _, ?_⟩
    · refine List.pairwise_map.mpr (hfiltered.imp_of_mem ?_)
      intro b c hb _ hpair hfile
      exact (mem_withRules.mp hb).2 (hpair hfile).1
    · intro file hfile other hother heq
      obtain ⟨b, hb, rfl⟩ := List.mem_map.mp hfile
      rw [List.mem_singleton.mp hother] at heq
      exact h.query b (mem_withRules.mp hb).1 heq
  refine ⟨fun b hb hrules => ?_, fun b hb hrules => absent_iff.mpr ?_, honce⟩
  · rw [writeFiles_json (json_fileOf b)]
    have hmem : (fileOf b, Content.rules (rulesOf W db b)) ∈ writes W db :=
      List.mem_append_left _ (List.mem_map.mpr ⟨b, mem_withRules.mpr ⟨hb, hrules⟩, rfl⟩)
    exact Store.lastWrite_of_unique hmem fun v hv hname =>
      List.inj_on_of_nodup_map honce hv hmem hname
  · rw [names_writes, List.mem_append, List.mem_singleton, not_or]
    refine ⟨fun hmem => ?_, h.query b hb⟩
    obtain ⟨c, hc, hfile⟩ := List.mem_map.mp hmem
    obtain ⟨hc, hrc⟩ := mem_withRules.mp hc
    have hne : b ≠ c := by
      rintro rfl
      exact hrc hrules
    have hsymm : Std.Symm fun b c => fileOf b = fileOf c →
        rulesOf W db b = [] ∧ rulesOf W db c = [] :=
      ⟨fun _ _ hpair hfile => (hpair hfile.symm).symm⟩
    exact hrc (h.names.forall hb hc hne hfile.symm).2

/-- **Exactly the backends whose file names are apart are served**, whatever was in the
directory. -/
theorem servedRules_iff (W : Writer α β γ) (db : Database α) (dir : Store Text (Content β γ)) :
    Served W db dir ↔ Apart W db :=
  ⟨Served.apart, fun h => h.served dir⟩

end Write

/-! ### Two backends of one file -/

/-- Rules that are written as they are. -/
def plainWriter : Writer Text Text Unit := ⟨Transform.spec, fun _ => [], fun _ => ()⟩

/-- A backend whose responses are masked, and one whose responses are not. -/
def twoBackends : Database Text where
  backends := [⟨1, "web app".toList⟩, ⟨2, "web_app".toList⟩]
  transforms := [⟨some 1, [], 0, true, "mask".toList⟩, ⟨some 2, [], 1, true, "replace".toList⟩]
  beacon := ⟨false, false, []⟩

/-- **The masking rules are gone**: the second backend's rules are in the file of the first. -/
theorem twoBackends_mixed : ¬ Served plainWriter twoBackends fun _ => none := by
  intro h
  have hrules := h.rules ⟨1, "web app".toList⟩ (by decide +kernel) (by decide +kernel)
  have hfile : writeFiles plainWriter twoBackends (fun _ => none) (fileOf ⟨1, "web app".toList⟩) =
      some (.rules ["replace".toList]) := by decide +kernel
  have hmask : rulesOf plainWriter twoBackends ⟨1, "web app".toList⟩ = ["mask".toList] := by
    decide +kernel
  rw [hfile, hmask] at hrules
  exact absurd hrules (by decide +kernel)

end CorexManager.TransformFiles
