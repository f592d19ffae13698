import CorexManager.Config.Rows
import CorexManager.Data.Store

/-!
# Snapshots of the configuration

`save_config_snapshot`, `_prune_snapshots`, `load_config_snapshot` and the two operations
built on them, over the database, the snapshot files and the records that tie them
together.  Every run of edits, applies, prunes, reverts and rollbacks is a `Reachable`
state.

* `Consistent` — the invariant of the records and the files.
* `rollbackSound_iff` — a rollback is sound exactly when it loads nothing, or when the
  record was pruned and the last applied snapshot, which is loaded in its place, happens
  to be as good.  A rollback that finds the file of its own record loses the record: the
  table of records is restored with the configuration.
* `pruned_restores_another` — the rollback to a pruned record restores another snapshot.

Of the excluded tables the audit events are modelled, which refer to records; of a
record the columns that a rollback reads.
-/

namespace CorexManager.Config

open Data
open Python (DateTime)

/-! ### The database -/

/-- A row of `config_snapshots`.  `snapshot_path` names the dated file by its time stamp, and
is empty when the file was pruned; the time of the record is of type `τ`. -/
structure RecordRow (τ : Type) where
  id : Nat
  createdAt : τ
  snapshotPath : Option DateTime
  deriving DecidableEq

/-- A record. -/
abbrev SnapshotRecord := RecordRow DateTime

/-- A row of `audit_events`. -/
structure AuditEvent where
  id : Nat
  snapshotId : Option Nat
  deriving DecidableEq

/-- The tables of the configuration, but for the records and the time of the last apply. -/
structure Schema where
  Name : Type
  finite : Fintype Name
  columns : Name → List Column
  distinct : ∀ k, ((columns k).map Column.name).Nodup

instance (S : Schema) : Fintype S.Name := S.finite

variable {S : Schema}

/-- Their content. -/
abbrev Tables (S : Schema) := (k : S.Name) → List (Row (S.columns k))

/-- The database. -/
structure Db (S : Schema) where
  tables : Tables S
  /-- The setting `last_applied_at`. -/
  lastAppliedAt : Option DateTime
  records : List SnapshotRecord
  auditEvents : List AuditEvent

/-! ### Snapshot files -/

/-- The content of a snapshot file. -/
structure SnapshotFile (S : Schema) where
  tables : S.Name → List (List (Text × Json))
  lastAppliedAt : Option DateTime
  records : List (RecordRow Json)

/-- A record in a file. -/
def serializeRecord (r : SnapshotRecord) : RecordRow Json :=
  { r with createdAt := jsonable (.dateTime r.createdAt) }

/-- And out of it. -/
def restoreRecord (r : RecordRow Json) : Option SnapshotRecord :=
  match parseValue .dateTime r.createdAt with
  | some (.dateTime d) => some { r with createdAt := d }
  | _ => none

/-- `_build_db_snapshot`: every table that is not excluded, the records among them. -/
def buildDbSnapshot (db : Db S) : SnapshotFile S where
  tables k := (db.tables k).map (serializeRow (S.columns k))
  lastAppliedAt := db.lastAppliedAt
  records := db.records.map serializeRecord

/-- `_clear_excluded_table_fks`: the references into the tables to be deleted are nulled. -/
def clearReferences (es : List AuditEvent) : List AuditEvent :=
  es.map fun e => { e with snapshotId := none }

/-- The database with the rows of a file in place of its own; a value of a wrong type
raises. -/
def restoreDb (db : Db S) (f : SnapshotFile S) : Option (Db S) :=
  if h : ∀ k, ((f.tables k).mapM (restoreRow (S.columns k))).isSome then
    (f.records.mapM restoreRecord).map fun records =>
      { tables := fun k => ((f.tables k).mapM (restoreRow (S.columns k))).get (h k)
        lastAppliedAt := f.lastAppliedAt
        records := records
        auditEvents := clearReferences db.auditEvents }
  else none

/-! ### The operations -/

/-- The files. -/
inductive FileName where
  /-- `haproxy_config_snapshot.json`, beside the applied configuration. -/
  | applied
  | dated (stamp : DateTime)
  deriving DecidableEq

/-- What the operations depend on. -/
structure Env (S : Schema) where
  /-- The setting `max_snapshots`. -/
  maxSnapshots : Tables S → Nat
  /-- The key the database gives to a new record. -/
  newId : List SnapshotRecord → Nat
  newId_fresh : ∀ rs, ∀ r ∈ rs, r.id ≠ newId rs
  /-- The constraints of the database. -/
  accepts : Db S → Bool
  /-- The generated configuration is valid. -/
  validates : Db S → Bool

/-- The database and the files; what was saved when is kept for the statements, nothing
reads it. -/
structure State (S : Schema) where
  db : Db S
  files : Store FileName (SnapshotFile S)
  history : Store DateTime (Tables S)

/-- What makes an operation raise. -/
inductive Error where
  | notFound | noFile | refused | invalid
  deriving DecidableEq, Repr

/-- What an operation leaves, and what it raised. -/
structure Outcome (S : Schema) where
  state : State S
  raised : Option Error

/-- The file a path names: an empty path is none, and gives way to the last applied. -/
def fileOf (path : Option DateTime) : FileName := (path.map FileName.dated).getD .applied

/-- The records beyond the newest `keep`. -/
def staleRecords (keep : Nat) (rs : List SnapshotRecord) : List SnapshotRecord :=
  (rs.mergeSort fun a b => decide (b.createdAt.key ≤ a.createdAt.key)).drop keep

/-- `_prune_snapshots`. -/
def pruneSnapshots (env : Env S) (σ : State S) : State S :=
  let stale := staleRecords (env.maxSnapshots σ.db.tables) σ.db.records
  { σ with
    db := { σ.db with
      records := σ.db.records.map fun r => if r ∈ stale then { r with snapshotPath := none } else r }
    files := σ.files.keep fun name => !(stale.filterMap fun r => r.snapshotPath.map .dated).contains name }

/-- `save_config_snapshot`: the rows are read before the record is added. -/
def saveConfigSnapshot (env : Env S) (now : DateTime) (σ : State S) : State S :=
  let snapshot := buildDbSnapshot σ.db
  pruneSnapshots env
    { db := { σ.db with
        lastAppliedAt := some now
        records := σ.db.records ++ [⟨env.newId σ.db.records, now, some now⟩] }
      files := (σ.files.write .applied snapshot).write (.dated now) snapshot
      history := σ.history.write now σ.db.tables }

/-- `load_config_snapshot`. -/
def loadConfigSnapshot (env : Env S) (path : Option DateTime) (σ : State S) :
    Except Error (State S) :=
  match σ.files (fileOf path) with
  | none => .error .noFile
  | some f =>
      match restoreDb σ.db f with
      | none => .error .refused
      | some db => if env.accepts db then .ok { σ with db := db } else .error .refused

/-- `write_config`, as far as the database and the snapshots go. -/
def writeConfig (env : Env S) (now : DateTime) (σ : State S) : Outcome S :=
  if env.validates σ.db then ⟨saveConfigSnapshot env now σ, none⟩ else ⟨σ, some .invalid⟩

/-- Load, then write. -/
def loadAndWrite (env : Env S) (now : DateTime) (path : Option DateTime) (σ : State S) : Outcome S :=
  match loadConfigSnapshot env path σ with
  | .error e => ⟨σ, some e⟩
  | .ok σ' => writeConfig env now σ'

/-- `revert_to_applied_config`. -/
def revertToAppliedConfig (env : Env S) (now : DateTime) (σ : State S) : Outcome S :=
  loadAndWrite env now none σ

/-- The record of an id. -/
def recordOf (σ : State S) (id : Nat) : Option SnapshotRecord :=
  σ.db.records.find? fun r => decide (r.id = id)

/-- `rollback_to_snapshot`. -/
def rollbackToSnapshot (env : Env S) (now : DateTime) (id : Nat) (σ : State S) : Outcome S :=
  match recordOf σ id with
  | none => ⟨σ, some .notFound⟩
  | some r => loadAndWrite env now r.snapshotPath σ

/-! ### Runs -/

/-- What happens to a state, with the time it happens at. -/
inductive Event (S : Schema) where
  /-- Other parts of the program write the tables of the configuration, and audit events. -/
  | edit (tables : Tables S) (auditEvents : List AuditEvent)
  | apply (now : DateTime)
  | prune
  | revert (now : DateTime)
  | rollback (now : DateTime) (id : Nat)

namespace Event

/-- The time of an event that saves a snapshot. -/
def time : Event S → Option DateTime
  | edit _ _ => none
  | apply now => some now
  | prune => none
  | revert now => some now
  | rollback now _ => some now

/-- The state after an event. -/
def run (env : Env S) (σ : State S) : Event S → State S
  | edit tables auditEvents => { σ with db := { σ.db with tables, auditEvents } }
  | apply now => (writeConfig env now σ).state
  | prune => pruneSnapshots env σ
  | revert now => (revertToAppliedConfig env now σ).state
  | rollback now id => (rollbackToSnapshot env now id σ).state

end Event

/-- **The states of the runs**, with a clock: no two snapshots are saved at one time. -/
inductive Reachable (env : Env S) : Nat → State S → Prop
  | start (db : Db S) (h : db.records = []) : Reachable env 0 ⟨db, fun _ => none, fun _ => none⟩
  | step {clock : Nat} {σ : State S} (h : Reachable env clock σ) (e : Event S)
      (hclock : ∀ now ∈ e.time, clock < now.key) :
      Reachable env ((e.time.map DateTime.key).getD clock) (e.run env σ)

/-! ### A snapshot gives back what was saved -/

private theorem mapM_map_some {α β : Type} {f : α → β} {g : β → Option α}
    (h : ∀ a, g (f a) = some a) (as : List α) : (as.map f).mapM g = some as := by
  induction as with
  | nil => rfl
  | cons a as ih =>
      rw [List.map_cons, List.mapM_cons, h a, ih]
      rfl

theorem restoreRecord_serializeRecord (r : SnapshotRecord) :
    restoreRecord (serializeRecord r) = some r := by
  have hparse : parseValue .dateTime (jsonable (.dateTime r.createdAt)) =
      some (.dateTime r.createdAt) := parseValue_jsonable rfl
  unfold restoreRecord serializeRecord
  dsimp only
  rw [hparse]

/-- **A snapshot gives back every table**; the references of audit events are gone. -/
theorem restoreDb_buildDbSnapshot (db saved : Db S) :
    restoreDb db (buildDbSnapshot saved) =
      some { saved with auditEvents := clearReferences db.auditEvents } := by
  have htables : ∀ k, (((buildDbSnapshot saved).tables k).mapM (restoreRow (S.columns k))) =
      some (saved.tables k) := fun k =>
    mapM_map_some (restoreRow_serializeRow (S.distinct k)) (saved.tables k)
  have hrecords : (buildDbSnapshot saved).records.mapM restoreRecord = some saved.records :=
    mapM_map_some restoreRecord_serializeRecord saved.records
  have hall : ∀ k, (((buildDbSnapshot saved).tables k).mapM (restoreRow (S.columns k))).isSome := by
    intro k
    rw [htables k]
    rfl
  rw [restoreDb, dif_pos hall, hrecords]
  simp only [Option.map_some, htables, Option.get_some]
  rfl

/-! ### The invariant -/

/-- Records of the past, each with a key of its own and the path of its own file. -/
structure Sane (clock : Nat) (rs : List SnapshotRecord) : Prop where
  times : ∀ r ∈ rs, r.createdAt.key ≤ clock
  paths : ∀ r ∈ rs, ∀ d, r.snapshotPath = some d → d = r.createdAt
  ids : (rs.map RecordRow.id).Nodup

/-- **The invariant of the records and the files**: a file holds the tables at some time, and
a dated file the records from before its time. -/
structure Consistent (clock : Nat) (σ : State S) : Prop where
  records : Sane clock σ.db.records
  files : ∀ name f, σ.files name = some f → ∃ saved : Db S, f = buildDbSnapshot saved ∧
    Sane clock saved.records ∧ ∀ d, name = .dated d → ∀ r ∈ saved.records, r.createdAt.key < d.key

theorem Sane.mono {clock clock' : Nat} {rs : List SnapshotRecord} (hle : clock ≤ clock')
    (h : Sane clock rs) : Sane clock' rs :=
  { h with times := fun r hr => (h.times r hr).trans hle }

/-- Pruning forgets paths. -/
theorem Sane.prune {clock : Nat} {rs : List SnapshotRecord} (h : Sane clock rs)
    (stale : List SnapshotRecord) :
    Sane clock (rs.map fun r => if r ∈ stale then { r with snapshotPath := none } else r) where
  times := by
    intro r hr
    obtain ⟨q, hq, rfl⟩ := List.mem_map.mp hr
    by_cases hstale : q ∈ stale
    · rw [if_pos hstale]
      exact h.times q hq
    · rw [if_neg hstale]
      exact h.times q hq
  paths := by
    intro r hr d hd
    obtain ⟨q, hq, rfl⟩ := List.mem_map.mp hr
    by_cases hstale : q ∈ stale
    · rw [if_pos hstale] at hd
      cases hd
    · rw [if_neg hstale] at hd ⊢
      exact h.paths q hq d hd
  ids := by
    have hids : (rs.map fun r => if r ∈ stale then { r with snapshotPath := none } else r).map
        RecordRow.id = rs.map RecordRow.id := by
      rw [List.map_map]
      refine List.map_congr_left fun r _ => ?_
      show (if r ∈ stale then { r with snapshotPath := none } else r).id = r.id
      split_ifs
      · rfl
      · rfl
    rw [hids]
    exact h.ids

/-- A new record, at a later time. -/
theorem Sane.add {env : Env S} {clock : Nat} {rs : List SnapshotRecord} (h : Sane clock rs)
    {now : DateTime} (hnow : clock < now.key) :
    Sane now.key (rs ++ [⟨env.newId rs, now, some now⟩]) where
  times := by
    intro r hr
    rcases List.mem_append.mp hr with hr | hr
    · exact (h.times r hr).trans hnow.le
    · rw [List.mem_singleton.mp hr]
  paths := by
    intro r hr d hd
    rcases List.mem_append.mp hr with hr | hr
    · exact h.paths r hr d hd
    · rw [List.mem_singleton.mp hr] at hd ⊢
      exact (Option.some.inj hd).symm
  ids := by
    rw [List.map_append, List.nodup_append]
    refine ⟨h.ids, List.nodup_singleton _, ?_⟩
    intro n hn m hm
    obtain ⟨r, hr, rfl⟩ := List.mem_map.mp hn
    rw [List.mem_singleton.mp hm]
    exact env.newId_fresh rs r hr

variable {env : Env S} {clock : Nat} {σ : State S}

theorem Consistent.mono {clock' : Nat} (hle : clock ≤ clock') (h : Consistent clock σ) :
    Consistent clock' σ where
  records := h.records.mono hle
  files := by
    intro name f hf
    obtain ⟨saved, heq, hsane, hdated⟩ := h.files name f hf
    exact ⟨saved, heq, hsane.mono hle, hdated⟩

theorem Consistent.prune (h : Consistent clock σ) : Consistent clock (pruneSnapshots env σ) where
  records := h.records.prune _
  files := by
    intro name f hf
    have hkept : σ.files name = some f := by
      have hf' : (if _ then σ.files name else none) = some f := hf
      split_ifs at hf'
      exact hf'
    exact h.files name f hkept

theorem Consistent.save (h : Consistent clock σ) {now : DateTime} (hnow : clock < now.key) :
    Consistent now.key (saveConfigSnapshot env now σ) := by
  refine Consistent.prune ⟨h.records.add hnow, ?_⟩
  intro name f hf
  by_cases hdated : name = .dated now
  · rw [hdated] at hf
    have heq : buildDbSnapshot σ.db = f := Option.some.inj ((Store.write_self _ _ _).symm.trans hf)
    refine ⟨σ.db, heq.symm, h.records.mono hnow.le, ?_⟩
    rintro d hd r hr
    rw [hdated] at hd
    rw [← FileName.dated.inj hd]
    exact (h.records.times r hr).trans_lt hnow
  · have hf' := (Store.write_other _ _ hdated).symm.trans hf
    by_cases happlied : name = .applied
    · rw [happlied] at hf'
      have heq : buildDbSnapshot σ.db = f :=
        Option.some.inj ((Store.write_self _ _ _).symm.trans hf')
      refine ⟨σ.db, heq.symm, h.records.mono hnow.le, ?_⟩
      rintro d hd
      rw [happlied] at hd
      cases hd
    · have hf'' := (Store.write_other _ _ happlied).symm.trans hf'
      obtain ⟨saved, heq, hsane, hbefore⟩ := h.files name f hf''
      exact ⟨saved, heq, hsane.mono hnow.le, hbefore⟩

/-- What a load leaves: the tables and records of a file. -/
theorem Consistent.loaded (h : Consistent clock σ) {path : Option DateTime} {σ' : State S}
    (hload : loadConfigSnapshot env path σ = .ok σ') :
    σ'.files = σ.files ∧ σ'.history = σ.history ∧ Sane clock σ'.db.records ∧
      ∀ d, path = some d → ∀ r ∈ σ'.db.records, r.createdAt.key < d.key := by
  unfold loadConfigSnapshot at hload
  cases hf : σ.files (fileOf path) with
  | none =>
      rw [hf] at hload
      cases hload
  | some f =>
      obtain ⟨saved, rfl, hsane, hdated⟩ := h.files _ f hf
      rw [hf] at hload
      dsimp only at hload
      rw [restoreDb_buildDbSnapshot] at hload
      dsimp only at hload
      split_ifs at hload
      cases hload
      refine ⟨rfl, rfl, hsane, ?_⟩
      rintro d rfl r hr
      exact hdated d rfl r hr

theorem Consistent.write (h : Consistent clock σ) {now : DateTime} (hnow : clock < now.key) :
    Consistent now.key (writeConfig env now σ).state := by
  unfold writeConfig
  split_ifs
  · exact h.save hnow
  · exact h.mono hnow.le

theorem Consistent.loadAndWrite (h : Consistent clock σ) {now : DateTime} (hnow : clock < now.key)
    (path : Option DateTime) : Consistent now.key (loadAndWrite env now path σ).state := by
  unfold Config.loadAndWrite
  cases hload : loadConfigSnapshot env path σ with
  | error e => exact h.mono hnow.le
  | ok σ' =>
      obtain ⟨hfiles, -, hsane, -⟩ := h.loaded hload
      have h' : Consistent clock σ' := ⟨hsane, hfiles ▸ h.files⟩
      exact h'.write hnow

/-- **Every run keeps the invariant.** -/
theorem Reachable.consistent (h : Reachable env clock σ) : Consistent clock σ := by
  induction h with
  | start db hdb =>
      have hsane : Sane 0 db.records := by
        rw [hdb]
        exact ⟨by simp, by simp, by simp⟩
      exact ⟨hsane, fun name f hf => nomatch hf⟩
  | step h e hclock ih =>
      cases e with
      | edit tables auditEvents => exact ⟨ih.records, ih.files⟩
      | apply now => exact ih.write (hclock now rfl)
      | prune => exact ih.prune
      | revert now => exact ih.loadAndWrite (hclock now rfl) none
      | rollback now id =>
          show Consistent now.key (rollbackToSnapshot env now id _).state
          unfold rollbackToSnapshot
          cases recordOf _ id with
          | none => exact ih.mono (hclock now rfl).le
          | some r => exact ih.loadAndWrite (hclock now rfl) r.snapshotPath

/-! ### Rollbacks -/

/-- Every record of the first list is in the second; pruning may have taken its file. -/
def KeepsRecords (rs rs' : List SnapshotRecord) : Prop :=
  ∀ r ∈ rs, ∃ r' ∈ rs', r'.id = r.id ∧ r'.createdAt = r.createdAt

/-- **A sound rollback** raises and leaves the database as it was, or restores the tables
saved under the id and loses no record. -/
def RollbackSound (env : Env S) (now : DateTime) (id : Nat) (σ : State S) : Prop :=
  match rollbackToSnapshot env now id σ with
  | ⟨σ', some _⟩ => σ'.db = σ.db
  | ⟨σ', none⟩ => (∃ r ∈ σ.db.records, r.id = id ∧ σ.history r.createdAt = some σ'.db.tables) ∧
      KeepsRecords σ.db.records σ'.db.records

/-- The last applied snapshot is as good as that of the record: it holds the tables saved
under it and all records and is valid, or it is refused and the database holds its content
already. -/
def AsGood (env : Env S) (r : SnapshotRecord) (σ : State S) (db : Db S) : Prop :=
  if env.validates db then
    σ.history r.createdAt = some db.tables ∧ KeepsRecords σ.db.records db.records
  else db = σ.db

/-- Nothing is loaded: there is no such record, or no such file, or the database refuses it;
or the record was pruned, and the snapshot loaded in its place is as good. -/
def LoadsNothingElse (env : Env S) (id : Nat) (σ : State S) : Prop :=
  ∀ r, recordOf σ id = some r → ∀ σ', loadConfigSnapshot env r.snapshotPath σ = .ok σ' →
    r.snapshotPath = none ∧ AsGood env r σ σ'.db

theorem keepsRecords_prune {rs rs' : List SnapshotRecord} (stale : List SnapshotRecord) :
    KeepsRecords rs (rs'.map fun r => if r ∈ stale then { r with snapshotPath := none } else r) ↔
      KeepsRecords rs rs' := by
  have hsame : ∀ r : SnapshotRecord,
      (if r ∈ stale then { r with snapshotPath := none } else r).id = r.id ∧
        (if r ∈ stale then { r with snapshotPath := none } else r).createdAt = r.createdAt := by
    intro r
    split_ifs
    · exact ⟨rfl, rfl⟩
    · exact ⟨rfl, rfl⟩
  refine forall_congr' fun r => forall_congr' fun _ => ?_
  constructor
  · rintro ⟨q, hq, hid, htime⟩
    obtain ⟨p, hp, rfl⟩ := List.mem_map.mp hq
    exact ⟨p, hp, (hsame p).1.symm.trans hid, (hsame p).2.symm.trans htime⟩
  · rintro ⟨p, hp, hid, htime⟩
    exact ⟨_, List.mem_map_of_mem hp, (hsame p).1.trans hid, (hsame p).2.trans htime⟩

/-- A record of now keeps none of the past. -/
theorem keepsRecords_add {rs rs' : List SnapshotRecord} {now : DateTime}
    (hpast : ∀ r ∈ rs, r.createdAt.key < now.key) (id : Nat) :
    KeepsRecords rs (rs' ++ [⟨id, now, some now⟩]) ↔ KeepsRecords rs rs' := by
  refine forall_congr' fun r => forall_congr' fun hr => ?_
  constructor
  · rintro ⟨q, hq, hid, htime⟩
    rcases List.mem_append.mp hq with hq | hq
    · exact ⟨q, hq, hid, htime⟩
    · rw [List.mem_singleton.mp hq] at htime
      have hlt := hpast r hr
      rw [← htime] at hlt
      exact absurd hlt (lt_irrefl _)
  · rintro ⟨q, hq, hid, htime⟩
    exact ⟨q, List.mem_append_left _ hq, hid, htime⟩

/-- What saving after a load keeps of the records. -/
theorem keepsRecords_save {rs : List SnapshotRecord} {σ' : State S} {now : DateTime}
    (hpast : ∀ r ∈ rs, r.createdAt.key < now.key) :
    KeepsRecords rs (saveConfigSnapshot env now σ').db.records ↔
      KeepsRecords rs σ'.db.records :=
  (keepsRecords_prune _).trans (keepsRecords_add hpast _)

theorem recordOf_spec {id : Nat} {r : SnapshotRecord} (h : recordOf σ id = some r) :
    r ∈ σ.db.records ∧ r.id = id :=
  ⟨List.mem_of_find?_eq_some h, by simpa using List.find?_some h⟩

/-- A record is known by its id. -/
theorem Sane.eq_of_id {rs : List SnapshotRecord} (h : Sane clock rs) {r q : SnapshotRecord}
    (hr : r ∈ rs) (hq : q ∈ rs) (hid : r.id = q.id) : r = q :=
  List.inj_on_of_nodup_map h.ids hr hq hid

/-- A rollback that loads a snapshot is sound when the snapshot is as good as that of the
record. -/
private theorem loaded_sound_iff (hcons : Consistent clock σ) {now : DateTime}
    (hnow : clock < now.key) {id : Nat} {r : SnapshotRecord} (hr : recordOf σ id = some r)
    {σ' : State S} (hload : loadConfigSnapshot env r.snapshotPath σ = .ok σ') :
    RollbackSound env now id σ ↔ AsGood env r σ σ'.db := by
  obtain ⟨hmem, hid⟩ := recordOf_spec hr
  have hpast : ∀ q ∈ σ.db.records, q.createdAt.key < now.key := fun q hq =>
    (hcons.records.times q hq).trans_lt hnow
  have hrun : rollbackToSnapshot env now id σ = writeConfig env now σ' := by
    unfold rollbackToSnapshot loadAndWrite
    rw [hr]
    dsimp only
    rw [hload]
  unfold RollbackSound AsGood
  rw [hrun, writeConfig]
  by_cases hvalid : env.validates σ'.db = true
  · rw [if_pos hvalid, if_pos hvalid]
    dsimp only
    rw [keepsRecords_save hpast]
    refine and_congr_left fun _ => ?_
    constructor
    · rintro ⟨q, hq, hqid, hsaved⟩
      rw [hcons.records.eq_of_id hmem hq (hid.trans hqid.symm)]
      exact hsaved
    · intro hsaved
      exact ⟨r, hmem, hid, hsaved⟩
  · rw [if_neg hvalid, if_neg hvalid]

/-- **When a rollback is sound.** -/
theorem rollbackSound_iff (env : Env S) (clock : Nat) (σ : State S) (h : Reachable env clock σ)
    (now : DateTime) (hnow : clock < now.key) (id : Nat) :
    RollbackSound env now id σ ↔ LoadsNothingElse env id σ := by
  have hcons := h.consistent
  cases hr : recordOf σ id with
  | none =>
      have hsound : RollbackSound env now id σ := by
        unfold RollbackSound rollbackToSnapshot
        rw [hr]
      have hnothing : LoadsNothingElse env id σ := by
        intro r hr'
        rw [hr] at hr'
        cases hr'
      exact iff_of_true hsound hnothing
  | some r =>
      have hcond : LoadsNothingElse env id σ ↔ ∀ σ',
          loadConfigSnapshot env r.snapshotPath σ = .ok σ' →
            r.snapshotPath = none ∧ AsGood env r σ σ'.db := by
        unfold LoadsNothingElse
        rw [hr]
        constructor
        · exact fun hall => hall r rfl
        · rintro hall q hq
          rw [← Option.some.inj hq]
          exact hall
      rw [hcond]
      cases hload : loadConfigSnapshot env r.snapshotPath σ with
      | error e =>
          have hsound : RollbackSound env now id σ := by
            unfold RollbackSound rollbackToSnapshot loadAndWrite
            rw [hr]
            dsimp only
            rw [hload]
          exact iff_of_true hsound fun σ' hσ' => nomatch hσ'
      | ok σ' =>
          obtain ⟨hmem, -⟩ := recordOf_spec hr
          obtain ⟨-, -, -, hbefore⟩ := hcons.loaded hload
          rw [loaded_sound_iff hcons hnow hr hload]
          constructor
          · -- the file of a record is from before the record
            intro hgood σ'' hσ''
            cases hσ''
            refine ⟨?_, hgood⟩
            by_contra hpath
            obtain ⟨d, hd⟩ := Option.ne_none_iff_exists'.mp hpath
            have hown := hcons.records.paths r hmem d hd
            have hmissing : ∀ q ∈ σ'.db.records, q.createdAt ≠ r.createdAt := by
              intro q hq heq
              have hlt := hbefore d hd q hq
              rw [heq, hown] at hlt
              exact absurd hlt (lt_irrefl _)
            unfold AsGood at hgood
            split_ifs at hgood
            · obtain ⟨q, hq, -, htime⟩ := hgood.2 r hmem
              exact hmissing q hq htime
            · exact hmissing r (hgood ▸ hmem) rfl
          · intro hall
            exact (hall σ' rfl).2

/-! ### A rollback to a pruned record -/

/-- Pruning keeps the last applied snapshot. -/
theorem prune_applied (env : Env S) (σ : State S) :
    (pruneSnapshots env σ).files .applied = σ.files .applied := by
  have hdated : (((staleRecords (env.maxSnapshots σ.db.tables) σ.db.records).filterMap
      fun r => r.snapshotPath.map FileName.dated).contains .applied) = false := by
    rw [List.contains_eq_mem, decide_eq_false_iff_not, List.mem_filterMap]
    rintro ⟨r, -, hr⟩
    obtain ⟨d, -, hd⟩ := Option.map_eq_some_iff.mp hr
    cases hd
  show (if (!_) = true then σ.files .applied else none) = σ.files .applied
  rw [hdated]
  rfl

/-- The records after a save. -/
theorem save_records (env : Env S) (now : DateTime) {rs : List SnapshotRecord}
    (h : σ.db.records ++ [⟨env.newId σ.db.records, now, some now⟩] = rs) :
    (saveConfigSnapshot env now σ).db.records = rs.map fun r =>
      if r ∈ staleRecords (env.maxSnapshots σ.db.tables) rs then { r with snapshotPath := none }
      else r := by
  rw [← h]
  rfl

/-- The last applied snapshot is that of the last save. -/
theorem save_applied (env : Env S) (now : DateTime) (σ : State S) :
    (saveConfigSnapshot env now σ).files .applied = some (buildDbSnapshot σ.db) := by
  refine (prune_applied env _).trans ?_
  show (σ.files.write .applied (buildDbSnapshot σ.db)).write (.dated now) (buildDbSnapshot σ.db)
    .applied = _
  rw [Store.write_other _ _ (by simp), Store.write_self]

/-- A pruned record gives back the last applied snapshot, whatever was saved under it. -/
theorem rollback_pruned {now : DateTime} {id : Nat} {r : SnapshotRecord}
    (hr : recordOf σ id = some r) (hpruned : r.snapshotPath = none) {saved : Db S}
    (happlied : σ.files .applied = some (buildDbSnapshot saved))
    (haccepts : ∀ db, env.accepts db = true) (hvalidates : ∀ db, env.validates db = true) :
    (rollbackToSnapshot env now id σ).raised = none ∧
      (rollbackToSnapshot env now id σ).state.db.tables = saved.tables := by
  have hload : loadConfigSnapshot env r.snapshotPath σ =
      .ok { σ with db := { saved with auditEvents := clearReferences σ.db.auditEvents } } := by
    unfold loadConfigSnapshot
    rw [hpruned]
    show (match σ.files .applied with | none => _ | some f => _) = _
    rw [happlied]
    dsimp only
    rw [restoreDb_buildDbSnapshot]
    dsimp only
    rw [if_pos (haccepts _)]
  unfold rollbackToSnapshot
  rw [hr]
  dsimp only
  unfold loadAndWrite
  rw [hload]
  dsimp only
  rw [writeConfig, if_pos (hvalidates _)]
  exact ⟨rfl, rfl⟩

/-- A configuration of one table, of hosts. -/
def hostSchema : Schema where
  Name := Unit
  finite := inferInstance
  columns _ := [⟨"host".toList, .plain, .plain .null⟩]
  distinct _ := List.nodup_singleton _

/-- One snapshot is kept, everything is accepted, and keys are new. -/
def keepOne : Env hostSchema where
  maxSnapshots _ := 1
  newId rs := (rs.map RecordRow.id).sum + 1
  newId_fresh rs r hr := by
    have hle := List.single_le_sum (l := rs.map RecordRow.id) (by simp) r.id (List.mem_map_of_mem hr)
    omega
  accepts _ := true
  validates _ := true

/-- A day of January. -/
def january (day : Nat) (h : 1 ≤ day ∧ day ≤ 31) : DateTime :=
  ⟨2025, 1, day, 0, 0, 0, 0, ⟨by omega, by omega, by omega, by omega, h⟩, by omega⟩

/-- No host, and an apply. -/
def appliedEmpty : State hostSchema :=
  (Event.apply (january 1 (by omega))).run keepOne
    ⟨⟨fun _ => [], none, [], []⟩, fun _ => none, fun _ => none⟩

/-- Then a host, and another apply, which prunes the first. -/
def appliedHost : State hostSchema :=
  (Event.apply (january 2 (by omega))).run keepOne
    ((Event.edit (fun _ => [⟨[.plain (.str "a".toList)], rfl⟩]) []).run keepOne appliedEmpty)

theorem appliedHost_reachable : Reachable keepOne (january 2 (by omega)).key appliedHost := by
  have hstart : Reachable keepOne 0 ⟨⟨fun _ => [], none, [], []⟩, fun _ => none, fun _ => none⟩ :=
    .start _ rfl
  have hfirst := hstart.step (.apply (january 1 (by omega))) fun now hnow => by
    rw [← Option.some.inj hnow]
    decide
  have hedit := hfirst.step (.edit (fun _ => [⟨[.plain (.str "a".toList)], rfl⟩]) [])
    fun now hnow => nomatch hnow
  refine hedit.step (.apply (january 2 (by omega))) fun now hnow => ?_
  rw [← Option.some.inj hnow]
  decide

/-- Of two records the older is stale when one is kept. -/
theorem staleRecords_pair {r q : SnapshotRecord} (h : r.createdAt.key < q.createdAt.key) :
    staleRecords 1 [r, q] = [r] := by
  simp [staleRecords, List.mergeSort, h.not_ge]

theorem staleRecords_single (r : SnapshotRecord) : staleRecords 1 [r] = [] := by
  unfold staleRecords
  rw [List.mergeSort_singleton]
  rfl

theorem appliedHost_records : appliedHost.db.records =
    [⟨1, january 1 (by omega), none⟩, ⟨2, january 2 (by omega), some (january 2 (by omega))⟩] := by
  have hfirst : appliedEmpty.db.records =
      [⟨1, january 1 (by omega), some (january 1 (by omega))⟩] := by
    refine (save_records keepOne _ rfl).trans ?_
    show [_].map (fun r => if r ∈ staleRecords 1 [_] then _ else r) = _
    rw [staleRecords_single]
    rfl
  have hadded : appliedEmpty.db.records ++ [⟨keepOne.newId appliedEmpty.db.records,
      january 2 (by omega), some (january 2 (by omega))⟩] =
      [⟨1, january 1 (by omega), some (january 1 (by omega))⟩,
        ⟨2, january 2 (by omega), some (january 2 (by omega))⟩] := by
    rw [hfirst]
    rfl
  refine (save_records keepOne _ hadded).trans ?_
  show [_, _].map (fun r => if r ∈ staleRecords 1 [_, _] then _ else r) = _
  rw [staleRecords_pair (by decide)]
  decide

/-- **A rollback restores another snapshot**: the record of the empty configuration brings
back the host. -/
theorem pruned_restores_another : ¬ ∀ (S : Schema) (env : Env S) (clock : Nat) (σ : State S),
    Reachable env clock σ → ∀ now : DateTime, clock < now.key → ∀ id,
      RollbackSound env now id σ := by
  intro hall
  have hsound := hall hostSchema keepOne _ appliedHost appliedHost_reachable
    (january 3 (by omega)) (by decide) 1
  have hr : recordOf appliedHost 1 = some ⟨1, january 1 (by omega), none⟩ := by
    unfold recordOf
    rw [appliedHost_records]
    rfl
  obtain ⟨hraised, htables⟩ := @rollback_pruned _ _ _ (january 3 (by omega)) _ _ hr rfl _
    (save_applied keepOne (january 2 (by omega)) _) (fun _ => show keepOne.accepts _ = true from rfl)
    (fun _ => show keepOne.validates _ = true from rfl)
  unfold RollbackSound at hsound
  generalize rollbackToSnapshot keepOne (january 3 (by omega)) 1 appliedHost = outcome at *
  obtain ⟨σ', raised⟩ := outcome
  obtain rfl : raised = none := hraised
  obtain ⟨⟨r, hmem, hid, hsaved⟩, -⟩ := hsound
  -- the record of that id is from the first day
  rw [appliedHost_records] at hmem
  have htime : r.createdAt = january 1 (by omega) := by
    rcases List.mem_pair.mp hmem with rfl | rfl
    · rfl
    · cases hid
  rw [htime] at hsaved
  have hempty : appliedHost.history (january 1 (by omega)) = some fun _ => [] := rfl
  have hsame := Option.some.inj (hempty.symm.trans hsaved)
  have hnone : ([] : List (Row (hostSchema.columns ()))) = σ'.db.tables () := congrFun hsame ()
  rw [htables] at hnone
  cases hnone

/-- Here the record was pruned, and the snapshot in its place is not as good. -/
theorem rollbackSound_iff_pruned :
    RollbackSound keepOne (january 3 (by omega)) 1 appliedHost ↔ LoadsNothingElse keepOne 1 appliedHost :=
  rollbackSound_iff keepOne _ appliedHost appliedHost_reachable _ (by decide) 1

end CorexManager.Config
