import CorexManager.Config.Apply
import CorexManager.Config.Rows

/-!
# Backups

`create_export`: the archive of the tables, the configuration files and the directories of the
system.  An archive without secrets is made by leaving out tables, columns, settings and files
that are listed by name.  It reveals nothing exactly when the system holds none of the secrets
that the lists forget (`reveals_nothing_iff`).
-/

namespace CorexManager.Backup

open Config (Cell jsonable)
open Data

/-! ### The system -/

/-- The content of a file. -/
abbrev Bytes := List UInt8

/-- A row of a table, by column. -/
abbrev RowMapping := Text → Cell

/-- A table of the database; the settings are rows with a key. -/
structure Table where
  name : Text
  columns : List Text
  rows : List RowMapping
  keyed : name = "settings".toList → "key".toList ∈ columns

/-- The database, in the order of `Base.metadata`, and the files by their paths. -/
structure SystemState where
  tables : List Table
  files : List (Text × Bytes)

/-- The paths of the settings. -/
structure Settings where
  haproxyConfigPath : Text
  corazaSpoeConfigPath : Text
  corazaSpoaConfigPath : Text
  vectorConfigPath : Text
  certDir : Text
  securityListsDir : Text
  crsDir : Text
  customRulesDir : Text
  geoipDbPath : Text
  geoipCityDbPath : Text
  asnDbPath : Text

/-- `_snapshots_dir`. -/
def Settings.snapshotsDir (S : Settings) : Text :=
  Apply.join (Apply.dirname S.haproxyConfigPath) "snapshots".toList

/-! ### What is redacted -/

/-- `SECRET_FIELDS`. -/
def secretFields : List (Text × List Text) :=
  [("users".toList, ["hashed_password".toList, "totp_secret".toList]),
    ("certificates".toList, ["dns_credentials".toList])]

/-- `SECRET_SETTING_KEYS`. -/
def secretSettingKeys : List Text := ["maxmind_license_key".toList]

/-- `METRICS_TABLES`. -/
def metricsTables : List Text :=
  ["metric_snapshots".toList, "waf_metrics".toList, "audit_events".toList,
    "waf_rule_versions".toList, "tasks".toList, "csp_reports".toList,
    "page_protect_scripts".toList, "cache_metric_snapshots".toList]

/-- `SECRET_TABLES`. -/
def secretTables : List Text := ["users".toList]

/-- `_JSON_SECRET_COLUMNS`. -/
def jsonSecretColumns : List (Text × Text) := [("vector_sinks".toList, "options".toList)]

/-- The fields of a row. -/
abbrev Fields := List (Text × Json)

/-- `_serialize_row`. -/
def serializeRow (columns : List Text) (row : RowMapping) : Fields :=
  columns.map fun c => (c, jsonable (row c))

/-- The entries of an object, without the encrypted ones. -/
def stripEncrypted : Json → Json
  | .obj entries => .obj (entries.filter fun e =>
      !(e.2.asStr.any fun s => "enc:".toList.isPrefixOf s))
  | j => j

/-- A column of a row, changed. -/
def mapColumn (column : Text) (f : Json → Json) (fields : Fields) : Fields :=
  fields.map fun e => (e.1, if e.1 = column then f e.2 else e.2)

/-- `_redact_json_secrets`. -/
def redactJsonSecrets (table : Text) (fields : Fields) : Fields :=
  match Dict.lookup jsonSecretColumns table with
  | some column => mapColumn column stripEncrypted fields
  | none => fields

/-- The columns of a table that are set to null. -/
def secretColumns (table : Text) : List Text := (Dict.lookup secretFields table).getD []

/-- A row as it is archived; a secret setting is left out. -/
def exportRow (includeSecrets : Bool) (table : Text) (fields : Fields) : Option Fields :=
  if includeSecrets then some fields
  else
    let redacted := fields.map fun e => (e.1, if e.1 ∈ secretColumns table then .null else e.2)
    if table = "settings".toList ∧
        (Dict.lookup redacted "key".toList).any (fun k => secretSettingKeys.map .str |>.contains k)
    then none
    else some (redactJsonSecrets table redacted)

/-- A table that is archived. -/
def exported (includeSecrets includeMetrics : Bool) (table : Text) : Bool :=
  (includeSecrets || !secretTables.contains table) &&
    (includeMetrics || !metricsTables.contains table)

/-- `_stream_db_json_to_zip`: the content of `db.json`. -/
def dbJson (tables : List Table) (includeSecrets includeMetrics : Bool) :
    List (Text × List Fields) :=
  (tables.filter fun t => exported includeSecrets includeMetrics t.name).map fun t =>
    (t.name, t.rows.filterMap fun row =>
      exportRow includeSecrets t.name (serializeRow t.columns row))

/-! ### Files -/

/-- The files of `_collect_files`, and their names in the archive. -/
def archivedFiles (S : Settings) (includeSecrets : Bool) : List (Text × Text) :=
  [(S.haproxyConfigPath, "config/haproxy.cfg".toList),
    (S.haproxyConfigPath ++ ".applied".toList, "config/haproxy.cfg.applied".toList),
    (S.corazaSpoeConfigPath, "config/coraza.cfg".toList),
    (S.corazaSpoaConfigPath, "config/coraza-spoa.yaml".toList)] ++
  (if includeSecrets then
    [(S.vectorConfigPath, "config/vector.toml".toList),
      (S.vectorConfigPath ++ ".applied".toList, "config/vector.toml.applied".toList)]
  else []) ++
  [(S.geoipDbPath, "data/geoip/GeoLite2-Country.mmdb".toList),
    (S.geoipCityDbPath, "data/geoip/GeoLite2-City.mmdb".toList),
    (S.asnDbPath, "data/geoip/GeoLite2-ASN.mmdb".toList)]

/-- The directories of `_collect_files`, and their names in the archive. -/
def archivedDirs (S : Settings) : List (Text × Text) :=
  [(S.certDir, "certs".toList), (S.securityListsDir, "data/lists".toList),
    (S.crsDir, "data/crs".toList), (S.customRulesDir, "data/custom-rules".toList),
    (S.snapshotsDir, "data/snapshots".toList)]

/-- `_add_file_to_zip`, for a file that is there. -/
def addFile (files : List (Text × Bytes)) (source : Text × Text) : Option (Text × Bytes) :=
  (Dict.lookup files source.1).map fun content => (source.2, content)

/-- The path of a file in a directory. -/
def relativeTo (dir path : Text) : Option Text :=
  if (dir ++ ['/']).isPrefixOf path then some (path.drop (dir.length + 1)) else none

/-- `_add_dir_to_zip`. -/
def addDir (files : List (Text × Bytes)) (source : Text × Text) : List (Text × Bytes) :=
  files.filterMap fun f =>
    (relativeTo source.1 f.1).map fun rel => (source.2 ++ '/' :: rel, f.2)

/-- The files of an archive. -/
def filesInArchive (S : Settings) (files : List (Text × Bytes)) (includeSecrets : Bool) :
    List (Text × Bytes) :=
  (archivedFiles S includeSecrets).filterMap (addFile files) ++
    (archivedDirs S).flatMap (addDir files)

/-! ### Archives -/

/-- The manifest, but for the time. -/
structure Manifest where
  version : Nat
  includeSecrets : Bool
  includeMetrics : Bool
  encrypted : Bool
  deriving DecidableEq, Repr

/-- The content of an archive; with a password it is encrypted as a whole. -/
structure Archive where
  manifest : Manifest
  db : List (Text × List Fields)
  files : List (Text × Bytes)

/-- `create_export`. -/
def createExport (S : Settings) (σ : SystemState) (includeSecrets includeMetrics : Bool)
    (password : Option Text) : Archive where
  manifest := ⟨1, includeSecrets, includeMetrics, password.isSome⟩
  db := dbJson σ.tables includeSecrets includeMetrics
  files := filesInArchive S σ.files includeSecrets

/-! ### What is secret -/

/-- `SENSITIVE_FIELDS` of the Terraform export. -/
def sensitiveFields : List (Text × List Text) :=
  [("certificates".toList, ["dns_credentials".toList]),
    ("mcp_servers".toList, ["auth_secret_enc".toList, "oauth_client_secret_enc".toList,
      "env_vars_json".toList])]

/-- `SENSITIVE_SETTING_KEYS` of the Terraform export. -/
def sensitiveSettingKeys : List Text :=
  ["maxmind_license_key".toList, "recaptcha_secret".toList, "cap_secret".toList,
    "turnstile_secret".toList, "keepalived_auth_password".toList]

/-- The columns of `mcp_servers` that hold what is encrypted. -/
def encryptedMcpColumns : List Text :=
  ["auth_secret_enc".toList, "env_vars_json".toList, "oauth_client_secret_enc".toList,
    "oauth_token_enc".toList, "oauth_refresh_token_enc".toList]

/-- A value of a row is secret. -/
def IsSecret (table : Text) (row : RowMapping) (column : Text) : Prop :=
  column ∈ (Dict.lookup sensitiveFields table).getD [] ∨
  table = "mcp_servers".toList ∧ column ∈ encryptedMcpColumns ∨
  table = "settings".toList ∧ column = "value".toList ∧
    ∃ key ∈ sensitiveSettingKeys, row "key".toList = .plain (.str key)

/-- The private key of a certificate, alone or in the bundle for HAProxy. -/
def isPrivateKey (S : Settings) (path : Text) : Bool :=
  (relativeTo S.certDir path).isSome &&
    ("/privkey.pem".toList.isSuffixOf path || "/haproxy.pem".toList.isSuffixOf path)

/-- Two rows that differ only in secret values. -/
def SameRow (table : Text) (r r' : RowMapping) : Prop :=
  ∀ column, ¬ IsSecret table r column → r' column = r column

/-- Two tables that differ only in secret values. -/
structure SameTable (t t' : Table) : Prop where
  name : t'.name = t.name
  columns : t'.columns = t.columns
  rows : List.Forall₂ (SameRow t.name) t.rows t'.rows

/-- Two files that differ only if they hold a private key. -/
structure SameFile (S : Settings) (f f' : Text × Bytes) : Prop where
  path : f'.1 = f.1
  content : isPrivateKey S f.1 = false → f'.2 = f.2

/-- Two states of the system that differ only in secret values. -/
structure SameButSecrets (S : Settings) (σ σ' : SystemState) : Prop where
  tables : List.Forall₂ SameTable σ.tables σ'.tables
  files : List.Forall₂ (SameFile S) σ.files σ'.files

/-- A secret that no list of the backup names: one of an MCP server, or one of the settings. -/
def Exposed (table : Text) (row : RowMapping) (column : Text) : Prop :=
  table = "mcp_servers".toList ∧ column ∈ encryptedMcpColumns ∨
  table = "settings".toList ∧ column = "value".toList ∧
    ∃ key ∈ ["recaptcha_secret".toList, "cap_secret".toList, "turnstile_secret".toList,
      "keepalived_auth_password".toList], row "key".toList = .plain (.str key)

/-- The system holds no secret that is archived. -/
structure NoneExposed (S : Settings) (σ : SystemState) : Prop where
  rows : ∀ t ∈ σ.tables, ∀ row ∈ t.rows, ∀ column ∈ t.columns, ¬ Exposed t.name row column
  files : ∀ f ∈ σ.files, isPrivateKey S f.1 = false

/-! ### Nothing is exposed -/

/-- Lists whose entries give the same results, one by one, are filtered alike. -/
theorem filterMap_eq_of_forall₂ {α β γ : Type*} {R : α → β → Prop} {f : α → Option γ}
    {g : β → Option γ} {l : List α} {l' : List β} (h : List.Forall₂ R l l')
    (hfg : ∀ a ∈ l, ∀ b, R a b → g b = f a) : l'.filterMap g = l.filterMap f := by
  induction h with
  | nil => rfl
  | @cons a b l l' hab _ ih =>
      rw [List.filterMap_cons, List.filterMap_cons, hfg a List.mem_cons_self b hab,
        ih fun a ha => hfg a (List.mem_cons_of_mem _ ha)]

section Reveals

variable {S : Settings} {σ σ' : SystemState} {includeMetrics : Bool} {table : Text}
  {row row' : RowMapping} {column : Text} {columns : List Text} {tables tables' : List Table}

/-- A secret is exposed, or set to null, or left out with its setting. -/
theorem exposed_or (h : IsSecret table row column) :
    Exposed table row column ∨ column ∈ secretColumns table ∨
      table = "settings".toList ∧ row "key".toList = .plain (.str "maxmind_license_key".toList) := by
  rcases h with h | h | ⟨htable, hcolumn, key, hkey, hrow⟩
  · cases hlookup : Dict.lookup sensitiveFields table with
    | none =>
        rw [hlookup] at h
        cases h
    | some sensitive =>
        rw [hlookup, Option.getD_some] at h
        rcases List.mem_pair.mp (Dict.mem_of_lookup hlookup) with heq | heq
        · obtain ⟨htable, hsensitive⟩ := Prod.mk.inj heq
          have hcolumns : secretColumns "certificates".toList = ["dns_credentials".toList] := rfl
          rw [htable, hcolumns, ← hsensitive]
          exact .inr (.inl h)
        · obtain ⟨htable, hsensitive⟩ := Prod.mk.inj heq
          have hsub : ∀ c ∈ ["auth_secret_enc".toList, "oauth_client_secret_enc".toList,
              "env_vars_json".toList], c ∈ encryptedMcpColumns := by decide
          rw [hsensitive] at h
          exact .inl (.inl ⟨htable, hsub column h⟩)
  · exact .inl (.inl h)
  · rcases List.mem_cons.mp hkey with hkey | hkey
    · exact .inr (.inr ⟨htable, hkey ▸ hrow⟩)
    · exact .inl (.inr ⟨htable, hcolumn, key, hkey, hrow⟩)

/-- The key of a setting is no secret. -/
theorem not_isSecret_key : ¬ IsSecret "settings".toList row "key".toList := by
  rintro (h | ⟨h, -⟩ | ⟨-, h, -⟩)
  · have hlookup : Dict.lookup sensitiveFields "settings".toList = none := rfl
    rw [hlookup] at h
    cases h
  · exact absurd h (by decide)
  · exact absurd h (by decide)

theorem lookup_serializeRow {key : Text} (hkey : key ∈ columns) :
    Dict.lookup (serializeRow columns row) key = some (jsonable (row key)) := by
  induction columns with
  | nil => cases hkey
  | cons c columns ih =>
      rw [serializeRow, List.map_cons, Dict.lookup_cons]
      by_cases hc : c = key
      · rw [if_pos hc, hc]
      · rw [if_neg hc]
        exact ih ((List.mem_cons.mp hkey).resolve_left (Ne.symm hc))

theorem exportRow_same (hkeyed : table = "settings".toList → "key".toList ∈ columns)
    (h : SameRow table row row') (hnone : ∀ column ∈ columns, ¬ Exposed table row column) :
    exportRow false table (serializeRow columns row') =
      exportRow false table (serializeRow columns row) := by
  by_cases hdropped : table = "settings".toList ∧
      row "key".toList = .plain (.str "maxmind_license_key".toList)
  · obtain ⟨rfl, hkey⟩ := hdropped
    have hnone : ∀ r : RowMapping, r "key".toList = .plain (.str "maxmind_license_key".toList) →
        exportRow false "settings".toList (serializeRow columns r) = none := by
      intro r hr
      have hcolumns : secretColumns "settings".toList = [] := rfl
      have hredacted : ((serializeRow columns r).map fun e =>
          (e.1, if e.1 ∈ secretColumns "settings".toList then .null else e.2)) =
          serializeRow columns r := by
        rw [hcolumns]
        simp
      rw [exportRow, if_neg Bool.false_ne_true]
      dsimp only
      rw [hredacted, lookup_serializeRow (hkeyed rfl), hr]
      exact if_pos ⟨rfl, rfl⟩
    rw [hnone row hkey, hnone row' ((h _ not_isSecret_key).trans hkey)]
  · have hredacted : ((serializeRow columns row').map fun e =>
        (e.1, if e.1 ∈ secretColumns table then Json.null else e.2)) =
        (serializeRow columns row).map fun e =>
          (e.1, if e.1 ∈ secretColumns table then Json.null else e.2) := by
      rw [serializeRow, serializeRow, List.map_map, List.map_map]
      refine List.map_congr_left fun column hcolumn => ?_
      show (column, ite _ _ _) = (column, ite _ _ _)
      by_cases hsecret : column ∈ secretColumns table
      · rw [if_pos hsecret, if_pos hsecret]
      · rw [if_neg hsecret, if_neg hsecret]
        show (column, jsonable (row' column)) = (column, jsonable (row column))
        rw [h column fun hcolumnSecret => ?_]
        rcases exposed_or hcolumnSecret with hexposed | hmem | hsetting
        · exact hnone column hcolumn hexposed
        · exact hsecret hmem
        · exact hdropped hsetting
    rw [exportRow, exportRow, if_neg Bool.false_ne_true, if_neg Bool.false_ne_true]
    dsimp only
    rw [hredacted]

theorem dbJson_same (h : List.Forall₂ SameTable tables tables')
    (hnone : ∀ t ∈ tables, ∀ row ∈ t.rows, ∀ column ∈ t.columns, ¬ Exposed t.name row column) :
    dbJson tables' false includeMetrics = dbJson tables false includeMetrics := by
  unfold dbJson
  rw [← List.filterMap_eq_map', List.filterMap_filter, List.filterMap_filter]
  refine filterMap_eq_of_forall₂ h fun t ht t' hsame => ?_
  have hrows : t'.rows.filterMap (fun row =>
      exportRow false t'.name (serializeRow t'.columns row)) =
      t.rows.filterMap fun row => exportRow false t.name (serializeRow t.columns row) := by
    rw [hsame.name, hsame.columns]
    exact filterMap_eq_of_forall₂ hsame.rows fun row hrow row' hrow' =>
      exportRow_same t.keyed hrow' (hnone t ht row hrow)
  rw [hrows, hsame.name]

/-- **Without exposed secrets, the archive does not depend on any.** -/
theorem createExport_same (h : SameButSecrets S σ σ') (hnone : NoneExposed S σ)
    (password : Option Text) :
    createExport S σ' false includeMetrics password =
      createExport S σ false includeMetrics password := by
  have hfiles : σ'.files = σ.files := by
    have hsame := filterMap_eq_of_forall₂ (f := some) (g := some) h.files fun f hf f' hsame =>
      congrArg some (Prod.ext hsame.path (hsame.content (hnone.files f hf)))
    rwa [List.filterMap_some, List.filterMap_some] at hsame
  rw [createExport, createExport, hfiles, dbJson_same h.tables hnone.rows]

/-! ### What is exposed is revealed -/

theorem Exposed.isSecret (h : Exposed table row column) : IsSecret table row column := by
  rcases h with h | ⟨htable, hcolumn, key, hkey, hrow⟩
  · exact .inr (.inl h)
  · exact .inr (.inr ⟨htable, hcolumn, key, List.mem_cons_of_mem _ hkey, hrow⟩)

theorem Exposed.of_same (h : Exposed table row column) (hsame : SameRow table row row') :
    Exposed table row' column := by
  rcases h with h | ⟨rfl, hcolumn, key, hkey, hrow⟩
  · exact .inl h
  · exact .inr ⟨rfl, hcolumn, key, hkey, (hsame _ not_isSecret_key).trans hrow⟩

theorem SameRow.refl (table : Text) (row : RowMapping) : SameRow table row row := fun _ _ => rfl

theorem SameTable.refl (t : Table) : SameTable t t :=
  ⟨rfl, rfl, List.forall₂_same.mpr fun row _ => .refl _ row⟩

theorem SameFile.refl (S : Settings) (f : Text × Bytes) : SameFile S f f := ⟨rfl, fun _ => rfl⟩

/-- One entry of a list is changed. -/
theorem forall₂_change {α : Type*} {R : α → α → Prop} (hrefl : ∀ a, R a a) (before after : List α)
    {a b : α} (hab : R a b) :
    List.Forall₂ R (before ++ a :: after) (before ++ b :: after) :=
  List.rel_append (List.forall₂_same.mpr fun a _ => hrefl a)
    (.cons hab (List.forall₂_same.mpr fun a _ => hrefl a))

/-- The tables of exposed secrets are archived, with all their columns. -/
theorem Exposed.archived (h : Exposed table row column) :
    (∀ includeMetrics, exported false includeMetrics table = true) ∧
      secretColumns table = [] ∧ Dict.lookup jsonSecretColumns table = none := by
  rcases h with ⟨rfl, -⟩ | ⟨rfl, -⟩
  · exact ⟨fun m => by cases m <;> rfl, rfl, rfl⟩
  · exact ⟨fun m => by cases m <;> rfl, rfl, rfl⟩

theorem lookup_serializeRow_eq_some {key : Text} {j : Json}
    (h : Dict.lookup (serializeRow columns row) key = some j) : j = jsonable (row key) := by
  obtain ⟨c, -, hc⟩ := List.mem_map.mp (Dict.mem_of_lookup h)
  rw [← (Prod.mk.inj hc).2, (Prod.mk.inj hc).1]

/-- A row with an exposed secret is archived as it is, whatever the secret. -/
theorem exportRow_exposed (h : Exposed table row column) :
    exportRow false table (serializeRow columns row) = some (serializeRow columns row) := by
  obtain ⟨-, hcolumns, hjson⟩ := h.archived
  have hredacted : ((serializeRow columns row).map fun e =>
      (e.1, if e.1 ∈ secretColumns table then Json.null else e.2)) = serializeRow columns row := by
    rw [hcolumns]
    simp
  rw [exportRow, if_neg Bool.false_ne_true]
  dsimp only
  rw [hredacted, if_neg, redactJsonSecrets, hjson]
  rintro ⟨htable, hmaxmind⟩
  rcases h with ⟨h, -⟩ | ⟨-, -, key, hkey, hrow⟩
  · exact absurd (h.symm.trans htable) (by decide)
  · obtain ⟨j, hj, hcontains⟩ := (Option.any_eq_true _ _).mp hmaxmind
    rw [lookup_serializeRow_eq_some hj, hrow] at hcontains
    have hother : ∀ key ∈ ["recaptcha_secret".toList, "cap_secret".toList,
        "turnstile_secret".toList, "keepalived_auth_password".toList],
        key ∉ secretSettingKeys := by decide
    obtain ⟨k, hk, hkj⟩ := List.mem_map.mp (List.contains_iff_mem.mp hcontains)
    exact hother key hkey (Json.str.inj hkj ▸ hk)

/-- The values in the rows of `db.json`. -/
def dbValues (db : List (Text × List Fields)) : List Json :=
  db.flatMap fun t => t.2.flatMap fun fields => fields.map Prod.snd

theorem exists_fresh {α β : Type*} [Infinite α] (f : α → β) (hf : Function.Injective f)
    (l : List β) : ∃ a, f a ∉ l := by
  obtain ⟨_, ⟨a, rfl⟩, ha⟩ :=
    (Set.infinite_range_of_injective hf).exists_notMem_finite l.finite_toSet
  exact ⟨a, ha⟩

/-- An exposed secret can be changed so that `db.json` changes. -/
theorem exists_same_db_ne {t : Table} (ht : t ∈ tables) (hrow : row ∈ t.rows)
    (hcolumn : column ∈ t.columns) (hexposed : Exposed t.name row column)
    (includeMetrics : Bool) :
    ∃ tables', List.Forall₂ SameTable tables tables' ∧
      dbJson tables' false includeMetrics ≠ dbJson tables false includeMetrics := by
  obtain ⟨fresh, hfresh⟩ := exists_fresh Json.str (fun _ _ => Json.str.inj)
    (dbValues (dbJson tables false includeMetrics))
  obtain ⟨before, after, rfl⟩ := List.append_of_mem ht
  obtain ⟨above, below, hrows⟩ := List.append_of_mem hrow
  let row' : RowMapping := fun c => if c = column then .plain (.str fresh) else row c
  let t' : Table := { t with rows := above ++ row' :: below }
  have hsameRow : SameRow t.name row row' := fun c hc =>
    if_neg fun h : c = column => hc (h ▸ hexposed.isSecret)
  have hsameTable : SameTable t t' := by
    refine ⟨rfl, rfl, ?_⟩
    rw [hrows]
    exact forall₂_change (SameRow.refl t.name) above below hsameRow
  refine ⟨before ++ t' :: after, forall₂_change SameTable.refl before after hsameTable, fun h => ?_⟩
  -- The fresh text is in the new `db.json` and not in the old one.
  refine hfresh (h ▸ List.mem_flatMap.mpr ⟨_, List.mem_map_of_mem (List.mem_filter.mpr
    ⟨List.mem_append_right _ List.mem_cons_self, hexposed.archived.1 includeMetrics⟩), ?_⟩)
  refine List.mem_flatMap.mpr ⟨serializeRow t.columns row', List.mem_filterMap.mpr
    ⟨row', List.mem_append_right _ List.mem_cons_self,
      exportRow_exposed (hexposed.of_same hsameRow)⟩, ?_⟩
  refine List.mem_map.mpr ⟨(column, .str fresh), List.mem_map.mpr ⟨column, hcolumn, ?_⟩, rfl⟩
  show (column, jsonable (if column = column then _ else _)) = _
  rw [if_pos rfl]
  rfl

theorem content_of_mem_filesInArchive {files : List (Text × Bytes)} {e : Text × Bytes}
    {includeSecrets : Bool} (h : e ∈ filesInArchive S files includeSecrets) :
    e.2 ∈ files.map Prod.snd := by
  rcases List.mem_append.mp h with h | h
  · obtain ⟨source, -, hfile⟩ := List.mem_filterMap.mp h
    obtain ⟨content, hlookup, rfl⟩ := Option.map_eq_some_iff.mp hfile
    exact List.mem_map.mpr ⟨_, Dict.mem_of_lookup hlookup, rfl⟩
  · obtain ⟨source, -, hdir⟩ := List.mem_flatMap.mp h
    obtain ⟨f, hf, hrel⟩ := List.mem_filterMap.mp hdir
    obtain ⟨rel, -, rfl⟩ := Option.map_eq_some_iff.mp hrel
    exact List.mem_map.mpr ⟨f, hf, rfl⟩

/-- Every private key is archived. -/
theorem exists_mem_filesInArchive {files : List (Text × Bytes)} {f : Text × Bytes} (hf : f ∈ files)
    (hkey : isPrivateKey S f.1 = true) (includeSecrets : Bool) :
    ∃ name, (name, f.2) ∈ filesInArchive S files includeSecrets := by
  obtain ⟨rel, hrel⟩ := Option.isSome_iff_exists.mp (Bool.and_eq_true_iff.mp hkey).1
  -- Both names of a private key are in the directory of the certificates.
  refine ⟨"certs".toList ++ '/' :: rel, List.mem_append_right _ (List.mem_flatMap.mpr
    ⟨(S.certDir, "certs".toList), List.mem_cons_self, List.mem_filterMap.mpr ⟨f, hf, ?_⟩⟩)⟩
  rw [hrel]
  rfl

/-- A private key can be changed so that the archived files change. -/
theorem exists_same_files_ne {files : List (Text × Bytes)} {f : Text × Bytes} (hf : f ∈ files)
    (hkey : isPrivateKey S f.1 = true) (includeSecrets : Bool) :
    ∃ files', List.Forall₂ (SameFile S) files files' ∧
      filesInArchive S files' includeSecrets ≠ filesInArchive S files includeSecrets := by
  obtain ⟨fresh, hfresh⟩ := exists_fresh id Function.injective_id (files.map Prod.snd)
  obtain ⟨before, after, rfl⟩ := List.append_of_mem hf
  have hsame : SameFile S f (f.1, fresh) := ⟨rfl, fun h => absurd (h.symm.trans hkey) (by decide)⟩
  refine ⟨before ++ (f.1, fresh) :: after, forall₂_change (SameFile.refl S) before after hsame,
    fun h => ?_⟩
  obtain ⟨name, hname⟩ := exists_mem_filesInArchive (f := (f.1, fresh))
    (List.mem_append_right before (List.mem_cons_self (l := after))) hkey includeSecrets
  exact hfresh (content_of_mem_filesInArchive (h ▸ hname))

end Reveals

/-- **An archive without secrets reveals none exactly when the system holds none that the lists
of the backup forget**: a secret of an MCP server, one of four settings, or a private key. -/
theorem reveals_nothing_iff (S : Settings) (σ : SystemState) (includeMetrics : Bool)
    (password : Option Text) :
    (∀ σ', SameButSecrets S σ σ' → createExport S σ' false includeMetrics password =
      createExport S σ false includeMetrics password) ↔ NoneExposed S σ := by
  constructor
  · intro h
    constructor
    · intro t ht row hrow column hcolumn hexposed
      obtain ⟨tables', hsame, hne⟩ := exists_same_db_ne ht hrow hcolumn hexposed includeMetrics
      have hfiles := List.forall₂_same.mpr fun f (_ : f ∈ σ.files) => SameFile.refl S f
      exact hne (congrArg Archive.db (h ⟨tables', σ.files⟩ ⟨hsame, hfiles⟩))
    · intro f hf
      by_contra hkey
      obtain ⟨files', hsame, hne⟩ :=
        exists_same_files_ne hf (Bool.not_eq_false _ ▸ hkey) false
      have htables := List.forall₂_same.mpr fun t (_ : t ∈ σ.tables) => SameTable.refl t
      exact hne (congrArg Archive.files (h ⟨σ.tables, files'⟩ ⟨htables, hsame⟩))
  · exact fun hnone σ' h => createExport_same h hnone password

/-- The default settings. -/
def defaultSettings : Settings where
  haproxyConfigPath := "data/haproxy.cfg".toList
  corazaSpoeConfigPath := "data/coraza.cfg".toList
  corazaSpoaConfigPath := "data/coraza-spoa.yaml".toList
  vectorConfigPath := "data/vector/vector.toml".toList
  certDir := "certs".toList
  securityListsDir := "data/lists".toList
  crsDir := "data/crs".toList
  customRulesDir := "data/custom-rules".toList
  geoipDbPath := "data/GeoLite2-Country.mmdb".toList
  geoipCityDbPath := "data/GeoLite2-City.mmdb".toList
  asnDbPath := "data/GeoLite2-ASN.mmdb".toList

theorem servers_ne_settings : "mcp_servers".toList ≠ "settings".toList := by decide

/-- A system with one MCP server and no files. -/
def serverState (secret : Text) : SystemState where
  tables := [{
    name := "mcp_servers".toList
    columns := ["name".toList, "auth_secret_enc".toList]
    rows := [fun column => .plain (.str
      (if column = "auth_secret_enc".toList then secret else "github".toList))]
    keyed := fun h => absurd h servers_ne_settings }]
  files := []

/-- **The ciphertext of the credentials of an MCP server is in an archive without secrets.** -/
theorem server_secret_archived :
    SameButSecrets defaultSettings (serverState "gAAAA1".toList) (serverState "gAAAA2".toList) ∧
      createExport defaultSettings (serverState "gAAAA2".toList) false false none ≠
        createExport defaultSettings (serverState "gAAAA1".toList) false false none := by
  constructor
  · refine ⟨.cons ⟨rfl, rfl, .cons (fun column hcolumn => ?_) .nil⟩ .nil, .nil⟩
    have hne : column ≠ "auth_secret_enc".toList := by
      rintro rfl
      exact hcolumn (.inr (.inl ⟨rfl, List.mem_cons_self⟩))
    show Cell.plain (.str (ite _ _ _)) = Cell.plain (.str (ite _ _ _))
    rw [if_neg hne, if_neg hne]
  · intro h
    have hvalues := congrArg (fun a : Archive => dbValues a.db) h
    have hold : dbValues (createExport defaultSettings (serverState "gAAAA1".toList) false false
        none).db = [.str "github".toList, .str "gAAAA1".toList] := rfl
    have hnew : dbValues (createExport defaultSettings (serverState "gAAAA2".toList) false false
        none).db = [.str "github".toList, .str "gAAAA2".toList] := rfl
    rw [hold, hnew] at hvalues
    exact absurd hvalues (by decide)

end CorexManager.Backup
