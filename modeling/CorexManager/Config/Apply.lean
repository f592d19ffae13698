import CorexManager.ApiArmor.SchemaStore
import CorexManager.Data.Regions
import CorexManager.Python.DateTime

/-!
# Applies

`write_config` over the files: the writers that run before the generated configuration is
validated, in the order of the source, and the files written when it is valid.

* `writers` — the writers before validation, each with the region of the files it writes.
* `refused_alone` — after a refused apply, a region is as its own writer leaves it, which
  is as the database has it and not as it was.
* `refused_haproxyConfig` — `haproxy.cfg` is what it was.
* `refused_changes` — **no refused apply changes nothing**: the files of the API armor bear
  the time they were written at.

The generators of the other files are parameters, and so is the check of `haproxy -c`.  Of
the files that a valid configuration is followed by, those beside it are written here;
`vector.toml`, the VCL and the snapshots come after.
-/

namespace CorexManager.Apply

open Data
open Python (DateTime)
open ApiArmor (stripChars filenameChar inDirectory notStale ApiSchema)

/-! ### Regions -/

/-- The files directly in some directories, and some more. -/
structure Region where
  directories : List Text
  files : List Text

namespace Region

/-- The path is in the region. -/
def holds (r : Region) (path : Text) : Bool :=
  r.files.contains path || r.directories.any fun dir => inDirectory dir path

/-- No path is in both. -/
def apart (a b : Region) : Bool :=
  a.files.all (fun path => !b.holds path) && b.files.all (fun path => !a.holds path) &&
    a.directories.all fun dir => !b.directories.contains dir

end Region

/-! ### Settings -/

/-- `os.path.dirname`. -/
def dirname (path : Text) : Text :=
  let head := (path.reverse.dropWhile (· != '/')).reverse
  if head.all (· == '/') then head else (head.reverse.dropWhile (· == '/')).reverse

/-- `os.path.join` with a relative name. -/
def join (dir name : Text) : Text :=
  if dir = [] ∨ dir.getLast? = some '/' then dir ++ name else dir ++ '/' :: name

/-- The tables of security lists. -/
inductive ListKind where
  | network | asn | geo | ja4 | pattern
  deriving DecidableEq, Repr

/-- All of them, in the order they are written in. -/
def listKinds : List ListKind := [.network, .asn, .geo, .ja4, .pattern]

/-- The directory of a table. -/
def ListKind.subdir : ListKind → Text
  | .network => "network".toList
  | .asn => "asn".toList
  | .geo => "geo".toList
  | .ja4 => "ja4".toList
  | .pattern => "pattern".toList

/-- The paths of the settings. -/
structure Paths where
  haproxyConfigPath : Text
  securityListsDir : Text
  mcpConfigPath : Text
  respTransformDir : Text
  apiArmorDir : Text
  pageProtectBeaconJsPath : Text
  corazaSpoeConfigPath : Text
  corazaSpoaConfigPath : Text

namespace Paths

variable (P : Paths)

def listsDir (kind : ListKind) : Text := P.securityListsDir ++ '/' :: kind.subdir

/-- `_risk_rules_data_path`: beside the directory of the lists. -/
def riskRulesDataPath : Text :=
  let parent := dirname (P.securityListsDir.reverse.dropWhile (· == '/')).reverse
  join (if parent = [] then "data".toList else parent) "risk_rules_data.lua".toList

/-- The bundle of the gateway in Rust. -/
def mcpBundlePath : Text := join (dirname P.mcpConfigPath) "config.bundle.json".toList

/-- The index of the schemas. -/
def schemaIndexPath : Text := P.apiArmorDir ++ '/' :: "schema-index.json".toList

def apiKeysDir : Text := P.apiArmorDir ++ '/' :: "api-keys".toList

def listsRegion : Region := ⟨listKinds.map P.listsDir, []⟩

def riskRegion : Region := ⟨[], [P.riskRulesDataPath]⟩

def mcpRegion : Region :=
  ⟨[], [P.mcpConfigPath, P.mcpBundlePath, P.mcpConfigPath ++ ".applied".toList]⟩

def respTransformRegion : Region := ⟨[P.respTransformDir], []⟩

def apiArmorRegion : Region where
  directories := [P.apiArmorDir ++ '/' :: "schemas".toList, P.apiKeysDir]
  files := [P.schemaIndexPath, P.apiArmorDir ++ '/' :: "auth-policies.json".toList,
    P.apiArmorDir ++ '/' :: "profiles.json".toList]

def beaconRegion : Region := ⟨[], [P.pageProtectBeaconJsPath]⟩

def corazaSpoeRegion : Region := ⟨[], [P.corazaSpoeConfigPath]⟩

def corazaSpoaRegion : Region := ⟨[], [P.corazaSpoaConfigPath]⟩

/-- The regions of the writers. -/
def regions : List Region :=
  [P.listsRegion, P.riskRegion, P.mcpRegion, P.respTransformRegion, P.apiArmorRegion,
    P.beaconRegion, P.corazaSpoeRegion, P.corazaSpoaRegion]

/-- The files that are written when the configuration is valid. -/
def validatedFiles : List Text :=
  [P.haproxyConfigPath, P.haproxyConfigPath ++ ".applied".toList,
    P.corazaSpoeConfigPath ++ ".applied".toList, P.corazaSpoaConfigPath ++ ".applied".toList]

end Paths

/-- Settings whose paths name different places. -/
structure Settings extends Paths where
  corazaSpoaEnabled : Bool
  separate : List.Pairwise (fun a b : Region => a.apart b = true)
    (toPaths.regions ++ [⟨[], toPaths.validatedFiles⟩])

/-! ### The database and the generators -/

/-- A security list, or a list of API keys. -/
structure ValueList where
  name : Text
  entries : List Text

/-- The tables that are written row by row; those the generators read are of type `ρ`. -/
structure Db (ρ : Type) where
  lists : ListKind → List ValueList
  apiSchemas : List ApiSchema
  apiKeyLists : List ValueList
  rest : ρ

/-- The generators of the files, and the check; `none` is an exception. -/
structure Generators (ρ : Type) where
  config : Db ρ → Text
  riskRulesData : Db ρ → Option Text
  mcpOn : Db ρ → Bool
  /-- The bundle encrypted at a time, and in the format of the gateway in Rust. -/
  mcpBundle : DateTime → Db ρ → Option (Text × Option Text)
  mcpBundleText : Db ρ → Text
  /-- The rules of the backends that have some, by their names. -/
  respTransform : Db ρ → List (Text × Text)
  queryDetokenize : Db ρ → Text
  /-- `json.dump`. -/
  dump : Json → Text
  schemaIndex : List ApiArmor.SchemaEntry → Text
  authPolicies : Db ρ → Text
  profiles : Db ρ → Text
  beaconJs : Text
  corazaSpoe : Db ρ → Text
  corazaSpoa : Db ρ → Text
  /-- `haproxy -c`, which reads the files a configuration names. -/
  validates : Text → Store Text Text → Bool

variable {ρ : Type}

/-- The files. -/
abbrev Files := Store Text Text

/-! ### The writers -/

/-- `safe_filename` of `security_lists`.  What is left is no directory. -/
def safeFilename (name : Text) : Text :=
  let cleaned := stripChars (fun c => c == '.' || c == '_')
    (name.map fun c => if filenameChar c then c else '_')
  if cleaned = [] then "unnamed".toList else cleaned

/-- One value per line. -/
def ValueList.content (l : ValueList) : Text := l.entries.flatMap fun v => v ++ ['\n']

/-- `generate_security_list_file_contents`, with the paths. -/
def securityListFiles (P : Paths) (lists : ListKind → List ValueList) : List (Text × Text) :=
  listKinds.flatMap fun kind => (lists kind).map fun l =>
    (P.listsDir kind ++ '/' :: (safeFilename l.name ++ ".lst".toList), l.content)

/-- A list file that is there and was not written. -/
def staleList (P : Paths) (written : List Text) (files : Files) (path : Text) : Bool :=
  listKinds.any (fun kind => inDirectory (P.listsDir kind) path) &&
    ".lst".toList.isSuffixOf path && !written.contains path && (files path).isSome

/-- Stale list files go, with their applied copies. -/
def removeStaleLists (P : Paths) (written : List Text) (files : Files) : Files := fun path =>
  if staleList P written files path ∨ (".applied".toList.isSuffixOf path ∧
      staleList P written files (path.take (path.length - ".applied".toList.length))) then none
  else files path

/-- `write_security_list_files`. -/
def writeSecurityListFiles (P : Paths) (lists : ListKind → List ValueList) (files : Files) : Files :=
  let contents := securityListFiles P lists
  removeStaleLists P (contents.map Prod.fst) (files.writeAll
    (contents.flatMap fun c => [c, (c.1 ++ ".applied".toList, c.2)]))

/-- `write_risk_rules_data_file`; an exception is logged. -/
def writeRiskRulesDataFile (P : Paths) (G : Generators ρ) (db : Db ρ) (files : Files) : Files :=
  match G.riskRulesData db with
  | some content => files.write P.riskRulesDataPath content
  | none => files

/-- `write_config_bundle` and `write_applied_mcp_bundle`; an exception is logged. -/
def writeMcpBundle (P : Paths) (G : Generators ρ) (now : DateTime) (db : Db ρ) (files : Files) :
    Files :=
  if G.mcpOn db then
    match G.mcpBundle now db with
    | some (encrypted, rust) => files.writeAll ((P.mcpConfigPath, encrypted) ::
        ((rust.map fun b => (P.mcpBundlePath, b)).toList ++
          [(P.mcpConfigPath ++ ".applied".toList, G.mcpBundleText db)]))
    | none => files
  else files

/-- `write_resp_transform_files`. -/
def writeRespTransformFiles (P : Paths) (G : Generators ρ) (db : Db ρ) (files : Files) : Files :=
  let writes := (G.respTransform db).map fun c =>
    (P.respTransformDir ++ '/' :: (ApiArmor.safeFilename c.1 ++ ".json".toList), c.2)
  let detokPath := P.respTransformDir ++ '/' :: "query_detokenize.json".toList
  ((files.writeAll writes).write detokPath (G.queryDetokenize db)).keep
    (notStale P.respTransformDir (writes.map Prod.fst ++ [detokPath]))

/-- `json.dump` of one value and `generated_at`, `_utc_now_iso`. -/
def stamped (key printed : Text) (now : DateTime) : Text :=
  ("\x7b\n  ".toList ++ '"' :: key ++ '"' :: (": ".toList ++ printed ++
    (",\n  ".toList ++ '"' :: "generated_at".toList ++ '"' :: ": ".toList))) ++
      '"' :: (now.isoformat ++ "+00:00".toList) ++ ('"' :: "\n\x7d".toList)

/-- `write_api_armor_api_keys`. -/
def writeApiArmorApiKeys (P : Paths) (keyLists : List ValueList) (files : Files) : Files :=
  let writes := keyLists.map fun l =>
    (P.apiKeysDir ++ '/' :: (ApiArmor.safeFilename l.name ++ ".lst".toList), l.content)
  (files.writeAll writes).keep fun path =>
    !(inDirectory P.apiKeysDir path && ".lst".toList.isSuffixOf path) ||
      (writes.map Prod.fst).contains path

/-- `write_api_armor_files`. -/
def writeApiArmorFiles (P : Paths) (G : Generators ρ) (now : DateTime) (db : Db ρ) (files : Files) :
    Files :=
  let W : ApiArmor.Writer := ⟨G.dump, fun index => stamped "schemas".toList (G.schemaIndex index) now⟩
  let schemas := ApiArmor.writeApiArmorSchemas W P.apiArmorDir db.apiSchemas files
  (writeApiArmorApiKeys P db.apiKeyLists schemas).writeAll
    [(P.apiArmorDir ++ '/' :: "auth-policies.json".toList,
        stamped "policies".toList (G.authPolicies db) now),
      (P.apiArmorDir ++ '/' :: "profiles.json".toList,
        stamped "profiles".toList (G.profiles db) now)]

/-- `write_coraza_spoa_config`: a file that would not change is left alone. -/
def writeCorazaSpoaConfig (P : Paths) (config : Text) (files : Files) : Files :=
  if files P.corazaSpoaConfigPath ≠ some config then files.write P.corazaSpoaConfigPath config
  else files

/-- The writers before validation, with their regions. -/
def writers (S : Settings) (G : Generators ρ) (now : DateTime) (db : Db ρ) :
    List (Region × (Files → Files)) :=
  [(S.listsRegion, writeSecurityListFiles S.toPaths db.lists),
    (S.riskRegion, writeRiskRulesDataFile S.toPaths G db),
    (S.mcpRegion, writeMcpBundle S.toPaths G now db),
    (S.respTransformRegion, writeRespTransformFiles S.toPaths G db),
    (S.apiArmorRegion, writeApiArmorFiles S.toPaths G now db),
    (S.beaconRegion, fun files => files.write S.pageProtectBeaconJsPath G.beaconJs),
    (S.corazaSpoeRegion, fun files =>
      if S.corazaSpoaEnabled then files.write S.corazaSpoeConfigPath (G.corazaSpoe db) else files),
    (S.corazaSpoaRegion, fun files =>
      if S.corazaSpoaEnabled then writeCorazaSpoaConfig S.toPaths (G.corazaSpoa db) files else files)]

/-! ### `write_config` -/

/-- The files when the configuration is validated. -/
def beforeValidation (S : Settings) (G : Generators ρ) (now : DateTime) (db : Db ρ) (files : Files) :
    Files :=
  Store.runAll ((writers S G now db).map Prod.snd) files

/-- What an apply leaves, and whether it raised. -/
structure Outcome where
  files : Files
  raised : Bool

/-- `write_config`. -/
def writeConfig (S : Settings) (G : Generators ρ) (now : DateTime) (db : Db ρ) (files : Files) :
    Outcome :=
  let config := G.config db
  let written := beforeValidation S G now db files
  if G.validates config written then
    let applied := (written.write S.haproxyConfigPath config).write
      (S.haproxyConfigPath ++ ".applied".toList) config
    ⟨if S.corazaSpoaEnabled then
        (applied.write (S.corazaSpoeConfigPath ++ ".applied".toList) (G.corazaSpoe db)).write
          (S.corazaSpoaConfigPath ++ ".applied".toList) (G.corazaSpoa db)
      else applied, false⟩
  else ⟨written, true⟩

/-! ### Every writer keeps to its region -/

theorem inDirectory_iff {dir path : Text} :
    inDirectory dir path = true ↔ ∃ name, path = dir ++ '/' :: name ∧ '/' ∉ name := by
  unfold inDirectory
  rw [Bool.and_eq_true, List.isPrefixOf_iff_prefix, Bool.not_eq_true', List.contains_eq_mem,
    decide_eq_false_iff_not]
  constructor
  · rintro ⟨⟨name, rfl⟩, hname⟩
    refine ⟨name, by simp, ?_⟩
    rwa [show dir.length + 1 = (dir ++ ['/']).length by simp, List.drop_left] at hname
  · rintro ⟨name, rfl, hname⟩
    refine ⟨⟨name, by simp⟩, ?_⟩
    rwa [List.append_cons, show dir.length + 1 = (dir ++ ['/']).length by simp, List.drop_left]

/-- A file is directly in one directory. -/
theorem inDirectory_inj {a b path : Text} (ha : inDirectory a path = true)
    (hb : inDirectory b path = true) : a = b := by
  obtain ⟨n, rfl, hn⟩ := inDirectory_iff.mp ha
  obtain ⟨m, heq, hm⟩ := inDirectory_iff.mp hb
  exact (separator_inj hn hm heq).1

theorem Region.apart_spec {a b : Region} (h : a.apart b = true) {path : Text}
    (ha : a.holds path = true) : b.holds path ≠ true := by
  unfold Region.apart at h
  simp only [Bool.and_eq_true, List.all_eq_true, Bool.not_eq_true'] at h
  obtain ⟨⟨hafiles, hbfiles⟩, hdirs⟩ := h
  intro hb
  have hboth := ha
  unfold Region.holds at ha
  rcases Bool.or_eq_true_iff.mp ha with hfile | hdir
  · have := hafiles path (List.contains_iff_mem.mp hfile)
    rw [hb] at this
    cases this
  · unfold Region.holds at hb
    rcases Bool.or_eq_true_iff.mp hb with hfile | hdir'
    · have := hbfiles path (List.contains_iff_mem.mp hfile)
      rw [hboth] at this
      cases this
    · obtain ⟨d, hd, hin⟩ := List.any_eq_true.mp hdir
      obtain ⟨e, he, hin'⟩ := List.any_eq_true.mp hdir'
      have hnot := hdirs d hd
      rw [inDirectory_inj hin hin', List.contains_iff_mem.mpr he] at hnot
      cases hnot

/-- A name below a directory is in it when it has no slash. -/
theorem Region.holds_below {r : Region} {dir name : Text} (hdir : dir ∈ r.directories)
    (hname : '/' ∉ name) : r.holds (dir ++ '/' :: name) = true := by
  have hin : inDirectory dir (dir ++ '/' :: name) = true := inDirectory_iff.mpr ⟨name, rfl, hname⟩
  exact Bool.or_eq_true_iff.mpr (.inr (List.any_eq_true.mpr ⟨dir, hdir, hin⟩))

theorem Region.holds_file {r : Region} {path : Text} (h : path ∈ r.files) : r.holds path = true :=
  Bool.or_eq_true_iff.mpr (.inl (List.contains_iff_mem.mpr h))

/-- What is sanitized has no slash. -/
theorem mem_stripChars {p : Char → Bool} {t : Text} {c : Char} (h : c ∈ stripChars p t) : c ∈ t := by
  unfold stripChars at h
  have h' := (List.dropWhile_sublist p).subset (List.mem_reverse.mp h)
  exact (List.dropWhile_sublist p).subset (List.mem_reverse.mp h')

private theorem sanitized_noSlash {p : Char → Bool} {name : Text} {fallback : Text}
    (hfallback : '/' ∉ fallback) :
    '/' ∉ (if stripChars p (name.map fun c => if filenameChar c then c else '_') = [] then fallback
      else stripChars p (name.map fun c => if filenameChar c then c else '_')) := by
  split_ifs
  · exact hfallback
  · intro h
    obtain ⟨c, -, hc⟩ := List.mem_map.mp (mem_stripChars h)
    by_cases hkeep : filenameChar c = true
    · rw [if_pos hkeep] at hc
      rw [hc] at hkeep
      revert hkeep
      decide
    · rw [if_neg hkeep] at hc
      revert hc
      decide

theorem safeFilename_noSlash (name : Text) : '/' ∉ safeFilename name :=
  sanitized_noSlash (by decide)

theorem armorFilename_noSlash (name : Text) : '/' ∉ ApiArmor.safeFilename name :=
  sanitized_noSlash (by decide)

theorem mem_collapse {t : Text} {c : Char} (h : c ∈ ApiArmor.collapse t) : c ∈ t := by
  fun_induction ApiArmor.collapse t with
  | case1 t ih => exact List.mem_cons_of_mem _ (ih h)
  | case2 d t _ ih =>
      rcases List.mem_cons.mp h with rfl | h
      · exact List.mem_cons_self
      · exact List.mem_cons_of_mem _ (ih h)
  | case3 => exact h

theorem safeSchemaFilename_noSlash (method path : Text) :
    '/' ∉ ApiArmor.safeSchemaFilename method path := by
  intro h
  unfold ApiArmor.safeSchemaFilename at h
  dsimp only at h
  split_ifs at h
  · revert h
    decide
  · have h' := mem_collapse (mem_stripChars h)
    rcases List.mem_append.mp h' with h' | h'
    · exact armorFilename_noSlash method h'
    · rcases List.mem_cons.mp h' with h' | h'
      · revert h'
        decide
      · exact armorFilename_noSlash path h'

/-- A name with an extension. -/
theorem noSlash_append {name ext : Text} (hname : '/' ∉ name) (hext : '/' ∉ ext) :
    '/' ∉ name ++ ext := fun h => (List.mem_append.mp h).elim hname hext

/-- A program keeps to a region. -/
abbrev KeepsTo (r : Region) (f : Files → Files) : Prop := Store.LocalTo (r.holds · = true) f

theorem Region.write_keeps {r : Region} {path : Text} (h : r.holds path = true) (content : Text) :
    KeepsTo r (fun files => files.write path content) :=
  @Store.write_localTo _ _ _ (r.holds · = true) path h content

theorem Region.writeAll_keeps {r : Region} {ws : List (Text × Text)}
    (h : ∀ w ∈ ws, r.holds w.1 = true) : KeepsTo r (fun files => files.writeAll ws) :=
  Store.writeAll_localTo h

section

variable (P : Paths) (G : Generators ρ) (now : DateTime) (db : Db ρ)

theorem mem_securityListFiles {lists : ListKind → List ValueList} {c : Text × Text}
    (h : c ∈ securityListFiles P lists) :
    ∃ kind name, '/' ∉ name ∧ c.1 = P.listsDir kind ++ '/' :: (name ++ ".lst".toList) := by
  obtain ⟨kind, -, hc⟩ := List.mem_flatMap.mp h
  obtain ⟨l, -, rfl⟩ := List.mem_map.mp hc
  exact ⟨kind, safeFilename l.name, safeFilename_noSlash l.name, rfl⟩

theorem mem_listKinds (kind : ListKind) : kind ∈ listKinds := by
  cases kind <;> decide

theorem listsRegion_directory (kind : ListKind) : P.listsDir kind ∈ P.listsRegion.directories :=
  List.mem_map_of_mem (mem_listKinds kind)

/-- What is stale is in a directory of lists, and so is its applied copy. -/
theorem staleList_holds {written : List Text} {files : Files} {path : Text}
    (h : staleList P written files path = true) :
    P.listsRegion.holds path = true ∧ P.listsRegion.holds (path ++ ".applied".toList) = true := by
  unfold staleList at h
  simp only [Bool.and_eq_true] at h
  obtain ⟨kind, -, hin⟩ := List.any_eq_true.mp h.1.1.1
  obtain ⟨name, rfl, hname⟩ := inDirectory_iff.mp hin
  refine ⟨Region.holds_below (listsRegion_directory P kind) hname, ?_⟩
  rw [List.append_assoc, List.cons_append]
  exact Region.holds_below (listsRegion_directory P kind) (noSlash_append hname (by decide))

theorem removeStaleLists_local (written : List Text) :
    KeepsTo P.listsRegion (removeStaleLists P written) := by
  have hagree : ∀ {s s' : Files}, (∀ k, P.listsRegion.holds k = true → s k = s' k) → ∀ path,
      staleList P written s path = true → staleList P written s' path = true := by
    intro s s' hs path h
    have hholds := (staleList_holds P h).1
    unfold staleList at h ⊢
    rwa [← hs path hholds]
  have happlied : ∀ {path : Text}, ".applied".toList.isSuffixOf path = true →
      path = path.take (path.length - ".applied".toList.length) ++ ".applied".toList := by
    intro path h
    exact (List.suffix_iff_eq_append.mp (List.isSuffixOf_iff_suffix.mp h)).symm
  constructor
  · intro s path hpath
    refine if_neg ?_
    rintro (h | ⟨hsuffix, h⟩)
    · exact hpath (staleList_holds P h).1
    · have hholds := (staleList_holds P h).2
      rw [← happlied hsuffix] at hholds
      exact hpath hholds
  · intro s s' hs path hpath
    have hiff : ∀ q, staleList P written s q = true ↔ staleList P written s' q = true := fun q =>
      ⟨hagree hs q, hagree (fun k hk => (hs k hk).symm) q⟩
    unfold removeStaleLists
    rw [hs path hpath]
    simp only [hiff]

theorem writeSecurityListFiles_local (lists : ListKind → List ValueList) :
    KeepsTo P.listsRegion (writeSecurityListFiles P lists) := by
  refine (removeStaleLists_local P _).comp (Region.writeAll_keeps ?_)
  intro w hw
  obtain ⟨c, hc, hw⟩ := List.mem_flatMap.mp hw
  obtain ⟨kind, name, hname, heq⟩ := mem_securityListFiles P hc
  have hlst : '/' ∉ name ++ ".lst".toList := noSlash_append hname (by decide)
  rcases List.mem_pair.mp hw with rfl | rfl
  · rw [heq]
    exact Region.holds_below (listsRegion_directory P kind) hlst
  · show P.listsRegion.holds (c.1 ++ _) = true
    rw [heq, List.append_assoc, List.cons_append]
    exact Region.holds_below (listsRegion_directory P kind) (noSlash_append hlst (by decide))

theorem writeRiskRulesDataFile_local : KeepsTo P.riskRegion (writeRiskRulesDataFile P G db) := by
  unfold writeRiskRulesDataFile
  cases G.riskRulesData db with
  | none => exact .id
  | some content =>
      have hpath : P.riskRegion.holds P.riskRulesDataPath = true :=
        Region.holds_file (List.mem_singleton_self _)
      exact Region.write_keeps hpath content

theorem writeMcpBundle_local : KeepsTo P.mcpRegion (writeMcpBundle P G now db) := by
  unfold writeMcpBundle
  by_cases hon : G.mcpOn db = true
  · simp only [if_pos hon]
    cases G.mcpBundle now db with
    | none => exact .id
    | some bundle =>
        refine Region.writeAll_keeps fun w hw => Region.holds_file ?_
        show w.1 ∈ [_, _, _]
        rcases List.mem_cons.mp hw with rfl | hw
        · exact List.mem_cons_self
        · rcases List.mem_append.mp hw with hw | hw
          · obtain ⟨b, -, rfl⟩ := Option.map_eq_some_iff.mp (Option.mem_toList.mp hw)
            exact List.mem_cons_of_mem _ List.mem_cons_self
          · rw [List.mem_singleton.mp hw]
            exact List.mem_cons_of_mem _ (List.mem_cons_of_mem _ List.mem_cons_self)
  · simp only [if_neg hon]
    exact .id

/-- Removing what is stale in a directory keeps to a region with the directory. -/
theorem keep_directory_local {r : Region} {dir : Text} (hdir : dir ∈ r.directories)
    {kept : Text → Bool} (h : ∀ path, inDirectory dir path = false → kept path = true) :
    KeepsTo r (fun files => files.keep kept) := by
  refine Store.keep_localTo fun path hpath => h path ?_
  by_contra hin
  obtain ⟨name, rfl, hname⟩ := inDirectory_iff.mp (Bool.of_not_eq_false hin)
  exact hpath (Region.holds_below hdir hname)

theorem writeRespTransformFiles_local :
    KeepsTo P.respTransformRegion (writeRespTransformFiles P G db) := by
  have hbelow : ∀ {name : Text}, '/' ∉ name →
      P.respTransformRegion.holds (P.respTransformDir ++ '/' :: name) = true := fun hname =>
    Region.holds_below List.mem_cons_self hname
  have hwrites : ∀ w ∈ (G.respTransform db).map fun c => (P.respTransformDir ++ '/' ::
      (ApiArmor.safeFilename c.1 ++ ".json".toList), c.2), P.respTransformRegion.holds w.1 = true := by
    intro w hw
    obtain ⟨c, -, rfl⟩ := List.mem_map.mp hw
    exact hbelow (noSlash_append (armorFilename_noSlash c.1) (by decide))
  have hdetok : P.respTransformRegion.holds
      (P.respTransformDir ++ '/' :: "query_detokenize.json".toList) = true := hbelow (by decide)
  have hdir : P.respTransformDir ∈ P.respTransformRegion.directories := List.mem_singleton_self _
  refine (keep_directory_local hdir fun path hin => ?_).comp
    ((Region.write_keeps hdetok (G.queryDetokenize db)).comp (Region.writeAll_keeps hwrites))
  rw [notStale, hin]
  rfl

theorem writeApiArmorApiKeys_local (keyLists : List ValueList) :
    KeepsTo P.apiArmorRegion (writeApiArmorApiKeys P keyLists) := by
  have hdir : P.apiKeysDir ∈ P.apiArmorRegion.directories :=
    List.mem_cons_of_mem _ (List.mem_singleton_self _)
  have hwrites : ∀ w ∈ keyLists.map fun l => (P.apiKeysDir ++ '/' ::
      (ApiArmor.safeFilename l.name ++ ".lst".toList), l.content),
      P.apiArmorRegion.holds w.1 = true := by
    intro w hw
    obtain ⟨l, -, rfl⟩ := List.mem_map.mp hw
    exact Region.holds_below hdir (noSlash_append (armorFilename_noSlash l.name) (by decide))
  refine (keep_directory_local hdir fun path hin => ?_).comp (Region.writeAll_keeps hwrites)
  rw [hin]
  rfl

theorem writeApiArmorSchemas_local (W : ApiArmor.Writer) (table : List ApiSchema) :
    KeepsTo P.apiArmorRegion (ApiArmor.writeApiArmorSchemas W P.apiArmorDir table) := by
  have hdir : P.apiArmorDir ++ '/' :: "schemas".toList ∈ P.apiArmorRegion.directories :=
    List.mem_cons_self
  have hindex : P.apiArmorRegion.holds (P.apiArmorDir ++ '/' :: "schema-index.json".toList) = true :=
    Region.holds_file List.mem_cons_self
  have hfile : ∀ s : ApiSchema, P.apiArmorRegion.holds (P.apiArmorDir ++ '/' :: s.file) = true := by
    intro s
    have hext : '/' ∉ ".json".toList := by decide
    have hname := noSlash_append (safeSchemaFilename_noSlash s.method s.path) hext
    have hpath : P.apiArmorDir ++ '/' :: s.file = (P.apiArmorDir ++ '/' :: "schemas".toList) ++
        '/' :: (ApiArmor.safeSchemaFilename s.method s.path ++ ".json".toList) := by
      unfold ApiSchema.file
      generalize ".json".toList = ext
      generalize ApiArmor.safeSchemaFilename s.method s.path = name
      rw [show "schemas/".toList = "schemas".toList ++ ['/'] from rfl]
      simp
    rw [hpath]
    exact Region.holds_below hdir hname
  have hwrites : ∀ w ∈ ((ApiArmor.buildSchemaIndex (table.filter (·.enabled))).zip
      (table.filter (·.enabled))).map fun e =>
        (P.apiArmorDir ++ '/' :: e.2.file, W.dump (ApiArmor.orEmpty e.2.schema)),
      P.apiArmorRegion.holds w.1 = true := by
    intro w hw
    obtain ⟨e, -, rfl⟩ := List.mem_map.mp hw
    exact hfile e.2
  refine (keep_directory_local hdir fun path hin => ?_).comp
    ((Region.writeAll_keeps hwrites).comp (Region.write_keeps hindex _))
  rw [notStale, hin]
  rfl

theorem writeApiArmorFiles_local :
    KeepsTo P.apiArmorRegion (writeApiArmorFiles P G now db) := by
  refine (Region.writeAll_keeps ?_).comp
    ((writeApiArmorApiKeys_local P db.apiKeyLists).comp (writeApiArmorSchemas_local P _ _))
  intro w hw
  refine Region.holds_file ?_
  show w.1 ∈ [_, _, _]
  rcases List.mem_pair.mp hw with rfl | rfl
  · exact List.mem_cons_of_mem _ List.mem_cons_self
  · exact List.mem_cons_of_mem _ (List.mem_cons_of_mem _ List.mem_cons_self)

theorem writeCorazaSpoaConfig_local (config : Text) :
    KeepsTo P.corazaSpoaRegion (writeCorazaSpoaConfig P config) := by
  have hpath : P.corazaSpoaRegion.holds P.corazaSpoaConfigPath = true :=
    Region.holds_file (List.mem_singleton_self _)
  refine Store.LocalTo.ite (fun s s' hs => ?_) (Region.write_keeps hpath config) .id
  rw [hs _ hpath]

end

/-- **Every writer keeps to its region.** -/
theorem writers_local (S : Settings) (G : Generators ρ) (now : DateTime) (db : Db ρ) :
    ∀ w ∈ writers S G now db, KeepsTo w.1 w.2 := by
  have hwhen : ∀ {r : Region} {f : Files → Files} (b : Bool), KeepsTo r f →
      KeepsTo r fun files => if b then f files else files := by
    intro r f b hf
    cases b with
    | false => exact .id
    | true => exact hf
  have hbeacon : S.beaconRegion.holds S.pageProtectBeaconJsPath = true :=
    Region.holds_file (List.mem_singleton_self _)
  have hspoe : S.corazaSpoeRegion.holds S.corazaSpoeConfigPath = true :=
    Region.holds_file (List.mem_singleton_self _)
  intro w hw
  simp only [writers, List.mem_cons, List.not_mem_nil, or_false] at hw
  rcases hw with rfl | rfl | rfl | rfl | rfl | rfl | rfl | rfl
  · exact writeSecurityListFiles_local S.toPaths db.lists
  · exact writeRiskRulesDataFile_local S.toPaths G db
  · exact writeMcpBundle_local S.toPaths G now db
  · exact writeRespTransformFiles_local S.toPaths G db
  · exact writeApiArmorFiles_local S.toPaths G now db
  · exact Region.write_keeps hbeacon G.beaconJs
  · exact hwhen S.corazaSpoaEnabled (Region.write_keeps hspoe (G.corazaSpoe db))
  · exact hwhen S.corazaSpoaEnabled (writeCorazaSpoaConfig_local S.toPaths (G.corazaSpoa db))

/-! ### What a refused apply leaves -/

section

variable {S : Settings} {G : Generators ρ}

/-- Validation refuses the configuration. -/
def Refused (S : Settings) (G : Generators ρ) (now : DateTime) (db : Db ρ) (files : Files) : Prop :=
  G.validates (G.config db) (beforeValidation S G now db files) = false

theorem writeConfig_refused {now : DateTime} {db : Db ρ} {files : Files}
    (h : Refused S G now db files) :
    writeConfig S G now db files = ⟨beforeValidation S G now db files, true⟩ := by
  unfold writeConfig
  dsimp only
  rw [if_neg]
  rw [show G.validates (G.config db) (beforeValidation S G now db files) = false from h]
  exact Bool.false_ne_true

/-- The writers, with their regions as properties. -/
private def localWriters (S : Settings) (G : Generators ρ) (now : DateTime) (db : Db ρ) :
    List ((Text → Prop) × (Files → Files)) :=
  (writers S G now db).map fun w => ((w.1.holds · = true), w.2)

private theorem localWriters_local (now : DateTime) (db : Db ρ) :
    ∀ w ∈ localWriters S G now db, Store.LocalTo w.1 w.2 := by
  intro w hw
  obtain ⟨v, hv, rfl⟩ := List.mem_map.mp hw
  exact writers_local S G now db v hv

private theorem beforeValidation_eq (now : DateTime) (db : Db ρ) (files : Files) :
    beforeValidation S G now db files =
      Store.runAll ((localWriters S G now db).map Prod.snd) files := by
  unfold beforeValidation localWriters
  rw [List.map_map]
  rfl

private theorem localWriters_apart (now : DateTime) (db : Db ρ) :
    (localWriters S G now db).Pairwise fun v w => ∀ path, v.1 path → ¬ w.1 path := by
  have hregions : ((writers S G now db).map Prod.fst).Pairwise fun a b => a.apart b = true :=
    S.separate.sublist (List.sublist_append_left _ _)
  unfold localWriters
  rw [List.pairwise_map] at hregions ⊢
  exact hregions.imp fun h path ha => Region.apart_spec h ha

/-- **A file is as its own writer leaves it**, run alone. -/
theorem beforeValidation_alone (now : DateTime) (db : Db ρ) (files : Files)
    {w : Region × (Files → Files)} (hw : w ∈ writers S G now db) {path : Text}
    (hpath : w.1.holds path = true) : beforeValidation S G now db files path = w.2 files path := by
  rw [beforeValidation_eq]
  exact Store.runAll_local (localWriters_local now db) (localWriters_apart now db) files
    (List.mem_map_of_mem hw) hpath

/-- A file in none of the regions is what it was. -/
theorem beforeValidation_frame (now : DateTime) (db : Db ρ) (files : Files) {path : Text}
    (hpath : ∀ r ∈ S.regions, r.holds path ≠ true) :
    beforeValidation S G now db files path = files path := by
  rw [beforeValidation_eq]
  refine Store.runAll_frame (localWriters_local now db) files fun w hw => ?_
  obtain ⟨v, hv, rfl⟩ := List.mem_map.mp hw
  exact hpath v.1 (List.mem_map_of_mem hv)

/-- A file that follows validation is in none of the regions. -/
theorem validatedFiles_apart (S : Settings) {path : Text} (hpath : path ∈ S.validatedFiles) :
    ∀ r ∈ S.regions, r.holds path ≠ true := fun r hr hholds =>
  Region.apart_spec ((List.pairwise_append.mp S.separate).2.2 r hr _ (List.mem_singleton_self _))
    hholds (Region.holds_file hpath)

/-- **So it is after a refused apply.** -/
theorem refused_alone {now : DateTime} {db : Db ρ} {files : Files} (h : Refused S G now db files)
    {w : Region × (Files → Files)} (hw : w ∈ writers S G now db) {path : Text}
    (hpath : w.1.holds path = true) : (writeConfig S G now db files).files path = w.2 files path := by
  rw [writeConfig_refused h]
  exact beforeValidation_alone now db files hw hpath

/-- **And the files that follow validation are what they were**, `haproxy.cfg` first. -/
theorem refused_validatedFiles {now : DateTime} {db : Db ρ} {files : Files}
    (h : Refused S G now db files) {path : Text} (hpath : path ∈ S.validatedFiles) :
    (writeConfig S G now db files).files path = files path := by
  rw [writeConfig_refused h]
  exact beforeValidation_frame now db files (validatedFiles_apart S hpath)

/-! ### The index bears its time -/

theorem stamped_inj {key key' printed printed' : Text} {now now' : DateTime}
    (h : stamped key printed now = stamped key' printed' now') : now = now' := by
  have hquote : ∀ d : DateTime, '"' ∉ d.isoformat ++ "+00:00".toList := by
    intro d hmem
    rcases List.mem_append.mp hmem with hmem | hmem
    · rcases d.isoformat_chars _ hmem with hc | hc | hc | hc | hc <;> revert hc <;> decide
    · revert hmem
      decide
  unfold stamped at h
  obtain ⟨-, hiso⟩ := separator_inj (hquote now) (hquote now') (List.append_cancel_right h)
  exact DateTime.isoformat_injective (List.append_cancel_right hiso)

/-- A file beside a directory is not in it. -/
theorem inDirectory_beside {dir sub name : Text} (hname : '/' ∉ name) :
    inDirectory (dir ++ '/' :: sub) (dir ++ '/' :: name) = false := by
  by_contra h
  have hdir := inDirectory_inj (Bool.of_not_eq_false h) (inDirectory_iff.mpr ⟨name, rfl, hname⟩)
  have hlength := congrArg List.length hdir
  rw [List.length_append, List.length_cons] at hlength
  omega

theorem schemaFile_ne_index (dir : Text) (s : ApiSchema) :
    dir ++ '/' :: s.file ≠ dir ++ '/' :: "schema-index.json".toList := by
  intro heq
  -- the schemas are one directory below
  have hname := (List.cons.inj (List.append_cancel_left heq)).2
  have hindex : '/' ∉ "schema-index.json".toList := by decide
  rw [← hname] at hindex
  have hslash : '/' ∈ "schemas/".toList := by decide
  exact hindex (List.mem_append_left _ (List.mem_append_left _ hslash))

theorem writeApiArmorSchemas_index (W : ApiArmor.Writer) (dir : Text) (table : List ApiSchema)
    (files : Files) :
    ApiArmor.writeApiArmorSchemas W dir table files (dir ++ '/' :: "schema-index.json".toList) =
      some (W.dumpIndex (ApiArmor.buildSchemaIndex (table.filter (·.enabled)))) := by
  unfold ApiArmor.writeApiArmorSchemas
  rw [Store.keep_of_kept, Store.writeAll_other, Store.write_self]
  · intro w hw
    obtain ⟨e, -, rfl⟩ := List.mem_map.mp hw
    exact schemaFile_ne_index dir e.2
  · unfold notStale
    rw [inDirectory_beside (by decide)]
    rfl

theorem writeApiArmorApiKeys_index (P : Paths) (keyLists : List ValueList) (files : Files) :
    writeApiArmorApiKeys P keyLists files P.schemaIndexPath = files P.schemaIndexPath := by
  have hbeside : inDirectory P.apiKeysDir P.schemaIndexPath = false := inDirectory_beside (by decide)
  unfold writeApiArmorApiKeys
  rw [Store.keep_of_kept, Store.writeAll_other]
  · intro w hw
    obtain ⟨l, -, rfl⟩ := List.mem_map.mp hw
    intro heq
    have hname : '/' ∉ ApiArmor.safeFilename l.name ++ ".lst".toList :=
      noSlash_append (armorFilename_noSlash l.name) (by decide)
    have hin : inDirectory P.apiKeysDir P.schemaIndexPath = true :=
      inDirectory_iff.mpr ⟨_, heq.symm, hname⟩
    rw [hin] at hbeside
    cases hbeside
  · rw [hbeside]
    rfl

/-- **The index bears the time of the apply**, refused or not. -/
theorem beforeValidation_index (now : DateTime) (db : Db ρ) (files : Files) :
    ∃ printed, beforeValidation S G now db files S.schemaIndexPath =
      some (stamped "schemas".toList printed now) := by
  have hmem : (S.apiArmorRegion, writeApiArmorFiles S.toPaths G now db) ∈ writers S G now db := by
    simp [writers]
  have hholds : S.apiArmorRegion.holds S.schemaIndexPath = true :=
    Region.holds_file List.mem_cons_self
  refine ⟨G.schemaIndex (ApiArmor.buildSchemaIndex (db.apiSchemas.filter (·.enabled))), ?_⟩
  rw [beforeValidation_alone now db files hmem hholds]
  unfold writeApiArmorFiles
  dsimp only
  rw [Store.writeAll_other, writeApiArmorApiKeys_index]
  · exact writeApiArmorSchemas_index _ S.apiArmorDir db.apiSchemas files
  · intro w hw heq
    rcases List.mem_pair.mp hw with rfl | rfl
    · have hname := (List.cons.inj (List.append_cancel_left heq)).2
      revert hname
      decide
    · have hname := (List.cons.inj (List.append_cancel_left heq)).2
      revert hname
      decide

end

/-! ### Runs -/

/-- The database and the files. -/
structure State (ρ : Type) where
  db : Db ρ
  files : Files

/-- The index of the schemas, when there is one, is of a time in the past. -/
def Stamped (P : Paths) (clock : Nat) (files : Files) : Prop :=
  ∀ content, files P.schemaIndexPath = some content →
    ∃ printed now, content = stamped "schemas".toList printed now ∧ now.key ≤ clock

/-- **The states of the runs**, with a clock.  Other programs write the files as they like,
but do not bring an index from the future. -/
inductive Reachable (S : Settings) (G : Generators ρ) : Nat → State ρ → Prop
  | start (db : Db ρ) (files : Files) (h : files S.schemaIndexPath = none) :
      Reachable S G 0 ⟨db, files⟩
  | edit {clock : Nat} {σ : State ρ} (h : Reachable S G clock σ) (db : Db ρ) :
      Reachable S G clock ⟨db, σ.files⟩
  | others {clock : Nat} {σ : State ρ} (h : Reachable S G clock σ) (files : Files)
      (hpast : Stamped S.toPaths clock files) : Reachable S G clock ⟨σ.db, files⟩
  | apply {clock : Nat} {σ : State ρ} (h : Reachable S G clock σ) (now : DateTime)
      (hclock : clock < now.key) :
      Reachable S G now.key ⟨σ.db, (writeConfig S G now σ.db σ.files).files⟩

/-- An apply leaves the index it wrote before validation. -/
theorem writeConfig_index (S : Settings) (G : Generators ρ) (now : DateTime) (db : Db ρ)
    (files : Files) : ∃ printed, (writeConfig S G now db files).files S.schemaIndexPath =
      some (stamped "schemas".toList printed now) := by
  obtain ⟨printed, hindex⟩ := beforeValidation_index (S := S) (G := G) now db files
  refine ⟨printed, ?_⟩
  have hvalidated : ∀ path ∈ S.validatedFiles, S.schemaIndexPath ≠ path := by
    rintro path hpath rfl
    have hapart := (List.pairwise_append.mp S.separate).2.2 S.apiArmorRegion (by simp [Paths.regions])
      _ (List.mem_singleton_self _)
    exact Region.apart_spec hapart (Region.holds_file List.mem_cons_self) (Region.holds_file hpath)
  simp only [Paths.validatedFiles, List.mem_cons, List.not_mem_nil, or_false, forall_eq_or_imp,
    forall_eq] at hvalidated
  obtain ⟨hconfig, happlied, hspoe, hspoa⟩ := hvalidated
  unfold writeConfig
  dsimp only
  split_ifs
  · show Store.write _ _ _ _ = _
    rw [Store.write_other _ _ hspoa, Store.write_other _ _ hspoe, Store.write_other _ _ happlied,
      Store.write_other _ _ hconfig, hindex]
  · show Store.write _ _ _ _ = _
    rw [Store.write_other _ _ happlied, Store.write_other _ _ hconfig, hindex]
  · exact hindex

theorem Reachable.stamped {S : Settings} {G : Generators ρ} {clock : Nat} {σ : State ρ}
    (h : Reachable S G clock σ) : Stamped S.toPaths clock σ.files := by
  induction h with
  | start db files h =>
      intro content hcontent
      cases h.symm.trans hcontent
  | edit _ _ ih => exact ih
  | others _ _ hpast => exact hpast
  | apply h now hclock ih =>
      intro content hcontent
      obtain ⟨printed, hindex⟩ := writeConfig_index S G now _ _
      exact ⟨printed, now, (Option.some.inj (hindex.symm.trans hcontent)).symm, le_refl _⟩

/-! ### Refused applies -/

/-- The files that running components read; the applied copies are for the status. -/
def RunTimeFile (P : Paths) (path : Text) : Prop :=
  path = P.haproxyConfigPath ∨
    (∃ r ∈ P.regions, r.holds path = true) ∧ ".applied".toList.isSuffixOf path = false

/-- An apply raises and leaves every file that running components read. -/
def RefusedCleanly (S : Settings) (G : Generators ρ) (now : DateTime) (σ : State ρ) : Prop :=
  (writeConfig S G now σ.db σ.files).raised = true ∧
    ∀ path, RunTimeFile S.toPaths path → (writeConfig S G now σ.db σ.files).files path = σ.files path

theorem applied_notSuffix {path : Text} {c : Char} (h : path.getLast? = some c) (hc : c ≠ 'd') :
    ".applied".toList.isSuffixOf path = false := by
  by_contra hsuffix
  obtain ⟨rest, rfl⟩ := List.isSuffixOf_iff_suffix.mp (Bool.of_not_eq_false hsuffix)
  rw [List.getLast?_append_of_ne_nil _ (by decide)] at h
  exact hc (Option.some.inj h).symm

/-- **No refused apply changes nothing**: the index of the schemas is written before
validation, with the time. -/
theorem refused_changes (S : Settings) (G : Generators ρ) (clock : Nat) (σ : State ρ)
    (h : Reachable S G clock σ) (now : DateTime) (hnow : clock < now.key)
    (hrefused : Refused S G now σ.db σ.files) :
    (writeConfig S G now σ.db σ.files).raised = true ∧ ¬ RefusedCleanly S G now σ := by
  refine ⟨by rw [writeConfig_refused hrefused], ?_⟩
  rintro ⟨-, hsame⟩
  have hlast : S.schemaIndexPath.getLast? = some 'n' := by
    unfold Paths.schemaIndexPath
    rw [List.getLast?_append_of_ne_nil _ (List.cons_ne_nil _ _)]
    decide
  have hholds : S.apiArmorRegion.holds S.schemaIndexPath = true :=
    Region.holds_file List.mem_cons_self
  have hread : RunTimeFile S.toPaths S.schemaIndexPath :=
    .inr ⟨⟨S.apiArmorRegion, by simp [Paths.regions], hholds⟩, applied_notSuffix hlast (by decide)⟩
  obtain ⟨printed, hindex⟩ := writeConfig_index S G now σ.db σ.files
  rw [hsame _ hread] at hindex
  obtain ⟨printed', before, heq, hpast⟩ := h.stamped _ hindex
  have hlt : before.key < now.key := hpast.trans_lt hnow
  rw [stamped_inj heq] at hlt
  exact absurd hlt (lt_irrefl _)

/-- The settings of the program, without the firewall. -/
def defaultSettings : Settings where
  haproxyConfigPath := "data/haproxy.cfg".toList
  securityListsDir := "data/lists".toList
  mcpConfigPath := "data/mcp/config.json".toList
  respTransformDir := "/app/data/resp-transform".toList
  apiArmorDir := "data/api-armor".toList
  pageProtectBeaconJsPath := "/app/data/page-protect-beacon.js".toList
  corazaSpoeConfigPath := "data/coraza.cfg".toList
  corazaSpoaConfigPath := "data/coraza-spoa.yaml".toList
  corazaSpoaEnabled := false
  separate := by decide +kernel

/-- Nothing but the lists and the API armor is configured, and `haproxy -c` fails. -/
def refusing : Generators Unit where
  config _ := []
  riskRulesData _ := none
  mcpOn _ := false
  mcpBundle _ _ := none
  mcpBundleText _ := []
  respTransform _ := []
  queryDetokenize _ := []
  dump _ := []
  schemaIndex _ := []
  authPolicies _ := []
  profiles _ := []
  beaconJs := []
  corazaSpoe _ := []
  corazaSpoa _ := []
  validates _ _ := false

/-- A list of blocked networks, whose only entry was removed since it was applied. -/
def unblocked : State Unit where
  db := ⟨fun kind => if kind = .network then [⟨"b".toList, []⟩] else [], [], [], ()⟩
  files path := if path = "data/lists/network/b.lst".toList then some "::1\n".toList else none

theorem newYear_date :
    1 ≤ 2025 ∧ 2025 ≤ 9999 ∧ 1 ≤ 1 ∧ 1 ≤ 12 ∧ 1 ≤ 1 ∧ 1 ≤ Python.daysInMonth 2025 1 := by decide

theorem newYear_time : 0 < 24 ∧ 0 < 60 ∧ 0 < 60 ∧ 0 < 1000000 := by decide

/-- The first of January. -/
def newYear : DateTime := ⟨2025, 1, 1, 0, 0, 0, 0, newYear_date, newYear_time⟩

/-- **A refused apply unblocks a network**: the file of the list is written all the same. -/
theorem refused_unblocks : ¬ ∀ (S : Settings) (G : Generators Unit) (clock : Nat) (σ : State Unit),
    Reachable S G clock σ → ∀ now : DateTime, clock < now.key → Refused S G now σ.db σ.files →
      RefusedCleanly S G now σ := by
  intro hall
  have hstart : Reachable defaultSettings refusing 0 unblocked := .start _ _ (by decide +kernel)
  obtain ⟨-, hsame⟩ := hall defaultSettings refusing 0 unblocked hstart newYear (by decide) rfl
  have hholds : defaultSettings.listsRegion.holds "data/lists/network/b.lst".toList = true := by
    decide +kernel
  have hread : RunTimeFile defaultSettings.toPaths "data/lists/network/b.lst".toList :=
    .inr ⟨⟨_, List.mem_cons_self, hholds⟩, by decide +kernel⟩
  have hrefused : Refused defaultSettings refusing newYear unblocked.db unblocked.files := rfl
  have hfile := hsame _ hread
  rw [refused_alone hrefused List.mem_cons_self hholds] at hfile
  revert hfile
  decide +kernel

/-- This apply changes something. -/
theorem refused_changes_unblocked :
    (writeConfig defaultSettings refusing newYear unblocked.db unblocked.files).raised = true ∧
      ¬ RefusedCleanly defaultSettings refusing newYear unblocked :=
  refused_changes defaultSettings refusing 0 unblocked (.start _ _ (by decide +kernel)) newYear
    (by decide) rfl

end CorexManager.Apply
