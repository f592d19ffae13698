import CorexManager.Config.Apply
import CorexManager.Logic.Transition

/-!
# The status of the configuration

`_config_status_data` over the files: what is generated is compared with what an apply left,
file by file, by the writers' own snapshots where there are some.

* `applyConfig` — `write_config` to its end, with the two writers that follow validation.
* `Unapplied` — the flag.
* `Changes` — what the flag is for: an apply would leave other contents than the last one
  that succeeded.
* `statusCorrect_iff` — in every state that runs of edits and applies reach, when the flag
  says so.
-/

namespace CorexManager.Apply

open Data
open Python (DateTime)
open ApiArmor (inDirectory notStale)
open Transition (run)

/-! ### Settings and generators -/

/-- The copy of a file for the status. -/
def applied (path : Text) : Text := path ++ ".applied".toList

/-- Two more files are written after validation; no other file has their paths, or those of
the copies the status looks for. -/
structure StatusSettings extends Settings where
  vectorConfigPath : Text
  varnishVclPath : Text
  lateApart : ∀ r ∈ toPaths.regions, r.apart ⟨[], [vectorConfigPath, applied vectorConfigPath,
    varnishVclPath, applied varnishVclPath, applied toPaths.riskRulesDataPath]⟩ = true
  distinct : (toPaths.validatedFiles ++ [vectorConfigPath, applied vectorConfigPath, varnishVclPath,
    applied varnishVclPath, applied toPaths.riskRulesDataPath]).Nodup

/-- The files of the two writers, and the copies that are looked for. -/
def StatusSettings.lateFiles (S : StatusSettings) : List Text :=
  [S.vectorConfigPath, applied S.vectorConfigPath, S.varnishVclPath, applied S.varnishVclPath,
    applied S.riskRulesDataPath]

/-- What the status and the two writers use besides; `none` is an exception. -/
structure StatusGenerators (ρ : Type) extends Generators ρ where
  /-- `coraza.cfg` with the default name of the backend. -/
  corazaSpoeDefault : Db ρ → Text
  /-- An applied bundle as it is read: decrypted, redacted and printed again. -/
  mcpRead : Text → Text
  vectorActive : Db ρ → Bool
  vectorToml : Db ρ → Option Text
  /-- The disk cache is on and some backend uses it. -/
  diskCache : Db ρ → Bool
  vcl : Db ρ → Text
  vclValid : Text → Bool

variable {ρ : Type} (S : StatusSettings) (G : StatusGenerators ρ)

/-! ### `write_config` to its end -/

/-- `write_vector_config`; an exception is logged. -/
def writeVectorConfig (db : Db ρ) (files : Files) : Files :=
  match G.vectorToml db with
  | none => files
  | some text =>
      if files S.vectorConfigPath = some text ∧ (files (applied S.vectorConfigPath)).isSome then files
      else (files.write S.vectorConfigPath text).write (applied S.vectorConfigPath) text

/-- `write_vcl`, when the disk cache is used; an exception is logged. -/
def writeVcl (db : Db ρ) (files : Files) : Files :=
  if G.diskCache db && G.vclValid (G.vcl db) then files.write S.varnishVclPath (G.vcl db) else files

/-- `write_config`. -/
def applyConfig (now : DateTime) (db : Db ρ) (files : Files) : Outcome :=
  let out := writeConfig S.toSettings G.toGenerators now db files
  if out.raised then out else ⟨writeVcl S G db (writeVectorConfig S G db out.files), false⟩

/-! ### The flag -/

/-- `_read_current_config`. -/
def readCurrentConfig (files : Files) (path : Text) : Text :=
  ((files (applied path)).or (files path)).getD []

/-- `read_applied_mcp_bundle`. -/
def readAppliedMcpBundle (files : Files) : Text :=
  ((files (applied S.mcpConfigPath)).map G.mcpRead).getD []

/-- The path of a file of a security list. -/
def ListFile (P : Paths) (path : Text) : Prop :=
  (∃ kind, inDirectory (P.listsDir kind) path = true) ∧ ".lst".toList.isSuffixOf path = true

/-- The path of a file of response transforms. -/
def RespTransformFile (P : Paths) (path : Text) : Prop :=
  inDirectory P.respTransformDir path = true ∧ ".json".toList.isSuffixOf path = true

/-- `generate_resp_transform_file_contents`, with the paths. -/
def respTransformFiles (P : Paths) (G : Generators ρ) (db : Db ρ) : List (Text × Text) :=
  (G.respTransform db).map (fun c =>
    (P.respTransformDir ++ '/' :: (ApiArmor.safeFilename c.1 ++ ".json".toList), c.2)) ++
  [(P.respTransformDir ++ '/' :: "query_detokenize.json".toList, G.queryDetokenize db)]

/-- A file whose generated content is not what is read. -/
def FileUnapplied (contents : List (Text × Text)) (files : Files) (path : Text) : Prop :=
  (Store.lastWrite contents path).getD [] ≠ readCurrentConfig files path

/-- A list that is generated or applied, and not as it was applied. -/
def ListsUnapplied (db : Db ρ) (files : Files) : Prop :=
  ∃ path, ListFile S.toPaths path ∧
    (path ∈ (securityListFiles S.toPaths db.lists).map Prod.fst ∨ (files (applied path)).isSome) ∧
      FileUnapplied (securityListFiles S.toPaths db.lists) files path

/-- A file of transforms that is generated or there, and not as it is there. -/
def RespTransformUnapplied (db : Db ρ) (files : Files) : Prop :=
  ∃ path, RespTransformFile S.toPaths path ∧
    (path ∈ (respTransformFiles S.toPaths G.toGenerators db).map Prod.fst ∨ (files path).isSome) ∧
      FileUnapplied (respTransformFiles S.toPaths G.toGenerators db) files path

/-- `unapplied` of `_config_status_data`; without risk rules the status raises. -/
def Unapplied (now : DateTime) (db : Db ρ) (files : Files) : Prop :=
  ∃ risk, G.riskRulesData db = some risk ∧
    (readCurrentConfig files S.haproxyConfigPath ≠ G.config db ∨
      (S.corazaSpoaEnabled = true ∧
        (readCurrentConfig files S.corazaSpoeConfigPath ≠ G.corazaSpoeDefault db ∨
          readCurrentConfig files S.corazaSpoaConfigPath ≠ G.corazaSpoa db)) ∨
      readCurrentConfig files S.riskRulesDataPath ≠ risk ∨
      (G.diskCache db = true ∧ readCurrentConfig files S.varnishVclPath ≠ G.vcl db) ∨
      (G.vectorActive db = true ∧ ∃ text, G.vectorToml db = some text ∧
        readCurrentConfig files S.vectorConfigPath ≠ text) ∨
      (G.mcpOn db = true ∧ (G.mcpBundle now db = none ∨
        readAppliedMcpBundle S G files ≠ G.mcpBundleText db)) ∨
      ListsUnapplied S db files ∨ RespTransformUnapplied S G db files)

/-! ### What the flag is for -/

/-- A file with a time or a cipher in it: of the bundle of the gateway, or of the API armor. -/
def Coded (P : Paths) (path : Text) : Prop :=
  path = P.mcpConfigPath ∨ path = P.mcpBundlePath ∨ P.apiArmorRegion.holds path = true

/-- A reading of contents, which may leave out the time and the cipher of a file. -/
structure Reading (P : Paths) where
  read : Text → Text → Text
  plain : ∀ path text, ¬ Coded P path → read path text = text

/-- The files an apply writes for running components. -/
def RuntimeFile (path : Text) : Prop :=
  path = S.haproxyConfigPath ∨
    (S.corazaSpoaEnabled = true ∧ (path = S.corazaSpoeConfigPath ∨ path = S.corazaSpoaConfigPath)) ∨
    path = S.riskRulesDataPath ∨ path = S.varnishVclPath ∨ path = S.vectorConfigPath ∨
    ListFile S.toPaths path ∨ RespTransformFile S.toPaths path ∨ path = S.pageProtectBeaconJsPath ∨
    Coded S.toPaths path

/-- A file does not read the same in both; one that is missing reads as empty. -/
def Differs (R : Reading S.toPaths) (files files' : Files) (path : Text) : Prop :=
  R.read path ((files path).getD []) ≠ R.read path ((files' path).getD [])

/-- The files an apply leaves that validation lets through. -/
def acceptedFiles (now : DateTime) (db : Db ρ) (files : Files) : Files :=
  (applyConfig S { G with validates := fun _ _ => true } now db files).files

/-- The database, the files, and the files the last successful apply left. -/
structure StatusState (ρ : Type) where
  db : Db ρ
  files : Files
  last : Files

/-- An apply would change a file relative to the last successful one. -/
def Changes (R : Reading S.toPaths) (now : DateTime) (σ : StatusState ρ) : Prop :=
  ∃ path, RuntimeFile S path ∧ Differs S R (acceptedFiles S G now σ.db σ.files) σ.last path

/-- The flag is up if and only if an apply would change a file. -/
def StatusCorrect (R : Reading S.toPaths) (now : DateTime) (σ : StatusState ρ) : Prop :=
  Unapplied S G now σ.db σ.files ↔ Changes S G R now σ

/-! ### Runs -/

/-- Edits of the database, and applies. -/
inductive StatusAct (ρ : Type) where
  | edit (db : Db ρ)
  | apply (now : DateTime)

/-- The state after an edit or an apply. -/
def statusStep (σ : StatusState ρ) : StatusAct ρ → Option (StatusState ρ)
  | .edit db => some { σ with db := db }
  | .apply now =>
      let out := applyConfig S G now σ.db σ.files
      some ⟨σ.db, out.files, if out.raised then σ.last else out.files⟩

/-- None of the files are there. -/
def Fresh (files : Files) : Prop :=
  ∀ path, ((∃ r ∈ S.regions, r.holds path = true) ∨ path ∈ S.validatedFiles ∨ path ∈ S.lateFiles) →
    files path = none

/-- **The states after a first successful apply** to a fresh installation. -/
def StatusReachable (σ : StatusState ρ) : Prop :=
  ∃ db files now acts, Fresh S files ∧ (applyConfig S G now db files).raised = false ∧
    run (statusStep S G) ⟨db, (applyConfig S G now db files).files,
      (applyConfig S G now db files).files⟩ acts = some σ

/-! ### What an apply leaves -/

/-- The writes that follow validation at once. -/
def writeValidated (db : Db ρ) (files : Files) : Files :=
  let config := (files.write S.haproxyConfigPath (G.config db)).write (applied S.haproxyConfigPath)
    (G.config db)
  if S.corazaSpoaEnabled then
    (config.write (applied S.corazaSpoeConfigPath) (G.corazaSpoe db)).write
      (applied S.corazaSpoaConfigPath) (G.corazaSpoa db)
  else config

section

variable {S G} {now : DateTime} {db : Db ρ} {files : Files} {path : Text}

theorem acceptedFiles_eq : acceptedFiles S G now db files =
    writeVcl S G db (writeVectorConfig S G db
      (writeValidated S G db (beforeValidation S.toSettings G.toGenerators now db files))) := rfl

theorem applyConfig_accepted
    (h : G.validates (G.config db) (beforeValidation S.toSettings G.toGenerators now db files) = true) :
    applyConfig S G now db files = ⟨acceptedFiles S G now db files, false⟩ := by
  have hout : writeConfig S.toSettings G.toGenerators now db files =
      ⟨writeValidated S G db (beforeValidation S.toSettings G.toGenerators now db files), false⟩ := by
    unfold writeConfig
    exact if_pos h
  unfold applyConfig
  rw [hout]
  rfl

theorem applyConfig_refused
    (h : G.validates (G.config db) (beforeValidation S.toSettings G.toGenerators now db files) = false) :
    applyConfig S G now db files =
      ⟨beforeValidation S.toSettings G.toGenerators now db files, true⟩ := by
  unfold applyConfig
  rw [writeConfig_refused h]
  rfl

/-- A file of a writer follows neither validation nor the writers after it. -/
theorem region_apart {r : Region} (hr : r ∈ S.regions) (hpath : r.holds path = true) :
    path ∉ S.validatedFiles ∧ path ∉ S.lateFiles :=
  ⟨fun h => validatedFiles_apart S.toSettings h r hr hpath,
    fun h => Region.apart_spec (S.lateApart r hr) hpath (Region.holds_file h)⟩

theorem lateFiles_apart (hpath : path ∈ S.lateFiles) : ∀ r ∈ S.regions, r.holds path ≠ true :=
  fun _ hr hholds => (region_apart hr hholds).2 hpath

theorem validatedFiles_eq : S.validatedFiles = [S.haproxyConfigPath, applied S.haproxyConfigPath,
    applied S.corazaSpoeConfigPath, applied S.corazaSpoaConfigPath] := rfl

theorem writeValidated_other (hpath : path ∉ S.validatedFiles) :
    writeValidated S G db files path = files path := by
  simp only [validatedFiles_eq, List.mem_cons, List.not_mem_nil, or_false, not_or] at hpath
  obtain ⟨hconfig, happlied, hspoe, hspoa⟩ := hpath
  unfold writeValidated
  split_ifs
  · rw [Store.write_other _ _ hspoa, Store.write_other _ _ hspoe, Store.write_other _ _ happlied,
      Store.write_other _ _ hconfig]
  · rw [Store.write_other _ _ happlied, Store.write_other _ _ hconfig]

theorem writeVectorConfig_other (hpath : path ≠ S.vectorConfigPath)
    (happlied : path ≠ applied S.vectorConfigPath) :
    writeVectorConfig S G db files path = files path := by
  unfold writeVectorConfig
  cases G.vectorToml db with
  | none => rfl
  | some text =>
      dsimp only
      split_ifs
      · rfl
      · rw [Store.write_other _ _ happlied, Store.write_other _ _ hpath]

theorem writeVcl_other (hpath : path ≠ S.varnishVclPath) : writeVcl S G db files path = files path := by
  unfold writeVcl
  split_ifs
  · exact Store.write_other _ _ hpath
  · rfl

theorem late_ne (hpath : path ∉ S.lateFiles) :
    path ≠ S.vectorConfigPath ∧ path ≠ applied S.vectorConfigPath ∧ path ≠ S.varnishVclPath := by
  simp only [StatusSettings.lateFiles, List.mem_cons, List.not_mem_nil, or_false, not_or] at hpath
  exact ⟨hpath.1, hpath.2.1, hpath.2.2.1⟩

theorem acceptedFiles_other (hlate : path ∉ S.lateFiles) : acceptedFiles S G now db files path =
    writeValidated S G db (beforeValidation S.toSettings G.toGenerators now db files) path := by
  obtain ⟨hvector, hcopy, hvcl⟩ := late_ne hlate
  rw [acceptedFiles_eq, writeVcl_other hvcl, writeVectorConfig_other hvector hcopy]

/-- A file of a writer is as its writer leaves it. -/
theorem acceptedFiles_region {w : Region × (Files → Files)}
    (hw : w ∈ writers S.toSettings G.toGenerators now db) (hpath : w.1.holds path = true) :
    acceptedFiles S G now db files path = w.2 files path := by
  have hr : w.1 ∈ S.regions := List.mem_map_of_mem hw
  obtain ⟨hvalidated, hlate⟩ := region_apart hr hpath
  rw [acceptedFiles_other hlate, writeValidated_other hvalidated]
  exact beforeValidation_alone now db files hw hpath

theorem validated_late (hpath : path ∈ S.validatedFiles) : path ∉ S.lateFiles :=
  fun hlate => (List.nodup_append.mp S.distinct).2.2 path hpath path hlate rfl

/-- `haproxy.cfg` and its copy. -/
theorem acceptedFiles_haproxy :
    acceptedFiles S G now db files S.haproxyConfigPath = some (G.config db) ∧
      acceptedFiles S G now db files (applied S.haproxyConfigPath) = some (G.config db) := by
  have hnodup := (List.nodup_append.mp S.distinct).1
  simp only [validatedFiles_eq, List.nodup_cons, List.mem_cons, List.not_mem_nil, or_false,
    not_or] at hnodup
  obtain ⟨⟨hha, hhe, hhs⟩, ⟨hae, has⟩, -⟩ := hnodup
  have hconfig : S.haproxyConfigPath ∈ S.validatedFiles := List.mem_cons_self
  have happlied : applied S.haproxyConfigPath ∈ S.validatedFiles :=
    List.mem_cons_of_mem _ List.mem_cons_self
  rw [acceptedFiles_other (validated_late hconfig), acceptedFiles_other (validated_late happlied)]
  unfold writeValidated
  split_ifs
  · constructor
    · rw [Store.write_other _ _ hhs, Store.write_other _ _ hhe, Store.write_other _ _ hha,
        Store.write_self]
    · rw [Store.write_other _ _ has, Store.write_other _ _ hae, Store.write_self]
  · constructor
    · rw [Store.write_other _ _ hha, Store.write_self]
    · rw [Store.write_self]

/-- The copies of the two files of Coraza. -/
theorem acceptedFiles_coraza (henabled : S.corazaSpoaEnabled = true) :
    acceptedFiles S G now db files (applied S.corazaSpoeConfigPath) = some (G.corazaSpoe db) ∧
      acceptedFiles S G now db files (applied S.corazaSpoaConfigPath) = some (G.corazaSpoa db) := by
  have hnodup := (List.nodup_append.mp S.distinct).1
  simp only [validatedFiles_eq, List.nodup_cons, List.mem_cons, List.not_mem_nil, or_false,
    not_or] at hnodup
  obtain ⟨-, -, hes, -⟩ := hnodup
  have hspoe : applied S.corazaSpoeConfigPath ∈ S.validatedFiles := by
    simp [validatedFiles_eq]
  have hspoa : applied S.corazaSpoaConfigPath ∈ S.validatedFiles := by
    simp [validatedFiles_eq]
  rw [acceptedFiles_other (validated_late hspoe), acceptedFiles_other (validated_late hspoa)]
  unfold writeValidated
  rw [if_pos henabled, Store.write_self, Store.write_other _ _ hes, Store.write_self]
  exact ⟨rfl, rfl⟩

end

/-! ### The files of the writers before validation -/

section

variable {S G} {now : DateTime} {db : Db ρ} {files : Files} {path : Text}

theorem applied_injective : Function.Injective applied := fun _ _ h => List.append_cancel_right h

theorem inDirectory_applied {dir : Text} (h : inDirectory dir path = true) :
    inDirectory dir (applied path) = true := by
  obtain ⟨name, rfl, hname⟩ := inDirectory_iff.mp h
  refine inDirectory_iff.mpr ⟨name ++ ".applied".toList, ?_, noSlash_append hname (by decide)⟩
  rw [applied, List.append_assoc, List.cons_append]

/-- What ends in another letter is no copy. -/
theorem ne_applied {ext : Text} (hext : ext.getLast? ≠ some 'd') (hne : ext ≠ [])
    (h : ext.isSuffixOf path = true) (q : Text) : path ≠ applied q := by
  rintro rfl
  obtain ⟨rest, hrest⟩ := List.isSuffixOf_iff_suffix.mp h
  have hlast := congrArg List.getLast? hrest
  rw [applied, List.getLast?_append_of_ne_nil _ hne,
    List.getLast?_append_of_ne_nil _ (by decide)] at hlast
  exact hext hlast

theorem listFile_ne_applied {P : Paths} (h : ListFile P path) (q : Text) : path ≠ applied q :=
  ne_applied (by decide) (by decide) h.2 q

theorem respTransformFile_ne_applied {P : Paths} (h : RespTransformFile P path) (q : Text) :
    path ≠ applied q :=
  ne_applied (by decide) (by decide) h.2 q

/-- The writers of a list of regions, by name. -/
theorem mem_writers :
    (S.listsRegion, writeSecurityListFiles S.toPaths db.lists) ∈
        writers S.toSettings G.toGenerators now db ∧
      (S.riskRegion, writeRiskRulesDataFile S.toPaths G.toGenerators db) ∈
        writers S.toSettings G.toGenerators now db ∧
      (S.respTransformRegion, writeRespTransformFiles S.toPaths G.toGenerators db) ∈
        writers S.toSettings G.toGenerators now db := by
  simp [writers]

theorem listsRegion_holds {P : Paths} (h : ListFile P path) :
    P.listsRegion.holds path = true ∧ P.listsRegion.holds (applied path) = true := by
  obtain ⟨⟨kind, hin⟩, -⟩ := h
  have hmem := listsRegion_directory P kind
  exact ⟨Bool.or_eq_true_iff.mpr (.inr (List.any_eq_true.mpr ⟨_, hmem, hin⟩)),
    Bool.or_eq_true_iff.mpr (.inr (List.any_eq_true.mpr ⟨_, hmem, inDirectory_applied hin⟩))⟩

theorem respTransformRegion_holds {P : Paths} (h : RespTransformFile P path) :
    P.respTransformRegion.holds path = true ∧ P.respTransformRegion.holds (applied path) = true :=
  ⟨Bool.or_eq_true_iff.mpr (.inr (List.any_eq_true.mpr ⟨_, List.mem_singleton_self _, h.1⟩)),
    Bool.or_eq_true_iff.mpr
      (.inr (List.any_eq_true.mpr ⟨_, List.mem_singleton_self _, inDirectory_applied h.1⟩))⟩

theorem securityListFile_ne_applied {P : Paths} {lists : ListKind → List ValueList} {c : Text × Text}
    (h : c ∈ securityListFiles P lists) (q : Text) : c.1 ≠ applied q := by
  obtain ⟨kind, name, -, heq⟩ := mem_securityListFiles P h
  rw [heq, ← List.cons_append, ← List.append_assoc]
  have hlst : ".lst".toList.isSuffixOf (P.listsDir kind ++ '/' :: name ++ ".lst".toList) = true :=
    List.isSuffixOf_iff_suffix.mpr (List.suffix_append _ _)
  exact ne_applied (by decide) (by decide) hlst q

/-- **A list file is what is generated**, whatever was there. -/
theorem writeSecurityListFiles_live {P : Paths} {lists : ListKind → List ValueList}
    (h : ListFile P path) :
    writeSecurityListFiles P lists files path = Store.lastWrite (securityListFiles P lists) path := by
  have hcopies : ∀ w ∈ securityListFiles P lists, applied w.1 ≠ path := fun w _ heq =>
    listFile_ne_applied h w.1 heq.symm
  have hnot : ".applied".toList.isSuffixOf path = false := by
    by_contra hsuffix
    obtain ⟨q, hq⟩ := List.isSuffixOf_iff_suffix.mp (Bool.of_not_eq_false hsuffix)
    exact listFile_ne_applied h q hq.symm
  have hwritten : (files.writeAll ((securityListFiles P lists).flatMap fun c =>
      [c, (c.1 ++ ".applied".toList, c.2)])) path =
      (Store.lastWrite (securityListFiles P lists) path).or (files path) := by
    rw [Store.read_writeAll]
    exact congrArg (Option.or · _) (Store.lastWrite_copies hcopies)
  unfold writeSecurityListFiles removeStaleLists
  rw [hwritten]
  by_cases hmem : path ∈ (securityListFiles P lists).map Prod.fst
  · obtain ⟨value, hvalue⟩ := Option.isSome_iff_exists.mp (Store.lastWrite_isSome_iff.mpr hmem)
    rw [if_neg, hvalue]
    · rfl
    · rintro (hstale | ⟨hsuffix, -⟩)
      · unfold staleList at hstale
        rw [List.contains_iff_mem.mpr hmem] at hstale
        simp at hstale
      · rw [hnot] at hsuffix
        cases hsuffix
  · have hnone : Store.lastWrite (securityListFiles P lists) path = none := by
      rw [← Option.not_isSome_iff_eq_none, Store.lastWrite_isSome_iff]
      exact hmem
    rw [hnone, Option.none_or]
    cases hfile : files path with
    | none => exact ite_self _
    | some text =>
        refine if_pos (.inl ?_)
        obtain ⟨⟨kind, hin⟩, hlst⟩ := h
        unfold staleList
        rw [hwritten, hnone, hfile, hlst, Bool.eq_false_iff.mpr fun hc =>
          hmem (List.contains_iff_mem.mp hc), List.any_eq_true.mpr ⟨kind, mem_listKinds kind, hin⟩]
        rfl

/-- **And so is its copy**, where the copies were tidy. -/
theorem writeSecurityListFiles_copy {P : Paths} {lists : ListKind → List ValueList}
    (h : ListFile P path) (htidy : files (applied path) = files path) :
    writeSecurityListFiles P lists files (applied path) =
      Store.lastWrite (securityListFiles P lists) path := by
  have hsuffix : ".applied".toList.isSuffixOf (applied path) = true :=
    List.isSuffixOf_iff_suffix.mpr (List.suffix_append _ _)
  have htake : (applied path).take ((applied path).length - ".applied".toList.length) = path := by
    rw [applied, List.length_append, Nat.add_sub_cancel, List.take_left]
  have hlst : ".lst".toList.isSuffixOf (applied path) = false := by
    by_contra hlst
    exact ne_applied (by decide) (by decide) (Bool.of_not_eq_false hlst) path rfl
  have hwritten : ∀ q, (files.writeAll ((securityListFiles P lists).flatMap fun c =>
      [c, (c.1 ++ ".applied".toList, c.2)])) q = (Store.lastWrite
        ((securityListFiles P lists).flatMap fun c => [c, (applied c.1, c.2)]) q).or (files q) :=
    fun q => Store.read_writeAll _ _ q
  have hcopy : Store.lastWrite ((securityListFiles P lists).flatMap fun c =>
      [c, (applied c.1, c.2)]) (applied path) = Store.lastWrite (securityListFiles P lists) path :=
    Store.lastWrite_copy applied_injective fun w hw => securityListFile_ne_applied hw path
  have hfile : Store.lastWrite ((securityListFiles P lists).flatMap fun c =>
      [c, (applied c.1, c.2)]) path = Store.lastWrite (securityListFiles P lists) path :=
    Store.lastWrite_copies fun w _ heq => listFile_ne_applied h w.1 heq.symm
  unfold writeSecurityListFiles removeStaleLists
  rw [hwritten, hcopy, htidy]
  by_cases hmem : path ∈ (securityListFiles P lists).map Prod.fst
  · obtain ⟨value, hvalue⟩ := Option.isSome_iff_exists.mp (Store.lastWrite_isSome_iff.mpr hmem)
    rw [if_neg, hvalue]
    · rfl
    · rintro (hstale | ⟨-, hstale⟩)
      · unfold staleList at hstale
        rw [hlst] at hstale
        simp at hstale
      · rw [htake] at hstale
        unfold staleList at hstale
        rw [List.contains_iff_mem.mpr hmem] at hstale
        simp at hstale
  · have hnone : Store.lastWrite (securityListFiles P lists) path = none := by
      rw [← Option.not_isSome_iff_eq_none, Store.lastWrite_isSome_iff]
      exact hmem
    rw [hnone, Option.none_or]
    cases hfiles : files path with
    | none => exact ite_self _
    | some text =>
        refine if_pos (.inr ⟨hsuffix, ?_⟩)
        obtain ⟨⟨kind, hin⟩, hlst'⟩ := h
        rw [htake]
        unfold staleList
        rw [hwritten, hfile, hnone, hfiles, hlst', Bool.eq_false_iff.mpr fun hc =>
          hmem (List.contains_iff_mem.mp hc), List.any_eq_true.mpr ⟨kind, mem_listKinds kind, hin⟩]
        rfl

/-- **A file of transforms is what is generated**, whatever was there. -/
theorem writeRespTransformFiles_file {P : Paths} {G : Generators ρ} {db : Db ρ} {files : Files}
    {path : Text} (h : RespTransformFile P path) :
    writeRespTransformFiles P G db files path = Store.lastWrite (respTransformFiles P G db) path := by
  have hwritten : ((files.writeAll ((G.respTransform db).map fun c => (P.respTransformDir ++ '/' ::
      (ApiArmor.safeFilename c.1 ++ ".json".toList), c.2))).write
        (P.respTransformDir ++ '/' :: "query_detokenize.json".toList) (G.queryDetokenize db)) =
      files.writeAll (respTransformFiles P G db) := by
    unfold respTransformFiles Store.writeAll
    rw [List.foldl_append]
    rfl
  have hkeys : (respTransformFiles P G db).map Prod.fst =
      ((G.respTransform db).map fun c => (P.respTransformDir ++ '/' ::
        (ApiArmor.safeFilename c.1 ++ ".json".toList), c.2)).map Prod.fst ++
      [P.respTransformDir ++ '/' :: "query_detokenize.json".toList] := by
    unfold respTransformFiles
    rw [List.map_append, List.map_singleton]
  unfold writeRespTransformFiles
  rw [hwritten, ← hkeys, Store.keep, notStale, h.1, h.2, Store.read_writeAll]
  by_cases hmem : path ∈ (respTransformFiles P G db).map Prod.fst
  · obtain ⟨value, hvalue⟩ := Option.isSome_iff_exists.mp (Store.lastWrite_isSome_iff.mpr hmem)
    rw [List.contains_iff_mem.mpr hmem, hvalue]
    rfl
  · have hnone : Store.lastWrite (respTransformFiles P G db) path = none := by
      rw [← Option.not_isSome_iff_eq_none, Store.lastWrite_isSome_iff]
      exact hmem
    rw [Bool.eq_false_iff.mpr fun hc => hmem (List.contains_iff_mem.mp hc), hnone]
    rfl

/-- There is no copy of it, then as before. -/
theorem writeRespTransformFiles_copy {P : Paths} {G : Generators ρ} {db : Db ρ} {files : Files}
    {path : Text} (hcopy : files (applied path) = none) :
    writeRespTransformFiles P G db files (applied path) = none := by
  have hext : ∀ w ∈ (G.respTransform db).map (fun c => (P.respTransformDir ++ '/' ::
      (ApiArmor.safeFilename c.1 ++ ".json".toList), c.2)), w.1 ≠ applied path := by
    intro w hw
    obtain ⟨c, -, rfl⟩ := List.mem_map.mp hw
    have hjson : ".json".toList.isSuffixOf (P.respTransformDir ++ '/' ::
        (ApiArmor.safeFilename c.1 ++ ".json".toList)) = true := by
      rw [← List.cons_append, ← List.append_assoc]
      exact List.isSuffixOf_iff_suffix.mpr (List.suffix_append _ _)
    exact ne_applied (by decide) (by decide) hjson path
  have hdetok : applied path ≠ P.respTransformDir ++ '/' :: "query_detokenize.json".toList := by
    have hjson : ".json".toList.isSuffixOf
        (P.respTransformDir ++ '/' :: ("query_detokenize".toList ++ ".json".toList)) = true := by
      rw [← List.cons_append, ← List.append_assoc]
      exact List.isSuffixOf_iff_suffix.mpr (List.suffix_append _ _)
    exact fun heq => ne_applied (by decide) (by decide) hjson path heq.symm
  unfold writeRespTransformFiles Store.keep
  rw [Store.write_other _ _ hdetok, Store.writeAll_other _ hext, hcopy]
  exact ite_self _

end

section

variable {S G} {now : DateTime} {db : Db ρ} {files : Files} {path : Text}

/-- A list file after an apply, whether validation refuses it or not. -/
theorem listFile_generated (h : ListFile S.toPaths path) :
    beforeValidation S.toSettings G.toGenerators now db files path =
        Store.lastWrite (securityListFiles S.toPaths db.lists) path ∧
      acceptedFiles S G now db files path =
        Store.lastWrite (securityListFiles S.toPaths db.lists) path := by
  have hwriter := (@mem_writers ρ S G now db).1
  have hholds := (listsRegion_holds h).1
  exact ⟨(beforeValidation_alone now db files hwriter hholds).trans (writeSecurityListFiles_live h),
    (acceptedFiles_region hwriter hholds).trans (writeSecurityListFiles_live h)⟩

/-- And a file of transforms. -/
theorem respTransformFile_generated (h : RespTransformFile S.toPaths path) :
    beforeValidation S.toSettings G.toGenerators now db files path =
        Store.lastWrite (respTransformFiles S.toPaths G.toGenerators db) path ∧
      acceptedFiles S G now db files path =
        Store.lastWrite (respTransformFiles S.toPaths G.toGenerators db) path := by
  have hwriter := (@mem_writers ρ S G now db).2.2
  have hholds := (respTransformRegion_holds h).1
  exact ⟨(beforeValidation_alone now db files hwriter hholds).trans
      (writeRespTransformFiles_file h),
    (acceptedFiles_region hwriter hholds).trans (writeRespTransformFiles_file h)⟩

end

/-! ### The copies of the status -/

/-- The copies are as the writers leave them. -/
structure Tidy (files : Files) : Prop where
  vector : files (applied S.vectorConfigPath) = files S.vectorConfigPath
  vcl : files (applied S.varnishVclPath) = none
  risk : files (applied S.riskRulesDataPath) = none
  lists : ∀ path, ListFile S.toPaths path → files (applied path) = files path
  transforms : ∀ path, RespTransformFile S.toPaths path → files (applied path) = none

section

variable {S G} {now : DateTime} {db : Db ρ} {files : Files}

theorem before_late {path : Text} (hpath : path ∈ S.lateFiles) :
    beforeValidation S.toSettings G.toGenerators now db files path = files path :=
  beforeValidation_frame now db files (lateFiles_apart hpath)

/-- The late files, named. -/
theorem mem_lateFiles : S.vectorConfigPath ∈ S.lateFiles ∧ applied S.vectorConfigPath ∈ S.lateFiles ∧
    S.varnishVclPath ∈ S.lateFiles ∧ applied S.varnishVclPath ∈ S.lateFiles ∧
      applied S.riskRulesDataPath ∈ S.lateFiles := by
  simp [StatusSettings.lateFiles]

theorem late_validated {path : Text} (hpath : path ∈ S.lateFiles) : path ∉ S.validatedFiles :=
  fun hvalidated => validated_late hvalidated hpath

/-- A late file before the two writers. -/
theorem writeValidated_late {path : Text} (hpath : path ∈ S.lateFiles) :
    writeValidated S G db (beforeValidation S.toSettings G.toGenerators now db files) path =
      files path := by
  rw [writeValidated_other (late_validated hpath), before_late hpath]

/-- The late files are different. -/
theorem lateFiles_nodup : S.lateFiles.Nodup := (List.nodup_append.mp S.distinct).2.1

/-- `vector.toml` and its copy. -/
theorem acceptedFiles_vector (htidy : Tidy S files) :
    acceptedFiles S G now db files S.vectorConfigPath =
        (G.vectorToml db).or (files S.vectorConfigPath) ∧
      acceptedFiles S G now db files (applied S.vectorConfigPath) =
        (G.vectorToml db).or (files S.vectorConfigPath) := by
  obtain ⟨hv, hva, -, -, -⟩ := @mem_lateFiles S
  have hnodup := @lateFiles_nodup S
  simp only [StatusSettings.lateFiles, List.nodup_cons, List.mem_cons, List.not_mem_nil, or_false,
    not_or] at hnodup
  obtain ⟨⟨hne, hvc, -⟩, ⟨hac, -⟩, -⟩ := hnodup
  rw [acceptedFiles_eq, writeVcl_other hvc, writeVcl_other hac]
  have hlive := @writeValidated_late ρ S G now db files _ hv
  have hcopy := @writeValidated_late ρ S G now db files _ hva
  unfold writeVectorConfig
  cases htoml : G.vectorToml db with
  | none =>
      rw [Option.none_or]
      exact ⟨hlive, hcopy.trans htidy.vector⟩
  | some text =>
      dsimp only
      rw [Option.some_or, hlive, hcopy, htidy.vector]
      by_cases hsame : files S.vectorConfigPath = some text
      · rw [if_pos ⟨hsame, by rw [hsame]; rfl⟩]
        exact ⟨hlive.trans hsame, hcopy.trans (htidy.vector.trans hsame)⟩
      · rw [if_neg fun h => hsame h.1, Store.write_self, Store.write_other _ _ hne, Store.write_self]
        exact ⟨rfl, rfl⟩

/-- The VCL. -/
theorem acceptedFiles_vcl : acceptedFiles S G now db files S.varnishVclPath =
    if G.diskCache db && G.vclValid (G.vcl db) then some (G.vcl db) else files S.varnishVclPath := by
  obtain ⟨-, -, hc, -, -⟩ := @mem_lateFiles S
  have hnodup := @lateFiles_nodup S
  simp only [StatusSettings.lateFiles, List.nodup_cons, List.mem_cons, List.not_mem_nil, or_false,
    not_or] at hnodup
  obtain ⟨⟨-, hvc, -⟩, ⟨hac, -⟩, -⟩ := hnodup
  rw [acceptedFiles_eq, writeVcl]
  split_ifs
  · exact Store.write_self _ _ _
  · rw [writeVectorConfig_other (Ne.symm hvc) (Ne.symm hac), writeValidated_late hc]

/-- A late file that is not written. -/
theorem acceptedFiles_late {path : Text} (hpath : path ∈ S.lateFiles)
    (hv : path ≠ S.vectorConfigPath) (hva : path ≠ applied S.vectorConfigPath)
    (hc : path ≠ S.varnishVclPath) : acceptedFiles S G now db files path = files path := by
  rw [acceptedFiles_eq, writeVcl_other hc, writeVectorConfig_other hv hva, writeValidated_late hpath]

theorem Tidy.before (h : Tidy S files) :
    Tidy S (beforeValidation S.toSettings G.toGenerators now db files) := by
  obtain ⟨hv, hva, -, hca, hra⟩ := @mem_lateFiles S
  obtain ⟨hlists, -, htransforms⟩ := @mem_writers ρ S G now db
  refine ⟨?_, ?_, ?_, fun path hpath => ?_, fun path hpath => ?_⟩
  · rw [before_late hva, before_late hv, h.vector]
  · rw [before_late hca, h.vcl]
  · rw [before_late hra, h.risk]
  · obtain ⟨hlive, hcopy⟩ := listsRegion_holds hpath
    rw [beforeValidation_alone now db files hlists hlive,
      beforeValidation_alone now db files hlists hcopy]
    exact (writeSecurityListFiles_copy hpath (h.lists path hpath)).trans
      (writeSecurityListFiles_live hpath).symm
  · rw [beforeValidation_alone now db files htransforms (respTransformRegion_holds hpath).2]
    exact writeRespTransformFiles_copy (h.transforms path hpath)

theorem Tidy.accepted (h : Tidy S files) : Tidy S (acceptedFiles S G now db files) := by
  obtain ⟨-, -, -, hca, hra⟩ := @mem_lateFiles S
  obtain ⟨hlists, -, htransforms⟩ := @mem_writers ρ S G now db
  have hnodup := @lateFiles_nodup S
  simp only [StatusSettings.lateFiles, List.nodup_cons, List.mem_cons, List.not_mem_nil, or_false,
    not_or] at hnodup
  obtain ⟨⟨-, -, hv4, hv5⟩, ⟨-, ha4, ha5⟩, ⟨hc4, hc5⟩, -⟩ := hnodup
  refine ⟨?_, ?_, ?_, fun path hpath => ?_, fun path hpath => ?_⟩
  · rw [(acceptedFiles_vector h).1, (acceptedFiles_vector h).2]
  · rw [acceptedFiles_late hca (Ne.symm hv4) (Ne.symm ha4) (Ne.symm hc4), h.vcl]
  · rw [acceptedFiles_late hra (Ne.symm hv5) (Ne.symm ha5) (Ne.symm hc5), h.risk]
  · obtain ⟨hlive, hcopy⟩ := listsRegion_holds hpath
    rw [acceptedFiles_region hlists hlive, acceptedFiles_region hlists hcopy]
    exact (writeSecurityListFiles_copy hpath (h.lists path hpath)).trans
      (writeSecurityListFiles_live hpath).symm
  · rw [acceptedFiles_region htransforms (respTransformRegion_holds hpath).2]
    exact writeRespTransformFiles_copy (h.transforms path hpath)

end

/-- The copies and the files are those of the last successful apply, where validation guards
them. -/
structure Snapshots (σ : StatusState ρ) : Prop where
  tidy : Tidy S σ.files
  haproxy : ∃ text, σ.files (applied S.haproxyConfigPath) = some text ∧
    σ.last S.haproxyConfigPath = some text
  coraza : S.corazaSpoaEnabled = true →
    (∃ text, σ.files (applied S.corazaSpoeConfigPath) = some text ∧
      σ.last S.corazaSpoeConfigPath = some text) ∧
    ∃ text, σ.files (applied S.corazaSpoaConfigPath) = some text ∧
      σ.last S.corazaSpoaConfigPath = some text
  vector : σ.files S.vectorConfigPath = σ.last S.vectorConfigPath
  vcl : σ.files S.varnishVclPath = σ.last S.varnishVclPath
  beacon : σ.last S.pageProtectBeaconJsPath = some G.beaconJs

section

variable {S G} {now : DateTime} {db : Db ρ} {files : Files}

/-- The live files of the writers of single files. -/
theorem acceptedFiles_single :
    acceptedFiles S G now db files S.riskRulesDataPath =
        (G.riskRulesData db).or (files S.riskRulesDataPath) ∧
      acceptedFiles S G now db files S.pageProtectBeaconJsPath = some G.beaconJs ∧
      (S.corazaSpoaEnabled = true →
        acceptedFiles S G now db files S.corazaSpoeConfigPath = some (G.corazaSpoe db) ∧
        acceptedFiles S G now db files S.corazaSpoaConfigPath = some (G.corazaSpoa db)) := by
  have hholds : ∀ path, Region.holds ⟨[], [path]⟩ path = true := fun path =>
    Region.holds_file (List.mem_singleton_self path)
  have hwriters : ∀ w ∈ [(S.riskRegion, writeRiskRulesDataFile S.toPaths G.toGenerators db),
      (S.beaconRegion, fun files => files.write S.pageProtectBeaconJsPath G.beaconJs),
      (S.corazaSpoeRegion, fun files => if S.corazaSpoaEnabled then
        files.write S.corazaSpoeConfigPath (G.corazaSpoe db) else files),
      (S.corazaSpoaRegion, fun files => if S.corazaSpoaEnabled then
        writeCorazaSpoaConfig S.toPaths (G.corazaSpoa db) files else files)],
      w ∈ writers S.toSettings G.toGenerators now db := by
    intro w hw
    simp only [List.mem_cons, List.not_mem_nil, or_false] at hw
    rcases hw with rfl | rfl | rfl | rfl <;> simp [writers]
  simp only [List.mem_cons, List.not_mem_nil, or_false, forall_eq_or_imp, forall_eq] at hwriters
  obtain ⟨hrisk, hbeacon, hspoe, hspoa⟩ := hwriters
  refine ⟨?_, ?_, fun henabled => ⟨?_, ?_⟩⟩
  · rw [acceptedFiles_region hrisk (hholds _)]
    show writeRiskRulesDataFile S.toPaths G.toGenerators db files S.riskRulesDataPath = _
    unfold writeRiskRulesDataFile
    cases G.riskRulesData db with
    | none => rfl
    | some content => exact Store.write_self _ _ _
  · rw [acceptedFiles_region hbeacon (hholds _)]
    exact Store.write_self _ _ _
  · rw [acceptedFiles_region hspoe (hholds _)]
    exact congrFun (if_pos henabled) _ |>.trans (Store.write_self _ _ _)
  · rw [acceptedFiles_region hspoa (hholds _)]
    refine (congrFun (if_pos henabled) _).trans ?_
    rw [writeCorazaSpoaConfig]
    by_cases hsame : files S.corazaSpoaConfigPath = some (G.corazaSpoa db)
    · rw [if_neg (not_not.mpr hsame), hsame]
    · rw [if_pos hsame, Store.write_self]

/-- After an apply that succeeds. -/
theorem Snapshots.accepted (h : Tidy S files) :
    Snapshots S G ⟨db, acceptedFiles S G now db files, acceptedFiles S G now db files⟩ := by
  obtain ⟨-, hbeacon, hcoraza⟩ := @acceptedFiles_single ρ S G now db files
  refine ⟨h.accepted, ⟨_, acceptedFiles_haproxy.2, acceptedFiles_haproxy.1⟩, fun henabled => ?_,
    rfl, rfl, hbeacon⟩
  exact ⟨⟨_, (acceptedFiles_coraza henabled).1, (hcoraza henabled).1⟩,
    _, (acceptedFiles_coraza henabled).2, (hcoraza henabled).2⟩

/-- After an apply that validation refuses. -/
theorem Snapshots.refused {σ : StatusState ρ} (h : Snapshots S G σ) :
    Snapshots S G ⟨σ.db, beforeValidation S.toSettings G.toGenerators now σ.db σ.files, σ.last⟩ := by
  obtain ⟨hv, -, hc, -, -⟩ := @mem_lateFiles S
  have hkept : ∀ path ∈ S.validatedFiles,
      beforeValidation S.toSettings G.toGenerators now σ.db σ.files path = σ.files path :=
    fun path hpath => beforeValidation_frame now σ.db σ.files (validatedFiles_apart S.toSettings hpath)
  simp only [validatedFiles_eq, List.mem_cons, List.not_mem_nil, or_false, forall_eq_or_imp,
    forall_eq] at hkept
  obtain ⟨-, hconfig, hspoe, hspoa⟩ := hkept
  refine ⟨h.tidy.before, ?_, fun henabled => ⟨?_, ?_⟩, ?_, ?_, h.beacon⟩
  · obtain ⟨text, happlied, hlast⟩ := h.haproxy
    exact ⟨text, hconfig.trans happlied, hlast⟩
  · obtain ⟨text, happlied, hlast⟩ := (h.coraza henabled).1
    exact ⟨text, hspoe.trans happlied, hlast⟩
  · obtain ⟨text, happlied, hlast⟩ := (h.coraza henabled).2
    exact ⟨text, hspoa.trans happlied, hlast⟩
  · exact (before_late hv).trans h.vector
  · exact (before_late hc).trans h.vcl

/-- **A step keeps the snapshots.** -/
theorem Snapshots.step {σ σ' : StatusState ρ} {act : StatusAct ρ} (h : Snapshots S G σ)
    (hstep : statusStep S G σ act = some σ') : Snapshots S G σ' := by
  cases act with
  | edit db =>
      rw [← Option.some.inj hstep]
      exact ⟨h.tidy, h.haproxy, h.coraza, h.vector, h.vcl, h.beacon⟩
  | apply now =>
      rw [← Option.some.inj hstep]
      cases hvalid : G.validates (G.config σ.db)
          (beforeValidation S.toSettings G.toGenerators now σ.db σ.files) with
      | true =>
          rw [applyConfig_accepted hvalid]
          exact Snapshots.accepted h.tidy
      | false =>
          rw [applyConfig_refused hvalid]
          exact h.refused

theorem Fresh.tidy (h : Fresh S files) : Tidy S files := by
  obtain ⟨hv, hva, hc, hca, hra⟩ := @mem_lateFiles S
  have hlate : ∀ path ∈ S.lateFiles, files path = none := fun path hpath => h path (.inr (.inr hpath))
  refine ⟨by rw [hlate _ hv, hlate _ hva], hlate _ hca, hlate _ hra, fun path hpath => ?_,
    fun path hpath => ?_⟩
  · obtain ⟨hlive, hcopy⟩ := listsRegion_holds hpath
    have hr : S.listsRegion ∈ S.regions := List.mem_cons_self
    rw [h _ (.inl ⟨_, hr, hlive⟩), h _ (.inl ⟨_, hr, hcopy⟩)]
  · have hr : S.respTransformRegion ∈ S.regions := by simp [Paths.regions]
    exact h _ (.inl ⟨_, hr, (respTransformRegion_holds hpath).2⟩)

/-- **So do runs.** -/
theorem StatusReachable.snapshots {σ : StatusState ρ} (h : StatusReachable S G σ) :
    Snapshots S G σ := by
  obtain ⟨db, files, now, acts, hfresh, hok, hrun⟩ := h
  have hvalid : G.validates (G.config db)
      (beforeValidation S.toSettings G.toGenerators now db files) = true := by
    by_contra hnot
    rw [applyConfig_refused (Bool.not_eq_true _ ▸ hnot)] at hok
    cases hok
  rw [applyConfig_accepted hvalid] at hrun
  have halong : ∀ acts (σ : StatusState ρ), Transition.Along (statusStep S G) (fun _ _ => True) σ acts := by
    intro acts
    induction acts with
    | nil => exact fun _ => trivial
    | cons act acts ih => exact fun _ => ⟨trivial, fun σ' _ => ih σ'⟩
  exact Transition.run_invariant (fun _ _ _ hsnap _ hstep => hsnap.step hstep)
    (Snapshots.accepted hfresh.tidy) (halong acts _) hrun

end

/-! ### The flag against the changes -/

section

variable (R : Reading S.toPaths) (now : DateTime) (σ : StatusState ρ)

/-- A file differs that is compared with what the last successful apply left of it: a copy
made after validation, or a file written then. -/
def LateDiffers : Prop :=
  let new := acceptedFiles S G now σ.db σ.files
  Differs S R new σ.last S.haproxyConfigPath ∨
    (S.corazaSpoaEnabled = true ∧ Differs S R new σ.last S.corazaSpoaConfigPath) ∨
    (G.vectorActive σ.db = true ∧ Differs S R new σ.last S.vectorConfigPath) ∨
    Differs S R new σ.last S.varnishVclPath

/-- A file of the risk rules, of a list or of transforms differs from what is in some files. -/
def EarlyDiffers (files : Files) : Prop :=
  let new := acceptedFiles S G now σ.db σ.files
  Differs S R new files S.riskRulesDataPath ∨
    (∃ path, ListFile S.toPaths path ∧ Differs S R new files path) ∨
    ∃ path, RespTransformFile S.toPaths path ∧ Differs S R new files path

/-- The status shows something else: `coraza.cfg` for the default name of the backend, a VCL
that is not valid, or another text of the bundle than the last apply left, or none. -/
def OtherShown : Prop :=
  (S.corazaSpoaEnabled = true ∧
      (σ.last S.corazaSpoeConfigPath).getD [] ≠ G.corazaSpoeDefault σ.db) ∨
    (G.diskCache σ.db = true ∧ G.vclValid (G.vcl σ.db) = false ∧
      (σ.last S.varnishVclPath).getD [] ≠ G.vcl σ.db) ∨
    (G.mcpOn σ.db = true ∧ (G.mcpBundle now σ.db = none ∨
      readAppliedMcpBundle S G σ.files ≠ G.mcpBundleText σ.db))

/-- A file differs that is not compared as it is written: `coraza.cfg`, `vector.toml` of an
inactive pipeline, the bundle of the gateway, and the files of the API armor. -/
def OtherDiffers : Prop :=
  let new := acceptedFiles S G now σ.db σ.files
  (S.corazaSpoaEnabled = true ∧ Differs S R new σ.last S.corazaSpoeConfigPath) ∨
    (G.vectorActive σ.db = false ∧ Differs S R new σ.last S.vectorConfigPath) ∨
    ∃ path, Coded S.toPaths path ∧ Differs S R new σ.last path

end

section

variable {S G} {R : Reading S.toPaths} {now : DateTime} {σ : StatusState ρ} {files files' : Files}
variable {path : Text}

theorem coded_holds (h : Coded S.toPaths path) :
    S.mcpRegion.holds path = true ∨ S.apiArmorRegion.holds path = true := by
  rcases h with rfl | rfl | h
  · exact .inl (Region.holds_file List.mem_cons_self)
  · exact .inl (Region.holds_file (List.mem_cons_of_mem _ List.mem_cons_self))
  · exact .inr h

/-- A file that no writer before validation writes is plain. -/
theorem not_coded (h : ∀ r ∈ S.regions, r.holds path ≠ true) : ¬ Coded S.toPaths path := by
  intro hcoded
  rcases coded_holds hcoded with hholds | hholds
  · exact h S.mcpRegion (by simp [Paths.regions]) hholds
  · exact h S.apiArmorRegion (by simp [Paths.regions]) hholds

/-- So are the files of the other writers. -/
theorem not_coded_region {r : Region} (hr : r ∈ [S.listsRegion, S.riskRegion, S.respTransformRegion,
    S.corazaSpoeRegion, S.corazaSpoaRegion]) (hpath : r.holds path = true) :
    ¬ Coded S.toPaths path := by
  have hsep := (List.pairwise_append.mp S.separate).1
  simp only [Paths.regions, List.pairwise_cons, List.mem_cons, List.not_mem_nil, or_false,
    forall_eq_or_imp, forall_eq] at hsep
  obtain ⟨⟨-, hlm, -, hla, -⟩, ⟨hrm, -, hra, -⟩, ⟨hmt, -, -, hme, hms⟩, ⟨hta, -⟩,
    ⟨-, hae, has⟩, -⟩ := hsep
  have hapart : ∀ {a b : Region}, a.apart b = true → ¬ (a.holds path = true ∧ b.holds path = true) :=
    fun h hboth => Region.apart_spec h hboth.1 hboth.2
  intro hcoded
  simp only [List.mem_cons, List.not_mem_nil, or_false] at hr
  rcases coded_holds hcoded with hcode | hcode <;>
    rcases hr with rfl | rfl | rfl | rfl | rfl
  · exact hapart hlm ⟨hpath, hcode⟩
  · exact hapart hrm ⟨hpath, hcode⟩
  · exact hapart hmt ⟨hcode, hpath⟩
  · exact hapart hme ⟨hcode, hpath⟩
  · exact hapart hms ⟨hcode, hpath⟩
  · exact hapart hla ⟨hpath, hcode⟩
  · exact hapart hra ⟨hpath, hcode⟩
  · exact hapart hta ⟨hpath, hcode⟩
  · exact hapart hae ⟨hcode, hpath⟩
  · exact hapart has ⟨hcode, hpath⟩

theorem differs_plain (h : ¬ Coded S.toPaths path) :
    Differs S R files files' path ↔ (files path).getD [] ≠ (files' path).getD [] := by
  rw [Differs, R.plain _ _ h, R.plain _ _ h]

theorem listFile_plain (h : ListFile S.toPaths path) : ¬ Coded S.toPaths path :=
  not_coded_region List.mem_cons_self (listsRegion_holds h).1

theorem respTransformFile_plain (h : RespTransformFile S.toPaths path) : ¬ Coded S.toPaths path :=
  not_coded_region (List.mem_cons_of_mem _ (List.mem_cons_of_mem _ List.mem_cons_self))
    (respTransformRegion_holds h).1

/-- The changes, by how they are compared. -/
theorem changes_iff (h : Snapshots S G σ) : Changes S G R now σ ↔
    LateDiffers S G R now σ ∨ EarlyDiffers S G R now σ σ.last ∨ OtherDiffers S G R now σ := by
  constructor
  · rintro ⟨path, hfile, hdiffers⟩
    rcases hfile with rfl | ⟨henabled, rfl | rfl⟩ | rfl | rfl | rfl | hlist | htransform | rfl | hcoded
    · exact .inl (.inl hdiffers)
    · exact .inr (.inr (.inl ⟨henabled, hdiffers⟩))
    · exact .inl (.inr (.inl ⟨henabled, hdiffers⟩))
    · exact .inr (.inl (.inl hdiffers))
    · exact .inl (.inr (.inr (.inr hdiffers)))
    · cases hactive : G.vectorActive σ.db with
      | true => exact .inl (.inr (.inr (.inl ⟨hactive, hdiffers⟩)))
      | false => exact .inr (.inr (.inr (.inl ⟨hactive, hdiffers⟩)))
    · exact .inr (.inl (.inr (.inl ⟨path, hlist, hdiffers⟩)))
    · exact .inr (.inl (.inr (.inr ⟨path, htransform, hdiffers⟩)))
    · rw [Differs, acceptedFiles_single.2.1, h.beacon] at hdiffers
      exact absurd rfl hdiffers
    · exact .inr (.inr (.inr (.inr ⟨path, hcoded, hdiffers⟩)))
  · rintro ((hd | ⟨he, hd⟩ | ⟨-, hd⟩ | hd) | (hd | ⟨p, hp, hd⟩ | ⟨p, hp, hd⟩) |
      (⟨he, hd⟩ | ⟨-, hd⟩ | ⟨p, hp, hd⟩))
    · exact ⟨_, .inl rfl, hd⟩
    · exact ⟨_, .inr (.inl ⟨he, .inr rfl⟩), hd⟩
    · exact ⟨_, .inr (.inr (.inr (.inr (.inl rfl)))), hd⟩
    · exact ⟨_, .inr (.inr (.inr (.inl rfl))), hd⟩
    · exact ⟨_, .inr (.inr (.inl rfl)), hd⟩
    · exact ⟨p, .inr (.inr (.inr (.inr (.inr (.inl hp))))), hd⟩
    · exact ⟨p, .inr (.inr (.inr (.inr (.inr (.inr (.inl hp)))))), hd⟩
    · exact ⟨_, .inr (.inl ⟨he, .inl rfl⟩), hd⟩
    · exact ⟨_, .inr (.inr (.inr (.inr (.inl rfl)))), hd⟩
    · exact ⟨p, .inr (.inr (.inr (.inr (.inr (.inr (.inr (.inr hp))))))), hd⟩

/-! ### What the status reads -/

theorem read_copy {text : Text} (h : files (applied path) = some text) :
    readCurrentConfig files path = text := by
  rw [readCurrentConfig, h]
  rfl

theorem read_live (h : files (applied path) = none ∨ files (applied path) = files path) :
    readCurrentConfig files path = (files path).getD [] := by
  rw [readCurrentConfig]
  rcases h with h | h
  · rw [h, Option.none_or]
  · rw [h]
    cases files path <;> rfl

/-- Something generated or there, and different, is shown. -/
theorem fileUnapplied_iff {contents : List (Text × Text)} (hcopy : files (applied path) = none ∨
      files (applied path) = files path) {new : Files}
    (hnew : new path = Store.lastWrite contents path) :
    FileUnapplied contents files path ↔ (new path).getD [] ≠ (files path).getD [] := by
  rw [FileUnapplied, read_live hcopy, hnew]

theorem generated_or_there {contents : List (Text × Text)} {new : Files}
    (hnew : new path = Store.lastWrite contents path)
    (hne : (new path).getD [] ≠ (files path).getD []) :
    path ∈ contents.map Prod.fst ∨ (files path).isSome := by
  by_contra hneither
  rw [not_or, ← Store.lastWrite_isSome_iff, ← hnew] at hneither
  rw [Option.not_isSome_iff_eq_none.mp hneither.1, Option.not_isSome_iff_eq_none.mp hneither.2] at hne
  exact hne rfl

theorem listsUnapplied_iff (h : Snapshots S G σ) : ListsUnapplied S σ.db σ.files ↔
    ∃ path, ListFile S.toPaths path ∧
      Differs S R (acceptedFiles S G now σ.db σ.files) σ.files path := by
  refine exists_congr fun path => and_congr_right fun hpath => ?_
  have hcopy := h.tidy.lists path hpath
  have hnew := (@listFile_generated ρ S G now σ.db σ.files path hpath).2
  rw [fileUnapplied_iff (.inr hcopy) hnew, differs_plain (listFile_plain hpath), hcopy]
  exact ⟨fun h => h.2, fun hne => ⟨generated_or_there hnew hne, hne⟩⟩

theorem respTransformUnapplied_iff (h : Snapshots S G σ) : RespTransformUnapplied S G σ.db σ.files ↔
    ∃ path, RespTransformFile S.toPaths path ∧
      Differs S R (acceptedFiles S G now σ.db σ.files) σ.files path := by
  refine exists_congr fun path => and_congr_right fun hpath => ?_
  have hnew := (@respTransformFile_generated ρ S G now σ.db σ.files path hpath).2
  rw [fileUnapplied_iff (.inl (h.tidy.transforms path hpath)) hnew,
    differs_plain (respTransformFile_plain hpath)]
  exact ⟨fun h => h.2, fun hne => ⟨generated_or_there hnew hne, hne⟩⟩

/-- The status of the VCL. -/
theorem vclUnapplied_iff (h : Snapshots S G σ) :
    (G.diskCache σ.db = true ∧ readCurrentConfig σ.files S.varnishVclPath ≠ G.vcl σ.db) ↔
      Differs S R (acceptedFiles S G now σ.db σ.files) σ.last S.varnishVclPath ∨
        (G.diskCache σ.db = true ∧ G.vclValid (G.vcl σ.db) = false ∧
          (σ.last S.varnishVclPath).getD [] ≠ G.vcl σ.db) := by
  obtain ⟨-, -, hc, -, -⟩ := @mem_lateFiles S
  rw [read_live (.inl h.tidy.vcl), differs_plain (not_coded (lateFiles_apart hc)), acceptedFiles_vcl,
    h.vcl]
  cases G.diskCache σ.db <;> cases G.vclValid (G.vcl σ.db) <;> simp [eq_comm]

/-- The status of the pipeline. -/
theorem vectorUnapplied_iff (h : Snapshots S G σ) :
    (∃ text, G.vectorToml σ.db = some text ∧
        readCurrentConfig σ.files S.vectorConfigPath ≠ text) ↔
      Differs S R (acceptedFiles S G now σ.db σ.files) σ.last S.vectorConfigPath := by
  obtain ⟨hv, -, -, -, -⟩ := @mem_lateFiles S
  rw [read_live (.inr h.tidy.vector), differs_plain (not_coded (lateFiles_apart hv)),
    (acceptedFiles_vector h.tidy).1, h.vector]
  cases G.vectorToml σ.db <;> simp [eq_comm]

/-- The flag, by what is compared. -/
theorem unapplied_iff (h : Snapshots S G σ) : Unapplied S G now σ.db σ.files ↔
    (G.riskRulesData σ.db).isSome = true ∧ (LateDiffers S G R now σ ∨
      EarlyDiffers S G R now σ σ.files ∨ OtherShown S G now σ) := by
  have hvalidated : ∀ {path}, path ∈ S.validatedFiles → ¬ Coded S.toPaths path := fun hpath =>
    not_coded (validatedFiles_apart S.toSettings hpath)
  have hconfig : readCurrentConfig σ.files S.haproxyConfigPath ≠ G.config σ.db ↔
      Differs S R (acceptedFiles S G now σ.db σ.files) σ.last S.haproxyConfigPath := by
    obtain ⟨text, hcopy, hlast⟩ := h.haproxy
    rw [differs_plain (hvalidated List.mem_cons_self), read_copy hcopy, acceptedFiles_haproxy.1, hlast]
    exact ne_comm
  have hcoraza : S.corazaSpoaEnabled = true →
      (readCurrentConfig σ.files S.corazaSpoeConfigPath ≠ G.corazaSpoeDefault σ.db ↔
        (σ.last S.corazaSpoeConfigPath).getD [] ≠ G.corazaSpoeDefault σ.db) ∧
      (readCurrentConfig σ.files S.corazaSpoaConfigPath ≠ G.corazaSpoa σ.db ↔
        Differs S R (acceptedFiles S G now σ.db σ.files) σ.last S.corazaSpoaConfigPath) := by
    intro henabled
    obtain ⟨⟨text, hcopy, hlast⟩, text', hcopy', hlast'⟩ := h.coraza henabled
    have hspoa : S.corazaSpoaRegion ∈ [S.listsRegion, S.riskRegion, S.respTransformRegion,
        S.corazaSpoeRegion, S.corazaSpoaRegion] := by simp
    refine ⟨by rw [read_copy hcopy, hlast]; rfl, ?_⟩
    rw [differs_plain (not_coded_region hspoa (Region.holds_file (List.mem_singleton_self _))),
      read_copy hcopy', (acceptedFiles_single.2.2 henabled).2, hlast']
    exact ne_comm
  have hrisk : ∀ risk, G.riskRulesData σ.db = some risk →
      (readCurrentConfig σ.files S.riskRulesDataPath ≠ risk ↔
        Differs S R (acceptedFiles S G now σ.db σ.files) σ.files S.riskRulesDataPath) := by
    intro risk hsome
    have hregion : S.riskRegion ∈ [S.listsRegion, S.riskRegion, S.respTransformRegion,
        S.corazaSpoeRegion, S.corazaSpoaRegion] := by simp
    rw [differs_plain (not_coded_region hregion (Region.holds_file (List.mem_singleton_self _))),
      read_live (.inl h.tidy.risk), acceptedFiles_single.1, hsome]
    exact ne_comm
  have hspoes : S.corazaSpoaEnabled = true ∧
      (readCurrentConfig σ.files S.corazaSpoeConfigPath ≠ G.corazaSpoeDefault σ.db ∨
        readCurrentConfig σ.files S.corazaSpoaConfigPath ≠ G.corazaSpoa σ.db) ↔
      (S.corazaSpoaEnabled = true ∧
        (σ.last S.corazaSpoeConfigPath).getD [] ≠ G.corazaSpoeDefault σ.db) ∨
      (S.corazaSpoaEnabled = true ∧
        Differs S R (acceptedFiles S G now σ.db σ.files) σ.last S.corazaSpoaConfigPath) := by
    rw [← and_or_left]
    exact and_congr_right fun henabled => or_congr (hcoraza henabled).1 (hcoraza henabled).2
  unfold Unapplied
  dsimp only [LateDiffers, EarlyDiffers, OtherShown]
  rw [hconfig, hspoes, @vclUnapplied_iff ρ S G R now σ h,
    @vectorUnapplied_iff ρ S G R now σ h, @listsUnapplied_iff ρ S G R now σ h,
    @respTransformUnapplied_iff ρ S G R now σ h]
  cases hsome : G.riskRulesData σ.db with
  | none => simp
  | some risk =>
      simp only [Option.some.injEq, exists_eq_left', hrisk risk hsome, Option.isSome_some, true_and]
      exact iff_of_eq (by ac_rfl)

end

/-- **When the flag is right**, in every state that edits and applies reach, for every
reading of the files that bear a time or a cipher.  Either a file differs that is compared
with what the last successful apply left; or, of the others, something is shown if and only
if something differs: lists, risk rules and transforms are shown against what the last apply
left even when it was refused, and the API armor is not shown at all. -/
theorem statusCorrect_iff (R : Reading S.toPaths) (now : DateTime) (σ : StatusState ρ)
    (h : StatusReachable S G σ) : StatusCorrect S G R now σ ↔
      ((G.riskRulesData σ.db).isSome = true ∧ (LateDiffers S G R now σ ∨
        (EarlyDiffers S G R now σ σ.files ∨ OtherShown S G now σ ↔
          EarlyDiffers S G R now σ σ.last ∨ OtherDiffers S G R now σ))) ∨
      (G.riskRulesData σ.db = none ∧ ¬ (LateDiffers S G R now σ ∨
        EarlyDiffers S G R now σ σ.last ∨ OtherDiffers S G R now σ)) := by
  unfold StatusCorrect
  rw [unapplied_iff (R := R) h.snapshots, changes_iff h.snapshots]
  generalize LateDiffers S G R now σ = late
  generalize (EarlyDiffers S G R now σ σ.files ∨ OtherShown S G now σ) = shown
  generalize (EarlyDiffers S G R now σ σ.last ∨ OtherDiffers S G R now σ) = differs
  cases G.riskRulesData σ.db with
  | none => simp
  | some risk =>
      simp only [Option.isSome_some, true_and, reduceCtorEq, false_and, or_false]
      by_cases hlate : late
      · simp [hlate]
      · simp [hlate]

/-! ### A refused apply takes the flag down -/

section

variable {S G}

/-- After a refused apply, what it wrote is no longer shown. -/
theorem earlyDiffers_refused {R : Reading S.toPaths} {now now' : DateTime} {σ : StatusState ρ}
    {files : Files} {risk : Text} (hrisk : G.riskRulesData σ.db = some risk)
    (hfiles : σ.files = beforeValidation S.toSettings G.toGenerators now' σ.db files) :
    ¬ EarlyDiffers S G R now σ σ.files := by
  have hriskWriter := (@mem_writers ρ S G now' σ.db).2.1
  rintro (hd | ⟨path, hpath, hd⟩ | ⟨path, hpath, hd⟩)
  · have hlive : σ.files S.riskRulesDataPath = some risk := by
      rw [hfiles, beforeValidation_alone now' σ.db files hriskWriter
        (Region.holds_file (List.mem_singleton_self _))]
      show writeRiskRulesDataFile S.toPaths G.toGenerators σ.db files S.riskRulesDataPath = _
      rw [writeRiskRulesDataFile, hrisk]
      exact Store.write_self _ _ _
    rw [Differs, acceptedFiles_single.1, hrisk, hlive] at hd
    exact hd rfl
  · rw [Differs, (listFile_generated hpath).2, hfiles, (listFile_generated hpath).1] at hd
    exact hd rfl
  · rw [Differs, (respTransformFile_generated hpath).2, hfiles,
      (respTransformFile_generated hpath).1] at hd
    exact hd rfl

end

/-- The settings of the program, with its two other files. -/
def defaultStatusSettings : StatusSettings where
  toSettings := defaultSettings
  vectorConfigPath := "data/vector/vector.toml".toList
  varnishVclPath := "data/varnish/default.vcl".toList
  lateApart := by decide +kernel
  distinct := by decide +kernel

/-- The file of the list of blocked networks. -/
def blockedPath : Text := "data/lists/network/b.lst".toList

/-- Only lists are configured; `haproxy -c` refuses a network of 99 bits. -/
def listsOnly : StatusGenerators Unit where
  toGenerators := { refusing with
    riskRulesData := fun _ => some []
    validates := fun _ files => files blockedPath != some "10.0.0.0/99\n".toList }
  corazaSpoeDefault _ := []
  mcpRead t := t
  vectorActive _ := false
  vectorToml _ := none
  diskCache _ := false
  vcl _ := []
  vclValid _ := true

/-- A list of blocked networks. -/
def blocked (entries : List Text) : Db Unit where
  lists kind := if kind = .network then [⟨"b".toList, entries⟩] else []
  apiSchemas := []
  apiKeyLists := []
  rest := ()

/-- Contents as they are. -/
def literally (P : Paths) : Reading P := ⟨fun _ text => text, fun _ _ _ => rfl⟩

/-- The state once a network of 99 bits is added to the list and an apply is refused. -/
def refusedList : StatusState Unit :=
  let first := acceptedFiles defaultStatusSettings listsOnly newYear (blocked []) fun _ => none
  ⟨blocked ["10.0.0.0/99".toList], beforeValidation defaultStatusSettings.toSettings
    listsOnly.toGenerators newYear (blocked ["10.0.0.0/99".toList]) first, first⟩

theorem listsOnly_validates (config : Text) (files : Files) :
    listsOnly.validates config files = (files blockedPath != some "10.0.0.0/99\n".toList) := rfl

theorem blockedPath_listFile : ListFile defaultSettings.toPaths blockedPath :=
  ⟨⟨.network, by decide +kernel⟩, by decide +kernel⟩

theorem blockedPath_refused (files : Files) :
    beforeValidation defaultStatusSettings.toSettings listsOnly.toGenerators newYear
      (blocked ["10.0.0.0/99".toList]) files blockedPath = some "10.0.0.0/99\n".toList := by
  rw [(@listFile_generated Unit defaultStatusSettings listsOnly newYear _ files blockedPath
    blockedPath_listFile).1]
  decide +kernel

theorem blockedPath_accepted (entries : List Text) (files : Files) :
    acceptedFiles defaultStatusSettings listsOnly newYear (blocked entries) files blockedPath =
      Store.lastWrite (securityListFiles defaultSettings.toPaths (blocked entries).lists) blockedPath :=
  (listFile_generated blockedPath_listFile).2

theorem refusedList_reachable : StatusReachable defaultStatusSettings listsOnly refusedList := by
  have hfirst : listsOnly.validates (listsOnly.config (blocked []))
      (beforeValidation defaultStatusSettings.toSettings listsOnly.toGenerators newYear (blocked [])
        fun _ => none) = true := by
    rw [listsOnly_validates, (@listFile_generated Unit defaultStatusSettings listsOnly newYear _ _ blockedPath
      blockedPath_listFile).1]
    decide +kernel
  have hsecond : ∀ files, listsOnly.validates (listsOnly.config (blocked ["10.0.0.0/99".toList]))
      (beforeValidation defaultStatusSettings.toSettings listsOnly.toGenerators newYear
        (blocked ["10.0.0.0/99".toList]) files) = false := by
    intro files
    rw [listsOnly_validates, blockedPath_refused]
    decide +kernel
  refine ⟨blocked [], fun _ => none, newYear, [.edit (blocked ["10.0.0.0/99".toList]),
    .apply newYear], fun _ _ => rfl, by rw [applyConfig_accepted hfirst], ?_⟩
  rw [applyConfig_accepted hfirst, Transition.run_cons_iff]
  refine ⟨_, rfl, Transition.run_cons_iff.mpr ⟨refusedList, ?_, rfl⟩⟩
  show some (StatusState.mk _ (applyConfig _ _ _ _ _).files _) = _
  rw [applyConfig_refused (hsecond _)]
  rfl

/-- The condition in that state. -/
theorem statusCorrect_iff_refusedList :
    StatusCorrect defaultStatusSettings listsOnly (literally _) newYear refusedList ↔
      ((listsOnly.riskRulesData refusedList.db).isSome = true ∧
        (LateDiffers defaultStatusSettings listsOnly (literally _) newYear refusedList ∨
          (EarlyDiffers defaultStatusSettings listsOnly (literally _) newYear refusedList
              refusedList.files ∨ OtherShown defaultStatusSettings listsOnly newYear refusedList ↔
            EarlyDiffers defaultStatusSettings listsOnly (literally _) newYear refusedList
              refusedList.last ∨
            OtherDiffers defaultStatusSettings listsOnly (literally _) newYear refusedList))) ∨
      (listsOnly.riskRulesData refusedList.db = none ∧
        ¬ (LateDiffers defaultStatusSettings listsOnly (literally _) newYear refusedList ∨
          EarlyDiffers defaultStatusSettings listsOnly (literally _) newYear refusedList
            refusedList.last ∨
          OtherDiffers defaultStatusSettings listsOnly (literally _) newYear refusedList)) :=
  statusCorrect_iff defaultStatusSettings listsOnly (literally _) newYear refusedList
    refusedList_reachable

/-- **A refused apply takes the flag down**: the list on the disk is not the one that was
applied, and nothing shows it. -/
theorem refused_takes_flag_down : ¬ ∀ (S : StatusSettings) (G : StatusGenerators Unit)
    (R : Reading S.toPaths) (now : DateTime) (σ : StatusState Unit), StatusReachable S G σ →
      StatusCorrect S G R now σ := by
  intro hall
  have hcorrect := hall defaultStatusSettings listsOnly (literally _) newYear refusedList
    refusedList_reachable
  have hchanges : Changes defaultStatusSettings listsOnly (literally _) newYear refusedList := by
    refine ⟨blockedPath, .inr (.inr (.inr (.inr (.inr (.inl blockedPath_listFile))))), ?_⟩
    have hlast : refusedList.last blockedPath = Store.lastWrite
        (securityListFiles defaultSettings.toPaths (blocked []).lists) blockedPath :=
      blockedPath_accepted [] _
    have hnew : acceptedFiles defaultStatusSettings listsOnly newYear refusedList.db
        refusedList.files blockedPath = Store.lastWrite (securityListFiles defaultSettings.toPaths
          (blocked ["10.0.0.0/99".toList]).lists) blockedPath := blockedPath_accepted _ _
    rw [differs_plain (listFile_plain blockedPath_listFile), hnew, hlast]
    decide +kernel
  have hsnap := refusedList_reachable.snapshots
  obtain ⟨-, hlate | hearly | hother⟩ :=
    (unapplied_iff (R := literally _) hsnap).mp (hcorrect.mpr hchanges)
  · rcases hlate with hd | ⟨henabled, -⟩ | ⟨hactive, -⟩ | hd
    · have hlast : refusedList.last defaultStatusSettings.haproxyConfigPath =
          some (listsOnly.config (blocked [])) :=
        (@acceptedFiles_haproxy Unit defaultStatusSettings listsOnly newYear _ _).1
      rw [Differs, acceptedFiles_haproxy.1, hlast] at hd
      exact hd rfl
    · cases henabled
    · cases hactive
    · rw [Differs, acceptedFiles_vcl, ← hsnap.vcl] at hd
      exact hd rfl
  · exact earlyDiffers_refused rfl rfl hearly
  · rcases hother with ⟨henabled, -⟩ | ⟨hdisk, -⟩ | ⟨hon, -⟩
    · cases henabled
    · cases hdisk
    · cases hon

end CorexManager.Apply
