import CorexManager.Config.Apply

/-!
# The files of lists

Lists of API keys and security lists are written to files named by sanitizing the names of
the lists, and read under names the readers sanitize themselves: the body parser with its
own `safe_name`, the generated acls with the function of the writer.

* `safeName_eq_iff` — for which names `safe_name` and `_safe_filename` agree.
* `listsReadBack_iff` — when every list is read back, from a file of its own.
* `differentLists_oneFile` — two names the program accepts, and one file.
-/

namespace CorexManager.Apply

open Data
open Python (DateTime)
open ApiArmor (stripChars filenameChar inDirectory)

/-! ### Names -/

/-- The letters and digits of Rust, the part outside ASCII being a table. -/
def isAlphanumeric (letters : Char → Bool) (c : Char) : Bool :=
  if c.toNat < 128 then c.isAlphanum else letters c

/-- `safe_name` of the body parser. -/
def safeName (letters : Char → Bool) (name : Text) : Text :=
  name.map fun c =>
    if isAlphanumeric letters c || c == '.' || c == '_' || c == '-' then c else '_'

/-- A character of a file name. -/
def spell (c : Char) : Char := if filenameChar c then c else '_'

/-- A dot, an underscore or a hyphen. -/
def edge (c : Char) : Bool := c == '.' || c == '_' || c == '-'

/-- A name the two sanitizers leave alike: it has no letters or digits outside of ASCII, and
neither begins nor ends with what becomes a dot, an underscore or a hyphen. -/
structure PlainName (letters : Char → Bool) (name : Text) : Prop where
  ascii : ∀ c ∈ name, c.toNat < 128 ∨ letters c = false
  first : ∃ c, name.head? = some c ∧ edge (spell c) = false
  last : ∃ c, name.getLast? = some c ∧ edge (spell c) = false

theorem stripChars_sublist (p : Char → Bool) (t : Text) : (stripChars p t).Sublist t := by
  have hinner : ((t.dropWhile p).reverse.dropWhile p).Sublist (t.dropWhile p).reverse :=
    List.dropWhile_sublist p
  have houter := hinner.reverse
  rw [List.reverse_reverse] at houter
  exact houter.trans (List.dropWhile_sublist p)

private theorem dropWhile_eq_self {p : Char → Bool} {t : Text} (hne : t ≠ []) :
    t.dropWhile p = t ↔ ∃ c, t.head? = some c ∧ p c = false := by
  cases t with
  | nil => exact absurd rfl hne
  | cons c t =>
      rw [List.dropWhile_cons]
      by_cases hc : p c = true
      · rw [if_pos hc]
        constructor
        · intro h
          have hlength := List.length_dropWhile_le p t
          rw [h, List.length_cons] at hlength
          omega
        · rintro ⟨d, hd, hnot⟩
          rw [← Option.some.inj hd, hc] at hnot
          cases hnot
      · rw [if_neg hc]
        exact iff_of_true rfl ⟨c, rfl, Bool.not_eq_true _ ▸ hc⟩

/-- Nothing is stripped exactly when both ends are to stay. -/
theorem stripChars_eq_iff {p : Char → Bool} {t : Text} (hne : t ≠ []) :
    stripChars p t = t ↔
      (∃ c, t.head? = some c ∧ p c = false) ∧ ∃ c, t.getLast? = some c ∧ p c = false := by
  have hreverse : t.reverse ≠ [] := fun h => hne (List.reverse_eq_nil_iff.mp h)
  rw [← dropWhile_eq_self hne, ← List.head?_reverse, ← dropWhile_eq_self hreverse]
  unfold stripChars
  constructor
  · intro h
    have hinner := List.length_dropWhile_le p (t.dropWhile p).reverse
    have houter := List.length_dropWhile_le p t
    have hlength := congrArg List.length h
    rw [List.length_reverse] at hinner hlength
    have hfirst : t.dropWhile p = t :=
      (List.dropWhile_sublist p).eq_of_length (by omega)
    rw [hfirst] at h
    exact ⟨hfirst, List.reverse_eq_iff.mp h⟩
  · rintro ⟨hfirst, hlast⟩
    rw [hfirst, hlast, List.reverse_reverse]

theorem mem_of_stripChars_nil {p : Char → Bool} {t : Text} (h : stripChars p t = []) :
    ∀ c ∈ t, p c = true := by
  intro c hc
  unfold stripChars at h
  have hnil := List.reverse_eq_nil_iff.mp h
  have hall : ∀ d ∈ t.dropWhile p, p d = true := fun d hd =>
    List.dropWhile_eq_nil_iff.mp hnil d (List.mem_reverse.mpr hd)
  rw [← List.takeWhile_append_dropWhile (p := p) (l := t)] at hc
  rcases List.mem_append.mp hc with hc | hc
  · exact List.mem_takeWhile_imp hc
  · exact hall c hc

theorem filenameChar_ascii {c : Char} (h : filenameChar c = true) : c.toNat < 128 := by
  unfold filenameChar at h
  simp only [Bool.or_eq_true, beq_iff_eq] at h
  rcases h with ((h | h) | h) | h
  · exact isAlphanum_ascii h
  · rw [h]
    decide
  · rw [h]
    decide
  · rw [h]
    decide

/-- The character `safe_name` makes of one. -/
def spellRust (letters : Char → Bool) (c : Char) : Char :=
  if isAlphanumeric letters c || c == '.' || c == '_' || c == '-' then c else '_'

/-- The two sanitizers agree on a character but for letters and digits outside of ASCII. -/
theorem spellRust_eq_iff (letters : Char → Bool) (c : Char) :
    spellRust letters c = spell c ↔ c.toNat < 128 ∨ letters c = false := by
  unfold spellRust spell isAlphanumeric
  by_cases hascii : c.toNat < 128
  · rw [if_pos hascii]
    exact iff_of_true rfl (.inl hascii)
  · have hnot : filenameChar c = false := by
      by_contra h
      exact hascii (filenameChar_ascii (Bool.of_not_eq_false h))
    have hnot' := hnot
    unfold filenameChar at hnot'
    simp only [Bool.or_eq_false_iff] at hnot'
    rw [if_neg hascii, hnot, hnot'.1.1.2, hnot'.1.2, hnot'.2, Bool.or_false, Bool.or_false,
      Bool.or_false]
    cases hletter : letters c with
    | false => simp [hascii]
    | true =>
        have hne : c ≠ '_' := by
          rintro rfl
          exact hascii (by decide)
        simp [hascii, hne]

/-- **When the two sanitizers of key lists agree.** -/
theorem safeName_eq_iff (letters : Char → Bool) (name : Text) :
    safeName letters name = ApiArmor.safeFilename name ↔ PlainName letters name := by
  have hrust : safeName letters name = name.map (spellRust letters) := rfl
  have hpython : ApiArmor.safeFilename name = if stripChars edge (name.map spell) = [] then
      "unnamed".toList else stripChars edge (name.map spell) := rfl
  have hends : PlainName letters name ↔ name ≠ [] ∧ (∀ c ∈ name, spellRust letters c = spell c) ∧
      stripChars edge (name.map spell) = name.map spell := by
    constructor
    · intro h
      obtain ⟨c, hc, hedge⟩ := h.first
      obtain ⟨d, hd, hedge'⟩ := h.last
      have hne : name ≠ [] := by
        rintro rfl
        cases hc
      refine ⟨hne, fun c hc => (spellRust_eq_iff letters c).mpr (h.ascii c hc), ?_⟩
      refine (stripChars_eq_iff (by simpa using hne)).mpr ⟨⟨spell c, ?_, hedge⟩, ⟨spell d, ?_, hedge'⟩⟩
      · rw [List.head?_map, hc]
        rfl
      · rw [List.getLast?_map, hd]
        rfl
    · rintro ⟨hne, hspell, hstrip⟩
      obtain ⟨⟨c, hc, hedge⟩, ⟨d, hd, hedge'⟩⟩ := (stripChars_eq_iff (by simpa using hne)).mp hstrip
      rw [List.head?_map] at hc
      rw [List.getLast?_map] at hd
      obtain ⟨first, hfirst, rfl⟩ := Option.map_eq_some_iff.mp hc
      obtain ⟨last, hlast, rfl⟩ := Option.map_eq_some_iff.mp hd
      exact ⟨fun c hc => (spellRust_eq_iff letters c).mp (hspell c hc), ⟨first, hfirst, hedge⟩,
        ⟨last, hlast, hedge'⟩⟩
  rw [hrust, hpython, hends]
  constructor
  · intro h
    by_cases hnil : stripChars edge (name.map spell) = []
    · -- the fallback is what no such name is spelled as
      exfalso
      rw [if_pos hnil] at h
      cases name with
      | nil => cases h
      | cons c name =>
          have hhead : spellRust letters c = 'u' := (List.cons.inj h).1
          have hc : c = 'u' := by
            unfold spellRust at hhead
            split_ifs at hhead
            · exact hhead
            · exact absurd hhead (by decide)
          have hedge := mem_of_stripChars_nil hnil (spell c) (List.mem_map_of_mem List.mem_cons_self)
          rw [hc] at hedge
          revert hedge
          decide
    · rw [if_neg hnil] at h
      have hne : name ≠ [] := by
        rintro rfl
        exact hnil rfl
      have hstrip : stripChars edge (name.map spell) = name.map spell := by
        refine (stripChars_sublist edge _).eq_of_length ?_
        rw [← h, List.length_map, List.length_map]
      rw [hstrip] at h
      exact ⟨hne, fun c hc => List.map_inj_left.mp h c hc, hstrip⟩
  · rintro ⟨hne, hspell, hstrip⟩
    rw [hstrip, if_neg (by simpa using hne)]
    exact List.map_congr_left hspell

/-! ### Files -/

/-- The file the writer gives a list of API keys. -/
def apiKeyFile (P : Paths) (l : ValueList) : Text :=
  P.apiKeysDir ++ '/' :: (ApiArmor.safeFilename l.name ++ ".lst".toList)

/-- The file the body parser reads it from. -/
def apiKeyFileRead (P : Paths) (letters : Char → Bool) (l : ValueList) : Text :=
  P.apiKeysDir ++ '/' :: (safeName letters l.name ++ ".lst".toList)

/-- The file of a security list: `_resolve_list_path` is the path of the writer. -/
def resolveListPath (P : Paths) (kind : ListKind) (l : ValueList) : Text :=
  P.listsDir kind ++ '/' :: (safeFilename l.name ++ ".lst".toList)

/-- The entries a reader finds in a file. -/
def readsEntries (files : Files) (path : Text) : Option (List Text) := (files path).map Rust.lines

/-- **The lists are read back**: every list of keys from a file of its own, which has the name
that the reader looks for, and every security list from a file of its own. -/
structure ListsReadBack (P : Paths) (letters : Char → Bool) (keyLists : List ValueList)
    (lists : ListKind → List ValueList) (files : Files) : Prop where
  keys : ∀ l ∈ keyLists, readsEntries files (apiKeyFileRead P letters l) = some l.entries
  keysNamed : ∀ l ∈ keyLists, apiKeyFileRead P letters l = apiKeyFile P l
  keysApart : ∀ l ∈ keyLists, ∀ m ∈ keyLists, l.name ≠ m.name → apiKeyFile P l ≠ apiKeyFile P m
  security : ∀ kind, ∀ l ∈ lists kind,
    readsEntries files (resolveListPath P kind l) = some l.entries
  securityApart : ∀ kind, ∀ l ∈ lists kind, ∀ m ∈ lists kind, l.name ≠ m.name →
    resolveListPath P kind l ≠ resolveListPath P kind m

/-- When they are: the names of key lists are plain and differ in more than the characters that
become underscores, those of security lists also but for dots and underscores at their ends,
and every entry fits on a line. -/
structure NamesKeptApart (letters : Char → Bool) (keyLists : List ValueList)
    (lists : ListKind → List ValueList) : Prop where
  plain : ∀ l ∈ keyLists, PlainName letters l.name
  keys : ∀ l ∈ keyLists, ∀ m ∈ keyLists, l.name ≠ m.name → l.name.map spell ≠ m.name.map spell
  keyLines : ∀ l ∈ keyLists, ∀ v ∈ l.entries, Rust.IsLine v
  security : ∀ kind, ∀ l ∈ lists kind, ∀ m ∈ lists kind, l.name ≠ m.name →
    safeFilename l.name ≠ safeFilename m.name
  securityLines : ∀ kind, ∀ l ∈ lists kind, ∀ v ∈ l.entries, Rust.IsLine v

/-- A plain name is spelled character by character. -/
theorem PlainName.safeFilename {letters : Char → Bool} {name : Text} (h : PlainName letters name) :
    ApiArmor.safeFilename name = name.map spell := by
  rw [← (safeName_eq_iff letters name).mpr h]
  exact List.map_congr_left fun c hc => (spellRust_eq_iff letters c).mpr (h.ascii c hc)

theorem content_eq_unlines (l : ValueList) : l.content = Rust.unlines l.entries := rfl

theorem apiKeyFile_inj {P : Paths} {l m : ValueList} :
    apiKeyFile P l = apiKeyFile P m ↔
      ApiArmor.safeFilename l.name = ApiArmor.safeFilename m.name := by
  unfold apiKeyFile
  constructor
  · intro h
    exact List.append_cancel_right (List.cons.inj (List.append_cancel_left h)).2
  · intro h
    rw [h]

/-- **A list of keys that shares its file with no other is in its file.** -/
theorem writeApiArmorApiKeys_file (P : Paths) {keyLists : List ValueList}
    (hnodup : (keyLists.map ValueList.name).Nodup) (files : Files) {l : ValueList}
    (hl : l ∈ keyLists) (hapart : ∀ m ∈ keyLists, l.name ≠ m.name → apiKeyFile P l ≠ apiKeyFile P m) :
    writeApiArmorApiKeys P keyLists files (apiKeyFile P l) = some l.content := by
  have hmem : (apiKeyFile P l, l.content) ∈ keyLists.map fun l => (apiKeyFile P l, l.content) :=
    List.mem_map_of_mem hl
  have hunique : ∀ v ∈ keyLists.map fun l => (apiKeyFile P l, l.content),
      v.1 = apiKeyFile P l → v = (apiKeyFile P l, l.content) := by
    intro v hv hkey
    obtain ⟨m, hm, rfl⟩ := List.mem_map.mp hv
    by_cases hname : l.name = m.name
    · rw [List.inj_on_of_nodup_map hnodup hl hm hname]
    · exact absurd hkey.symm (hapart m hm hname)
  have hwrites : writeApiArmorApiKeys P keyLists files =
      (files.writeAll (keyLists.map fun l => (apiKeyFile P l, l.content))).keep fun path =>
        !(inDirectory P.apiKeysDir path && ".lst".toList.isSuffixOf path) ||
          ((keyLists.map fun l => (apiKeyFile P l, l.content)).map Prod.fst).contains path := rfl
  rw [hwrites, Store.keep_of_kept, Store.read_writeAll, Store.lastWrite_of_unique hmem hunique]
  · rfl
  · rw [Bool.or_eq_true, List.contains_iff_mem]
    exact .inr (List.mem_map_of_mem hmem)

theorem resolveListPath_inj {P : Paths} {kind kind' : ListKind} {l m : ValueList} :
    resolveListPath P kind l = resolveListPath P kind' m ↔
      kind = kind' ∧ safeFilename l.name = safeFilename m.name := by
  have hname : ∀ l : ValueList, '/' ∉ safeFilename l.name ++ ".lst".toList := fun l =>
    noSlash_append (safeFilename_noSlash l.name) (by decide)
  unfold resolveListPath
  constructor
  · intro h
    obtain ⟨hdir, hfile⟩ := separator_inj (hname l) (hname m) h
    refine ⟨?_, List.append_cancel_right hfile⟩
    have hsubdir := (List.cons.inj (List.append_cancel_left hdir)).2
    revert hsubdir
    cases kind <;> cases kind' <;> decide
  · rintro ⟨rfl, h⟩
    rw [h]

theorem resolveListPath_last (P : Paths) (kind : ListKind) (l : ValueList) :
    (resolveListPath P kind l).getLast? = some 't' := by
  have hfile : resolveListPath P kind l =
      (P.listsDir kind ++ '/' :: safeFilename l.name) ++ ".lst".toList := by
    unfold resolveListPath
    rw [List.append_assoc, List.cons_append]
  rw [hfile, List.getLast?_append_of_ne_nil _ (by decide)]
  decide

theorem mem_securityListFiles_iff {P : Paths} {lists : ListKind → List ValueList}
    {c : Text × Text} : c ∈ securityListFiles P lists ↔
      ∃ kind, ∃ l ∈ lists kind, c = (resolveListPath P kind l, l.content) := by
  unfold securityListFiles
  rw [List.mem_flatMap]
  constructor
  · rintro ⟨kind, -, hc⟩
    obtain ⟨l, hl, rfl⟩ := List.mem_map.mp hc
    exact ⟨kind, l, hl, rfl⟩
  · rintro ⟨kind, l, hl, rfl⟩
    exact ⟨kind, mem_listKinds kind, List.mem_map_of_mem hl⟩

/-- **A security list that shares its file with no other is in its file.** -/
theorem writeSecurityListFiles_file (P : Paths) {lists : ListKind → List ValueList}
    {kind : ListKind} (hnodup : ((lists kind).map ValueList.name).Nodup) (files : Files)
    {l : ValueList} (hl : l ∈ lists kind) (hapart : ∀ m ∈ lists kind, l.name ≠ m.name →
      resolveListPath P kind l ≠ resolveListPath P kind m) :
    writeSecurityListFiles P lists files (resolveListPath P kind l) = some l.content := by
  have hmem : (resolveListPath P kind l, l.content) ∈ securityListFiles P lists :=
    mem_securityListFiles_iff.mpr ⟨kind, l, hl, rfl⟩
  have hlast := resolveListPath_last P kind l
  have hunique : ∀ v ∈ (securityListFiles P lists).flatMap fun c =>
      [c, (c.1 ++ ".applied".toList, c.2)], v.1 = resolveListPath P kind l →
        v = (resolveListPath P kind l, l.content) := by
    intro v hv hkey
    obtain ⟨c, hc, hv⟩ := List.mem_flatMap.mp hv
    obtain ⟨kind', m, hm, rfl⟩ := mem_securityListFiles_iff.mp hc
    rcases List.mem_pair.mp hv with rfl | rfl
    · obtain ⟨rfl, -⟩ := resolveListPath_inj.mp hkey
      by_cases hname : l.name = m.name
      · rw [List.inj_on_of_nodup_map hnodup hl hm hname]
      · exact absurd hkey.symm (hapart m hm hname)
    · -- applied copies are other files
      have hsuffix := applied_notSuffix hlast (by decide)
      rw [← hkey] at hsuffix
      rw [List.isSuffixOf_iff_suffix.mpr (List.suffix_append _ _)] at hsuffix
      cases hsuffix
  have hwritten : ((securityListFiles P lists).map Prod.fst).contains (resolveListPath P kind l) =
      true := List.contains_iff_mem.mpr (List.mem_map_of_mem hmem)
  have hfresh : ∀ files', ¬ staleList P ((securityListFiles P lists).map Prod.fst) files'
      (resolveListPath P kind l) = true := by
    intro files' hstale
    unfold staleList at hstale
    rw [hwritten] at hstale
    simp at hstale
  have hwrite : (resolveListPath P kind l, l.content) ∈ (securityListFiles P lists).flatMap
      fun c => [c, (c.1 ++ ".applied".toList, c.2)] :=
    List.mem_flatMap.mpr ⟨_, hmem, List.mem_cons_self⟩
  have hwrites := Store.lastWrite_of_unique hwrite hunique
  dsimp only at hwrites
  unfold writeSecurityListFiles removeStaleLists
  rw [if_neg, Store.read_writeAll, hwrites]
  · rfl
  · rintro (hstale | ⟨hsuffix, -⟩)
    · exact hfresh _ hstale
    · rw [applied_notSuffix hlast (by decide)] at hsuffix
      cases hsuffix

/-! ### After an apply -/

section

variable {ρ : Type} (S : Settings) (G : Generators ρ) (now : DateTime) (db : Db ρ) (files : Files)

variable {S G now db files}

/-- The files of key lists after the writers have run. -/
theorem beforeValidation_apiKeys {l : ValueList} (hl : l ∈ db.apiKeyLists)
    (hnodup : (db.apiKeyLists.map ValueList.name).Nodup)
    (hapart : ∀ m ∈ db.apiKeyLists, l.name ≠ m.name →
      apiKeyFile S.toPaths l ≠ apiKeyFile S.toPaths m) :
    beforeValidation S G now db files (apiKeyFile S.toPaths l) = some l.content := by
  have hmem : (S.apiArmorRegion, writeApiArmorFiles S.toPaths G now db) ∈ writers S G now db := by
    simp [writers]
  have hdir : S.apiKeysDir ∈ S.apiArmorRegion.directories :=
    List.mem_cons_of_mem _ (List.mem_singleton_self _)
  have hname : '/' ∉ ApiArmor.safeFilename l.name ++ ".lst".toList :=
    noSlash_append (armorFilename_noSlash l.name) (by decide)
  have hholds : S.apiArmorRegion.holds (apiKeyFile S.toPaths l) = true :=
    Region.holds_below hdir hname
  rw [beforeValidation_alone now db files hmem hholds]
  unfold writeApiArmorFiles
  dsimp only
  rw [Store.writeAll_other, writeApiArmorApiKeys_file S.toPaths hnodup _ hl hapart]
  -- the policies and the profiles are beside the directory of the keys
  have hin : inDirectory S.apiKeysDir (apiKeyFile S.toPaths l) = true :=
    inDirectory_iff.mpr ⟨_, rfl, hname⟩
  intro w hw heq
  rcases List.mem_pair.mp hw with rfl | rfl
  · rw [← heq] at hin
    exact absurd hin (by rw [Paths.apiKeysDir, inDirectory_beside (by decide)]; exact Bool.false_ne_true)
  · rw [← heq] at hin
    exact absurd hin (by rw [Paths.apiKeysDir, inDirectory_beside (by decide)]; exact Bool.false_ne_true)

/-- And the files of security lists. -/
theorem beforeValidation_securityLists {kind : ListKind} {l : ValueList} (hl : l ∈ db.lists kind)
    (hnodup : ((db.lists kind).map ValueList.name).Nodup)
    (hapart : ∀ m ∈ db.lists kind, l.name ≠ m.name →
      resolveListPath S.toPaths kind l ≠ resolveListPath S.toPaths kind m) :
    beforeValidation S G now db files (resolveListPath S.toPaths kind l) = some l.content := by
  have hname : '/' ∉ safeFilename l.name ++ ".lst".toList :=
    noSlash_append (safeFilename_noSlash l.name) (by decide)
  have hholds : S.listsRegion.holds (resolveListPath S.toPaths kind l) = true :=
    Region.holds_below (listsRegion_directory S.toPaths kind) hname
  rw [beforeValidation_alone now db files List.mem_cons_self hholds]
  exact writeSecurityListFiles_file S.toPaths hnodup files hl hapart

theorem reads_iff {path : Text} {l : ValueList} (h : files path = some l.content) :
    readsEntries files path = some l.entries ↔ ∀ v ∈ l.entries, Rust.IsLine v := by
  unfold readsEntries
  rw [h, Option.map_some, Option.some.injEq, content_eq_unlines, Rust.lines_unlines_iff]

end

/-- **When every list is read back**, after an apply. -/
theorem listsReadBack_iff {ρ : Type} (S : Settings) (G : Generators ρ) (now : DateTime) (db : Db ρ)
    (files : Files) (letters : Char → Bool) (hkeys : (db.apiKeyLists.map ValueList.name).Nodup)
    (hlists : ∀ kind, ((db.lists kind).map ValueList.name).Nodup) :
    ListsReadBack S.toPaths letters db.apiKeyLists db.lists
        (beforeValidation S G now db files) ↔
      NamesKeptApart letters db.apiKeyLists db.lists := by
  have hsame : ∀ l : ValueList, apiKeyFileRead S.toPaths letters l = apiKeyFile S.toPaths l ↔
      PlainName letters l.name := by
    intro l
    rw [← safeName_eq_iff]
    unfold apiKeyFileRead apiKeyFile
    constructor
    · exact fun h => List.append_cancel_right (List.cons.inj (List.append_cancel_left h)).2
    · exact fun h => by rw [h]
  constructor
  · intro h
    have hplain : ∀ l ∈ db.apiKeyLists, PlainName letters l.name := fun l hl =>
      (hsame l).mp (h.keysNamed l hl)
    refine ⟨hplain, ?_, ?_, ?_, ?_⟩
    · intro l hl m hm hne heq
      refine h.keysApart l hl m hm hne (apiKeyFile_inj.mpr ?_)
      rw [(hplain l hl).safeFilename, (hplain m hm).safeFilename, heq]
    · intro l hl
      have hread := h.keys l hl
      rw [h.keysNamed l hl] at hread
      exact (reads_iff (beforeValidation_apiKeys hl hkeys (h.keysApart l hl))).mp hread
    · intro kind l hl m hm hne heq
      exact h.securityApart kind l hl m hm hne (resolveListPath_inj.mpr ⟨rfl, heq⟩)
    · intro kind l hl
      exact (reads_iff (beforeValidation_securityLists hl (hlists kind)
        (h.securityApart kind l hl))).mp (h.security kind l hl)
  · intro h
    have hkeysApart : ∀ l ∈ db.apiKeyLists, ∀ m ∈ db.apiKeyLists, l.name ≠ m.name →
        apiKeyFile S.toPaths l ≠ apiKeyFile S.toPaths m := by
      intro l hl m hm hne heq
      refine h.keys l hl m hm hne ?_
      rw [← (h.plain l hl).safeFilename, ← (h.plain m hm).safeFilename]
      exact apiKeyFile_inj.mp heq
    have hsecurityApart : ∀ kind, ∀ l ∈ db.lists kind, ∀ m ∈ db.lists kind, l.name ≠ m.name →
        resolveListPath S.toPaths kind l ≠ resolveListPath S.toPaths kind m := by
      intro kind l hl m hm hne heq
      exact h.security kind l hl m hm hne (resolveListPath_inj.mp heq).2
    refine ⟨?_, fun l hl => (hsame l).mpr (h.plain l hl), hkeysApart, ?_, hsecurityApart⟩
    · intro l hl
      rw [(hsame l).mpr (h.plain l hl)]
      exact (reads_iff (beforeValidation_apiKeys hl hkeys (hkeysApart l hl))).mpr (h.keyLines l hl)
    · intro kind l hl
      exact (reads_iff (beforeValidation_securityLists hl (hlists kind)
        (hsecurityApart kind l hl))).mpr (h.securityLines kind l hl)

/-- A database of two key lists, and no security list. -/
def twoKeyLists (a b : Text) : Db Unit :=
  ⟨fun _ => [], [], [⟨a, ["k".toList]⟩, ⟨b, []⟩], ()⟩

/-- **Two lists, one file**: the list `a b` is accepted, and so is `a_b`. -/
theorem differentLists_oneFile : ¬ ∀ (S : Settings) (G : Generators Unit) (now : DateTime)
    (db : Db Unit) (files : Files) (letters : Char → Bool),
    (db.apiKeyLists.map ValueList.name).Nodup →
      (∀ kind, ((db.lists kind).map ValueList.name).Nodup) →
        ListsReadBack S.toPaths letters db.apiKeyLists db.lists
          (beforeValidation S G now db files) := by
  intro hall
  have hback := hall defaultSettings refusing newYear (twoKeyLists "a b".toList "a_b".toList)
    (fun _ => none) (fun _ => false) (by decide) fun _ => List.nodup_nil
  refine hback.keysApart _ List.mem_cons_self _ (List.mem_cons_of_mem _ List.mem_cons_self)
    (by decide) ?_
  exact apiKeyFile_inj.mpr (by decide)

/-- Two plain names. -/
theorem listsReadBack_iff_plain :
    ListsReadBack defaultSettings.toPaths (fun _ => false)
        (twoKeyLists "a".toList "b".toList).apiKeyLists (twoKeyLists "a".toList "b".toList).lists
        (beforeValidation defaultSettings refusing newYear (twoKeyLists "a".toList "b".toList)
          fun _ => none) ↔
      NamesKeptApart (fun _ => false) (twoKeyLists "a".toList "b".toList).apiKeyLists
        (twoKeyLists "a".toList "b".toList).lists :=
  listsReadBack_iff defaultSettings refusing newYear _ (fun _ => none) (fun _ => false) (by decide)
    fun _ => List.nodup_nil

end CorexManager.Apply
