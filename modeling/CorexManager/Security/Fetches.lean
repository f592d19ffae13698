import CorexManager.Security.Meaning

/-!
# The fetches of resolved fields

A field that resolves, and whose key and database paths can be pasted, resolves to
the text of one fetch, and the samples of that fetch are the samples of the field
(`static_fetch`, `risk_fetch`).  What has to be known of the tables is checked over
the tables.
-/

namespace CorexManager.Security

open Data
open Expression
open HAProxy

/-! ### The tables -/

/-- A fetch that is one bare word, and not the marker of query parameters. -/
def plainFetch (t : Text) : Bool :=
  !t.isEmpty && t.all bare && t != ['}'] && t != queryParam && derivedFetch t == (t, none)

/-- What the proofs need of an entry of `_FIELD_MAP`. -/
def entryOk (spec : FieldSpec) : Bool :=
  match spec.template with
  | .fetch t => plainFetch t && (t != "method".toList || spec.type == .string)
  | .geoDb record => record.all bare
  | .asnDb record => record.all bare

/-- A plain fetch of the table, on its characters. -/
private def plainEntry (t : Text) (type : FieldType) : Bool :=
  plainFetch t && (t != ['m', 'e', 't', 'h', 'o', 'd'] || type == .string)

private theorem entryOk_onRequest {t : Text} {type : FieldType} (h : plainEntry t type = true) :
    entryOk (onRequest (String.ofList t) type) = true := by
  unfold onRequest entryOk
  dsimp only
  rw [String.toList_ofList, toList_of_eq (s := "method") rfl]
  exact h

private theorem entryOk_onResponse {t : Text} {type : FieldType}
    (h : plainEntry t type = true) : entryOk (onResponse (String.ofList t) type) = true := by
  unfold onResponse entryOk
  dsimp only
  rw [String.toList_ofList, toList_of_eq (s := "method") rfl]
  exact h

private theorem entryOk_onGeo {record : Text} {type : FieldType}
    (h : record.all bare = true) : entryOk (onGeo (String.ofList record) type) = true := by
  unfold onGeo entryOk
  dsimp only
  rw [String.toList_ofList]
  exact h

theorem fieldMap_ok : (fieldMap.all fun e => entryOk e.2) = true := by
  unfold fieldMap
  simp only [List.all_cons, List.all_nil, Bool.and_true, Bool.and_eq_true]
  repeat' apply And.intro
  all_goals first
    | exact entryOk_onRequest (by decide)
    | exact entryOk_onResponse (by decide)
    | exact entryOk_onGeo (by decide)
    | decide

theorem boolFields_ok : (boolFields.all fun e =>
    plainFetch e.2.toList && e.2.toList != "method".toList) = true := by
  decide +kernel

/-- The fetches of the Lua module: a name, and quoted arguments. -/
def luaFetchOk (t : Text) : Bool :=
  t.all (fun c => c == '"' || bareOrDollar c) && !quoteMode false t &&
    (fetchWord t).head? == some 's' && derivedFetch (fetchWord t) == (fetchWord t, none)

private theorem luaFetchOk_ofList {t : Text} (h : luaFetchOk t = true) :
    luaFetchOk (String.ofList t).toList = true := by
  rwa [String.toList_ofList]

set_option maxRecDepth 2000 in
theorem geoipLuaFields_ok : (geoipLuaFields.all fun e => luaFetchOk e.2.toList) = true := by
  unfold geoipLuaFields
  simp only [List.all_cons, List.all_nil, Bool.and_true, Bool.and_eq_true]
  repeat' apply And.intro
  all_goals exact luaFetchOk_ofList (by decide)

theorem tableGet_mem {α : Type*} {table : List (String × α)} {key : Text} {a : α}
    (h : tableGet table key = some a) : ∃ e ∈ table, e.2 = a := by
  obtain ⟨e, he, rfl⟩ := Option.map_eq_some_iff.mp h
  exact ⟨e, List.mem_of_find?_eq_some he, rfl⟩

/-! ### Fetches as texts -/

/-- What the translator relies on in a resolved field. -/
structure Pastes (r : Resolved) : Prop where
  text : FetchText r.fetch (fetchWord r.fetch)
  notQuery : r.fetch ≠ queryParam
  method : r.fetch = "method".toList → r.type = .string

theorem fetchWord_eq {t : Text} (h : ∀ c ∈ t, bare c = true) : fetchWord t = t := by
  refine List.filter_eq_self.mpr fun c hc => ?_
  have hbare := h c hc
  simp only [bne_iff_ne, ne_eq]
  rintro rfl
  simp [bare] at hbare

theorem fetchText_bare {t : Text} (hne : t ≠ []) (hbare : ∀ c ∈ t, bare c = true)
    (hbrace : t ≠ ['}']) (hplain : derivedFetch t = (t, none)) :
    FetchText t (fetchWord t) := by
  rw [fetchWord_eq hbare]
  exact ⟨(piece_bare hne hbare).reads, hplain, hne, hbrace⟩

theorem plainFetch_spec {t : Text} (h : plainFetch t = true) :
    FetchText t (fetchWord t) ∧ t ≠ queryParam := by
  simp only [plainFetch, Bool.and_eq_true, Bool.not_eq_true', List.isEmpty_eq_false_iff,
    List.all_eq_true, bne_iff_ne, ne_eq, beq_iff_eq] at h
  obtain ⟨⟨⟨⟨hne, hbare⟩, hbrace⟩, hquery⟩, hplain⟩ := h
  exact ⟨fetchText_bare hne hbare hbrace hplain, hquery⟩

/-- A name applied to an argument, all bare. -/
theorem fetchText_call {name args : Text} (hname : ∀ c ∈ name, bare c = true)
    (hparen : '(' ∉ name) (hplain : derivedFetch name = (name, none))
    (hargs : ∀ c ∈ args, bare c = true) :
    FetchText (name ++ '(' :: args) (fetchWord (name ++ '(' :: args)) := by
  refine fetchText_bare (by simp) ?_ ?_ (derivedFetch_call hparen hplain args)
  · intro c hc
    rcases List.mem_append.mp hc with hc | hc
    · exact hname c hc
    · rcases List.mem_cons.mp hc with rfl | hc
      · decide
      · exact hargs c hc
  · intro heq
    have hmem : '(' ∈ ['}'] := by rw [← heq]; simp
    simp at hmem

/-! ### Keys -/

theorem keyChar_bare {c : Char} (h : keyChar c = true) : bare c = true := by
  simp only [bare, Bool.not_eq_true', Bool.or_eq_false_iff, beq_eq_false_iff_ne, ne_eq]
  refine ⟨⟨⟨⟨⟨⟨⟨?_, ?_⟩, ?_⟩, ?_⟩, ?_⟩, ?_⟩, ?_⟩, ?_⟩ <;>
    · rintro rfl
      exact absurd h (by decide)

theorem keyChar_ascii {c : Char} (h : keyChar c = true) : c.toNat < 128 := by
  simp only [keyChar, Bool.or_eq_true, beq_iff_eq] at h
  rcases h with (h | rfl) | rfl
  · exact isAlphanum_ascii h
  · decide
  · decide

theorem keyChar_toLower {c : Char} (h : keyChar c = true) :
    keyChar c.toLower = true :=
  ascii_forall (P := fun c => keyChar c = true → keyChar c.toLower = true) (by decide)
    c (keyChar_ascii h) h

/-- A key of plain characters is only lower-cased. -/
theorem quotedKey_eq (U : Python.UnicodeTables) {key : Text} (hne : key ≠ [])
    (h : ∀ c ∈ key, keyChar c = true) :
    haproxyQuotedKey U key = key.map Char.toLower := by
  have hfilter : key.filter keyChar = key := List.filter_eq_self.mpr h
  rw [haproxyQuotedKey, hfilter, if_neg hne]

/-- A fetch with an argument. -/
theorem pastes_call (name : Text) {args : Text} (phase : Phase) (type : FieldType)
    (hname : ∀ c ∈ name, bare c = true) (hparen : '(' ∉ name)
    (hplain : derivedFetch name = (name, none)) (hquery : name.head? ≠ some '_')
    (hargs : ∀ c ∈ args, bare c = true) :
    Pastes ⟨name ++ '(' :: (args ++ [')']), phase, type, none⟩ ∧
      fetchWord (name ++ '(' :: (args ++ [')'])) = name ++ '(' :: (args ++ [')']) := by
  have hclosed : ∀ c ∈ args ++ [')'], bare c = true := by
    intro c hc
    rcases List.mem_append.mp hc with hc | hc
    · exact hargs c hc
    · rw [List.mem_singleton.mp hc]; decide
  refine ⟨⟨fetchText_call hname hparen hplain hclosed, ?_, ?_⟩, fetchWord_eq ?_⟩
  · intro heq
    cases name with
    | nil => cases congrArg List.head? heq
    | cons c name => exact hquery (congrArg List.head? heq)
  · intro heq
    have hmem : '(' ∈ "method".toList := by rw [← heq]; simp
    exact absurd hmem (by decide)
  · intro c hc
    rcases List.mem_append.mp hc with hc | hc
    · exact hname c hc
    · rcases List.mem_cons.mp hc with rfl | hc
      · decide
      · exact hclosed c hc

/-- The fetch of the Lua module reads as one word, without the quotes. -/
theorem pastes_lua {t : Text} (h : luaFetchOk t = true) {phase : Phase} :
    Pastes ⟨t, phase, .string, none⟩ := by
  simp only [luaFetchOk, Bool.and_eq_true, Bool.not_eq_true', List.all_eq_true,
    Bool.or_eq_true, beq_iff_eq] at h
  obtain ⟨⟨⟨hchars, hpair⟩, hhead⟩, hplain⟩ := h
  have hne : t ≠ [] := by
    rintro rfl
    cases hhead
  refine ⟨⟨(piece_quotes hne hchars hpair).reads, hplain, ?_, ?_⟩, ?_, fun _ => rfl⟩
  · intro heq
    rw [heq] at hhead
    cases hhead
  · intro heq
    rw [heq] at hhead
    exact absurd hhead (by decide)
  · rintro rfl
    exact absurd hhead (by decide)

private theorem pastes_geoip2 {db record : Text} (hdb : plainPath db)
    (hrecord : record.all bare = true) (phase : Phase) (type : FieldType) :
    Pastes ⟨geoip2Fetch db record, phase, type, none⟩ := by
  have hargs : ∀ c ∈ db ++ ',' :: record, bare c = true := by
    intro c hc
    rcases List.mem_append.mp hc with hc | hc
    · exact hdb c hc
    · rcases List.mem_cons.mp hc with rfl | hc
      · decide
      · exact List.all_eq_true.mp hrecord c hc
  have hplain : derivedFetch "src,geoip2".toList = ("src,geoip2".toList, none) := by
    decide +kernel
  have hcall := (pastes_call "src,geoip2".toList phase type (by decide) (by decide) hplain
    (by decide) hargs).1
  have htext : geoip2Fetch db record
      = "src,geoip2".toList ++ '(' :: (db ++ ',' :: record ++ [')']) := by
    unfold geoip2Fetch
    simp
  rw [htext]
  exact hcall

private theorem pastes_mapIp {map : Text} (hmap : plainPath map) (phase : Phase)
    (type : FieldType) : Pastes ⟨mapIpFetch map, phase, type, none⟩ := by
  have hplain : derivedFetch "src,map_ip".toList = ("src,map_ip".toList, none) := by
    decide +kernel
  have hcall := (pastes_call "src,map_ip".toList phase type (by decide) (by decide) hplain
    (by decide) hmap).1
  have htext : mapIpFetch map = "src,map_ip".toList ++ '(' :: (map ++ [')']) := by
    unfold mapIpFetch
    simp
  rw [htext]
  exact hcall

/-- Each of the three tiers of a GeoIP field. -/
private theorem pastes_geoip {env : Env} (hpaths : env.PlainPaths) {field db record : Text}
    {spec : FieldSpec} {exists? : Bool} {e : TranslateError} {r : Resolved}
    (hdb : plainPath db) (hrecord : record.all bare = true)
    (h : resolveGeoip env field spec (geoip2Fetch db record) exists? e = .ok r) : Pastes r := by
  unfold resolveGeoip at h
  split at h
  · next fetch hfetch =>
      cases h
      split at hfetch
      · obtain ⟨entry, hentry, rfl⟩ := tableGet_mem hfetch
        have hok := List.all_eq_true.mp geoipLuaFields_ok entry hentry
        exact pastes_lua hok
      · cases hfetch
  · split at h
    · split at h
      · cases h
        exact pastes_geoip2 hdb hrecord spec.phase spec.type
      · cases h
    · split at h
      · cases h
        exact pastes_mapIp hpaths.countryMap spec.phase spec.type
      · split at h
        · cases h
          exact pastes_mapIp hpaths.asnMap spec.phase spec.type
        · cases h

/-- **Every field of the tables** resolves to a fetch that can be pasted. -/
theorem pastes_table {env : Env} (hpaths : env.PlainPaths) {field : Text} {r : Resolved}
    (hbracket : bracketMatch env.unicode field = none) (hr : resolveField env field = .ok r) :
    Pastes r := by
  unfold resolveField at hr
  rw [hbracket] at hr
  dsimp only at hr
  split at hr
  · next spec hspec =>
      obtain ⟨entry, hentry, rfl⟩ := tableGet_mem hspec
      have hok := List.all_eq_true.mp fieldMap_ok entry hentry
      unfold entryOk at hok
      split at hr
      · next fetch htemplate =>
          rw [htemplate] at hok
          simp only [Bool.and_eq_true, Bool.or_eq_true, bne_iff_ne, ne_eq, beq_iff_eq] at hok
          cases hr
          exact ⟨(plainFetch_spec hok.1).1, (plainFetch_spec hok.1).2,
            fun h => hok.2.resolve_left (fun hne => hne h)⟩
      · next record htemplate =>
          rw [htemplate] at hok
          exact pastes_geoip hpaths hpaths.geoDb hok hr
      · next record htemplate =>
          rw [htemplate] at hok
          exact pastes_geoip hpaths hpaths.asnDb hok hr
  · split at hr
    · next fetch hfetch =>
        obtain ⟨entry, hentry, rfl⟩ := tableGet_mem hfetch
        have hok := List.all_eq_true.mp boolFields_ok entry hentry
        simp only [Bool.and_eq_true, bne_iff_ne, ne_eq] at hok
        cases hr
        exact ⟨(plainFetch_spec hok.1).1, (plainFetch_spec hok.1).2,
          fun h => absurd h hok.2⟩
    · cases hr

/-! ### The fields with a truth value -/

/-- The fetch the static tables give a field without a database, and its type. -/
def staticFetch (field : Text) : Option (Text × FieldType) :=
  match tableGet fieldMap field with
  | some spec =>
      match spec.template with
      | .fetch fetch => some (fetch, spec.type)
      | _ => none
  | none => (tableGet boolFields field).map fun fetch => (fetch.toList, .bool)

/-- No attribute of a ruleset ends the name. -/
def notRisk (field : Text) : Bool :=
  ["score", "rules_hit", "rules_hit_count", "hit_density"].all fun attr =>
    riskSlug attr field == none

theorem resolveRisk_none {env : Env} {field : Text} (h : notRisk field = true) :
    resolveRiskRulesetField env field = .ok none := by
  simp only [notRisk, List.all_cons, List.all_nil, Bool.and_eq_true, beq_iff_eq] at h
  obtain ⟨h₁, h₂, h₃, h₄, -⟩ := h
  simp only [resolveRiskRulesetField, h₁, h₂, h₃, h₄]

/-- What the proofs need of a field with a truth value: it is stored the way
`_bool_fetch_cond` tests it. -/
def truthOk (field : Text) : Bool :=
  !field.contains '[' && notRisk field && field != "http.request.scheme".toList &&
  match staticFetch field with
  | none => false
  | some (fetch, _) =>
      if "var(".toList.isPrefixOf fetch then
        ("graphql.".toList.isPrefixOf field || "api.".toList.isPrefixOf field ||
          "auth.valid".toList.isPrefixOf field) == !textBooleans.contains field
      else fetch == "ssl_fc".toList && !textBooleans.contains field

/-- `staticFetch` over tables whose keys are spelt. -/
private def staticIn (fields : List (Text × FieldSpec)) (bools : List (Text × String))
    (field : Text) : Option (Text × FieldType) :=
  match (fields.find? fun e => e.1 == field).map Prod.snd with
  | some spec =>
      match spec.template with
      | .fetch fetch => some (fetch, spec.type)
      | _ => none
  | none =>
      ((bools.find? fun e => e.1 == field).map Prod.snd).map fun fetch => (fetch.toList, .bool)

private theorem staticFetch_eq {fields : List (Text × FieldSpec)} {bools : List (Text × String)}
    (hfields : SpeltKeys fieldMap fields) (hbools : SpeltKeys boolFields bools) :
    staticFetch = staticIn fields bools := by
  funext field
  unfold staticFetch staticIn tableGet
  rw [hfields.find?, hbools.find?]

/-- `truthOk` of a field whose static fetch is known. -/
private def truthOkOf (field : Text) (static : Option (Text × FieldType)) : Bool :=
  !field.contains '[' && notRisk field && field != "http.request.scheme".toList &&
  match static with
  | none => false
  | some (fetch, _) =>
      if "var(".toList.isPrefixOf fetch then
        ("graphql.".toList.isPrefixOf field || "api.".toList.isPrefixOf field ||
          "auth.valid".toList.isPrefixOf field) == !textBooleans.contains field
      else fetch == "ssl_fc".toList && !textBooleans.contains field

/-- What is used of single fields of the tables, on the spelt keys. -/
private def StaticFacts (static : Text → Option (Text × FieldType)) (fields : List Text) : Prop :=
  (fields.all fun field => truthOkOf field (static field)) = true ∧
    static "http.request.scheme".toList = some ("ssl_fc".toList, .bool) ∧
    static "http.request.ja4".toList = some ("lua.ja4_fp".toList, .ja4) ∧
    static "ip.src".toList = some ("src".toList, .ip)

private instance (static : Text → Option (Text × FieldType)) (fields : List Text) :
    Decidable (StaticFacts static fields) := instDecidableAnd

private theorem staticFacts_of {fields : List (Text × FieldSpec)} {bools : List (Text × String)}
    {truths : List Text} (hfields : SpeltKeys fieldMap fields)
    (hbools : SpeltKeys boolFields bools) (htruths : SpeltList truthFields truths)
    (h : StaticFacts (staticIn fields bools) truths) : StaticFacts staticFetch truthFields := by
  rw [staticFetch_eq hfields hbools, htruths.eq]
  exact h

private theorem staticFacts : StaticFacts staticFetch truthFields := by
  apply staticFacts_of
  case hfields =>
    unfold fieldMap
    repeat' first | exact SpeltKeys.nil | apply SpeltKeys.cons
  case hbools =>
    unfold boolFields
    repeat' first | exact SpeltKeys.nil | apply SpeltKeys.cons
  case htruths =>
    unfold truthFields
    repeat' first | exact SpeltList.nil | apply SpeltList.cons
  case h => decide

theorem truthFields_ok : truthFields.all truthOk = true := staticFacts.1

theorem scheme_notRisk : notRisk "http.request.scheme".toList = true := by
  rw [toList_of_eq (s := "http.request.scheme") rfl]
  decide

theorem scheme_fetch :
    staticFetch "http.request.scheme".toList = some ("ssl_fc".toList, .bool) :=
  staticFacts.2.1

theorem ja4_fetch :
    staticFetch "http.request.ja4".toList = some ("lua.ja4_fp".toList, .ja4) :=
  staticFacts.2.2.1

theorem src_fetch : staticFetch "ip.src".toList = some ("src".toList, .ip) :=
  staticFacts.2.2.2

/-- A field without a database resolves to its fetch. -/
theorem resolve_staticFetch {env : Env} {field fetch : Text} {type : FieldType} {r : Resolved}
    (hbracket : bracketMatch env.unicode field = none)
    (hstatic : staticFetch field = some (fetch, type)) (hr : resolveField env field = .ok r) :
    r.fetch = fetch ∧ r.type = type := by
  unfold staticFetch at hstatic
  unfold resolveField at hr
  rw [hbracket] at hr
  dsimp only at hr
  split at hstatic
  · next spec hspec =>
      rw [hspec] at hr
      dsimp only at hr
      split at hstatic
      · next t htemplate =>
          cases hstatic
          rw [htemplate] at hr
          cases hr
          exact ⟨rfl, rfl⟩
      · cases hstatic
  · next hnone =>
      rw [hnone] at hr
      dsimp only at hr
      obtain ⟨name, hname, heq⟩ := Option.map_eq_some_iff.mp hstatic
      cases heq
      rw [hname] at hr
      cases hr
      exact ⟨rfl, rfl⟩

end CorexManager.Security
