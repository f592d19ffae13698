import CorexManager.Security.Conditions

/-!
# The translation of an expression is correct

On the leaves `Faithful` lists, the text of a leaf tests the meaning of the leaf
(`tests_leaf`); groups and alternatives follow the normal form, and the condition
holds of a request exactly when the expression does (`translate_correct`).
-/

namespace CorexManager.Security

open Data
open Expression
open HAProxy

variable {env : Env} {v : View}

/-! ### Resolution -/

/-- A field without a bracket has no key. -/
theorem bracketMatch_none (U : Python.UnicodeTables) {field : Text} (h : '[' ∉ field) :
    bracketMatch U field = none := by
  unfold bracketMatch
  dsimp only
  split
  · next rest hdrop =>
      have hmem : '[' ∈ field.drop (field.takeWhile fun c =>
          U.alnum c || c == '_' || c == '.').length := by rw [hdrop]; simp
      exact absurd (List.mem_of_mem_drop hmem) h
  · rfl

/-- The keys the two clauses of `plainKey` admit. -/
private theorem plainKey_cases {base key : Text} (h : plainKey base key = true) :
    key ≠ [] ∧ (∀ c ∈ key, keyChar c = true) ∧
      ((base = "http.request.headers".toList ∨ base = "http.response.headers".toList) ∨
        (base = "http.request.cookies".toList ∨ base = "auth.claim".toList) ∧
          key.map Char.toLower = key) := by
  unfold plainKey at h
  split at h
  · next hbase =>
      simp only [Bool.and_eq_true, decide_eq_true_eq, List.all_eq_true] at h
      exact ⟨h.1, h.2, .inl hbase⟩
  · split at h
    · next hbase =>
        simp only [Bool.and_eq_true, decide_eq_true_eq, List.all_eq_true, beq_iff_eq] at h
        refine ⟨h.1, fun c hc => (h.2 c hc).1, .inr ⟨hbase, ?_⟩⟩
        have hlower : ∀ c ∈ key, c.toLower = id c := fun c hc => (h.2 c hc).2
        rw [List.map_congr_left hlower, List.map_id]
    · cases h

/-- **A keyed field** resolves to a fetch of what carries that key. -/
private theorem bracket_fetch (hdoc : Documented env v) {base key : Text} {r : Resolved}
    (hkey : plainKey base key = true) (hr : resolveBracket env base key = .ok r) :
    Pastes r ∧ v.samples (fetchWord r.fetch) = keyedSamples v base key := by
  obtain ⟨hne, hchars, hbase⟩ := plainKey_cases hkey
  have hquoted := quotedKey_eq env.unicode hne hchars
  have hbare : ∀ c ∈ key.map Char.toLower, bare c = true := by
    intro c hc
    obtain ⟨d, hd, rfl⟩ := List.mem_map.mp hc
    exact keyChar_bare (keyChar_toLower (hchars d hd))
  rcases hbase with (rfl | rfl) | ⟨rfl | rfl, hlower⟩
  · have hr' : r = ⟨"req.hdr".toList ++ '(' :: (key.map Char.toLower ++ [')']), .request,
        .string, none⟩ := by
      simpa [resolveBracket, hquoted] using hr.symm
    obtain ⟨hpastes, hword⟩ := pastes_call "req.hdr".toList .request .string
      (by decide) (by decide) (by decide) (by decide) hbare
    subst hr'
    refine ⟨hpastes, ?_⟩
    rw [hword]
    exact hdoc.requestHeader key
  · have hr' : r = ⟨"res.hdr".toList ++ '(' :: (key.map Char.toLower ++ [')']), .response,
        .string, none⟩ := by
      simpa [resolveBracket, hquoted] using hr.symm
    obtain ⟨hpastes, hword⟩ := pastes_call "res.hdr".toList .response .string
      (by decide) (by decide) (by decide) (by decide) hbare
    subst hr'
    refine ⟨hpastes, ?_⟩
    rw [hword]
    simpa [keyedSamples] using hdoc.responseHeader key
  · rw [hlower] at hquoted hbare
    have hr' : r = ⟨"req.cook".toList ++ '(' :: (key ++ [')']), .request, .string, none⟩ := by
      simpa [resolveBracket, hquoted] using hr.symm
    obtain ⟨hpastes, hword⟩ := pastes_call "req.cook".toList .request .string
      (by decide) (by decide) (by decide) (by decide) hbare
    subst hr'
    refine ⟨hpastes, ?_⟩
    rw [hword]
    simp [keyedSamples]
  · rw [hlower] at hquoted hbare
    have hr' : r = ⟨"var".toList ++ '(' :: (("txn.auth.claim_".toList ++ key) ++ [')']),
        .request, .string, none⟩ := by
      simpa [resolveBracket, hquoted] using hr.symm
    have hprefix : ∀ c ∈ "txn.auth.claim_".toList, bare c = true := by decide
    have hargs : ∀ c ∈ "txn.auth.claim_".toList ++ key, bare c = true := by
      intro c hc
      rcases List.mem_append.mp hc with hc | hc
      · exact hprefix c hc
      · exact hbare c hc
    obtain ⟨hpastes, hword⟩ := pastes_call "var".toList .request .string
      (by decide) (by decide) (by decide) (by decide) hargs
    subst hr'
    refine ⟨hpastes, ?_⟩
    rw [hword]
    simp [keyedSamples]

/-- **A plain field of the static tables**: its fetch can be pasted, and gives the
samples of the field. -/
theorem static_fetch (hdoc : Documented env v) (hpaths : env.PlainPaths) {field : Text}
    {r : Resolved} (hplain : plainField env field = true) (hrisk : riskField env field = false)
    (hr : resolveField env field = .ok r) :
    Pastes r ∧ v.samples (fetchWord r.fetch) = fieldSamples env v field := by
  unfold plainField at hplain
  cases hbracket : bracketMatch env.unicode field with
  | some bracket =>
      obtain ⟨base, key⟩ := bracket
      rw [hbracket] at hplain
      have hr' : resolveBracket env base key = .ok r := by
        simpa [resolveField, hbracket] using hr
      simpa [fieldSamples, hbracket] using bracket_fetch hdoc hplain hr'
  | none =>
      rw [hbracket] at hplain
      have hscheme : field ≠ "http.request.scheme".toList := by simpa using hplain
      have hnone : resolveRiskRulesetField env field = .ok none := by
        unfold riskField at hrisk
        split at hrisk
        · next heq => exact heq
        · cases hrisk
      refine ⟨pastes_table hpaths hbracket hr, ?_⟩
      simp only [fieldSamples, hbracket, tableFetch, hnone, hr, if_neg hscheme]

/-- The slug of a ruleset's field, and how the field is spelt. -/
private theorem riskSlug_spec {attr : String} {field slug : Text}
    (h : riskSlug attr field = some slug) :
    Python.chopLineEnd field = "risk.".toList ++ slug ++ '.' :: attr.toList ∧
      ∀ c ∈ slug, slugChar c = true := by
  unfold riskSlug at h
  dsimp only at h
  split at h
  · next hbody =>
      cases h
      exact ⟨hbody.1, fun c hc => List.mem_takeWhile_imp hc⟩
  · cases h

/-- A slug does not need quotes. -/
private theorem slugChar_bare {c : Char} (h : slugChar c = true) : bare c = true := by
  simp only [bare, Bool.not_eq_true', Bool.or_eq_false_iff, beq_eq_false_iff_ne, ne_eq]
  refine ⟨⟨⟨⟨⟨⟨⟨?_, ?_⟩, ?_⟩, ?_⟩, ?_⟩, ?_⟩, ?_⟩, ?_⟩ <;>
    · rintro rfl
      exact absurd h (by decide)

/-- The fetch of a ruleset's field with the attribute `attr`. -/
private theorem risk_fetch_attr {attr : String} {field slug : Text} (type : FieldType)
    (hattr : ∀ c ∈ attr.toList, bare c = true ∧ c ≠ '[')
    (hslug : riskSlug attr field = some slug) :
    Pastes ⟨"var(txn.risk.".toList ++ slug ++ '.' :: attr.toList ++ [')'], .request, type,
      none⟩ ∧ '[' ∉ field := by
  obtain ⟨hfield, hchars⟩ := riskSlug_spec hslug
  have hprefix : ∀ c ∈ "txn.risk.".toList, bare c = true := by decide
  have hargs : ∀ c ∈ "txn.risk.".toList ++ slug ++ '.' :: attr.toList, bare c = true := by
    intro c hc
    simp only [List.mem_append, List.mem_cons] at hc
    rcases hc with (hc | hc) | rfl | hc
    · exact hprefix c hc
    · exact slugChar_bare (hchars c hc)
    · decide
    · exact (hattr c hc).1
  have htext : "var(txn.risk.".toList ++ slug ++ '.' :: attr.toList ++ [')']
      = "var".toList ++ '(' :: ("txn.risk.".toList ++ slug ++ '.' :: attr.toList ++ [')']) := by
    simp
  have hpastes := (pastes_call "var".toList .request type (by decide) (by decide)
    (by decide) (by decide) hargs).1
  rw [htext]
  refine ⟨hpastes, fun hmem => ?_⟩
  have hbody := Python.mem_of_chopLineEnd hmem (by decide)
  rw [hfield] at hbody
  simp only [List.mem_append, List.mem_cons] at hbody
  rcases hbody with (hc | hc) | hc | hc
  · exact absurd hc (by decide)
  · exact absurd (hchars _ hc) (by decide)
  · exact absurd hc (by decide)
  · exact (hattr _ hc).2 rfl

/-- **A field of a risk ruleset**: its fetch can be pasted, and gives the samples of
the field. -/
theorem risk_fetch {field : Text} {r : Resolved} (hplain : plainField env field = true)
    (hr : resolveRiskRulesetField env field = .ok (some r)) :
    Pastes r ∧ v.samples (fetchWord r.fetch) = fieldSamples env v field := by
  have hpastes : Pastes r ∧ '[' ∉ field := by
    unfold resolveRiskRulesetField at hr
    dsimp only at hr
    split at hr
    · next slug hslug =>
        split at hr <;> cases hr
        exact risk_fetch_attr .int (by decide) hslug
    split at hr
    · next slug hslug =>
        split at hr <;> cases hr
        exact risk_fetch_attr .string (by decide) hslug
    split at hr
    · next slug hslug =>
        split at hr <;> cases hr
        exact risk_fetch_attr .int (by decide) hslug
    split at hr
    · next slug hslug =>
        split at hr <;> cases hr
        exact risk_fetch_attr .int (by decide) hslug
    · cases hr
  refine ⟨hpastes.1, ?_⟩
  have hbracket := bracketMatch_none env.unicode hpastes.2
  have hscheme : field ≠ "http.request.scheme".toList := by
    simpa [plainField, hbracket] using hplain
  simp only [fieldSamples, hbracket, tableFetch, hr, if_neg hscheme]

/-! ### Leaves -/

/-- A step of the translator that follows a resolution. -/
private theorem resolve_bind {α β : Type} {x : Except TranslateError α}
    {f : α → Except TranslateError β} {b : β} (h : x >>= f = .ok b) :
    ∃ a, x = .ok a ∧ f a = .ok b := by
  cases x with
  | error e => cases h
  | ok a => exact ⟨a, rfl, h⟩

/-- The fields with a truth value are not those of a ruleset. -/
private theorem truth_not_risk {field : Text} (hfield : field ∈ truthFields) :
    resolveRiskRulesetField env field = .ok none := by
  have hok := List.all_eq_true.mp truthFields_ok field hfield
  simp only [truthOk, Bool.and_eq_true] at hok
  exact resolveRisk_none hok.1.1.2

/-- The fetch of a field with a truth value. -/
private theorem truth_fetch (hdoc : Documented env v) (hpaths : env.PlainPaths) {field : Text}
    {r : Resolved} (hfield : field ∈ truthFields) (hr : resolveField env field = .ok r) :
    Pastes r ∧ v.samples (fetchWord r.fetch) = fieldSamples env v field ∧
      bracketMatch env.unicode field = none := by
  have hrisk : riskField env field = false := by
    rw [riskField, truth_not_risk hfield]
  have hok := List.all_eq_true.mp truthFields_ok field hfield
  simp only [truthOk, Bool.and_eq_true, Bool.not_eq_true', List.contains_eq_mem,
    decide_eq_false_iff_not, bne_iff_ne, ne_eq] at hok
  obtain ⟨⟨⟨hnot, -⟩, hscheme⟩, -⟩ := hok
  have hbracket := bracketMatch_none env.unicode hnot
  have hplain : plainField env field = true := by
    simpa [plainField, hbracket] using hscheme
  obtain ⟨hpastes, hsamples⟩ := static_fetch hdoc hpaths hplain hrisk hr
  exact ⟨hpastes, hsamples, hbracket⟩

/-- A field with a truth value is tested the way it is stored. -/
private theorem tests_truth (hdoc : Documented env v) (hpaths : env.PlainPaths) {field : Text}
    {r : Resolved} (hfield : field ∈ truthFields) (hr : resolveField env field = .ok r) :
    Tests v (boolFetchCond r.fetch field) ((fieldSamples env v field).any (isTrue field)) := by
  obtain ⟨hpastes, hsamples, hbracket⟩ := truth_fetch hdoc hpaths hfield hr
  have hok := List.all_eq_true.mp truthFields_ok field hfield
  simp only [truthOk, Bool.and_eq_true, List.contains_eq_mem] at hok
  have hstored := hok.2
  split at hstored
  · cases hstored
  · next fetch type hfetch =>
      obtain ⟨rfl, -⟩ := resolve_staticFetch hbracket hfetch hr
      rw [← hsamples]
      unfold boolFetchCond
      split at hstored
      · next hvar =>
          rw [if_pos hvar]
          split
          · next hreal =>
              have hreal' : ("graphql.".toList.isPrefixOf field || "api.".toList.isPrefixOf field
                  || "auth.valid".toList.isPrefixOf field) = true := by
                simpa only [Bool.or_eq_true, or_assoc] using hreal
              have hnotText : field ∉ textBooleans := by
                rw [hreal', beq_iff_eq] at hstored
                simpa only [Bool.true_eq, Bool.not_eq_true', decide_eq_false_iff_not] using hstored
              have htrue : isTrue field = Sample.truthy := by
                funext s
                rw [isTrue, if_neg hnotText]
              rw [htrue]
              exact tests_boolVar hpastes.text
          · next hreal =>
              have hreal' : ("graphql.".toList.isPrefixOf field || "api.".toList.isPrefixOf field
                  || "auth.valid".toList.isPrefixOf field) = false := by
                simpa only [Bool.or_eq_false_iff, not_or, Bool.not_eq_true, and_assoc] using hreal
              have htext : field ∈ textBooleans := by
                rw [hreal', beq_iff_eq] at hstored
                simpa only [Bool.false_eq, Bool.not_eq_false', decide_eq_true_eq] using hstored
              have htrue : isTrue field = fun s => ['1'] == s.text := by
                funext s
                rw [isTrue, if_pos htext]
              rw [htrue]
              exact tests_textVar hpastes.text
      · next hvar =>
          simp only [Bool.and_eq_true, beq_iff_eq, Bool.not_eq_true',
            decide_eq_false_iff_not] at hstored
          have htrue : isTrue field = Sample.truthy := by
            funext s
            rw [isTrue, if_neg hstored.2]
          have hword : fetchWord r.fetch = "ssl_fc".toList := by
            rw [hstored.1]
            decide
          rw [if_neg hvar, htrue]
          refine tests_bool hpastes.text fun s hs => hdoc.encrypted s ?_
          rwa [hword] at hs

/-- A comparison with a truth value. -/
private theorem tests_boolCompare {fetch field : Text} {b : Bool} (negated value : Bool)
    (h : Tests v (boolFetchCond fetch field) b) :
    Tests v (bangIf negated (if value then boolFetchCond fetch field
      else bang (boolFetchCond fetch field))) (xor negated (b == value)) := by
  refine tests_bangIf negated ?_
  cases value with
  | true => simpa using h
  | false => simpa [bang] using h.bang

/-- The scheme is not a plain field. -/
private theorem scheme_not_plain : plainField env "http.request.scheme".toList = false := by
  have hbracket := bracketMatch_none env.unicode
    (by decide : '[' ∉ "http.request.scheme".toList)
  simp only [plainField, hbracket, bne_self_eq_false]

/-- A comparison on a field of a risk ruleset. -/
private theorem tests_riskCompare {field : Text} {r : Resolved} {op : CompareOp}
    {value : Value} {negated : Bool} {t : Text}
    (hr : resolveRiskRulesetField env field = .ok (some r))
    (hfaithful : Faithful env ⟨.compare field op value, negated⟩ = true)
    (h : translateRiskCompare r.fetch field negated op value = .ok t) :
    Tests v t (leafMeaning env v ⟨.compare field op value, negated⟩) := by
  have hscheme : field ≠ "http.request.scheme".toList := by
    rintro rfl
    rw [resolveRisk_none scheme_notRisk] at hr
    cases hr
  cases value with
  | bool b =>
      have hfield : field ∈ truthFields := by simpa [Faithful] using hfaithful
      rw [truth_not_risk hfield] at hr
      cases hr
  | str value =>
      simp only [Faithful, if_neg hscheme, Bool.and_eq_true] at hfaithful
      obtain ⟨⟨hplain, hvalue⟩, -⟩ := hfaithful
      obtain ⟨hpastes, hsamples⟩ := risk_fetch (v := v) hplain hr
      unfold translateRiskCompare at h
      dsimp only at h
      split at h
      · next cond hcond =>
          cases h
          simp only [leafMeaning, kindMeaning, if_neg hscheme, ← hsamples]
          have hequal := tests_equal (v := v) hpastes.text hvalue
          exact tests_bangIf negated (tests_stringCond hpastes.text hvalue hequal hcond)
      · cases h
  | int value =>
      simp only [Faithful, Bool.and_eq_true, Bool.or_eq_true, decide_eq_true_eq,
        Bool.not_eq_true', Bool.or_eq_false_iff, decide_eq_false_iff_not] at hfaithful
      obtain ⟨⟨hplain, -⟩, hvalue⟩ := hfaithful
      obtain ⟨hpastes, hsamples⟩ := risk_fetch (v := v) hplain hr
      unfold translateRiskCompare at h
      dsimp only at h
      split at h
      · next cond hcond =>
          cases h
          simp only [leafMeaning, kindMeaning, ← hsamples]
          exact tests_bangIf negated (tests_intCond hpastes.text (by tauto) hcond)
      · cases h

private theorem scheme_noBracket {field : Text}
    (hscheme : field = "http.request.scheme".toList) : '[' ∉ field := by
  rw [hscheme, toList_of_eq (s := "http.request.scheme") rfl]
  decide

/-- The samples behind the scheme. -/
private theorem scheme_samples {field : Text} {r : Resolved}
    (hscheme : field = "http.request.scheme".toList) (hr : resolveField env field = .ok r) :
    fetchWord r.fetch = "ssl_fc".toList ∧
      fieldSamples env v field = (v.samples "ssl_fc".toList).map schemeSample := by
  have hrisk : notRisk field = true := by
    rw [hscheme]
    exact scheme_notRisk
  have hstatic : staticFetch field = some ("ssl_fc".toList, .bool) := by
    rw [hscheme]
    exact scheme_fetch
  have hbracket := bracketMatch_none env.unicode (scheme_noBracket hscheme)
  have hword : fetchWord r.fetch = "ssl_fc".toList := by
    rw [(resolve_staticFetch hbracket hstatic hr).1]
    decide
  refine ⟨hword, ?_⟩
  simp only [fieldSamples, hbracket, tableFetch, resolveRisk_none hrisk, hr, if_pos hscheme,
    hword]

private theorem ssl_fc_text : FetchText "ssl_fc".toList "ssl_fc".toList :=
  ⟨(piece_bare (by decide) (by decide)).reads, by decide, by decide⟩

/-- The scheme compared with `https`. -/
private theorem tests_scheme (hdoc : Documented env v) {r : Resolved} {op : CompareOp}
    {field value t : Text} {negated : Bool}
    (hscheme : field = "http.request.scheme".toList) (hr : resolveField env field = .ok r)
    (hvalue : env.unicode.lower value = "https".toList)
    (h : translateScheme env.unicode negated op (.str value) = .ok t) :
    Tests v t (xor negated (schemeMeaning env.unicode (fieldSamples env v field) value)) := by
  unfold translateScheme at h
  dsimp only at h
  rw [if_pos hvalue] at h
  split at h
  · cases h
    have hsame : schemeMeaning env.unicode (fieldSamples env v field) value
        = (v.samples "ssl_fc".toList).any Sample.truthy := by
      rw [(scheme_samples hscheme hr).2, schemeMeaning, List.any_map, hvalue]
      refine congrArg (List.any _) (funext fun s => ?_)
      cases hs : s.truthy <;> simp [schemeSample, hs, Sample.text]
    rw [hsame]
    exact tests_bangIf negated (tests_bool ssl_fc_text hdoc.encrypted)
  · cases h

/-- A comparison on a field of the static tables. -/
private theorem tests_staticCompare (hdoc : Documented env v) (hpaths : env.PlainPaths)
    {field : Text} {op : CompareOp} {value : Value} {negated : Bool} {t : Text}
    (hrisk : riskField env field = false)
    (hfaithful : Faithful env ⟨.compare field op value, negated⟩ = true)
    (h : translateCompare env field negated op value = .ok t) :
    Tests v t (leafMeaning env v ⟨.compare field op value, negated⟩) := by
  obtain ⟨r, hr, h⟩ := resolve_bind h
  split at h
  · next hscheme =>
      cases value with
      | str value =>
          have hvalue : env.unicode.lower value = "https".toList := by
            simpa only [Faithful, if_pos hscheme, decide_eq_true_eq] using hfaithful
          have htests := tests_scheme hdoc hscheme hr hvalue h
          simpa only [leafMeaning, kindMeaning, if_pos hscheme] using htests
      | bool b => cases h
      | int n => cases h
  next hscheme =>
  have hpastes_of : plainField env field = true →
      Pastes r ∧ v.samples (fetchWord r.fetch) = fieldSamples env v field :=
    fun hplain => static_fetch hdoc hpaths hplain hrisk hr
  have hnegation : keepsNegation env field op negated = true →
      (negated && takesNegation op) = negated := by
    simp only [keepsNegation, hrisk, Bool.or_false]
    cases negated <;> simp
  cases value with
  | bool b =>
      have hfield : field ∈ truthFields := by simpa [Faithful] using hfaithful
      have htruth := tests_truth hdoc hpaths hfield hr
      have hquery : r.fetch ≠ queryParam := (truth_fetch hdoc hpaths hfield hr).1.notQuery
      rw [if_neg hquery] at h
      dsimp only at h
      split at h
      · next hop =>
          cases h
          simpa [leafMeaning, kindMeaning, hop] using tests_boolCompare negated b htruth
      · cases h
  | str value =>
      simp only [Faithful, if_neg hscheme, Bool.and_eq_true] at hfaithful
      obtain ⟨⟨hplain, hvalue⟩, hneg⟩ := hfaithful
      obtain ⟨hpastes, hsamples⟩ := hpastes_of hplain
      rw [if_neg hpastes.notQuery, hnegation hneg] at h
      dsimp only at h
      simp only [leafMeaning, kindMeaning, if_neg hscheme, ← hsamples]
      have hequal : Tests v (if r.fetch = "method".toList then
            braced ("method ".toList ++ haproxyStringValue value)
          else matching r.fetch "str" (haproxyStringValue value))
          ((v.samples (fetchWord r.fetch)).any (stringHolds v.engine value · .eq)) := by
        split
        · next hmethod =>
            have hstr := hdoc.strings field r hr (.inl (hpastes.method hmethod))
            have htext : "method ".toList ++ haproxyStringValue value
                = r.fetch ++ ' ' :: haproxyStringValue value := by
              rw [hmethod]
              simp
            rw [htext]
            exact tests_default hpastes.text hvalue hstr
        · exact tests_equal hpastes.text hvalue
      split at h
      · next cond hcond =>
          cases h
          exact tests_bangIf negated (tests_stringCond hpastes.text hvalue hequal hcond)
      · cases h
  | int value =>
      simp only [Faithful, Bool.and_eq_true, Bool.or_eq_true, decide_eq_true_eq,
        Bool.not_eq_true', Bool.or_eq_false_iff, decide_eq_false_iff_not] at hfaithful
      obtain ⟨⟨hplain, hneg⟩, hvalue⟩ := hfaithful
      obtain ⟨hpastes, hsamples⟩ := hpastes_of hplain
      rw [if_neg hpastes.notQuery, hnegation hneg] at h
      dsimp only at h
      simp only [leafMeaning, kindMeaning, ← hsamples]
      split at h
      · next cond hcond =>
          cases h
          exact tests_bangIf negated (tests_intCond hpastes.text (by tauto) hcond)
      · cases h

/-- A list literal. -/
private theorem tests_literals (hdoc : Documented env v) (hpaths : env.PlainPaths)
    {field t : Text} {values : List Item} {negated : Bool}
    (hrisk : riskField env field = false) (hplain : plainField env field = true)
    (hvalues : plainLiterals values = true)
    (h : translateLiterals env field negated values = .ok t) :
    Tests v t (leafMeaning env v ⟨.inLiterals field values, negated⟩) := by
  obtain ⟨r, hr, h⟩ := resolve_bind h
  obtain ⟨hpastes, hsamples⟩ := static_fetch hdoc hpaths hplain hrisk hr
  simp only [leafMeaning, kindMeaning, ← hsamples]
  split at h
  · cases h
  · next hne =>
      split at h
      · next strings hstrings =>
          cases h
          exact tests_bangIf negated (tests_strings hpastes.text hne hvalues hstrings)
      · split at h
        · next ints hints =>
            cases h
            exact tests_bangIf negated (tests_intList hpastes.text hne hvalues hints)
        · cases h

/-- A security list. -/
private theorem tests_list (hdoc : Documented env v) (hpaths : env.PlainPaths)
    {field listType listName t : Text} {negated : Bool}
    (hrisk : riskField env field = false) (hplain : plainField env field = true)
    (hlist : plainList env field listType = true)
    (h : translateList env field negated listType listName = .ok t) :
    Tests v t (leafMeaning env v ⟨.inList field listType listName, negated⟩) := by
  obtain ⟨r, hr, h⟩ := resolve_bind h
  obtain ⟨path, hpath, h⟩ := resolve_bind h
  obtain ⟨hpastes, hsamples⟩ := static_fetch hdoc hpaths hplain hrisk hr
  obtain ⟨hread, hargument⟩ := reads_listPath hpaths hpath
  simp only [leafMeaning, kindMeaning, hpath, ← hsamples]
  have hcontains : ∀ (entries : List Text) (s : Sample),
      matchSample v.engine .str false entries s = entries.contains s.text := by
    intro entries s
    rw [Bool.eq_iff_iff]
    simp [matchSample, foldCase]
  have hstr : r.type = .string ∨ r.type = .geoip ∨ r.type = .ja4 →
      Tests v (braced (r.fetch ++ " -f ".toList ++ path))
        ((v.samples (fetchWord r.fetch)).any fun s =>
          (v.engine.file path).contains s.text) := by
    intro htype
    refine tests_file hpastes.text hread hargument fun s hs => ?_
    rw [hdoc.strings field r hr htype s hs, hcontains]
  unfold plainList at hlist
  cases hkind : ListKind.read listType with
  | none => rw [hkind] at h; cases h
  | some kind =>
      rw [hkind] at h hlist
      cases kind with
      | asn =>
          cases h
          exact tests_bangIf negated (tests_methodFile .str (by decide) hpastes.text hread
            hargument fun s => hcontains _ s)
      | geo =>
          cases h
          simp only [hr, Bool.or_eq_true, decide_eq_true_eq, or_assoc] at hlist
          exact tests_bangIf negated (hstr hlist)
      | network =>
          cases h
          have hfield : field = "ip.src".toList := of_decide_eq_true hlist
          have hfetch := (resolve_staticFetch (bracketMatch_none env.unicode
            (by rw [hfield]; decide)) (hfield ▸ src_fetch) hr).1
          have hword : fetchWord r.fetch = "src".toList := by
            rw [hfetch]
            decide
          refine tests_bangIf negated (tests_file hpastes.text hread hargument fun s hs => ?_)
          rw [hword] at hs
          rw [hdoc.addresses s hs]
          rfl
      | ja4 =>
          have hfield : field = "http.request.ja4".toList := of_decide_eq_true hlist
          obtain ⟨hfetch, htype⟩ := resolve_staticFetch (bracketMatch_none env.unicode
            (by rw [hfield]; decide)) (hfield ▸ ja4_fetch) hr
          have htext : "lua.ja4_fp -f ".toList ++ path = r.fetch ++ " -f ".toList ++ path := by
            rw [hfetch]
            simp
          dsimp only at h
          rw [htext] at h
          cases h
          exact tests_bangIf negated (hstr (.inr (.inr htype)))
      | pattern =>
          dsimp only at h
          split at h
          · cases h
            exact tests_bangIf negated (tests_methodFile .reg (by decide) hpastes.text hread
              hargument fun s => rfl)
          · cases h

/-- The presence of a field, wherever it resolves to. -/
private theorem tests_exists {field : Text} {r : Resolved} (negated : Bool)
    (hpastes : Pastes r)
    (hsamples : (v.samples (fetchWord r.fetch)).isEmpty = (fieldSamples env v field).isEmpty) :
    Tests v (bangIf negated (braced (r.fetch ++ " -m found".toList)))
      (leafMeaning env v ⟨.exists field, negated⟩) := by
  have hfound := tests_bangIf negated (tests_found (v := v) hpastes.text)
  rw [hsamples] at hfound
  exact hfound

/-- A leaf on a field of the static tables. -/
private theorem tests_static (hdoc : Documented env v) (hpaths : env.PlainPaths) {l : Leaf}
    {t : Text} (hrisk : ∀ field ∈ l.kind.field?, riskField env field = false)
    (hfaithful : Faithful env l = true) (h : translateStatic env l = .ok t) :
    Tests v t (leafMeaning env v l) := by
  obtain ⟨kind, negated⟩ := l
  cases kind with
  | literal value => cases h
  | boolField field =>
      obtain ⟨r, hr, h⟩ := resolve_bind h
      cases h
      have hfield : field ∈ truthFields := of_decide_eq_true hfaithful
      exact tests_bangIf negated (tests_truth hdoc hpaths hfield hr)
  | «exists» field =>
      obtain ⟨r, hr, h⟩ := resolve_bind h
      cases h
      rcases Bool.or_eq_true_iff.mp hfaithful with hplain | hscheme
      · obtain ⟨hpastes, hsamples⟩ := static_fetch hdoc hpaths hplain (hrisk field rfl) hr
        exact tests_exists negated hpastes (by rw [hsamples])
      · have hscheme := of_decide_eq_true hscheme
        have hbracket := bracketMatch_none env.unicode (scheme_noBracket hscheme)
        obtain ⟨hword, hsamples⟩ := scheme_samples (v := v) hscheme hr
        refine tests_exists negated (pastes_table hpaths hbracket hr) ?_
        rw [hword, hsamples, List.isEmpty_map]
  | compare field op value =>
      exact tests_staticCompare hdoc hpaths (hrisk field rfl) hfaithful h
  | inLiterals field values =>
      simp only [Faithful, Bool.and_eq_true] at hfaithful
      exact tests_literals hdoc hpaths (hrisk field rfl) hfaithful.1.1 hfaithful.2 h
  | inList field listType listName =>
      simp only [Faithful, Bool.and_eq_true] at hfaithful
      exact tests_list hdoc hpaths (hrisk field rfl) hfaithful.1.1 hfaithful.2 h

/-- A leaf on a field of a risk ruleset. -/
private theorem tests_risk {l : Leaf} {field : Text} {r : Resolved}
    {result : Except TranslateError Text} {t : Text} (hfield : l.kind.field? = some field)
    (hr : resolveRiskRulesetField env field = .ok (some r))
    (hresult : translateRisk r.fetch l = some result)
    (hfaithful : Faithful env l = true) (h : result = .ok t) :
    Tests v t (leafMeaning env v l) := by
  obtain ⟨kind, negated⟩ := l
  cases kind with
  | boolField f =>
      cases hfield
      have hmem : field ∈ truthFields := of_decide_eq_true hfaithful
      rw [truth_not_risk hmem] at hr
      cases hr
  | «exists» f =>
      cases hfield
      cases hresult
      cases h
      rcases Bool.or_eq_true_iff.mp hfaithful with hplain | hscheme
      · obtain ⟨hpastes, hsamples⟩ := risk_fetch (v := v) hplain hr
        exact tests_exists negated hpastes (by rw [hsamples])
      · rw [of_decide_eq_true hscheme, resolveRisk_none scheme_notRisk] at hr
        cases hr
  | compare f op value =>
      cases hfield
      cases hresult
      exact tests_riskCompare hr hfaithful h
  | literal value => cases hfield
  | inLiterals f values => cases hresult
  | inList f listType listName => cases hresult

/-- The empty name is no ruleset's. -/
private theorem leafRisk_spec {l : Leaf} {risk : Option Resolved}
    (h : leafRisk env l = .ok risk) :
    (l.kind.field? = none ∧ risk = none) ∨
      ∃ field, l.kind.field? = some field ∧ resolveRiskRulesetField env field = .ok risk := by
  unfold leafRisk at h
  split at h
  · next field hfield =>
      refine .inr ⟨field, hfield, ?_⟩
      split at h
      · next hempty =>
          cases h
          rw [hempty]
          rfl
      · exact h
  · next hnone =>
      cases h
      exact .inl ⟨hnone, rfl⟩

/-- Where a ruleset's field falls through to the static tables, the leaf is a list,
and those the condition leaves out. -/
private theorem translateRisk_some {l : Leaf} {field fetch : Text}
    (hfield : l.kind.field? = some field) (hrisk : riskField env field = true)
    (hfaithful : Faithful env l = true) : translateRisk fetch l ≠ none := by
  obtain ⟨kind, negated⟩ := l
  cases kind with
  | literal value => cases hfield
  | boolField f => simp [translateRisk]
  | «exists» f => simp [translateRisk]
  | compare f op value => simp [translateRisk]
  | inLiterals f values =>
      cases hfield
      simp [Faithful, hrisk] at hfaithful
  | inList f listType listName =>
      cases hfield
      simp [Faithful, hrisk] at hfaithful

/-- **A faithful leaf is translated to its meaning.** -/
theorem tests_leaf (hdoc : Documented env v) (hpaths : env.PlainPaths) {l : Leaf} {t : Text}
    (hfaithful : Faithful env l = true) (h : translateLeaf env l = .ok t) :
    Tests v t (leafMeaning env v l) := by
  obtain ⟨risk, hrisk, h⟩ := resolve_bind h
  rcases leafRisk_spec hrisk with ⟨hnone, rfl⟩ | ⟨field, hfield, hresolve⟩
  · exact tests_static hdoc hpaths (by simp [hnone]) hfaithful h
  · cases risk with
    | none =>
        have hnot : riskField env field = false := by rw [riskField, hresolve]
        exact tests_static hdoc hpaths (by simpa [hfield] using hnot) hfaithful h
    | some r =>
        have hyes : riskField env field = true := by rw [riskField, hresolve]
        dsimp only [Option.bind] at h
        split at h
        · next result hresult =>
            exact tests_risk hfield hresolve hresult hfaithful h
        · next hresult =>
            exact absurd hresult (translateRisk_some hfield hyes hfaithful)

/-! ### Expressions -/

/-- What a successful `mapM` leaves, one element at a time. -/
private theorem mapM_forall₂ {α β γ : Type} {f : α → Except TranslateError β} {g : α → γ}
    {R : β → γ → Prop} {xs : List α} {ys : List β} (h : xs.mapM f = .ok ys)
    (hR : ∀ x ∈ xs, ∀ y, f x = .ok y → R y (g x)) : List.Forall₂ R ys (xs.map g) := by
  induction xs generalizing ys with
  | nil => cases h; exact .nil
  | cons x xs ih =>
      rw [List.mapM_cons] at h
      obtain ⟨y, hy, h⟩ := resolve_bind h
      obtain ⟨zs, hzs, h⟩ := resolve_bind h
      cases h
      exact .cons (hR x List.mem_cons_self y hy)
        (ih hzs fun z hz => hR z (List.mem_cons_of_mem _ hz))

private theorem forall₂_ne_nil {α β γ : Type} {R : β → γ → Prop} {g : α → γ} {xs : List α}
    {ys : List β} (h : List.Forall₂ R ys (xs.map g)) (hne : xs ≠ []) : ys ≠ [] := by
  rintro rfl
  exact hne (by simpa using h.length_eq.symm)

/-- A group is the conjunction of its leaves. -/
private theorem speltGroup_group (hdoc : Documented env v) (hpaths : env.PlainPaths)
    {g : List Leaf} {t : Text} (hne : g ≠ []) (hfaithful : ∀ l ∈ g, Faithful env l = true)
    (h : translateGroup env g = .ok t) : SpeltGroup v t (g.all (leafMeaning env v)) := by
  unfold translateGroup at h
  cases hts : g.mapM (translateLeaf env) with
  | error e => rw [hts] at h; cases h
  | ok ts =>
      rw [hts] at h
      cases h
      have hall : List.Forall₂ (SpeltGroup v) ts (g.map (leafMeaning env v)) :=
        mapM_forall₂ hts fun l hl t ht => (tests_leaf hdoc hpaths (hfaithful l hl) ht).speltGroup
      simpa [List.all_map] using SpeltGroup.blankJoin hall (forall₂_ne_nil hall hne)

/-- **The condition of an expression** spells the groups of its normal form. -/
theorem translate_spelt (hdoc : Documented env v) (hpaths : env.PlainPaths) {n : Node}
    {cond : Text} {phase : Phase} (hproper : n.Proper)
    (hfaithful : ∀ o ∈ n.occurrences true, Faithful env (o.2.signed o.1) = true)
    (h : translate env n = .ok (cond, phase)) :
    Spelt v cond ((toDnf n).map fun g => g.all (leafMeaning env v)) := by
  obtain ⟨p, -, h⟩ := resolve_bind h
  obtain ⟨groups, hgroups, h⟩ := resolve_bind h
  cases h
  obtain ⟨hne, hgne⟩ := toDnf_nonempty hproper
  have hleaf : ∀ g ∈ toDnf n, ∀ l ∈ g, Faithful env l = true := by
    intro g hg l hl
    obtain ⟨o, ho, rfl⟩ := mem_members_toDnf
      (NormalForm.Dnf.mem_members.mpr ⟨g, hg, hl⟩)
    exact hfaithful o ho
  have hall : List.Forall₂ (SpeltGroup v) groups
      ((toDnf n).map fun g => g.all (leafMeaning env v)) :=
    mapM_forall₂ hgroups fun g hg t ht =>
      speltGroup_group hdoc hpaths (hgne g hg) (hleaf g hg) ht
  exact SpeltGroup.orJoin separator_or hall (forall₂_ne_nil hall hne)

/-- **The groups of a condition**, with the word `or` between them. -/
theorem translate_groups (hdoc : Documented env v) (hpaths : env.PlainPaths) {n : Node}
    {cond : Text} {phase : Phase} (hproper : n.Proper)
    (hfaithful : ∀ o ∈ n.occurrences true, Faithful env (o.2.signed o.1) = true)
    (h : translate env n = .ok (cond, phase)) :
    ∃ groups, (toDnf n).mapM (translateGroup env) = .ok groups ∧
      cond = HAProxy.orJoin "or".toList groups ∧
      List.Forall₂ (SpeltGroup v) groups ((toDnf n).map fun g => g.all (leafMeaning env v)) := by
  obtain ⟨p, -, h⟩ := resolve_bind h
  obtain ⟨groups, hgroups, h⟩ := resolve_bind h
  cases h
  obtain ⟨-, hgne⟩ := toDnf_nonempty hproper
  have hleaf : ∀ g ∈ toDnf n, ∀ l ∈ g, Faithful env l = true := by
    intro g hg l hl
    obtain ⟨o, ho, rfl⟩ := mem_members_toDnf
      (NormalForm.Dnf.mem_members.mpr ⟨g, hg, hl⟩)
    exact hfaithful o ho
  exact ⟨groups, hgroups, rfl, mapM_forall₂ hgroups fun g hg t ht =>
    speltGroup_group hdoc hpaths (hgne g hg) (hleaf g hg) ht⟩

/-- The flag negates the meaning of every leaf. -/
theorem leafMeaning_negate (env : Env) (v : View) (l : Leaf) :
    leafMeaning env v l.negate = !leafMeaning env v l := by
  simp [leafMeaning, Leaf.negate]

/-- **The translator is correct** on the expressions whose leaves are faithful: the
condition holds of a request exactly when the expression does. -/
theorem translate_correct (env : Env) (v : View) (text : Text) (n : Node) (cond : Text)
    (phase : Phase) (hdoc : Documented env v) (hpaths : env.PlainPaths)
    (hparse : parseExpression env.unicode boolFieldsSet text = .ok n)
    (htranslate : translate env n = .ok (cond, phase))
    (hfaithful : ∀ o ∈ n.occurrences true, Faithful env (o.2.signed o.1) = true) :
    ∃ b, v.holds cond = some b ∧ (b = true ↔ Means env v n) := by
  have hspelt := translate_spelt hdoc hpaths (parseExpression_proper hparse) hfaithful htranslate
  refine ⟨_, hspelt.holds, ?_⟩
  have hdnf := holds_toDnf_iff (v := fun l => leafMeaning env v l = true) n fun o _ _ => by
    simp [leafMeaning_negate]
  rw [Means, ← hdnf]
  simp [NormalForm.Dnf.Holds]

/-! ### The negation that is left out -/

/-- On the static tables, a negated `!=` or `!~` is translated as if it were not
negated. -/
theorem translateCompare_drops (env : Env) (field : Text) (op : CompareOp) (value : Value)
    (hop : takesNegation op = false) :
    translateCompare env field true op value = translateCompare env field false op value := by
  have hne : op ≠ .eq := by
    rintro rfl
    cases hop
  unfold translateCompare
  cases resolveField env field with
  | error e => rfl
  | ok r =>
      simp only [bind, Except.bind]
      split
      · cases value <;> simp only [translateScheme, if_neg hne]
      split
      · cases value <;> simp only [translateQuery, if_neg hne]
      cases value <;> simp only [hop, Bool.true_and, Bool.false_and]

/-- **A negated `!=` or `!~` is inverted**: where the comparison itself is translated
to its meaning, its negation is translated to the opposite of its own. -/
theorem negated_ne_inverted (hdoc : Documented env v) (hpaths : env.PlainPaths) {field : Text}
    {op : CompareOp} {value : Value} {t : Text} (hrisk : riskField env field = false)
    (hop : takesNegation op = false)
    (hfaithful : Faithful env ⟨.compare field op value, false⟩ = true)
    (h : translateCompare env field true op value = .ok t) :
    Tests v t (!leafMeaning env v ⟨.compare field op value, true⟩) := by
  rw [translateCompare_drops env field op value hop] at h
  have htests := tests_staticCompare hdoc hpaths hrisk hfaithful h
  rwa [← Bool.not_not (leafMeaning env v ⟨.compare field op value, false⟩),
    ← leafMeaning_negate] at htests

/-! ### Two expressions -/

/-- An installation without GeoIP, lists and rulesets. -/
def Env.plain : Env where
  unicode := .ascii
  luaModule := false
  geoip2 := false
  geoDb := "/app/data/GeoLite2-Country.mmdb".toList
  geoDbExists := false
  asnDb := "/app/data/GeoLite2-ASN.mmdb".toList
  asnDbExists := false
  countryMap := "/app/data/geo_country.map".toList
  asnMap := "/app/data/geo_asn.map".toList
  listsDir := "/app/data/lists".toList
  lists := []
  slugs := []

/-- A `GET` request, of which nothing else is looked at. -/
def getView : View where
  engine := ⟨fun _ _ _ => false, fun _ _ => false, readInt, fun _ => [], id⟩
  samples fetch := if fetch = "method".toList then [.str "GET".toList] else []
  named _ := false

/-- Only `method` has samples. -/
private theorem getView_other {c : Char} {fetch : Text} (hc : c ≠ 'm') :
    getView.samples (c :: fetch) = [] :=
  if_neg fun h => hc (List.cons.inj h).1

private theorem getView_documented : Documented Env.plain getView where
  requestHeader name := (getView_other (by decide)).trans (getView_other (by decide)).symm
  responseHeader name := (getView_other (by decide)).trans (getView_other (by decide)).symm
  strings field r _ _ s hs := by
    unfold getView at hs
    dsimp only at hs
    split at hs
    · rw [List.mem_singleton.mp hs]
      rfl
    · cases hs
  addresses s hs := by
    rw [show getView.samples "src".toList = [] from getView_other (by decide)] at hs
    cases hs
  encrypted s hs := by
    rw [show getView.samples "ssl_fc".toList = [] from getView_other (by decide)] at hs
    cases hs

theorem plain_paths : Env.plain.PlainPaths where
  geoDb := by unfold plainPath; decide
  asnDb := by unfold plainPath; decide
  countryMap := by unfold plainPath; decide
  asnMap := by unfold plainPath; decide
  listsDir := by unfold plainPath; decide

/-- `http.request.method op "GET"` under a `not`. -/
def notMethod (op : CompareOp) : Node :=
  .not (.leaf ⟨.compare "http.request.method".toList op (.str "GET".toList), false⟩)

private theorem parse_not_eq :
    parseExpression .ascii boolFieldsSet "not http.request.method = \"GET\"".toList
      = .ok (notMethod .eq) := by
  have htok : tokenize .ascii "not http.request.method = \"GET\"".toList
      = .ok [⟨.keyword .not, 0⟩, ⟨.ident "http.request.method".toList, 4⟩, ⟨.op .eq, 24⟩,
          ⟨.string "GET".toList, 26⟩, ⟨.eof, 31⟩] := by
    rw [toList_of_eq (s := "not http.request.method = \"GET\"") rfl,
      toList_of_eq (s := "http.request.method") rfl]
    rfl
  rw [parseExpression_of_tokens rfl htok]
  rfl

private theorem parse_not_ne :
    parseExpression .ascii boolFieldsSet "not http.request.method != \"GET\"".toList
      = .ok (notMethod .ne) := by
  have htok : tokenize .ascii "not http.request.method != \"GET\"".toList
      = .ok [⟨.keyword .not, 0⟩, ⟨.ident "http.request.method".toList, 4⟩, ⟨.op .ne, 24⟩,
          ⟨.string "GET".toList, 27⟩, ⟨.eof, 32⟩] := by
    rw [toList_of_eq (s := "not http.request.method != \"GET\"") rfl,
      toList_of_eq (s := "http.request.method") rfl]
    rfl
  rw [parseExpression_of_tokens rfl htok]
  rfl

private theorem translate_not_eq :
    translate .plain (notMethod .eq) = .ok ("!{ method GET }".toList, .request) := by
  rfl

private theorem translate_not_ne :
    translate .plain (notMethod .ne) = .ok ("!{ method GET }".toList, .request) := by
  rfl

private theorem occurrences_notMethod (op : CompareOp) :
    (notMethod op).occurrences true =
      [(false, ⟨.compare "http.request.method".toList op (.str "GET".toList), false⟩)] := by
  rfl

/-- The request of another method passes `not http.request.method = "GET"`; this one
does not. -/
theorem translate_correct_not_eq :
    ∃ b, getView.holds "!{ method GET }".toList = some b ∧
      (b = true ↔ Means .plain getView (notMethod .eq)) :=
  translate_correct .plain getView "not http.request.method = \x22GET\x22".toList
    (notMethod .eq) _ .request getView_documented plain_paths parse_not_eq translate_not_eq (by
      intro o ho
      rw [occurrences_notMethod, List.mem_singleton] at ho
      subst ho
      decide +kernel)

/-- **A lost negation**: a `GET` request satisfies `not http.request.method != "GET"`,
and its condition does not hold of it. -/
theorem not_ne_inverted :
    ∃ n cond phase,
      parseExpression .ascii boolFieldsSet "not http.request.method != \x22GET\x22".toList
        = .ok n ∧
      translate .plain n = .ok (cond, phase) ∧ Documented .plain getView ∧
      getView.holds cond = some false ∧ Means .plain getView n := by
  refine ⟨notMethod .ne, _, .request, parse_not_ne, translate_not_ne, getView_documented, ?_, ?_⟩
  · decide +kernel
  · unfold Means notMethod Node.Holds Node.Holds
    decide +kernel

end CorexManager.Security
