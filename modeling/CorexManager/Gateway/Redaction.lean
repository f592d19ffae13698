import CorexManager.Data.JsonStrings
import CorexManager.Gateway.Mediation

/-!
# Redaction

What the DLP scan of a call leaves of its parameters, and what of them is forwarded.  A scan
that does not block replaces what its rules match in every string of the parameters, or in
their text (`admitByDlp_text`); after the guardrails the handler puts the requested name back,
without its prefix, as it was before the scans.
-/

namespace CorexManager.Gateway

open Data (Json Text)

/-! ### Unblocked scans -/

/-- The part of a text that is scanned. -/
def scannedPart (maxLength : Nat) (text : Text) : Option Text :=
  if maxLength < Rust.len text then Rust.sliceTo maxLength text else some text

/-- What a rule leaves of a text whose scanned part is known. -/
def Rule.replace (r : Rule) (scanned modified : Text) : Text :=
  if r.count scanned = 0 then modified else (r.rewrite.map fun f => f modified).getD modified

/-- What the rules leave of a text in which none of them blocks. -/
def replaced (maxLength : Nat) (rules : List Rule) (text : Text) : Text :=
  ((scannedPart maxLength text).map fun scanned =>
    rules.foldl (fun modified r => r.replace scanned modified) text).getD text

section Scans

variable {direction : Direction} {rules : List Rule} {maxLength : Nat}
  {scan : Text → Option (Text × Bool)} {f : Text → Text}

/-- Unless one of them blocks, the rules rewrite a text one after the other. -/
theorem applyRules_unblocked (hrules : ∀ r ∈ rules, r.direction.matches direction = true)
    {scanned text out : Text} (h : applyRules direction scanned rules text = (out, false)) :
    out = rules.foldl (fun modified r => r.replace scanned modified) text := by
  induction rules generalizing text with
  | nil => exact (congrArg Prod.fst h).symm
  | cons r rules ih =>
      obtain ⟨hr, hrest⟩ := List.forall_mem_cons.mp hrules
      rw [applyRules, hr] at h
      rw [List.foldl_cons, Rule.replace]
      by_cases hcount : r.count scanned = 0
      · rw [if_pos (by simp [hcount])] at h
        rw [if_pos hcount]
        exact ih hrest h
      · rw [if_neg (by simp [hcount])] at h
        rw [if_neg hcount]
        cases hrewrite : r.rewrite with
        | none =>
            rw [hrewrite] at h
            cases h
        | some f =>
            rw [hrewrite] at h
            exact ih hrest h

theorem scanText_eq (text : Text) : scanText maxLength direction rules text =
    (scannedPart maxLength text).map fun scanned =>
      let r := applyRules direction scanned rules text
      (if r.2 then text else r.1, r.2) := by
  unfold scanText scannedPart
  by_cases hlong : maxLength < Rust.len text
  · rw [if_pos hlong, if_pos hlong]
    cases Rust.sliceTo maxLength text <;> rfl
  · rw [if_neg hlong, if_neg hlong]
    rfl

theorem scanText_unblocked (hrules : ∀ r ∈ rules, r.direction.matches direction = true)
    {text out : Text} (h : scanText maxLength direction rules text = some (out, false)) :
    out = replaced maxLength rules text := by
  rw [scanText_eq] at h
  obtain ⟨scanned, hscanned, h⟩ := Option.map_eq_some_iff.mp h
  obtain ⟨hout, hunblocked⟩ := Prod.mk.inj h
  rw [hunblocked, if_neg Bool.false_ne_true] at hout
  rw [replaced, hscanned]
  exact applyRules_unblocked hrules (Prod.ext hout hunblocked)

theorem walk_blocked (v : Json) : walk scan v true = some (v, true) := by cases v <;> rfl

theorem walkItems_blocked (vs : List Json) : walkItems scan vs true = some (vs, true) := by
  induction vs with
  | nil => rfl
  | cons v vs ih => rw [walkItems, walk_blocked]; simp [ih]

theorem walkFields_blocked (fields : List (Text × Json)) :
    walkFields scan fields true = some (fields, true) := by
  induction fields with
  | nil => rfl
  | cons e fields ih => rw [walkFields, walk_blocked]; simp [ih]

/-- The head of a list of which nothing is blocked, and the rest. -/
theorem walkItems_cons_unblocked {v : Json} {vs out : List Json}
    (h : walkItems scan (v :: vs) false = some (out, false)) :
    ∃ v' vs', walk scan v false = some (v', false) ∧ walkItems scan vs false = some (vs', false) ∧
      out = v' :: vs' := by
  obtain ⟨⟨v', blocked⟩, hv, h⟩ := Option.bind_eq_some_iff.mp h
  obtain ⟨⟨vs', blocked'⟩, hvs, h⟩ := Option.bind_eq_some_iff.mp h
  obtain ⟨rfl, rfl⟩ := Prod.mk.inj (Option.some.inj h)
  cases blocked with
  | false => exact ⟨v', vs', hv, hvs, rfl⟩
  | true =>
      rw [walkItems_blocked] at hvs
      cases hvs

theorem walkFields_cons_unblocked {k : Text} {v : Json} {fields out : List (Text × Json)}
    (h : walkFields scan ((k, v) :: fields) false = some (out, false)) :
    ∃ v' fields', walk scan v false = some (v', false) ∧
      walkFields scan fields false = some (fields', false) ∧ out = (k, v') :: fields' := by
  obtain ⟨⟨v', blocked⟩, hv, h⟩ := Option.bind_eq_some_iff.mp h
  obtain ⟨⟨fields', blocked'⟩, hfields, h⟩ := Option.bind_eq_some_iff.mp h
  obtain ⟨rfl, rfl⟩ := Prod.mk.inj (Option.some.inj h)
  cases blocked with
  | false => exact ⟨v', fields', hv, hfields, rfl⟩
  | true =>
      rw [walkFields_blocked] at hfields
      cases hfields

theorem walkItems_unblocked {items : List Json}
    (hitems : ∀ v ∈ items, ∀ out, walk scan v false = some (out, false) → out = v.mapStrings f)
    {out : List Json} (h : walkItems scan items false = some (out, false)) :
    out = items.map (Json.mapStrings f) := by
  induction items generalizing out with
  | nil => exact (congrArg Prod.fst (Option.some.inj h)).symm
  | cons v items ih =>
      obtain ⟨v', rest, hv, hrest, rfl⟩ := walkItems_cons_unblocked h
      obtain ⟨hhead, htail⟩ := List.forall_mem_cons.mp hitems
      rw [List.map_cons, hhead v' hv, ih htail hrest]

theorem walkFields_unblocked {fields : List (Text × Json)}
    (hfields : ∀ e ∈ fields, ∀ out, walk scan e.2 false = some (out, false) →
      out = e.2.mapStrings f)
    {out : List (Text × Json)} (h : walkFields scan fields false = some (out, false)) :
    out = fields.map fun e => (e.1, e.2.mapStrings f) := by
  induction fields generalizing out with
  | nil => exact (congrArg Prod.fst (Option.some.inj h)).symm
  | cons e fields ih =>
      obtain ⟨v', rest, hv, hrest, rfl⟩ := walkFields_cons_unblocked h
      obtain ⟨hhead, htail⟩ := List.forall_mem_cons.mp hfields
      rw [List.map_cons, hhead v' hv, ih htail hrest]

/-- A walk in which nothing is blocked rewrites every string of the value. -/
theorem walk_unblocked (hscan : ∀ text out, scan text = some (out, false) → out = f text)
    (v : Json) : ∀ out, walk scan v false = some (out, false) → out = v.mapStrings f := by
  induction v using Json.partsInduction with
  | str t =>
      intro out h
      obtain ⟨⟨t', blocked⟩, ht, h⟩ := Option.map_eq_some_iff.mp h
      obtain ⟨rfl, rfl⟩ := Prod.mk.inj h
      exact congrArg Json.str (hscan t t' ht)
  | arr items ih =>
      intro out h
      obtain ⟨⟨items', blocked⟩, hitems, h⟩ := Option.map_eq_some_iff.mp h
      obtain ⟨rfl, rfl⟩ := Prod.mk.inj h
      rw [Json.mapStrings_arr]
      exact congrArg Json.arr (walkItems_unblocked ih hitems)
  | obj fields ih =>
      intro out h
      obtain ⟨⟨fields', blocked⟩, hfields, h⟩ := Option.map_eq_some_iff.mp h
      obtain ⟨rfl, rfl⟩ := Prod.mk.inj h
      rw [Json.mapStrings_obj]
      exact congrArg Json.obj (walkFields_unblocked ih hfields)
  | _ =>
      intro out h
      exact (congrArg Prod.fst (Option.some.inj h)).symm

theorem scanJsonStrings_unblocked
    (hscan : ∀ text out, scan text = some (out, false) → out = f text) {v out : Json}
    (h : scanJsonStrings scan v = some (out, false)) : out = v.mapStrings f := by
  obtain ⟨⟨v', blocked⟩, hv, h⟩ := Option.map_eq_some_iff.mp h
  obtain ⟨hout, rfl⟩ := Prod.mk.inj h
  rw [if_neg Bool.false_ne_true] at hout
  exact hout ▸ walk_unblocked hscan v v' hv

end Scans

/-! ### What the scans of a call leave -/

section Calls

variable (P : Platform) (st : GatewayState)

/-- The DLP rules for requests. -/
def requestRules : List CompiledDlpRule :=
  st.dlpRules.filter fun r => r.direction.matches .request

/-- What the DLP rules leave of a text. -/
def dlpText : Text → Text :=
  replaced P.dlpMaxScanLength ((requestRules st).map CompiledDlpRule.rule)

/-- What the DLP rules leave of the parameters of a call. -/
def dlpParams (pr : PolicyResult) (params : Json) : Json :=
  if pr.skipDlp then params
  else if (requestRules st).any CompiledDlpRule.allText then
    if dlpText P st (P.json.dumps params) = P.json.dumps params then params
    -- a text that is no JSON once it is rewritten leaves the parameters as they were
    else (P.json.parse (dlpText P st (P.json.dumps params))).getD params
  else params.mapStrings (dlpText P st)

/-- What the guardrails leave of a text. -/
def guardrailText (text : Text) : Text :=
  let applicable := st.guardrailRules.filter fun r => r.direction.matches .request
  if applicable = [] then text
  else replaced P.guardrailMaxScanLength (applicable.map CompiledGuardrailRule.rule)
    (decodeTagChars text)

/-- The texts a DLP rule is matched against in a request. -/
def scannedTexts (params : Json) : List Text :=
  if (requestRules st).any CompiledDlpRule.allText then [P.json.dumps params] else params.strings

/-- The texts that the rules which redact or tokenize match in the scan of a request. -/
def matchedTexts (pr : PolicyResult) (params : Json) : Set Text :=
  { m | pr.skipDlp = false ∧ ∃ r ∈ requestRules st, r.action ≠ .block ∧
    ∃ text ∈ scannedTexts P st params, ∃ scanned, scannedPart P.dlpMaxScanLength text = some scanned ∧
      m ∈ r.regex.find scanned }

variable {P : Platform} {st : GatewayState}

theorem replaced_nil (maxLength : Nat) (text : Text) : replaced maxLength [] text = text := by
  rw [replaced]
  cases scannedPart maxLength text <;> rfl

theorem admitByScan_exit {scan : Option ScanResult} {effect : Bool → Effect} {blocked : Response}
    {data out : Json} (h : (admitByScan scan effect blocked data).exit = .value out) :
    ∃ r, scan = some r ∧ r.blocked = false ∧
      out = if r.modified then r.modifiedData else data := by
  obtain ⟨r, hr, h, -⟩ := Run.value_bind h
  obtain ⟨_, -, h, -⟩ := Run.value_bind h
  refine ⟨r, Run.orPanic_value.mp hr, ?_⟩
  cases hblocked : r.blocked with
  | true =>
      rw [if_pos hblocked] at h
      cases h
  | false =>
      rw [if_neg (by simp [hblocked])] at h
      cases h
      exact ⟨rfl, rfl⟩

/-- Data that is not modified is the same. -/
theorem ScanResult.of_result (data : Json) (r : Json × Bool) :
    (if (ScanResult.of data r).modified then (ScanResult.of data r).modifiedData else data) =
      r.1 := by
  show (if (r.1 != data) = true then r.1 else data) = r.1
  by_cases h : r.1 = data
  · rw [if_neg (by simp [h]), h]
  · rw [if_pos (by simp [h])]

theorem scanAllText_unblocked {scan : Text → Option (Text × Bool)} {f : Text → Text}
    (hscan : ∀ text out, scan text = some (out, false) → out = f text) {data out : Json}
    (h : scanAllText P scan data = some (out, false)) :
    out = if f (P.json.dumps data) = P.json.dumps data then data
      else (P.json.parse (f (P.json.dumps data))).getD data := by
  obtain ⟨⟨modified, blocked⟩, hmodified, h⟩ := Option.bind_eq_some_iff.mp h
  cases blocked with
  | true => cases h
  | false =>
      dsimp only at h
      rw [if_neg Bool.false_ne_true] at h
      rw [← hscan _ _ hmodified]
      split at h
      · next heq =>
          rw [if_pos heq]
          exact (congrArg Prod.fst (Option.some.inj h)).symm
      · next hne =>
          rw [if_neg hne]
          exact (congrArg Prod.fst (Option.some.inj h)).symm

/-- Without rules for requests the parameters stay as they are. -/
theorem dlpParams_of_nil {pr : PolicyResult} {params : Json} (h : requestRules st = []) :
    dlpParams P st pr params = params := by
  have htext : ∀ t, dlpText P st t = t := fun t => by
    rw [dlpText, h]
    exact replaced_nil _ t
  rw [dlpParams, h]
  split
  · rfl
  · exact Json.mapStrings_eq_self htext params

/-- A rule for requests matches them. -/
theorem requestRules_matches :
    ∀ r ∈ (requestRules st).map CompiledDlpRule.rule, r.direction.matches .request = true := by
  intro r hr
  obtain ⟨rule, hrule, rfl⟩ := List.mem_map.mp hr
  exact (List.mem_filter.mp hrule).2

/-- What a scan that does not block leaves. -/
theorem dlpScan_unblocked {params : Json} {pr : PolicyResult} {r : ScanResult}
    (hskip : pr.skipDlp = false) (h : dlpScan P .request params st.dlpRules = some r)
    (hunblocked : r.blocked = false) :
    (if r.modified then r.modifiedData else params) = dlpParams P st pr params := by
  have hrules : (st.dlpRules.filter fun r => r.direction.matches .request) = requestRules st := rfl
  unfold dlpScan at h
  dsimp only at h
  rw [hrules] at h
  split at h
  · next hnone =>
      cases h
      exact (dlpParams_of_nil hnone).symm
  · obtain ⟨⟨json, blocked⟩, hjson, rfl⟩ := Option.map_eq_some_iff.mp h
    obtain rfl : blocked = false := hunblocked
    have hscan : ∀ text out, scanText P.dlpMaxScanLength .request
        ((requestRules st).map CompiledDlpRule.rule) text = some (out, false) →
        out = dlpText P st text := fun text out => scanText_unblocked requestRules_matches
    rw [ScanResult.of_result, dlpParams, if_neg (by simp [hskip])]
    split at hjson
    · next hall =>
        rw [if_pos hall]
        exact scanAllText_unblocked hscan hjson
    · next hall =>
        rw [if_neg hall]
        exact scanJsonStrings_unblocked hscan hjson

/-- **What the DLP scan lets through.** -/
theorem admitByDlp_params {msgId params out : Json} {pr : PolicyResult}
    (h : (admitByDlp P st msgId pr params).exit = .value out) :
    out = dlpParams P st pr params := by
  unfold admitByDlp at h
  split at h
  · next hunscanned =>
      cases h
      rcases Bool.or_eq_true_iff.mp hunscanned with hskip | hempty
      · rw [dlpParams, if_pos hskip]
      · have hnone : requestRules st = [] := by
          rw [requestRules, List.isEmpty_iff.mp hempty]
          rfl
        exact (dlpParams_of_nil hnone).symm
  · next hscanned =>
      have hskip : pr.skipDlp = false := by
        rw [Bool.not_eq_true, Bool.or_eq_false_iff] at hscanned
        exact hscanned.1
      obtain ⟨r, hr, hunblocked, rfl⟩ := admitByScan_exit h
      exact dlpScan_unblocked hskip hr hunblocked

/-- **What the guardrails let through.** -/
theorem admitByGuardrails_params {msgId params out : Json}
    (h : (admitByGuardrails P st msgId params).exit = .value out) :
    out = params.mapStrings (guardrailText P st) := by
  have hself : (st.guardrailRules.filter fun r => r.direction.matches .request) = [] →
      params.mapStrings (guardrailText P st) = params := fun hnone =>
    Json.mapStrings_eq_self (fun t => by rw [guardrailText, if_pos hnone]) params
  unfold admitByGuardrails at h
  split at h
  · next hempty =>
      cases h
      rw [hself (by rw [List.isEmpty_iff.mp hempty]; rfl)]
  · obtain ⟨r, hr, hunblocked, rfl⟩ := admitByScan_exit h
    unfold guardrailScan at hr
    dsimp only at hr
    split at hr
    · next hnone =>
        cases hr
        rcases hnone with hnone | ⟨hdirection, -⟩
        · exact (hself hnone).symm
        · cases hdirection
    · next hsome =>
        obtain ⟨⟨json, blocked⟩, hjson, rfl⟩ := Option.map_eq_some_iff.mp hr
        obtain rfl : blocked = false := hunblocked
        rw [ScanResult.of_result]
        refine scanJsonStrings_unblocked (fun text out hout => ?_) hjson
        rw [guardrailText, if_neg fun hnone => hsome (.inl hnone)]
        refine scanText_unblocked (fun r hr => ?_) hout
        obtain ⟨rule, hrule, rfl⟩ := List.mem_map.mp hr
        exact (List.mem_filter.mp hrule).2

end Calls

/-! ### What is forwarded -/

/-- A value has a name or a URI. -/
def Named (j : Json) : Prop := (j.get "name".toList).isSome ∨ (j.get "uri".toList).isSome

/-- The strings of a value, its name and its URI apart. -/
def otherStrings (j : Json) : List Text :=
  (replaceField "uri".toList .null (replaceField "name".toList .null j)).strings

/-- None of the texts occurs in the text. -/
def Free (texts : Set Text) (text : Text) : Prop := ∀ m ∈ texts, ¬ m <:+: text

/-- The parameters of a message. -/
def messageParams (message : Json) : Json := (message.get "params".toList).getD .null

section Fields

variable {key k : Text} {v w j : Json} {t s : Text} {f : Text → Text}

theorem replaceField_obj (key : Text) (v : Json) (fields : List (Text × Json)) :
    replaceField key v (.obj fields) =
      if (Data.Dict.lookup fields key).isSome then .obj (Data.Dict.set fields key v) else .obj fields := by
  rw [replaceField, Json.get_obj]
  rfl

theorem replaceField_other (hj : j.asObject = none) : replaceField key v j = j := by
  cases j with
  | obj fields => cases hj
  | _ => rfl

theorem get_replaceField (h : k ≠ key) : (replaceField key v j).get k = j.get k := by
  cases j with
  | obj fields =>
      rw [replaceField_obj]
      split
      · rw [Json.get_obj, Json.get_obj, Data.Dict.lookup_set_other _ _ h]
      · rfl
  | _ => rfl

/-- Two fields are replaced in either order. -/
theorem replaceField_comm (h : k ≠ key) :
    replaceField k v (replaceField key w j) = replaceField key w (replaceField k v j) := by
  cases j with
  | obj fields =>
      by_cases hkey : (Data.Dict.lookup fields key).isSome
      · by_cases hk : (Data.Dict.lookup fields k).isSome
        · simp only [replaceField_obj, hkey, hk, if_true, Data.Dict.lookup_set_other _ _ h,
            Data.Dict.lookup_set_other _ _ h.symm, Data.Dict.set_comm h hk hkey]
        · simp only [replaceField_obj, hkey, hk, if_true, Bool.false_eq_true, if_false,
            Data.Dict.lookup_set_other _ _ h]
      · by_cases hk : (Data.Dict.lookup fields k).isSome
        · simp only [replaceField_obj, hkey, hk, if_true, Bool.false_eq_true, if_false,
            Data.Dict.lookup_set_other _ _ h.symm]
        · simp only [replaceField_obj, hkey, hk, Bool.false_eq_true, if_false]
  | _ => rfl

/-- The strings of a value with a field replaced by a text: the text, and those beside it. -/
theorem mem_strings_replaceField :
    s ∈ (replaceField key (.str t) j).strings ↔
      ((j.get key).isSome ∧ s = t) ∨ s ∈ (replaceField key .null j).strings := by
  cases j with
  | obj fields =>
      rw [replaceField_obj, replaceField_obj, Json.get_obj]
      by_cases hkey : (Data.Dict.lookup fields key).isSome
      · rw [if_pos hkey, if_pos hkey, Json.strings_obj, Json.strings_obj]
        induction fields with
        | nil => cases hkey
        | cons e fields ih =>
            rw [Data.Dict.set, Data.Dict.set]
            by_cases he : e.1 = key
            · simp [he, hkey, Json.strings]
            · rw [Data.Dict.lookup_cons, if_neg he] at hkey
              rw [if_neg he, if_neg he, List.flatMap_cons, List.mem_append, ih hkey,
                Data.Dict.lookup_cons, if_neg he, List.flatMap_cons, List.mem_append, or_left_comm]
      · simp [hkey]
  | _ => simp [replaceField, Json.get]

theorem mapStrings_replaceField :
    (replaceField key .null j).mapStrings f = replaceField key .null (j.mapStrings f) := by
  cases j with
  | obj fields =>
      rw [Json.mapStrings_obj, replaceField_obj, replaceField_obj, Data.Dict.lookup_map,
        Option.isSome_map]
      split
      · rw [Json.mapStrings_obj, Data.Dict.map_set]
        rfl
      · rw [Json.mapStrings_obj]
  | _ => rfl

theorem named_mapStrings : Named (j.mapStrings f) ↔ Named j := by
  rw [Named, Named, Json.get_mapStrings, Json.get_mapStrings, Option.isSome_map, Option.isSome_map]

theorem otherStrings_mapStrings : otherStrings (j.mapStrings f) = (otherStrings j).map f := by
  rw [otherStrings, ← mapStrings_replaceField, ← mapStrings_replaceField, Json.strings_mapStrings]
  rfl

theorem name_ne_uri : "uri".toList ≠ "name".toList := by decide

/-- The strings of the parameters that are forwarded: the name the handler puts back, and those
the scans left. -/
theorem mem_strings_upstream {kind : CallKind} :
    s ∈ (messageParams (upstreamBody kind t j)).strings ↔ (Named j ∧ s = t) ∨ s ∈ otherStrings j := by
  have hparams : messageParams (upstreamBody kind t j) =
      replaceField "uri".toList (.str t) (replaceField "name".toList (.str t) j) := rfl
  rw [hparams, mem_strings_replaceField, get_replaceField name_ne_uri,
    replaceField_comm name_ne_uri, mem_strings_replaceField, get_replaceField name_ne_uri.symm,
    ← replaceField_comm name_ne_uri, ← or_assoc, ← or_and_right, or_comm (a := _ = true)]
  rfl

end Fields

section Handler

variable {P : Platform} {w : World} {st : GatewayState} {auth : AuthContext} {msgId : Json}
  {sessionId ns original : Text} {params : Json} {kind : CallKind} {pr : PolicyResult}
  {before after : List Effect} {server : ServerConfig} {message : Json}

/-- **The name is forwarded as it came.**  The parameters of a call that is forwarded are free of
the texts its DLP scan matched if and only if the requested name is, without its prefix and as
it came, and every other string is once the rules have rewritten it. -/
theorem forwarded_free_iff
    (hsent : (handleCall P w st sessionId msgId params auth kind).effects =
      before ++ .sent server message :: after)
    (htarget : callTarget kind (callName params) = some (ns, original))
    (hdecided : checkAccess P st auth kind ns (callName params) params = some pr) :
    (∀ s ∈ (messageParams message).strings, Free (matchedTexts P st pr params) s) ↔
      (Named (dlpParams P st pr params) → Free (matchedTexts P st pr params) original) ∧
        ∀ s ∈ otherStrings (dlpParams P st pr params),
          Free (matchedTexts P st pr params) (guardrailText P st s) := by
  obtain ⟨a, ha⟩ := sent_handleCall hsent
  obtain ⟨rfl, rfl⟩ := Prod.mk.inj (Option.some.inj (ha.target.symm.trans htarget))
  obtain rfl : a.decision = pr := Option.some.inj (ha.decided.symm.trans hdecided)
  have hcleared := admitByGuardrails_params ha.cleared
  rw [admitByDlp_params ha.scanned] at hcleared
  rw [ha.message, hcleared]
  constructor
  · intro h
    refine ⟨fun hnamed => h _ (mem_strings_upstream.mpr (.inl ⟨named_mapStrings.mpr hnamed, rfl⟩)),
      fun s hs => h _ (mem_strings_upstream.mpr (.inr ?_))⟩
    rw [otherStrings_mapStrings]
    exact List.mem_map_of_mem hs
  · rintro ⟨hname, hother⟩ s hs
    rcases mem_strings_upstream.mp hs with ⟨hnamed, rfl⟩ | hs
    · exact hname (named_mapStrings.mp hnamed)
    · rw [otherStrings_mapStrings] at hs
      obtain ⟨text, htext, rfl⟩ := List.mem_map.mp hs
      exact hother text htext

end Handler

/-! ### A gateway that redacts a name -/

/-- A rule that redacts a name in requests. -/
def aliceRule : DlpRuleConfig where
  teamId := 1
  enabled := true
  priority := 0
  direction := "request".toList
  detector := some "custom".toList
  findRegex := some "alice".toList
  action := "redact".toList
  applyTo := none

/-- A gateway with that rule. -/
def aliceState : GatewayState :=
  .ofBundle .plain { jiraBundle [] with dlpRules := [aliceRule] }

/-- The parameters of a call whose argument has the name. -/
def noteParams (note : String) : Json :=
  .obj [("name".toList, .str "jira__create".toList),
    ("arguments".toList, .obj [("note".toList, .str note.toList)])]

/-- The run of the call. -/
theorem note_effects :
    (handleCall .plain calmWorld aliceState "s".toList .null (noteParams "by alice") ci .tool).effects =
      [.evaluated "tools/call".toList "jira__create".toList noPolicies,
        .rateChecked 1 "jira__create".toList true, .dlpScanned (noteParams "by alice") false] ++
        .sent jira (upstreamBody .tool "create".toList (noteParams "by [REDACTED]")) :: [] := rfl

theorem forwarded_free_note :
    (∀ s ∈ (messageParams (upstreamBody .tool "create".toList (noteParams "by [REDACTED]"))).strings,
      Free (matchedTexts .plain aliceState noPolicies (noteParams "by alice")) s) ↔
      (Named (dlpParams .plain aliceState noPolicies (noteParams "by alice")) →
        Free (matchedTexts .plain aliceState noPolicies (noteParams "by alice")) "create".toList) ∧
        ∀ s ∈ otherStrings (dlpParams .plain aliceState noPolicies (noteParams "by alice")),
          Free (matchedTexts .plain aliceState noPolicies (noteParams "by alice"))
            (guardrailText .plain aliceState s) :=
  forwarded_free_iff note_effects rfl rfl

/-- The parameters of a read of a resource with the name in its URI. -/
def aliceParams : Json := .obj [("uri".toList, .str "jira__alice".toList)]

/-- The name is matched in the URI, and forwarded in it. -/
theorem matched_uri_forwarded :
    ∃ before message after,
      (handleCall .plain calmWorld aliceState "s".toList .null aliceParams ci .resource).effects =
        before ++ .sent jira message :: after ∧
      ¬ ∀ s ∈ (messageParams message).strings,
        Free (matchedTexts .plain aliceState noPolicies aliceParams) s := by
  have hrun : (handleCall .plain calmWorld aliceState "s".toList .null aliceParams ci
      .resource).effects =
      [.evaluated "resources/read".toList "jira__alice".toList noPolicies,
        .rateChecked 1 "jira__alice".toList true, .dlpScanned aliceParams false] ++
        .sent jira (upstreamBody .resource "alice".toList
          (.obj [("uri".toList, .str "jira__[REDACTED]".toList)])) :: [] := rfl
  refine ⟨_, _, _, hrun, fun hfree => ?_⟩
  have hmatched : "alice".toList ∈ matchedTexts .plain aliceState noPolicies aliceParams :=
    ⟨rfl, _, List.mem_singleton_self _, DlpAction.noConfusion, _, List.mem_singleton_self _, _, rfl,
      List.mem_singleton_self _⟩
  exact hfree "alice".toList (List.mem_singleton_self _) _ hmatched List.infix_rfl

end CorexManager.Gateway
