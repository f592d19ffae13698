import CorexManager.HAProxy.Pasted
import CorexManager.Security.Correct

/-!
# The alternatives of an expression

The condition of an expression is read as its alternatives, the groups of the normal form
(`translate_alternatives`).  They are about the fields of the request, and no field is the variable
with which the security rules mark a request as done: the mark changes no alternative
(`alternatives_withDone`).
-/

namespace CorexManager.Security

open Data
open Expression
open HAProxy (Sample SpeltGroup View)

variable {env : Env} {v : View}

/-- The alternatives of an expression, each with its truth. -/
def alternatives (env : Env) (v : View) (n : Node) : List Bool :=
  (toDnf n).map fun group => group.all (leafMeaning env v)

/-- An expression holds exactly if one of its alternatives does. -/
theorem any_alternatives_iff (n : Node) : (alternatives env v n).any id = true ↔ Means env v n := by
  have hdnf := holds_toDnf_iff (v := fun l => leafMeaning env v l = true) n fun o _ _ => by
    simp [leafMeaning_negate]
  rw [Means, ← hdnf]
  simp [alternatives, NormalForm.Dnf.Holds]

theorem alternatives_ne_nil {n : Node} (h : n.Proper) : alternatives env v n ≠ [] := fun hnil =>
  (toDnf_nonempty h).1 (List.map_eq_nil_iff.mp hnil)

/-! ### The mark of a request that is done -/

/-- The fetch of `txn.sec.done`. -/
def doneWord : Text := "var(txn.sec.done)".toList

/-- What the conditions see of a request once it is done, or before. -/
def withDone (v : View) (done : Bool) : View :=
  { v with samples := fun w =>
      if w = doneWord then (if done then [.bool true] else []) else v.samples w }

theorem withDone_samples {w : Text} (h : w ≠ doneWord) (done : Bool) :
    (withDone v done).samples w = v.samples w := if_neg h

theorem withDone_doneWord (done : Bool) :
    (withDone v done).samples doneWord = if done then [.bool true] else [] := by
  simp [withDone]

/-- A word that begins with another letter. -/
theorem letter_ne_done {c : Char} {w : Text} (h : c ≠ 'v') : c :: w ≠ doneWord :=
  fun heq => h (List.cons.inj heq).1

/-- Another variable. -/
theorem variable_ne_done {w u : Text} (h : w.take 9 = u) (hu : u ≠ "var(txn.s".toList) :
    w ≠ doneWord := fun heq => hu (h.symm.trans (congrArg (List.take 9) heq))

/-- A key of a request is none of its marks. -/
theorem keyedSamples_withDone (done : Bool) (base key : Text) :
    keyedSamples (withDone v done) base key = keyedSamples v base key := by
  have hclaim : "var(txn.auth.claim_".toList ++ key ++ [')'] ≠ doneWord :=
    variable_ne_done (u := "var(txn.a".toList) rfl (by decide)
  have hheader : "req.hdr(".toList ++ key ++ [')'] ≠ doneWord := letter_ne_done (by decide)
  have hcookie : "req.cook(".toList ++ key ++ [')'] ≠ doneWord := letter_ne_done (by decide)
  have hquery : "url_query".toList ≠ doneWord := by decide
  have hresponse : "res.hdr(".toList ++ key ++ [')'] ≠ doneWord := letter_ne_done (by decide)
  unfold keyedSamples
  rw [withDone_samples hheader, withDone_samples hcookie, withDone_samples hquery,
    withDone_samples hresponse, withDone_samples hclaim]

/-- What the word of a fetch begins with tells it from the mark. -/
def unmarkedFetch (t : Text) : Bool :=
  (t.take 9).all (· != '"') && t.take 9 != ['v', 'a', 'r', '(', 't', 'x', 'n', '.', 's']

theorem fetchWord_ne_done {t : Text} (h : unmarkedFetch t = true) : fetchWord t ≠ doneWord := by
  obtain ⟨hquotes, hmark⟩ := Bool.and_eq_true_iff.mp h
  intro heq
  have hsplit : t.take 9 ++ (t.drop 9).filter (· != '"') = doneWord := by
    rw [← heq, fetchWord]
    nth_rewrite 3 [← List.take_append_drop 9 t]
    rw [List.filter_append, List.filter_eq_self.mpr (List.all_eq_true.mp hquotes)]
  have hlength := congrArg List.length hsplit
  rw [List.length_append, show doneWord.length = 17 from rfl] at hlength
  by_cases hlong : 9 ≤ t.length
  · have htake : (t.take 9).length = 9 := List.length_take_of_le hlong
    have hfirst : t.take 9 = doneWord.take 9 := by
      rw [← hsplit, List.take_append_of_le_length htake.ge, List.take_of_length_le htake.le]
    exact bne_iff_ne.mp hmark (hfirst.trans rfl)
  · have hdrop : t.drop 9 = [] := List.drop_eq_nil_of_le (by omega)
    rw [hdrop, List.filter_nil, List.length_nil, List.length_take] at hlength
    omega

/-- The entries of the table read no mark. -/
def entryUnmarked (spec : FieldSpec) : Bool :=
  match spec.template with
  | .fetch t => unmarkedFetch t
  | _ => true

private theorem unmarked_onRequest {t : Text} {type : FieldType} (h : unmarkedFetch t = true) :
    entryUnmarked (onRequest (String.ofList t) type) = true := by
  unfold onRequest entryUnmarked
  dsimp only
  rwa [String.toList_ofList]

private theorem unmarked_onResponse {t : Text} {type : FieldType} (h : unmarkedFetch t = true) :
    entryUnmarked (onResponse (String.ofList t) type) = true := by
  unfold onResponse entryUnmarked
  dsimp only
  rwa [String.toList_ofList]

theorem fieldMap_unmarked : (fieldMap.all fun e => entryUnmarked e.2) = true := by
  unfold fieldMap
  simp only [List.all_cons, List.all_nil, Bool.and_true, Bool.and_eq_true]
  repeat' apply And.intro
  all_goals first
    | exact unmarked_onRequest (by decide)
    | exact unmarked_onResponse (by decide)
    | rfl

private theorem unmarked_ofList {t : Text} (h : unmarkedFetch t = true) :
    unmarkedFetch (String.ofList t).toList = true := by
  rwa [String.toList_ofList]

theorem boolFields_unmarked : (boolFields.all fun e => unmarkedFetch e.2.toList) = true := by
  unfold boolFields
  simp only [List.all_cons, List.all_nil, Bool.and_true, Bool.and_eq_true]
  repeat' apply And.intro
  all_goals exact unmarked_ofList (by decide)
/-- The fetches of the Lua module begin with another letter. -/
theorem geoipLuaFields_unmarked {e : String × String} (h : e ∈ geoipLuaFields) :
    fetchWord e.2.toList ≠ doneWord := by
  have hok := List.all_eq_true.mp geoipLuaFields_ok e h
  simp only [luaFetchOk, Bool.and_eq_true, beq_iff_eq] at hok
  intro heq
  have hhead : doneWord.head? = some 's' := heq ▸ hok.1.2
  exact absurd hhead (by decide)

theorem mem_of_tableGet {α : Type*} {table : List (String × α)} {key : Text} {x : α}
    (h : tableGet table key = some x) : ∃ name, (name, x) ∈ table := by
  obtain ⟨e, he, rfl⟩ := Option.map_eq_some_iff.mp h
  exact ⟨e.1, List.mem_of_find?_eq_some he⟩

theorem fetchWord_geoip {field : Text} {spec : FieldSpec} {native : Text} {exists? : Bool}
    {missing : TranslateError} {r : Resolved} (hnative : fetchWord native ≠ doneWord)
    (h : resolveGeoip env field spec native exists? missing = .ok r) :
    fetchWord r.fetch ≠ doneWord := by
  unfold resolveGeoip at h
  split at h
  · next fetch hlua =>
      obtain rfl := Except.ok.inj h
      split at hlua
      · obtain ⟨name, hmem⟩ := mem_of_tableGet hlua
        exact geoipLuaFields_unmarked hmem
      · cases hlua
  · split at h
    · split at h
      · obtain rfl := Except.ok.inj h
        exact hnative
      · cases h
    · split at h
      · obtain rfl := Except.ok.inj h
        exact letter_ne_done (c := 's') (by decide)
      · split at h
        · obtain rfl := Except.ok.inj h
          exact letter_ne_done (c := 's') (by decide)
        · cases h

/-- The fetch of a key. -/
theorem fetchWord_resolveBracket {base key : Text} {r : Resolved}
    (h : resolveBracket env base key = .ok r) : fetchWord r.fetch ≠ doneWord := by
  unfold resolveBracket at h
  dsimp only at h
  split at h
  · obtain rfl := Except.ok.inj h
    exact letter_ne_done (c := 'r') (by decide)
  · split at h
    · obtain rfl := Except.ok.inj h
      exact letter_ne_done (c := 'r') (by decide)
    · split at h
      · obtain rfl := Except.ok.inj h
        exact letter_ne_done (c := '_') (by decide)
      · split at h
        · obtain rfl := Except.ok.inj h
          exact letter_ne_done (c := 'r') (by decide)
        · split at h
          · obtain rfl := Except.ok.inj h
            exact variable_ne_done (u := "var(txn.a".toList) rfl (by decide)
          · cases h

/-- **No field is the mark**: the fetch of a field is another variable, or none. -/
theorem fetchWord_resolveField {field : Text} {r : Resolved} (h : resolveField env field = .ok r) :
    fetchWord r.fetch ≠ doneWord := by
  have hgeoip : ∀ db record, fetchWord (geoip2Fetch db record) ≠ doneWord := fun _ _ =>
    letter_ne_done (c := 's') (by decide)
  unfold resolveField at h
  split at h
  · exact fetchWord_resolveBracket h
  · split at h
    · next spec hspec =>
        obtain ⟨name, hmem⟩ := mem_of_tableGet hspec
        have hentry := List.all_eq_true.mp fieldMap_unmarked _ hmem
        split at h
        · next fetch htemplate =>
            obtain rfl := Except.ok.inj h
            unfold entryUnmarked at hentry
            rw [htemplate] at hentry
            exact fetchWord_ne_done hentry
        · next record _ => exact fetchWord_geoip (hgeoip env.geoDb record) h
        · next record _ => exact fetchWord_geoip (hgeoip env.asnDb record) h
    · split at h
      · next fetch hbool =>
          obtain rfl := Except.ok.inj h
          obtain ⟨name, hmem⟩ := mem_of_tableGet hbool
          exact fetchWord_ne_done (List.all_eq_true.mp boolFields_unmarked _ hmem)
      · cases h

theorem fetchWord_ruleset {field : Text} {r : Resolved}
    (h : resolveRiskRulesetField env field = .ok (some r)) : fetchWord r.fetch ≠ doneWord := by
  have hknown : ∀ (slug : Text) (attr : String) (type : FieldType),
      (if slug ∈ env.slugs then
        (.ok (some ⟨"var(txn.risk.".toList ++ slug ++ '.' :: attr.toList ++ [')'], .request, type,
          none⟩) : Except TranslateError (Option Resolved))
      else .error (.unknownRuleset slug)) = .ok (some r) → fetchWord r.fetch ≠ doneWord := by
    intro slug attr type hok
    split at hok
    · obtain rfl := Option.some.inj (Except.ok.inj hok)
      exact variable_ne_done (u := "var(txn.r".toList) rfl (by decide)
    · cases hok
  unfold resolveRiskRulesetField at h
  dsimp only at h
  split at h
  · exact hknown _ _ _ h
  · split at h
    · exact hknown _ _ _ h
    · split at h
      · exact hknown _ _ _ h
      · split at h
        · exact hknown _ _ _ h
        · cases h

theorem fetchWord_tableFetch {field : Text} {r : Resolved} (h : tableFetch env field = some r) :
    fetchWord r.fetch ≠ doneWord := by
  unfold tableFetch at h
  split at h
  · next resolved hrisk =>
      obtain rfl := Option.some.inj h
      exact fetchWord_ruleset hrisk
  · split at h
    · next resolved hok =>
        obtain rfl := Option.some.inj h
        exact fetchWord_resolveField hok
    · cases h

/-- The samples of a field do not depend on the mark. -/
theorem fieldSamples_withDone (done : Bool) (field : Text) :
    fieldSamples env (withDone v done) field = fieldSamples env v field := by
  unfold fieldSamples
  split
  · exact keyedSamples_withDone done _ _
  · split
    · next r hr => rw [withDone_samples (fetchWord_tableFetch hr)]
    · rfl

theorem leafMeaning_withDone (done : Bool) (l : Leaf) :
    leafMeaning env (withDone v done) l = leafMeaning env v l := by
  have hengine : (withDone v done).engine = v.engine := rfl
  have hkind : kindMeaning env (withDone v done) l.kind = kindMeaning env v l.kind := by
    unfold kindMeaning
    split <;> first | rfl | simp only [fieldSamples_withDone, hengine]
  rw [leafMeaning, leafMeaning, hkind]

/-- **The mark changes no alternative.** -/
theorem alternatives_withDone (done : Bool) (n : Node) :
    alternatives env (withDone v done) n = alternatives env v n := by
  have hleaf : leafMeaning env (withDone v done) = leafMeaning env v :=
    funext (leafMeaning_withDone done)
  rw [alternatives, hleaf, alternatives]

theorem Documented.withDone (h : Documented env v) (done : Bool) :
    Documented env (withDone v done) where
  requestHeader name := by
    have hword : ∀ key, "req.hdr(".toList ++ key ++ [')'] ≠ doneWord := fun key =>
      letter_ne_done (by decide)
    rw [withDone_samples (hword _), withDone_samples (hword _)]
    exact h.requestHeader name
  responseHeader name := by
    have hword : ∀ key, "res.hdr(".toList ++ key ++ [')'] ≠ doneWord := fun key =>
      letter_ne_done (by decide)
    rw [withDone_samples (hword _), withDone_samples (hword _)]
    exact h.responseHeader name
  strings field r hr htype s hs := by
    rw [withDone_samples (fetchWord_resolveField hr)] at hs
    exact h.strings field r hr htype s hs
  addresses s hs := by
    rw [withDone_samples (by decide)] at hs
    exact h.addresses s hs
  encrypted s hs := by
    rw [withDone_samples (by decide)] at hs
    exact h.encrypted s hs

/-- **A condition is read as its alternatives.** -/
theorem translate_alternatives (hdoc : Documented env v) (hpaths : env.PlainPaths) {n : Node}
    {cond : Text} {phase : Phase} (hproper : n.Proper)
    (hfaithful : ∀ o ∈ n.occurrences true, Faithful env (o.2.signed o.1) = true)
    (h : translate env n = .ok (cond, phase)) : HAProxy.Spelt v cond (alternatives env v n) :=
  translate_spelt hdoc hpaths hproper hfaithful h

/-! ### An expression of two alternatives -/

/-- `not http.request.method = "POST" or http.request.method = "GET"`. -/
def postOrGet : Node :=
  .or [.not (.leaf ⟨.compare "http.request.method".toList .eq (.str "POST".toList), false⟩),
    .leaf ⟨.compare "http.request.method".toList .eq (.str "GET".toList), false⟩]

/-- Its text. -/
def postOrGetText : Text :=
  "not http.request.method = \"POST\" or http.request.method = \"GET\"".toList

/-- Its condition. -/
def postOrGetCond : Text := "!\x7b method POST \x7d or \x7b method GET \x7d".toList

theorem parse_postOrGet : parseExpression .ascii boolFieldsSet postOrGetText = .ok postOrGet := by
  have htok : tokenize .ascii
      "not http.request.method = \"POST\" or http.request.method = \"GET\"".toList =
        .ok [⟨.keyword .not, 0⟩, ⟨.ident "http.request.method".toList, 4⟩, ⟨.op .eq, 24⟩,
          ⟨.string "POST".toList, 26⟩, ⟨.keyword .or, 33⟩,
          ⟨.ident "http.request.method".toList, 36⟩, ⟨.op .eq, 56⟩, ⟨.string "GET".toList, 58⟩,
          ⟨.eof, 63⟩] := by
    rw [toList_of_eq (s := "not http.request.method = \"POST\" or http.request.method = \"GET\"")
      rfl, toList_of_eq (s := "http.request.method") rfl]
    rfl
  unfold postOrGetText
  rw [parseExpression_of_tokens rfl htok]
  rfl

theorem translate_postOrGet : translate .plain postOrGet = .ok (postOrGetCond, .request) := rfl

theorem faithful_postOrGet :
    ∀ o ∈ postOrGet.occurrences true, Faithful .plain (o.2.signed o.1) = true := by
  have hleaves : postOrGet.occurrences true =
      [(false, ⟨.compare "http.request.method".toList .eq (.str "POST".toList), false⟩),
        (true, ⟨.compare "http.request.method".toList .eq (.str "GET".toList), false⟩)] := rfl
  rw [hleaves]
  decide +kernel

/-- A request without samples, not even a method; the named ACLs hold of it. -/
def blankView : View where
  engine := .simple
  samples _ := []
  named _ := true

theorem blankView_documented : Documented .plain blankView where
  requestHeader _ := rfl
  responseHeader _ := rfl
  strings _ _ _ _ _ hs := absurd hs List.not_mem_nil
  addresses _ hs := absurd hs List.not_mem_nil
  encrypted _ hs := absurd hs List.not_mem_nil

end CorexManager.Security
