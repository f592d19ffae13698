import CorexManager.Gateway.Listing

/-!
# Listing and calling agree

An item of a catalog is listed if and only if a call of it passes the policy check, provided
that no policy mentions the arguments of a call (`listed_iff_passes`).  The two checks are made
at different places: one evaluates the policies for an entry of a catalog that has been renamed,
the other for the name in a request.  The name leads back to the server because the namespace
holds no separator, and the arguments, which a list does not have, are the only field in which
the two contexts differ.
-/

namespace CorexManager.Gateway

open Data (Dict.lookup Json Text)

/-! ### Expressions that do not mention the arguments -/

namespace Expr

mutual

/-- The fields of an expression. -/
def fields : Expr → List Text
  | .and es => fieldsOfAll es
  | .or es => fieldsOfAll es
  | .not e => e.fields
  | .compare field _ _ _ => [field]
  | .inList field _ _ _ => [field]
  | .inLiterals field _ _ => [field]
  | .exists field _ => [field]
  | .boolField field _ => [field]
  | .literal _ => []

/-- The fields of some expressions. -/
def fieldsOfAll : List Expr → List Text
  | [] => []
  | e :: es => e.fields ++ fieldsOfAll es

end

end Expr

/-- The field that holds the arguments of a call. -/
def argField : Text := "mcp.arg".toList

/-- A field is the arguments of a call, or one of them. -/
def MentionsArguments (field : Text) : Prop := field = argField ∨ argField ++ ['['] <+: field

/-- No policy mentions the arguments of a call. -/
def PolicyEngine.ArgumentFree (engine : PolicyEngine) : Prop :=
  ∀ p ∈ engine.policies, ∀ field ∈ p.ast.fields, ¬ MentionsArguments field

/-- Two contexts that differ in the arguments at most. -/
structure SameButArguments (c c' : EvalContext) : Prop where
  fields : ∀ key, key ≠ argField → Dict.lookup c.fields key = Dict.lookup c'.fields key
  resolver : c.listResolver = c'.listResolver

section Congruence

variable {P : Platform} {c c' : EvalContext}

/-- What is before the first separator has none in it. -/
theorem splitOn_eq_cons (sep : Char) (t : Text) :
    ∃ first rest, t.splitOn sep = first :: rest ∧ sep ∉ first := by
  by_cases h : sep ∈ t
  · obtain ⟨a, b, rfl, ha⟩ := List.eq_append_cons_of_mem h
    exact ⟨a, b.splitOn sep, List.splitOn_append_cons_self_of_not_mem ha b, ha⟩
  · exact ⟨t, [], List.splitOn_eq_singleton h, h⟩

theorem descend_congr (h : SameButArguments c c') (field : Text) :
    descend (.obj c.fields) (field.splitOn '.') = descend (.obj c'.fields) (field.splitOn '.') := by
  obtain ⟨first, rest, hsplit, hdot⟩ := splitOn_eq_cons '.' field
  have hfirst : first ≠ argField := by
    rintro rfl
    exact hdot (by decide)
  rw [hsplit, descend, descend, h.fields first hfirst]

theorem resolveKey_congr (h : SameButArguments c c') {field : Text} {bracket last : ℕ}
    (hfield : ¬ MentionsArguments field) (hbracket : Rust.rfind "[\"".toList field = some bracket) :
    resolveKey c.fields field bracket last = resolveKey c'.fields field bracket last := by
  have hbase : field.take bracket ≠ argField := by
    intro hbase
    obtain ⟨rest, hrest⟩ := Rust.rfind_eq_some hbracket
    refine hfield (.inr ⟨'"' :: rest, ?_⟩)
    rw [← List.take_append_drop bracket field, ← hrest, hbase]
    simp
  unfold resolveKey Rust.slice
  simp only [Nat.zero_le, if_true, List.drop_zero, Option.bind_eq_bind, Option.bind_some]
  rw [h.fields _ hbase]

/-- A field that is not of the arguments does not depend on them. -/
theorem resolveFieldValue_congr (h : SameButArguments c c') {field : Text}
    (hfield : ¬ MentionsArguments field) :
    resolveFieldValue field c.fields = resolveFieldValue field c'.fields := by
  have hplain : Dict.lookup c.fields field = Dict.lookup c'.fields field :=
    h.fields field fun heq => hfield (.inl heq)
  unfold resolveFieldValue
  rw [hplain, descend_congr h field]
  cases hbracket : Rust.rfind "[\"".toList field with
  | none => rfl
  | some bracket =>
      cases Rust.rfind "\"]".toList field with
      | none => rfl
      | some last =>
          dsimp only
          rw [resolveKey_congr h hfield hbracket]

mutual

/-- An expression that does not mention the arguments does not depend on them. -/
theorem evaluate_congr (h : SameButArguments c c') : (e : Expr) →
    (∀ field ∈ e.fields, ¬ MentionsArguments field) → evaluate P c e = evaluate P c' e
  | .and es, he => by
      rw [evaluate, evaluate]
      exact evaluateAll_congr h es he
  | .or es, he => by
      rw [evaluate, evaluate]
      exact evaluateAny_congr h es he
  | .not e, he => by rw [evaluate, evaluate, evaluate_congr h e he]
  | .literal b, _ => by rw [evaluate, evaluate]
  | .compare field op value regex, he => by
      rw [evaluate, evaluate, resolveFieldValue_congr h (he field (List.mem_singleton_self _))]
  | .inList field listType listName negated, he => by
      rw [evaluate, evaluate, resolveFieldValue_congr h (he field (List.mem_singleton_self _)),
        h.resolver]
  | .inLiterals field values negated, he => by
      rw [evaluate, evaluate, resolveFieldValue_congr h (he field (List.mem_singleton_self _))]
  | .exists field negated, he => by
      rw [evaluate, evaluate, resolveFieldValue_congr h (he field (List.mem_singleton_self _))]
  | .boolField field negated, he => by
      rw [evaluate, evaluate, resolveFieldValue_congr h (he field (List.mem_singleton_self _))]

theorem evaluateAll_congr (h : SameButArguments c c') : (es : List Expr) →
    (∀ field ∈ Expr.fieldsOfAll es, ¬ MentionsArguments field) →
    evaluateAll P c es = evaluateAll P c' es
  | [], _ => rfl
  | e :: es, he => by
      rw [Expr.fieldsOfAll, List.forall_mem_append] at he
      rw [evaluateAll, evaluateAll, evaluate_congr h e he.1, evaluateAll_congr h es he.2]

theorem evaluateAny_congr (h : SameButArguments c c') : (es : List Expr) →
    (∀ field ∈ Expr.fieldsOfAll es, ¬ MentionsArguments field) →
    evaluateAny P c es = evaluateAny P c' es
  | [], _ => rfl
  | e :: es, he => by
      rw [Expr.fieldsOfAll, List.forall_mem_append] at he
      rw [evaluateAny, evaluateAny, evaluate_congr h e he.1, evaluateAny_congr h es he.2]

end

theorem firstMatch_congr (h : SameButArguments c c') (ps : List CompiledPolicy)
    (hps : ∀ p ∈ ps, ∀ field ∈ p.ast.fields, ¬ MentionsArguments field) :
    firstMatch P c ps = firstMatch P c' ps := by
  induction ps with
  | nil => rfl
  | cons p ps ih =>
      obtain ⟨hp, hps⟩ := List.forall_mem_cons.mp hps
      rw [firstMatch, firstMatch, evaluate_congr h p.ast hp, ih hps]

theorem PolicyEngine.evaluate_congr {engine : PolicyEngine} (h : SameButArguments c c')
    (hfree : engine.ArgumentFree) : engine.evaluate P c = engine.evaluate P c' := by
  rw [PolicyEngine.evaluate, PolicyEngine.evaluate, firstMatch_congr h engine.policies hfree]

end Congruence

/-! ### Items as clients see them -/

namespace CallKind

/-- The text of an item by which it is called. -/
def key : CallKind → Text
  | resource => "uri".toList
  | tool | prompt => "name".toList

/-- Where the text it had is noted. -/
def metaKey : CallKind → Text
  | resource => "mcp_original_uri".toList
  | tool | prompt => "mcp_original_name".toList

/-- What the clients call an item of a namespace. -/
def clientName (kind : CallKind) (ns name : Text) : Text :=
  match kind with
  | resource => wrapResourceUri ns name
  | tool | prompt => prefixName ns name

/-- The items of a catalog. -/
def items : CallKind → Catalog → List Json
  | tool => Catalog.tools
  | resource => Catalog.resources
  | prompt => Catalog.prompts

/-- Where the items are in a list. -/
def listKey : CallKind → Text
  | tool => "tools".toList
  | resource => "resources".toList
  | prompt => "prompts".toList

/-- An item in a list. -/
def shown (kind : CallKind) (ns : Text) (item : Json) : Json :=
  renamed kind.key kind.metaKey (kind.clientName ns) ns item

/-- The name of an item, if it has one. -/
def itemName (kind : CallKind) (item : Json) : Option Text := (item.get kind.key).bind Json.asStr

/-- The request for a list. -/
def list (P : Platform) (w : World) (st : GatewayState) (msgId : Json) (auth : AuthContext) :
    CallKind → Run Response
  | tool => handleToolsList P w st msgId auth
  | resource => handleResourcesList P w st msgId auth
  | prompt => handlePromptsList P w st msgId auth

/-- The items of a response. -/
def listed (kind : CallKind) (r : Response) : List Json :=
  (((r.body.bind fun body => body.get "result".toList).bind fun result =>
    result.get kind.listKey).bind Json.asArray).getD []

/-- A name leads back to its server: the namespace has no separator in it, and no name of the
gateway itself is in the way. -/
def Routable (kind : CallKind) (ns name : Text) : Prop :=
  match kind with
  | tool => Rust.splitOncePair '_' (ns ++ ['_']) = none ∧ isMetaTool (prefixName ns name) = false
  | resource => '/' ∉ ns
  | prompt => Rust.splitOncePair '_' (ns ++ ['_']) = none ∧ ns ≠ skillNamespace

end CallKind

/-- The policy check of a call is made, and does not deny it. -/
def Passes (P : Platform) (w : World) (st : GatewayState) (sessionId : Text)
    (msgId params : Json) (auth : AuthContext) (kind : CallKind) : Prop :=
  ∃ pr, .evaluated kind.method (callName params) pr ∈
    (handleCall P w st sessionId msgId params auth kind).effects ∧ pr.denied = false

section Agreement

variable {P : Platform} {w : World} {st : GatewayState} {auth : AuthContext} {kind : CallKind}
  {ns name : Text} {item : Json}

/-! ### Names lead back -/

theorem callTarget_clientName (hroutable : kind.Routable ns name) :
    ∃ original, callTarget kind (kind.clientName ns name) = some (ns, original) := by
  have hprefix : ∀ h : Rust.splitOncePair '_' (ns ++ ['_']) = none,
      Rust.splitOncePair '_' (prefixName ns name) = some (ns, name) := by
    intro h
    rw [prefixName, List.append_assoc]
    exact Rust.splitOncePair_append name h
  cases kind with
  | tool => exact ⟨name, hprefix hroutable.1⟩
  | prompt => exact ⟨name, hprefix hroutable.1⟩
  | resource =>
      have hunwrap : unwrapResourceUri (wrapResourceUri ns name) =
          (some ns, urlDecode (urlEncode name)) := by
        rw [wrapResourceUri_eq]
        exact unwrapResourceUri_eq (Rust.splitOnce_append (urlEncode name) hroutable)
      exact ⟨urlDecode (urlEncode name), by
        rw [CallKind.clientName, callTarget, hunwrap]⟩

/-- The item has the name the clients call. -/
theorem itemText_shown (hname : kind.itemName item = some name) :
    itemText kind.key (kind.shown ns item) = kind.clientName ns name :=
  itemText_renamed (by cases kind <;> decide) hname

/-- The server an item in a list is said to come from. -/
def serverOf (item : Json) : Option Json :=
  (item.get "_meta".toList).bind fun metadata => metadata.get "mcp_server".toList

theorem asObject_setField (key : Text) (v j : Json) :
    (setField key v j).asObject.isSome = j.asObject.isSome := by
  cases j <;> rfl

theorem serverOf_shown (hname : kind.itemName item = some name) :
    serverOf (kind.shown ns item) = some (.str ns) := by
  have hkey : "mcp_server".toList ≠ kind.metaKey := by cases kind <;> decide
  obtain ⟨v, hv, -⟩ := Option.bind_eq_some_iff.mp hname
  rw [CallKind.itemName] at hname
  rw [serverOf, CallKind.shown, renamed, hname]
  dsimp only
  rw [get_setField_self (by rw [asObject_setField]; exact asObject_of_get hv), Option.bind_some,
    Json.get_obj, Data.Dict.lookup_set_other _ _ hkey, Data.Dict.lookup_set_self]

theorem clientName_ne_nil (kind : CallKind) (ns name : Text) : kind.clientName ns name ≠ [] := by
  cases kind <;> simp [CallKind.clientName, prefixName, wrapResourceUri]

/-- An item without a name is left alone. -/
theorem shown_of_unnamed (hname : kind.itemName item = none) : kind.shown ns item = item := by
  rw [CallKind.itemName] at hname
  rw [CallKind.shown, renamed, hname]

/-! ### What is listed -/

/-- What a server contributes to a list, unless it panics. -/
def entries (P : Platform) (st : GatewayState) (auth : AuthContext) (kind : CallKind)
    (s : ServerConfig) (catalog : Catalog) : Option (List Json) :=
  filterList (fun item => checkAccess P st auth kind s.serverNamespace (itemText kind.key item) .null)
    ((kind.items catalog).map (kind.shown s.serverNamespace))

/-- The entries of a list that are of the gateway itself. -/
def ownEntries (P : Platform) (st : GatewayState) (auth : AuthContext) :
    CallKind → Option (List Json)
  | .tool => some (if st.discoveryMode auth.teamId = .passthrough then [] else metaToolDefinitions)
  | .resource => some []
  | .prompt => (if st.skills.hasSkills then SkillsRegistry.getEnabledSkills P auth st.skills.skills
      else some []).map (List.map SkillsRegistry.buildPromptEntry)

/-- The three lists are made in the same way. -/
theorem list_eq (kind : CallKind) (msgId : Json) :
    kind.list P w st msgId auth = (do
      let (merged, warnings) ← Run.orPanic
        (mergeLists w (entries P st auth kind) (st.visible auth.teamId))
      let own ← Run.orPanic (ownEntries P st auth kind)
      Run.pure (successResponse msgId (listResult kind.listKey (merged ++ own) warnings))) := by
  cases kind with
  | tool => rfl
  | resource =>
      show (Run.orPanic _ >>= _) = Run.orPanic _ >>= _
      congr 1
      funext r
      show Run.pure _ = Run.pure (successResponse msgId (listResult _ (r.1 ++ []) r.2))
      rw [List.append_nil]
      rfl
  | prompt =>
      show (Run.orPanic _ >>= _) = Run.orPanic _ >>= _
      congr 1
      funext r
      show (Run.orPanic _ >>= _) = Run.orPanic (Option.map _ _) >>= _
      cases (if st.skills.hasSkills then SkillsRegistry.getEnabledSkills P auth st.skills.skills
        else some []) <;> rfl

theorem listed_success (kind : CallKind) (msgId : Json) (items warnings : List Json) :
    kind.listed (successResponse msgId (listResult kind.listKey items warnings)) = items := by
  show (((listResult kind.listKey items warnings).get kind.listKey).bind Json.asArray).getD [] = _
  rw [listResult, Json.get_obj, Data.Dict.lookup_cons, if_pos rfl]
  rfl

/-- What a server contributes to a list. -/
def contribution (P : Platform) (st : GatewayState) (auth : AuthContext) (kind : CallKind)
    (s : ServerConfig) (catalog : Catalog) : List Json :=
  ((kind.items catalog).map (kind.shown s.serverNamespace)).filter fun item =>
    (checkAccess P st auth kind s.serverNamespace (itemText kind.key item) .null).any
      PolicyResult.listed

/-- A list holds what the servers contribute, and entries of the gateway. -/
theorem listed_list {msgId : Json} {r : Response}
    (h : (kind.list P w st msgId auth).exit = .value r) :
    ∃ own, ownEntries P st auth kind = some own ∧
      kind.listed r = ((st.visible auth.teamId).flatMap fun s =>
        (w.catalog s.id).elim [] (contribution P st auth kind s)) ++ own := by
  rw [list_eq] at h
  obtain ⟨⟨merged, warnings⟩, hmerged, h, -⟩ := Run.value_bind h
  obtain ⟨own, hown, h, -⟩ := Run.value_bind h
  cases h
  refine ⟨own, Run.orPanic_value.mp hown, (listed_success kind _ _ _).trans ?_⟩
  have hmerge : merged = (st.visible auth.teamId).flatMap fun s =>
      (w.catalog s.id).elim [] (contribution P st auth kind s) :=
    mergeLists_eq_some (fun s c items h => filterList_eq_some h) (Run.orPanic_value.mp hmerged)
  rw [hmerge]

theorem isMetaTool_of_mem {item : Json} (h : item ∈ metaToolDefinitions) :
    isMetaTool (itemText "name".toList item) = true := by
  obtain ⟨t, -, rfl⟩ := List.mem_map.mp h
  cases t <;> rfl

/-- No entry of the gateway looks like an item that is routed to a server. -/
theorem not_mem_ownEntries {own : List Json} (hown : ownEntries P st auth kind = some own)
    (hname : kind.itemName item = some name) (hroutable : kind.Routable ns name) :
    kind.shown ns item ∉ own := by
  intro h
  cases kind with
  | resource =>
      cases hown
      cases h
  | tool =>
      obtain rfl := Option.some.inj hown
      split at h
      · cases h
      have hmeta := isMetaTool_of_mem h
      have htext : itemText "name".toList (CallKind.tool.shown ns item) = prefixName ns name :=
        itemText_shown hname
      rw [htext, hroutable.2] at hmeta
      cases hmeta
  | prompt =>
      obtain ⟨skills, -, rfl⟩ := Option.map_eq_some_iff.mp hown
      obtain ⟨skill, -, hskill⟩ := List.mem_map.mp h
      have hserver : serverOf (CallKind.prompt.shown ns item) = _ := serverOf_shown hname
      rw [← hskill] at hserver
      exact hroutable.2 (Json.str.inj (Option.some.inj hserver)).symm

/-- **An item of a server that is seen is listed if and only if its check lets it through.** -/
theorem mem_listed {s : ServerConfig} {catalog : Catalog} {msgId : Json} {r : Response}
    (hs : s ∈ st.visible auth.teamId) (hcatalog : w.catalog s.id = some catalog)
    (hitem : item ∈ kind.items catalog) (hname : kind.itemName item = some name)
    (hroutable : kind.Routable s.serverNamespace name)
    (hlist : (kind.list P w st msgId auth).exit = .value r) :
    kind.shown s.serverNamespace item ∈ kind.listed r ↔
      (checkAccess P st auth kind s.serverNamespace (kind.clientName s.serverNamespace name)
        .null).any PolicyResult.listed = true := by
  obtain ⟨own, hown, hlisted⟩ := listed_list hlist
  rw [hlisted, List.mem_append]
  constructor
  · rintro (hmem | hmem)
    · obtain ⟨s', -, hmem⟩ := List.mem_flatMap.mp hmem
      cases hcatalog' : w.catalog s'.id with
      | none =>
          rw [hcatalog'] at hmem
          cases hmem
      | some catalog' =>
          rw [hcatalog', Option.elim_some] at hmem
          obtain ⟨hmem, hcheck⟩ := List.mem_filter.mp hmem
          rw [itemText_shown hname] at hcheck
          obtain ⟨item', -, heq⟩ := List.mem_map.mp hmem
          -- Another server may list an item that looks the same, but then it has its namespace.
          have hns : s'.serverNamespace = s.serverNamespace := by
            have hserver : serverOf (kind.shown s.serverNamespace item) = _ := serverOf_shown hname
            cases hname' : kind.itemName item' with
            | none =>
                rw [shown_of_unnamed hname'] at heq
                have htext : itemText kind.key (kind.shown s.serverNamespace item) = _ :=
                  itemText_shown hname
                rw [← heq, itemText] at htext
                rw [CallKind.itemName] at hname'
                rw [hname'] at htext
                exact absurd htext.symm (clientName_ne_nil kind s.serverNamespace name)
            | some name' =>
                rw [← heq, serverOf_shown hname'] at hserver
                exact Json.str.inj (Option.some.inj hserver)
          rw [hns] at hcheck
          exact hcheck
    · exact absurd hmem (not_mem_ownEntries hown hname hroutable)
  · intro hcheck
    refine .inl (List.mem_flatMap.mpr ⟨s, hs, ?_⟩)
    rw [hcatalog, Option.elim_some]
    refine List.mem_filter.mpr ⟨List.mem_map_of_mem hitem, ?_⟩
    rw [itemText_shown hname]
    exact hcheck

/-! ### What passes -/

theorem admitByPolicy_some {msgId params : Json} {pr : PolicyResult}
    (hcheck : checkAccess P st auth kind ns name params = some pr) :
    admitByPolicy P st msgId auth kind ns name params =
      ⟨[.evaluated kind.method name pr], if pr.denied then .reply
        (errorResponse msgId policyDenied ("Policy denied: ".toList ++ pr.ruleName) 200)
        else .value pr⟩ := by
  rw [admitByPolicy, hcheck, Run.bind_value _ (a := pr) rfl, Run.bind_value _ (a := ()) rfl]
  cases pr.denied <;> rfl

/-- The policy check of a run is the one with which it begins. -/
theorem evaluated_bind {msgId params : Json} {f : PolicyResult → Run Response} :
    (∃ pr, .evaluated kind.method name pr ∈
      (admitByPolicy P st msgId auth kind ns name params >>= f).effects ∧ pr.denied = false) ↔
    (checkAccess P st auth kind ns name params).any PolicyResult.listed = true := by
  cases hcheck : checkAccess P st auth kind ns name params with
  | none =>
      have hrun : admitByPolicy P st msgId auth kind ns name params = ⟨[], .panic⟩ := by
        rw [admitByPolicy, hcheck]
        rfl
      rw [hrun]
      refine iff_of_false ?_ Bool.false_ne_true
      rintro ⟨pr, h, -⟩
      cases h
  | some pr =>
      rw [admitByPolicy_some hcheck, Option.any_some, pr.listed_eq]
      cases hdenied : pr.denied with
      | true =>
          refine iff_of_false ?_ Bool.false_ne_true
          rintro ⟨pr', h, h'⟩
          cases List.mem_singleton.mp h
          exact Bool.false_ne_true (h'.symm.trans hdenied)
      | false => exact iff_of_true ⟨pr, List.mem_cons_self, hdenied⟩ rfl

/-- What is done with a call that the policy lets through. -/
def admitted (P : Platform) (w : World) (st : GatewayState) (sessionId : Text) (msgId : Json)
    (auth : AuthContext) (kind : CallKind) (server : ServerConfig) (original name : Text)
    (params : Json) (pr : PolicyResult) : Run Response := do
  admitByRate w st msgId auth name pr
  let params ← admitByDlp P st msgId pr params
  let params ← admitByGuardrails P st msgId params
  forwardCall P w st sessionId msgId auth kind server original pr params

theorem handleCall_eq {sessionId original : Text} {msgId params : Json} {server : ServerConfig}
    (hmeta : ¬ (kind = .tool ∧ isMetaTool (callName params)))
    (htarget : callTarget kind (callName params) = some (ns, original))
    (hskill : ¬ (ns = skillNamespace ∧ kind = .prompt))
    (hserver : st.serverByNamespace ns auth.teamId = some server) :
    handleCall P w st sessionId msgId params auth kind =
      admitByPolicy P st msgId auth kind ns (callName params) params >>=
        admitted P w st sessionId msgId auth kind server original (callName params) params := by
  rw [handleCall, if_neg hmeta, htarget]
  show (if ns = skillNamespace ∧ kind = .prompt then _ else _) = _
  rw [if_neg hskill, hserver]
  rfl

/-- The policy check of a call is that of its target. -/
theorem passes_iff {sessionId original : Text} {msgId params : Json} {server : ServerConfig}
    (hmeta : ¬ (kind = .tool ∧ isMetaTool (callName params)))
    (htarget : callTarget kind (callName params) = some (ns, original))
    (hskill : ¬ (ns = skillNamespace ∧ kind = .prompt))
    (hserver : st.serverByNamespace ns auth.teamId = some server) :
    Passes P w st sessionId msgId params auth kind ↔
      (checkAccess P st auth kind ns (callName params) params).any PolicyResult.listed = true := by
  rw [Passes, handleCall_eq hmeta htarget hskill hserver]
  exact evaluated_bind

/-! ### The agreement -/

theorem lookup_cons_congr {key : Text} {d d' : Fields} (e : Text × Json)
    (h : Dict.lookup d key = Dict.lookup d' key) :
    Dict.lookup (e :: d) key = Dict.lookup (e :: d') key := by
  rw [Data.Dict.lookup_cons, Data.Dict.lookup_cons, h]

theorem lookup_cons_other {key : Text} {d d' : Fields} {e e' : Text × Json} (he : e.1 ≠ key)
    (h : e.1 = e'.1 ∧ Dict.lookup d key = Dict.lookup d' key) :
    Dict.lookup (e :: d) key = Dict.lookup (e' :: d') key := by
  rw [Data.Dict.lookup_cons, Data.Dict.lookup_cons, if_neg he, if_neg (h.1 ▸ he), h.2]

/-- The arguments of a call do not decide about it, if no policy mentions them. -/
theorem checkAccess_congr (hfree : st.policyEngine.ArgumentFree) (params params' : Json) :
    checkAccess P st auth kind ns name params = checkAccess P st auth kind ns name params' := by
  cases kind with
  | tool =>
      refine PolicyEngine.evaluate_congr ⟨fun key hkey => ?_, rfl⟩ hfree
      -- The eight fields before the arguments are the same in both contexts.
      iterate 8 refine lookup_cons_congr _ ?_
      exact lookup_cons_other (Ne.symm hkey) ⟨rfl, rfl⟩
  | resource => rfl
  | prompt => rfl

/-- **Listing and calling agree.**  If no policy mentions the arguments of a call, then an item
of a server the team sees, whose name leads back to the server, is in the list if and only if a
call of it passes the policy check. -/
theorem listed_iff_passes (hfree : st.policyEngine.ArgumentFree) {s : ServerConfig}
    {catalog : Catalog} {msgId : Json} {r : Response} (hs : s ∈ st.visible auth.teamId)
    (hcatalog : w.catalog s.id = some catalog) (hitem : item ∈ kind.items catalog)
    (hname : kind.itemName item = some name) (hroutable : kind.Routable s.serverNamespace name)
    (hlist : (kind.list P w st msgId auth).exit = .value r) {sessionId : Text} {params : Json}
    (hcall : callName params = kind.clientName s.serverNamespace name) :
    kind.shown s.serverNamespace item ∈ kind.listed r ↔
      Passes P w st sessionId msgId params auth kind := by
  obtain ⟨original, htarget⟩ := callTarget_clientName hroutable
  obtain ⟨server, hserver⟩ : ∃ server,
      st.serverByNamespace s.serverNamespace auth.teamId = some server := by
    obtain ⟨henabled, hteam⟩ := Bool.and_eq_true_iff.mp
      (List.mem_filter.mp (List.mem_filter.mp (List.mem_filter.mp hs).1).1).2
    refine Option.isSome_iff_exists.mp (List.find?_isSome.mpr ⟨s, ?_, ?_⟩)
    · exact (List.mem_filter.mp (List.mem_filter.mp (List.mem_filter.mp hs).1).1).1
    · rw [beq_self_eq_true, henabled, hteam]
      rfl
  rw [← hcall] at htarget
  rw [mem_listed hs hcatalog hitem hname hroutable hlist,
    passes_iff ?_ htarget ?_ hserver, hcall, checkAccess_congr hfree params .null]
  · rintro ⟨rfl, hmeta⟩
    rw [hcall] at hmeta
    exact absurd hmeta (Bool.eq_false_iff.mp hroutable.2)
  · rintro ⟨hskill, rfl⟩
    exact hroutable.2 hskill

end Agreement

theorem listed_iff_passes_create :
    CallKind.tool.shown "jira".toList createTool ∈ CallKind.tool.listed
      (successResponse .null (listResult "tools".toList [] [])) ↔
    Passes .plain catalogWorld (.ofBundle .plain (jiraBundle [denyingPolicy])) "s".toList .null
      createParams ci .tool := by
  have hpolicies : (GatewayState.ofBundle .plain
      (jiraBundle [denyingPolicy])).policyEngine.policies =
      [⟨"closed".toList, .literal true, .deny⟩] := rfl
  have hname : CallKind.tool.itemName createTool = some "create".toList := rfl
  have hlist : (CallKind.tool.list .plain catalogWorld
      (.ofBundle .plain (jiraBundle [denyingPolicy])) .null ci).exit =
      .value (successResponse .null (listResult "tools".toList [] [])) := rfl
  refine listed_iff_passes (s := jira) ?_ List.mem_cons_self rfl List.mem_cons_self hname
    ⟨rfl, rfl⟩ hlist rfl
  intro p hp field hfield
  rw [hpolicies, List.mem_singleton] at hp
  rw [hp] at hfield
  cases hfield

/-! ### A server that is hidden -/

/-- The gateway of a team in hybrid mode, with a server that is not exposed. -/
def hybridState : GatewayState :=
  .ofBundle .plain { jiraBundle [] with
    servers := [{ jira with expose := some false }]
    teams := [⟨1, some "hybrid".toList⟩] }

/-- A tool of the hidden server is not listed, but a call of it passes. -/
theorem hidden_item_passes :
    hybridState.policyEngine.ArgumentFree ∧
    ∃ r, (CallKind.tool.list .plain catalogWorld hybridState .null ci).exit = .value r ∧
      ¬ (CallKind.tool.shown "jira".toList createTool ∈ CallKind.tool.listed r ↔
        Passes .plain catalogWorld hybridState "s".toList .null createParams ci .tool) := by
  refine ⟨fun p hp => (nomatch hp), successResponse .null
    (listResult "tools".toList metaToolDefinitions []), rfl, fun h => ?_⟩
  have hpasses : Passes .plain catalogWorld hybridState "s".toList .null createParams ci .tool :=
    ⟨noPolicies, List.mem_cons_self, rfl⟩
  have hmem := h.mpr hpasses
  have hlisted : CallKind.tool.listed (successResponse .null
      (listResult "tools".toList metaToolDefinitions [])) = metaToolDefinitions := rfl
  rw [hlisted] at hmem
  have hmeta := isMetaTool_of_mem hmem
  have hname : isMetaTool (itemText "name".toList
      (CallKind.tool.shown "jira".toList createTool)) = false := rfl
  rw [hname] at hmeta
  cases hmeta

end CorexManager.Gateway
