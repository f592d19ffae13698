import CorexManager.Gateway.Mediation

/-!
# What the gateway shows of the catalogs

The tools of the servers of a team are shown by `tools/list` and by the tools of the gateway
itself.  The first shows what the policy lets the identity call.  The others do not ask the
policy: they show what they are asked for (`onlyPermitted_iff`).
-/

namespace CorexManager.Gateway

open Data (Dict.lookup Dict.set Json Text)

/-! ### Lists over the servers -/

section Lists

variable {w : World} {list : ServerConfig → Catalog → Option (List Json)}
  {contribution : ServerConfig → Catalog → List Json} {servers : List ServerConfig}
  {merged warnings : List Json}

/-- A list that does not panic holds, in the order of the servers, what each of them with a
catalog contributes. -/
theorem mergeLists_eq_some
    (hlist : ∀ s c items, list s c = some items → items = contribution s c)
    (h : mergeLists w list servers = some (merged, warnings)) :
    merged = servers.flatMap fun s => (w.catalog s.id).elim [] (contribution s) := by
  induction servers generalizing merged warnings with
  | nil =>
      cases h
      rfl
  | cons s servers ih =>
      rw [mergeLists] at h
      rw [List.flatMap_cons]
      cases hcatalog : w.catalog s.id with
      | none =>
          rw [hcatalog] at h
          obtain ⟨⟨rest, _⟩, hrest, h⟩ := Option.bind_eq_some_iff.mp h
          cases h
          exact ih hrest
      | some catalog =>
          rw [hcatalog] at h
          obtain ⟨items, hitems, h⟩ := Option.bind_eq_some_iff.mp h
          obtain ⟨⟨rest, _⟩, hrest, h⟩ := Option.bind_eq_some_iff.mp h
          cases h
          rw [ih hrest, hlist s catalog items hitems]
          rfl

end Lists

/-! ### Requests that show tools -/

/-- A request that is answered with tools of the catalogs. -/
inductive Listing where
  /-- `tools/list`. -/
  | tools (params : Json)
  /-- A call of a tool of the gateway. -/
  | metaTool (params : Json) (h : isMetaTool (callName params) = true)

/-- The tools in a result: those of a list, or the one that is described. -/
def shownIn (result : Json) : List Json :=
  ((result.get "tools".toList).bind Json.asArray).getD [] ++ (result.get "tool".toList).toList

/-- The tools a response shows. -/
def shownTools (r : Response) : List Json :=
  shownIn ((r.body.bind fun body => body.get "result".toList).getD .null)

/-- The name under which `tools/list` shows a tool. -/
def shownName (ns : Text) (tool : Json) : Text :=
  itemText "name".toList (renamed "name".toList "mcp_original_name".toList (prefixName ns) ns tool)

/-- The name of a tool, if it has one. -/
def toolName (tool : Json) : Option Text := (tool.get "name".toList).bind Json.asStr

/-- A tool of the gateway is asked for a tool of a namespace: for any, for those that match a
query, or for those of a name. -/
def MetaTool.asksFor (P : Platform) (args : Json) (t : MetaTool) (ns : Text) (tool : Json) : Bool :=
  match t with
  | .listTools => true
  | .searchTools => matchesQuery P.unicode (P.unicode.toLowercase (toolText "query" args)) tool
  | .describeTool => (toolName tool).any fun name =>
      Rust.splitOncePair '_' (toolText "name" args) == some (ns, name)
  | .listServers | .refreshTools => false

/-- What it shows of the tools it is asked for: only the first tool of a name is described. -/
def MetaTool.picks (t : MetaTool) (asked : List (Text × Json)) : List (Text × Json) :=
  if t = .describeTool then asked.take 1 else asked

/-- How a tool of the gateway shows a tool. -/
def MetaTool.shows (t : MetaTool) (ns : Text) (tool : Json) : Json :=
  match t with
  | .searchTools =>
      (indexMut "name".toList (.str (prefixName ns (toolText "name" tool))) tool).getD .null
  | _ => prefixedTool ns tool

section Listing

variable (P : Platform) (w : World) (st : GatewayState) (auth : AuthContext)

/-- `check_tool_access` lets the identity call a tool. -/
def permits (ns : Text) (tool : Json) : Bool :=
  (checkToolAccess P "tools/call".toList (shownName ns tool) ns auth none [] st.policyEngine).any
    fun r => !r.denied

/-- The tools of the servers, each with the namespace of its server. -/
def catalogTools (servers : List ServerConfig) : List (Text × Json) :=
  servers.flatMap fun s =>
    (w.catalog s.id).elim [] fun catalog =>
      catalog.tools.map fun tool => (s.serverNamespace, tool)

namespace Listing

/-- The arguments of a call. -/
def arguments (params : Json) : Json := (params.get "arguments".toList).getD (.obj [])

/-- What the gateway does. -/
def run (sessionId : Text) (msgId : Json) : Listing → Run Response
  | tools params => handleRequest P w st sessionId msgId params auth "tools/list".toList
  | metaTool params _ => handleRequest P w st sessionId msgId params auth "tools/call".toList

/-- The tool of the gateway that is called: `handle_meta_tool_call` goes by the name alone. -/
def called (params : Json) : Option MetaTool := MetaTool.ofName (toolText "name" params)

/-- The tools of which the response shows the names, the descriptions and the schemas, in
order. -/
def revealed (req : Listing) : List (Text × Json) :=
  let all := catalogTools w (st.visible auth.teamId)
  match req with
  | tools _ => all.filter fun t => permits P st auth t.1 t.2
  | metaTool params _ =>
      match called params with
      | some t => t.picks (all.filter fun tool => t.asksFor P (arguments params) tool.1 tool.2)
      | none => []

/-- How a tool is shown. -/
def shows (ns : Text) (tool : Json) : Listing → Json
  | tools _ => renamed "name".toList "mcp_original_name".toList (prefixName ns) ns tool
  | metaTool params _ => ((called params).map fun t => t.shows ns tool).getD .null

/-- The tools of the gateway itself in a list. -/
def injected : Listing → List Json
  | tools _ => if st.discoveryMode auth.teamId = .passthrough then [] else metaToolDefinitions
  | metaTool _ _ => []

/-- A tool of the gateway is asked for a tool; `tools/list` asks the policy itself. -/
def asksFor (ns : Text) (tool : Json) : Listing → Prop
  | tools _ => False
  | metaTool params _ => ∃ m, called params = some m ∧ m.asksFor P (arguments params) ns tool = true

/-- No search finds an entry that is no object: it would panic. -/
def Answered : Listing → Prop
  | tools _ => True
  | metaTool params _ => called params = some .searchTools →
      ∀ t ∈ catalogTools w (st.visible auth.teamId),
        MetaTool.searchTools.asksFor P (arguments params) t.1 t.2 = true →
        t.2.asObject.isSome ∨ t.2 = .null

/-- **What is claimed of a listing.**  The tools that are shown are tools the identity may
call. -/
def OnlyPermitted (sessionId : Text) (msgId : Json) (req : Listing) : Prop :=
  ∀ r, (req.run P w st auth sessionId msgId).exit = .value r →
    ∀ t ∈ req.revealed P w st auth, permits P st auth t.1 t.2 = true

end Listing

end Listing

section Shown

variable {P : Platform} {w : World} {st : GatewayState} {auth : AuthContext}

/-! ### `tools/list` -/

theorem shownTools_success (msgId result : Json) :
    shownTools (successResponse msgId result) = shownIn result := rfl

theorem shownTools_list (msgId : Json) (items warnings : List Json) :
    shownTools (successResponse msgId (listResult "tools".toList items warnings)) = items := by
  rw [shownTools_success, listResult]
  split <;> exact List.append_nil items

/-- A server contributes the tools the identity may call. -/
theorem listTools_eq_some (s : ServerConfig) (catalog : Catalog) (items : List Json)
    (h : listTools P st auth s catalog = some items) :
    items = (catalog.tools.filter fun tool => permits P st auth s.serverNamespace tool).map
      (renamed "name".toList "mcp_original_name".toList (prefixName s.serverNamespace)
        s.serverNamespace) := by
  rw [filterList_eq_some h, prefixListItems, List.filter_map]
  congr 2
  funext tool
  show Option.any _ _ = Option.any _ _
  congr 1
  funext r
  exact r.listed_eq

theorem shownTools_toolsList {msgId : Json} {r : Response}
    (h : (handleToolsList P w st msgId auth).exit = .value r) :
    shownTools r =
      ((catalogTools w (st.visible auth.teamId)).filter fun t => permits P st auth t.1 t.2).map
        (fun t => renamed "name".toList "mcp_original_name".toList (prefixName t.1) t.1 t.2) ++
      (if st.discoveryMode auth.teamId = .passthrough then [] else metaToolDefinitions) := by
  obtain ⟨⟨merged, warnings⟩, hmerged, h, -⟩ := Run.value_bind h
  cases h
  rw [shownTools_list, mergeLists_eq_some listTools_eq_some (Run.orPanic_value.mp hmerged),
    catalogTools, List.filter_flatMap, List.map_flatMap]
  congr 2
  funext s
  cases w.catalog s.id with
  | none => rfl
  | some catalog =>
      simp only [Option.elim_some, List.filter_map, List.map_map]
      rfl

/-! ### The tools of the gateway -/

/-- The ids of the servers of a team tell them apart. -/
def GatewayState.IdsDistinct (st : GatewayState) (teamId : Int) : Prop :=
  ∀ s ∈ st.teamServers teamId, ∀ s' ∈ st.teamServers teamId, s.id = s'.id → s = s'

variable {servers l : List ServerConfig}

/-- The catalogs a tool of the gateway gets. -/
def storedCatalogs (w : World) (l : List ServerConfig) : List (Int × Catalog) :=
  l.filterMap fun s => (w.catalog s.id).map fun c => (s.id, c)

/-- The servers of the catalogs are found by their ids. -/
theorem namespacedTools_storedCatalogs
    (hl : ∀ s ∈ l, servers.find? (fun s' => s'.id == s.id) = some s) :
    namespacedTools servers (storedCatalogs w l) = catalogTools w l := by
  induction l with
  | nil => rfl
  | cons s l ih =>
      obtain ⟨hs, hl⟩ := List.forall_mem_cons.mp hl
      rw [catalogTools, List.flatMap_cons, storedCatalogs, List.filterMap_cons]
      cases hcatalog : w.catalog s.id with
      | none => exact ih hl
      | some catalog =>
          have hrest := ih hl
          rw [namespacedTools, storedCatalogs, catalogTools] at hrest
          rw [Option.map_some, namespacedTools, List.flatMap_cons, hrest]
          simp only [hs]
          rfl

theorem describedTool_cons (c : Int × Catalog) (catalogs : List (Int × Catalog))
    (ns original : Text) :
    describedTool servers (c :: catalogs) ns original =
      (if servers.any fun s => s.serverNamespace == ns && s.id == c.1 then
        c.2.tools.find? fun tool => toolName tool == some original
      else none).or (describedTool servers catalogs ns original) := by
  rw [describedTool, List.findSome?_cons]
  unfold toolName
  cases (if servers.any fun s => s.serverNamespace == ns && s.id == c.1 then
      c.2.tools.find? fun tool => (tool.get "name".toList).bind Json.asStr == some original
    else none) <;> rfl

/-- The tool that is described is the first of its name. -/
theorem describedTool_storedCatalogs {ns original : Text}
    (hl : ∀ s ∈ l, (servers.any fun s' => s'.serverNamespace == ns && s'.id == s.id) =
      (s.serverNamespace == ns)) :
    describedTool servers (storedCatalogs w l) ns original =
      ((catalogTools w l).find? fun t => t.1 == ns && toolName t.2 == some original).map Prod.snd := by
  induction l with
  | nil => rfl
  | cons s l ih =>
      obtain ⟨hs, hl⟩ := List.forall_mem_cons.mp hl
      rw [catalogTools, List.flatMap_cons, List.find?_append, storedCatalogs, List.filterMap_cons]
      cases hcatalog : w.catalog s.id with
      | none => exact ih hl
      | some catalog =>
          have hhere : (catalog.tools.map fun tool => (s.serverNamespace, tool)).find?
              (fun t => t.1 == ns && toolName t.2 == some original) =
              (if s.serverNamespace == ns then
                catalog.tools.find? fun tool => toolName tool == some original
              else none).map fun tool => (s.serverNamespace, tool) := by
            rw [List.find?_map]
            cases hns : s.serverNamespace == ns <;> simp [hns]
          rw [Option.map_some, describedTool_cons, hs, Option.elim_some, hhere]
          cases (if s.serverNamespace == ns then
              catalog.tools.find? fun tool => toolName tool == some original else none) with
          | none => exact ih hl
          | some tool => rfl

/-- The servers that are seen are found by their ids. -/
theorem find?_teamServers {teamId : Int} (hids : st.IdsDistinct teamId) {s : ServerConfig}
    (hs : s ∈ st.visible teamId) :
    (st.teamServers teamId).find? (fun s' => s'.id == s.id) = some s := by
  have hteam : s ∈ st.teamServers teamId := (List.mem_filter.mp (List.mem_filter.mp hs).1).1
  cases hfind : (st.teamServers teamId).find? (fun s' => s'.id == s.id) with
  | none => exact absurd (beq_self_eq_true s.id) (by simpa using List.find?_eq_none.mp hfind s hteam)
  | some s' =>
      have hid : s'.id = s.id := by simpa using List.find?_some hfind
      rw [hids s' (List.mem_of_find?_eq_some hfind) s hteam hid]

theorem any_teamServers {teamId : Int} (hids : st.IdsDistinct teamId) (ns : Text)
    {s : ServerConfig} (hs : s ∈ st.visible teamId) :
    ((st.teamServers teamId).any fun s' => s'.serverNamespace == ns && s'.id == s.id) =
      (s.serverNamespace == ns) := by
  have hteam : s ∈ st.teamServers teamId := (List.mem_filter.mp (List.mem_filter.mp hs).1).1
  rw [Bool.eq_iff_iff, List.any_eq_true]
  constructor
  · rintro ⟨s', hs', h⟩
    rw [Bool.and_eq_true, beq_iff_eq (a := s'.id)] at h
    rw [← hids s' hs' s hteam h.2]
    exact h.1
  · intro hns
    exact ⟨s, hteam, by rw [hns, beq_self_eq_true]; rfl⟩

/-- A list of values that are all there. -/
theorem mapM_eq_some {α β : Type} {f : α → Option β} {as : List α} {bs : List β}
    (h : as.mapM f = some bs) (d : β) : bs = as.map fun a => (f a).getD d := by
  induction as generalizing bs with
  | nil =>
      cases h
      rfl
  | cons a as ih =>
      rw [List.mapM_cons] at h
      obtain ⟨b, hb, h⟩ := Option.bind_eq_some_iff.mp h
      obtain ⟨rest, hrest, h⟩ := Option.bind_eq_some_iff.mp h
      cases h
      rw [List.map_cons, hb, ih hrest]
      rfl

/-- A tool that is described under its full name is shown as in a list. -/
theorem setField_target {target ns name : Text} {tool : Json}
    (htarget : Rust.splitOncePair '_' target = some (ns, name)) (hname : toolName tool = some name) :
    setField "name".toList (.str target) tool = prefixedTool ns tool := by
  have hprefix : prefixName ns name = target := by
    rw [Rust.splitOncePair_eq_some htarget]
    exact List.append_assoc ns _ name
  rw [toolName] at hname
  rw [prefixedTool, hname, ← hprefix]

theorem shownIn_tools (items : List Json) : shownIn (.obj [("tools".toList, .arr items)]) = items :=
  List.append_nil items

/-- A tool of the gateway shows what it picks of the tools that are asked for. -/
theorem shownIn_executeMetaTool (hids : st.IdsDistinct auth.teamId) {name : Text} {args result : Json}
    {t : MetaTool} (ht : MetaTool.ofName name = some t)
    (h : executeMetaTool P.unicode name args (st.teamServers auth.teamId)
      (storedCatalogs w (st.visible auth.teamId)) = some result) :
    shownIn result = (t.picks ((catalogTools w (st.visible auth.teamId)).filter fun tool =>
      t.asksFor P args tool.1 tool.2)).map fun tool => t.shows tool.1 tool.2 := by
  have htools : namespacedTools (st.teamServers auth.teamId)
      (storedCatalogs w (st.visible auth.teamId)) = catalogTools w (st.visible auth.teamId) :=
    namespacedTools_storedCatalogs fun s hs => find?_teamServers hids hs
  rw [executeMetaTool, ht, htools] at h
  cases t with
  | listServers =>
      cases h
      exact (congrArg (List.map _) (List.filter_false _)).symm
  | listTools =>
      cases h
      rw [shownIn_tools]
      exact (congrArg (List.map _) (List.filter_true _)).symm
  | searchTools =>
      obtain ⟨found, hfound, h⟩ := Option.bind_eq_some_iff.mp h
      cases h
      rw [shownIn_tools, mapM_eq_some hfound .null]
      rfl
  | describeTool =>
      dsimp only at h
      cases htarget : Rust.splitOncePair '_' (toolText "name" args) with
      | none =>
          rw [htarget] at h
          cases h
          have hasks : ∀ tool : Text × Json,
              MetaTool.describeTool.asksFor P args tool.1 tool.2 = false := by
            intro tool
            rw [MetaTool.asksFor, htarget]
            cases toolName tool.2 <;> rfl
          simp only [hasks]
          exact (congrArg (fun l => (List.take 1 l).map _) (List.filter_false _)).symm
      | some parts =>
          obtain ⟨ns, original⟩ := parts
          have hasks : (fun tool : Text × Json =>
              MetaTool.describeTool.asksFor P args tool.1 tool.2) =
              fun tool => tool.1 == ns && toolName tool.2 == some original := by
            funext tool
            rw [MetaTool.asksFor, htarget]
            cases toolName tool.2 with
            | none => simp
            | some name =>
                rw [Option.any_some, Bool.eq_iff_iff, beq_iff_eq, Bool.and_eq_true, beq_iff_eq,
                  beq_iff_eq, Option.some.injEq, Option.some.injEq, Prod.mk.injEq,
                  eq_comm (a := ns), eq_comm (a := original)]
          have hfirst : describedTool (st.teamServers auth.teamId)
              (storedCatalogs w (st.visible auth.teamId)) ns original = _ :=
            describedTool_storedCatalogs fun s hs => any_teamServers hids ns hs
          rw [htarget, Option.bind_some, hfirst] at h
          rw [hasks, MetaTool.picks, if_pos rfl, List.take_one, List.head?_filter]
          cases hfind : (catalogTools w (st.visible auth.teamId)).find? (fun tool =>
              tool.1 == ns && toolName tool.2 == some original) with
          | none =>
              rw [hfind] at h
              cases h
              rfl
          | some tool =>
              have hnamed := List.find?_some hfind
              rw [Bool.and_eq_true, beq_iff_eq, beq_iff_eq] at hnamed
              rw [hfind] at h
              cases h
              show [setField "name".toList _ tool.2] = [prefixedTool tool.1 tool.2]
              rw [hnamed.1, setField_target htarget hnamed.2]
  | refreshTools =>
      cases h
      exact (congrArg (List.map _) (List.filter_false _)).symm

theorem run_metaTool {sessionId : Text} {msgId params : Json}
    (hcall : isMetaTool (callName params) = true) :
    handleRequest P w st sessionId msgId params auth "tools/call".toList =
      handleMetaToolCall P w st msgId params auth := by
  show handleCall P w st sessionId msgId params auth .tool = _
  exact if_pos ⟨rfl, hcall⟩

/-- The tools a response shows are those that are revealed, and the tools of the gateway. -/
theorem shownTools_run (hids : st.IdsDistinct auth.teamId) {sessionId : Text} {msgId : Json}
    {req : Listing} {r : Response} (h : (req.run P w st auth sessionId msgId).exit = .value r) :
    shownTools r = ((req.revealed P w st auth).map fun t => req.shows t.1 t.2) ++
      req.injected st auth := by
  cases req with
  | tools params => exact shownTools_toolsList h
  | metaTool params hcall =>
      rw [Listing.run, run_metaTool hcall] at h
      obtain ⟨result, hresult, hr, -⟩ := Run.value_bind h
      cases hr
      have hresult := Run.orPanic_value.mp hresult
      rw [shownTools_success, Listing.revealed, Listing.injected, List.append_nil]
      simp only [Listing.shows]
      cases ht : Listing.called params with
      | none =>
          have hunknown : MetaTool.ofName (toolText "name" params) = none := ht
          rw [executeMetaTool, hunknown] at hresult
          cases hresult
          rfl
      | some t => exact shownIn_executeMetaTool hids ht hresult

/-! ### What is shown and what may be called -/

theorem get_setField_self {key : Text} {v j : Json} (h : j.asObject.isSome) :
    (setField key v j).get key = some v := by
  cases j with
  | obj fields =>
      show (Json.obj (Dict.set fields key v)).get key = _
      rw [Json.get_obj, Data.Dict.lookup_set_self]
  | _ => cases h

theorem get_setField_other {key k : Text} (v j : Json) (h : k ≠ key) :
    (setField key v j).get k = j.get k := by
  cases j with
  | obj fields =>
      show (Json.obj (Dict.set fields key v)).get k = _
      rw [Json.get_obj, Json.get_obj, Data.Dict.lookup_set_other _ _ h]
  | _ => rfl

theorem asObject_of_get {key : Text} {v j : Json} (h : j.get key = some v) :
    j.asObject.isSome := by
  cases j with
  | obj fields => rfl
  | _ => cases h

/-- A renamed item has the new text, if it had one. -/
theorem itemText_renamed {key metaKey old : Text} {rename : Text → Text} {ns : Text} {item : Json}
    (hkey : key ≠ "_meta".toList) (hold : (item.get key).bind Json.asStr = some old) :
    itemText key (renamed key metaKey rename ns item) = rename old := by
  obtain ⟨v, hv, -⟩ := Option.bind_eq_some_iff.mp hold
  rw [itemText, renamed, hold]
  dsimp only
  rw [get_setField_other _ _ hkey, get_setField_self (asObject_of_get hv)]
  rfl

theorem shownName_eq {ns name : Text} {tool : Json} (h : toolName tool = some name) :
    shownName ns tool = prefixName ns name :=
  itemText_renamed (by decide) h

/-- Whether a tool may be called is decided by its namespace and its name. -/
theorem permits_of_name {ns name : Text} {tool tool' : Json} (h : toolName tool = some name)
    (h' : toolName tool' = some name) : permits P st auth ns tool = permits P st auth ns tool' := by
  rw [permits, permits, shownName_eq h, shownName_eq h']

theorem mapM_isSome_iff {α β : Type} {f : α → Option β} {as : List α} :
    (as.mapM f).isSome ↔ ∀ a ∈ as, (f a).isSome := by
  induction as with
  | nil => simp
  | cons a as ih =>
      rw [List.mapM_cons, List.forall_mem_cons, ← ih]
      cases f a with
      | none => simp
      | some b => cases as.mapM f <;> simp

theorem indexMut_isSome_iff (key : Text) (v j : Json) :
    (indexMut key v j).isSome ↔ j.asObject.isSome ∨ j = .null := by
  cases j <;> simp [indexMut, Json.asObject]

theorem Run.exists_value_orPanic {α β : Type} {o : Option α} {f : α → β} :
    (∃ b, (Run.orPanic o >>= fun a => Run.pure (f a)).exit = .value b) ↔ o.isSome := by
  cases o with
  | none => exact iff_of_false (fun ⟨_, h⟩ => nomatch h) nofun
  | some a => exact iff_of_true ⟨f a, rfl⟩ rfl

/-- A tool of the gateway answers, except a search that finds an entry that is no object. -/
theorem answered_iff (hids : st.IdsDistinct auth.teamId) {params : Json}
    (hcall : isMetaTool (callName params) = true) :
    (executeMetaTool P.unicode (toolText "name" params) (Listing.arguments params)
      (st.teamServers auth.teamId) (storedCatalogs w (st.visible auth.teamId))).isSome ↔
    (Listing.metaTool params hcall).Answered P w st auth := by
  have htools : namespacedTools (st.teamServers auth.teamId)
      (storedCatalogs w (st.visible auth.teamId)) = catalogTools w (st.visible auth.teamId) :=
    namespacedTools_storedCatalogs fun s hs => find?_teamServers hids hs
  rw [Listing.Answered, executeMetaTool, htools]
  unfold Listing.called
  cases ht : MetaTool.ofName (toolText "name" params) with
  | none => exact iff_of_true rfl nofun
  | some t =>
      cases t with
      | searchTools =>
          rw [forall_prop_of_true rfl]
          have hsome : ∀ o : Option (List Json),
              (o.bind fun found => some (Json.obj [("tools".toList, .arr found)])).isSome =
                o.isSome := by
            intro o
            cases o <;> rfl
          refine (Bool.coe_iff_coe.mpr (hsome _)).trans (mapM_isSome_iff.trans ?_)
          simp only [List.forall_mem_filter, indexMut_isSome_iff]
          rfl
      | describeTool =>
          refine iff_of_true ?_ nofun
          dsimp only
          split <;> rfl
      | _ => exact iff_of_true rfl nofun

/-- A tool that is described may be called if and only if all tools of its name may. -/
theorem permits_picks (m : MetaTool) (args : Json) (all : List (Text × Json)) :
    (∀ t ∈ m.picks (all.filter fun t => m.asksFor P args t.1 t.2),
      permits P st auth t.1 t.2 = true) ↔
    ∀ t ∈ all, m.asksFor P args t.1 t.2 = true → permits P st auth t.1 t.2 = true := by
  rw [← List.forall_mem_filter, MetaTool.picks]
  split
  · next hm =>
      subst hm
      refine ⟨fun h t ht => ?_, fun h t ht => h t (List.mem_of_mem_take ht)⟩
      -- The first tool that is asked for has the namespace and the name of this one.
      obtain ⟨first, rest, hfirst⟩ := List.exists_cons_of_ne_nil (List.ne_nil_of_mem ht)
      have hpicked := h first (by rw [hfirst]; exact List.mem_cons_self)
      have hasked : ∀ t ∈ all.filter fun t => MetaTool.describeTool.asksFor P args t.1 t.2,
          ∃ name, toolName t.2 = some name ∧
            Rust.splitOncePair '_' (toolText "name" args) = some (t.1, name) := by
        intro t ht
        obtain ⟨name, hname, hsplit⟩ := (Option.any_eq_true _ _).mp (List.mem_filter.mp ht).2
        exact ⟨name, hname, beq_iff_eq.mp hsplit⟩
      obtain ⟨name, hname, hsplit⟩ := hasked t ht
      obtain ⟨name', hname', hsplit'⟩ := hasked first (by rw [hfirst]; exact List.mem_cons_self)
      obtain ⟨hns, rfl⟩ := Prod.mk.inj (Option.some.inj (hsplit.symm.trans hsplit'))
      rw [hns, permits_of_name hname hname']
      exact hpicked
  · exact Iff.rfl

/-- **What a listing shows is permitted if and only if the policy permits everything that a tool
of the gateway is asked for**, or the request panics. -/
theorem onlyPermitted_iff (hids : st.IdsDistinct auth.teamId) (sessionId : Text) (msgId : Json)
    (req : Listing) :
    (∀ r, (req.run P w st auth sessionId msgId).exit = .value r →
      shownTools r = ((req.revealed P w st auth).map fun t => req.shows t.1 t.2) ++
        req.injected st auth) ∧
    (req.OnlyPermitted P w st auth sessionId msgId ↔ (req.Answered P w st auth →
      ∀ t ∈ catalogTools w (st.visible auth.teamId), req.asksFor P t.1 t.2 →
        permits P st auth t.1 t.2 = true)) := by
  refine ⟨fun r h => shownTools_run hids h, ?_⟩
  cases req with
  | tools params =>
      exact iff_of_true (fun r _ t ht => (List.mem_filter.mp ht).2) fun _ t _ hasks => hasks.elim
  | metaTool params hcall =>
      have hrun : (∃ r, ((Listing.metaTool params hcall).run P w st auth sessionId msgId).exit =
          .value r) ↔ (Listing.metaTool params hcall).Answered P w st auth := by
        rw [← answered_iff hids hcall, Listing.run, run_metaTool hcall]
        exact Run.exists_value_orPanic
      rw [← hrun, exists_imp, Listing.OnlyPermitted]
      refine forall_congr' fun r => imp_congr_right fun _ => ?_
      rw [Listing.revealed]
      simp only [Listing.asksFor]
      cases Listing.called params with
      | none => exact iff_of_true (fun t ht => nomatch ht) fun t _ ⟨m, hm, _⟩ => nomatch hm
      | some m =>
          refine (permits_picks m (Listing.arguments params) _).trans ?_
          simp

end Shown

/-! ### A denied tool that is listed -/

/-- A tool. -/
def createTool : Json := .obj [("name".toList, .str "create".toList)]

/-- A world in which every server has that tool. -/
def catalogWorld : World :=
  { calmWorld with catalog := fun _ => some ⟨[createTool], [], []⟩ }

/-- A policy that denies everything. -/
def denyingPolicy : PolicyConfig := ⟨1, "closed".toList, true, 0, "true".toList, "deny".toList⟩

/-- A call of the tool that lists all tools. -/
def listAll : Listing :=
  .metaTool (.obj [("name".toList, .str "gateway__list_tools".toList)]) (by decide)

theorem onlyPermitted_listAll :
    (∀ r, (listAll.run .plain catalogWorld (.ofBundle .plain (jiraBundle [denyingPolicy])) ci
        "s".toList .null).exit = .value r →
      shownTools r = ((listAll.revealed .plain catalogWorld
        (.ofBundle .plain (jiraBundle [denyingPolicy])) ci).map fun t => listAll.shows t.1 t.2) ++
        listAll.injected (.ofBundle .plain (jiraBundle [denyingPolicy])) ci) ∧
    (listAll.OnlyPermitted .plain catalogWorld (.ofBundle .plain (jiraBundle [denyingPolicy])) ci
        "s".toList .null ↔
      (listAll.Answered .plain catalogWorld (.ofBundle .plain (jiraBundle [denyingPolicy])) ci →
        ∀ t ∈ catalogTools catalogWorld
            ((GatewayState.ofBundle .plain (jiraBundle [denyingPolicy])).visible ci.teamId),
          listAll.asksFor .plain t.1 t.2 →
          permits .plain (.ofBundle .plain (jiraBundle [denyingPolicy])) ci t.1 t.2 = true)) := by
  refine onlyPermitted_iff ?_ _ _ _
  intro s hs s' hs' _
  rw [List.mem_singleton.mp hs, List.mem_singleton.mp hs']

/-- The tool that the policy denies is listed. -/
theorem denied_tool_listed :
    ¬ listAll.OnlyPermitted .plain catalogWorld (.ofBundle .plain (jiraBundle [denyingPolicy])) ci
      "s".toList .null := by
  intro h
  have hdenied : permits .plain (.ofBundle .plain (jiraBundle [denyingPolicy])) ci "jira".toList
      createTool = false := rfl
  have hpermitted := h _ rfl ("jira".toList, createTool) (List.mem_singleton.mpr rfl)
  rw [hdenied] at hpermitted
  cases hpermitted

end CorexManager.Gateway
