import CorexManager.Gateway.Agreement
import CorexManager.Rust.Utf8
import Mathlib.Data.List.Nodup

/-!
# Where names lead

A name that a list shows is routed by `handle_call` when it is sent back: to the server whose
item it is, or elsewhere.  The namespace is what stands before the first separator, so one that
ends in the first half of a separator is cut short.

* `callRoute` — the server and the name to which a call goes; `handleCall_of_route` and
  `handleCall_unrouted` say that it does.
* `names_lead_back_iff` — all names of a list lead back and are different if and only if every
  one is routable, and no server shows an item twice.
* `checkNamespace` — what the backend accepts as a namespace.
* `underscore_misroutes` — two namespaces it accepts, and a name that leads to the wrong one.
-/

namespace CorexManager.Gateway

open Data (Dict.lookup Json Text)

/-! ### Encoded resources -/

/-- A byte of a URI, encoded. -/
def encodeByte (byte : UInt8) : Text :=
  if unreserved (Char.ofNat byte.toNat) then [Char.ofNat byte.toNat]
  else ['%', hexDigit (byte.toNat / 16), hexDigit (byte.toNat % 16)]

/-- Only characters of one byte are left as they are. -/
theorem not_unreserved {c : Char} (h : 128 ≤ c.toNat) : unreserved c = false := by
  have hne : ∀ d : Char, d.toNat < 128 → (c == d) = false := fun d hd =>
    beq_eq_false_iff_ne.mpr fun heq => by rw [heq] at h; omega
  have hval : 128 ≤ c.val.toNat := h
  have hle : ∀ d : Char, d.toNat < 128 → ¬ c.val ≤ d.val := fun d hd hcd => by
    have := UInt32.le_iff_toNat_le.mp hcd
    have hd : d.val.toNat < 128 := hd
    omega
  have halpha : c.isAlphanum = false := by
    have hupper : c.isUpper = false := decide_eq_false fun hc => hle 'Z' (by decide) hc.2
    have hlower : c.isLower = false := by
      rw [Char.isLower, decide_eq_false (hle 'z' (by decide)), Bool.and_false]
    have hdigit : c.isDigit = false := by
      rw [Char.isDigit, decide_eq_false (hle '9' (by decide)), Bool.and_false]
    rw [Char.isAlphanum, Char.isAlpha, hupper, hlower, hdigit]
    rfl
  rw [unreserved, halpha, hne '-' (by decide), hne '_' (by decide), hne '.' (by decide),
    hne '~' (by decide)]
  rfl

theorem urlEncode_eq (t : Text) :
    urlEncode t = (t.flatMap String.utf8EncodeChar).flatMap encodeByte := by
  rw [List.flatMap_assoc]
  refine List.flatMap_congr fun c _ => ?_
  by_cases hascii : c.toNat < 128
  · have hbyte : Char.ofNat (UInt8.ofNat c.toNat).toNat = c := by
      rw [UInt8.toNat_ofNat', Nat.mod_eq_of_lt (by omega), Char.ofNat_toNat]
    rw [Rust.utf8EncodeChar_ascii hascii]
    simp only [List.flatMap_cons, List.flatMap_nil, List.append_nil, encodeByte, hbyte]
  · have hc := not_unreserved (Nat.le_of_not_lt hascii)
    rw [hc, if_neg Bool.false_ne_true]
    refine List.flatMap_congr fun byte hmem => ?_
    have hbyte := Rust.le_of_mem_utf8EncodeChar (Nat.le_of_not_lt hascii) hmem
    have hlt := byte.toNat_lt
    have hofNat : (Char.ofNat byte.toNat).toNat = byte.toNat := by
      rw [Char.toNat_ofNat, if_pos (.inl (by omega))]
    rw [encodeByte, not_unreserved (hofNat.symm ▸ hbyte), if_neg Bool.false_ne_true]

theorem hexByte_hexDigit {m n : Nat} (hm : m < 16) (hn : n < 16) :
    hexByte (hexDigit m) (hexDigit n) = some (m * 16 + n) := by
  have hall : ∀ m n : Fin 16, hexByte (hexDigit m) (hexDigit n) = some (m.val * 16 + n.val) := by
    decide
  exact hall ⟨m, hm⟩ ⟨n, hn⟩

theorem urlDecode_cons {c : Char} (h : c ≠ '%') (t : Text) :
    urlDecode (c :: t) = c :: urlDecode t := by
  rw [urlDecode.eq_def]
  split
  · next heq => exact absurd (List.cons.inj heq).1 h
  · next heq => exact absurd (List.cons.inj heq).1 h
  · next heq =>
      obtain ⟨rfl, rfl⟩ := List.cons.inj heq
      rfl
  · next heq => cases heq

/-- What was encoded is decoded byte by byte. -/
theorem urlDecode_encode (bytes : List UInt8) :
    urlDecode (bytes.flatMap encodeByte) = bytes.map fun byte => Char.ofNat byte.toNat := by
  induction bytes with
  | nil => rfl
  | cons byte bytes ih =>
      have hlt := byte.toNat_lt
      rw [List.flatMap_cons, List.map_cons, encodeByte]
      split
      case isTrue hplain =>
        have hpercent : Char.ofNat byte.toNat ≠ '%' := by
          intro heq
          rw [heq] at hplain
          exact absurd hplain (by decide)
        rw [List.singleton_append, urlDecode_cons hpercent, ih]
      · rw [List.cons_append, List.cons_append, List.singleton_append, urlDecode,
          hexByte_hexDigit (by omega) (by omega)]
        dsimp only
        rw [ih, show byte.toNat / 16 * 16 + byte.toNat % 16 = byte.toNat from by omega]

theorem urlEncode_injective : Function.Injective urlEncode := by
  intro a b h
  rw [urlEncode_eq, urlEncode_eq] at h
  have hbytes := congrArg urlDecode h
  rw [urlDecode_encode, urlDecode_encode] at hbytes
  have hinj : Function.Injective fun byte : UInt8 => Char.ofNat byte.toNat := by
    intro x y hxy
    have hx := x.toNat_lt
    have hy := y.toNat_lt
    have hchar := congrArg Char.toNat hxy
    dsimp only at hchar
    rw [Char.toNat_ofNat, Char.toNat_ofNat, if_pos (.inl (by omega)),
      if_pos (.inl (by omega))] at hchar
    exact UInt8.toNat_inj.mp hchar
  have heq := List.map_injective_iff.mpr hinj hbytes
  have hencode : (String.ofList a).toByteArray = (String.ofList b).toByteArray :=
    congrArg List.toByteArray heq
  exact String.ofList_injective (String.toByteArray_inj.mp hencode)
/-- Different items of a server have different names for the clients. -/
theorem CallKind.clientName_injective (kind : CallKind) (ns : Text) :
    Function.Injective (kind.clientName ns) := by
  intro a b h
  cases kind with
  | resource => exact urlEncode_injective (List.cons.inj (List.append_cancel_left h)).2
  | tool => exact List.append_cancel_left h
  | prompt => exact List.append_cancel_left h

/-! ### Routes -/

/-- Where `handle_call` sends a call of a name: to which server, and under which name.  What the
gateway answers by itself goes nowhere. -/
def callRoute (st : GatewayState) (auth : AuthContext) (kind : CallKind) (name : Text) :
    Option (ServerConfig × Text) :=
  if kind = .tool ∧ isMetaTool name then none
  else (callTarget kind name).bind fun (ns, original) =>
    if ns = skillNamespace ∧ kind = .prompt then none
    else (st.serverByNamespace ns auth.teamId).map fun server => (server, original)

section Routes

variable {P : Platform} {w : World} {st : GatewayState} {auth : AuthContext} {kind : CallKind}
  {ns name original : Text} {server : ServerConfig}

theorem callRoute_eq_some_iff :
    callRoute st auth kind name = some (server, original) ↔
      ¬ (kind = .tool ∧ isMetaTool name) ∧ ∃ ns, callTarget kind name = some (ns, original) ∧
        ¬ (ns = skillNamespace ∧ kind = .prompt) ∧
        st.serverByNamespace ns auth.teamId = some server := by
  unfold callRoute
  by_cases hmeta : kind = .tool ∧ isMetaTool name
  · rw [if_pos hmeta]
    exact iff_of_false nofun fun h => h.1 hmeta
  rw [if_neg hmeta, Option.bind_eq_some_iff]
  constructor
  · rintro ⟨⟨ns, original'⟩, htarget, h⟩
    dsimp only at h
    split at h
    · cases h
    case isFalse hskill =>
      obtain ⟨server', hserver, hparts⟩ := Option.map_eq_some_iff.mp h
      cases hparts
      exact ⟨hmeta, ns, htarget, hskill, hserver⟩
  · rintro ⟨-, ns, htarget, hskill, hserver⟩
    refine ⟨(ns, original), htarget, ?_⟩
    dsimp only
    rw [if_neg hskill, hserver]
    rfl

theorem serverNamespace_of_find (h : st.serverByNamespace ns auth.teamId = some server) :
    server.serverNamespace = ns := by
  have hfound := List.find?_some h
  exact beq_iff_eq.mp (Bool.and_eq_true_iff.mp (Bool.and_eq_true_iff.mp hfound).1).1

/-- **A call that is routed** goes through the checks for its server, and is forwarded to it
under the original name. -/
theorem handleCall_of_route {sessionId : Text} {msgId params : Json}
    (h : callRoute st auth kind (callName params) = some (server, original)) :
    handleCall P w st sessionId msgId params auth kind =
      admitByPolicy P st msgId auth kind server.serverNamespace (callName params) params >>=
        admitted P w st sessionId msgId auth kind server original (callName params) params := by
  obtain ⟨hmeta, ns, htarget, hskill, hserver⟩ := callRoute_eq_some_iff.mp h
  rw [serverNamespace_of_find hserver]
  exact handleCall_eq hmeta htarget hskill hserver

/-- A call that is not routed is answered by the gateway. -/
theorem handleCall_unrouted {sessionId : Text} {msgId params : Json}
    (h : callRoute st auth kind (callName params) = none) :
    (handleCall P w st sessionId msgId params auth kind).effects = [] := by
  rw [callRoute] at h
  unfold handleCall
  dsimp only
  by_cases hmeta : kind = .tool ∧ isMetaTool (callName params)
  · rw [if_pos hmeta, handleMetaToolCall]
    cases executeMetaTool P.unicode _ _ _ _ <;> rfl
  rw [if_neg hmeta] at h
  rw [if_neg hmeta]
  cases htarget : callTarget kind (callName params) with
  | none => rfl
  | some target =>
      obtain ⟨ns, original⟩ := target
      rw [htarget, Option.bind_some] at h
      rw [Run.orReply, Run.bind_value _ (a := (ns, original)) rfl]
      dsimp only at h ⊢
      by_cases hskill : ns = skillNamespace ∧ kind = .prompt
      · rw [if_pos hskill]
        rfl
      rw [if_neg hskill] at h
      rw [if_neg hskill, Option.map_eq_none_iff.mp h]
      rfl

/-! ### Routable names -/

theorem serverByNamespace_of_mem
    (hdistinct : ((st.teamServers auth.teamId).map ServerConfig.serverNamespace).Nodup)
    (hserver : server ∈ st.teamServers auth.teamId) :
    st.serverByNamespace server.serverNamespace auth.teamId = some server := by
  obtain ⟨hmem, hteam⟩ := List.mem_filter.mp hserver
  obtain ⟨henabled, hteam⟩ := Bool.and_eq_true_iff.mp hteam
  obtain ⟨found, hfound⟩ : ∃ found,
      st.serverByNamespace server.serverNamespace auth.teamId = some found := by
    refine Option.isSome_iff_exists.mp (List.find?_isSome.mpr ⟨server, hmem, ?_⟩)
    rw [beq_self_eq_true, hteam, henabled]
    rfl
  have hfoundTeam := List.find?_some hfound
  obtain ⟨hfoundTeam, hfoundEnabled⟩ := Bool.and_eq_true_iff.mp hfoundTeam
  have hfoundMem : found ∈ st.teamServers auth.teamId := by
    refine List.mem_filter.mpr ⟨List.mem_of_find?_eq_some hfound, ?_⟩
    rw [hfoundEnabled, (Bool.and_eq_true_iff.mp hfoundTeam).2]
    rfl
  rw [hfound, List.inj_on_of_nodup_map hdistinct hfoundMem hserver (serverNamespace_of_find hfound)]

/-- The target of a resource: its namespace ends at the first slash. -/
theorem callTarget_resource (ns name : Text) :
    ∃ original, callTarget .resource (wrapResourceUri ns name) =
      some ((ns ++ '/' :: urlEncode name).takeWhile (· != '/'), original) := by
  have hsplit : Rust.splitOnce '/' (ns ++ '/' :: urlEncode name) =
      some ((ns ++ '/' :: urlEncode name).takeWhile (· != '/'),
        ((ns ++ '/' :: urlEncode name).dropWhile (· != '/')).drop 1) :=
    if_pos (List.mem_append_right ns List.mem_cons_self)
  have hunwrap : unwrapResourceUri (wrapResourceUri ns name) =
      (some ((ns ++ '/' :: urlEncode name).takeWhile (· != '/')),
        urlDecode (((ns ++ '/' :: urlEncode name).dropWhile (· != '/')).drop 1)) := by
    rw [wrapResourceUri_eq]
    exact unwrapResourceUri_eq hsplit
  exact ⟨_, by rw [callTarget, hunwrap]⟩

/-- What is shown of an item names its server only if it is routable. -/
theorem routable_of_callTarget
    (htarget : callTarget kind (kind.clientName ns name) = some (ns, original))
    (hmeta : ¬ (kind = .tool ∧ isMetaTool (kind.clientName ns name)))
    (hskill : ¬ (ns = skillNamespace ∧ kind = .prompt)) : kind.Routable ns name := by
  cases kind with
  | tool =>
      exact ⟨Rust.splitOncePair_first htarget, Bool.eq_false_iff.mpr fun h => hmeta ⟨rfl, h⟩⟩
  | prompt => exact ⟨Rust.splitOncePair_first htarget, fun h => hskill ⟨h, rfl⟩⟩
  | resource =>
      obtain ⟨original', htarget'⟩ := callTarget_resource ns name
      obtain ⟨hns, -⟩ := Prod.mk.inj (Option.some.inj (htarget'.symm.trans htarget))
      intro hslash
      rw [← hns] at hslash
      exact absurd (List.mem_takeWhile_imp hslash) (by decide)

/-- **A name leads back exactly when it is routable.** -/
theorem callRoute_clientName_iff
    (hdistinct : ((st.teamServers auth.teamId).map ServerConfig.serverNamespace).Nodup)
    (hserver : server ∈ st.teamServers auth.teamId) :
    (∃ original, callRoute st auth kind (kind.clientName server.serverNamespace name) =
        some (server, original) ∧ (kind ≠ .resource → original = name)) ↔
      kind.Routable server.serverNamespace name := by
  constructor
  · rintro ⟨original, hroute, -⟩
    obtain ⟨hmeta, ns, htarget, hskill, hfind⟩ := callRoute_eq_some_iff.mp hroute
    obtain rfl := serverNamespace_of_find hfind
    exact routable_of_callTarget htarget hmeta hskill
  · intro hroutable
    obtain ⟨original, htarget⟩ := callTarget_clientName hroutable
    refine ⟨original, callRoute_eq_some_iff.mpr ⟨?_, _, htarget, ?_,
      serverByNamespace_of_mem hdistinct hserver⟩, fun hkind => ?_⟩
    · rintro ⟨rfl, hmeta⟩
      exact absurd hmeta (Bool.eq_false_iff.mp hroutable.2)
    · rintro ⟨hskill, rfl⟩
      exact hroutable.2 hskill
    · have hsplit : ∀ {t : Text}, t = prefixName server.serverNamespace name →
          Rust.splitOncePair '_' t = some (server.serverNamespace, original) → original = name := by
        intro t ht h
        rw [ht] at h
        have hparts := Rust.splitOncePair_eq_some h
        rw [prefixName, List.append_assoc] at hparts
        exact (List.cons.inj (List.cons.inj (List.append_cancel_left hparts)).2).2.symm
      cases kind with
      | tool => exact hsplit rfl htarget
      | prompt => exact hsplit rfl htarget
      | resource => exact absurd rfl hkind

end Routes

/-! ### The names of a list -/

namespace CallKind

/-- The names of the items of a response. -/
def names (kind : CallKind) (r : Response) : List Text := (kind.listed r).filterMap kind.itemName

end CallKind

section Names

variable (P : Platform) (w : World) (st : GatewayState) (auth : AuthContext) (kind : CallKind)

/-- The names of the items of a server that the policy lets a list show. -/
def shownNames (s : ServerConfig) (catalog : Catalog) : List Text :=
  ((kind.items catalog).filterMap kind.itemName).filter fun name =>
    (checkAccess P st auth kind s.serverNamespace (kind.clientName s.serverNamespace name)
      .null).any PolicyResult.listed

/-- The names of the items of a server that are in the list. -/
def serverNames (s : ServerConfig) : List Text :=
  (w.catalog s.id).elim [] (shownNames P st auth kind s)

/-- The skills that are in the list of the prompts. -/
def listedSkills : List CompiledSkill :=
  (if st.skills.hasSkills then SkillsRegistry.getEnabledSkills P auth st.skills.skills
    else some []).getD []

/-- Every name of a list leads back to the item it was shown for, and no two are the same. -/
structure LeadsBack (r : Response) : Prop where
  routed : ∀ s ∈ st.visible auth.teamId, ∀ name ∈ serverNames P w st auth kind s,
    ∃ original, callRoute st auth kind (kind.clientName s.serverNamespace name) =
      some (s, original) ∧ (kind ≠ .resource → original = name)
  distinct : (kind.names r).Nodup

/-- Every item of a list is routable, no server lists a name twice, and neither do the skills. -/
structure Unambiguous : Prop where
  routable : ∀ s ∈ st.visible auth.teamId, ∀ name ∈ serverNames P w st auth kind s,
    kind.Routable s.serverNamespace name
  items : ∀ s ∈ st.visible auth.teamId, (serverNames P w st auth kind s).Nodup
  skills : kind = .prompt → ((listedSkills P st auth).map fun s => s.config.name).Nodup

variable {P w st auth kind}

theorem itemName_shown (ns : Text) (item : Json) :
    kind.itemName (kind.shown ns item) = (kind.itemName item).map (kind.clientName ns) := by
  cases hname : kind.itemName item with
  | none => rw [shown_of_unnamed hname, hname, Option.map_none]
  | some name =>
      have htext : itemText kind.key (kind.shown ns item) = kind.clientName ns name :=
        itemText_shown hname
      rw [itemText] at htext
      rw [Option.map_some, CallKind.itemName]
      cases hshown : ((kind.shown ns item).get kind.key).bind Json.asStr with
      | none =>
          rw [hshown] at htext
          exact absurd htext.symm (clientName_ne_nil kind ns name)
      | some shown =>
          rw [hshown] at htext
          rw [← htext]
          rfl

/-- The names a server contributes to a list. -/
theorem contribution_names (s : ServerConfig) (catalog : Catalog) :
    (contribution P st auth kind s catalog).filterMap kind.itemName =
      (shownNames P st auth kind s catalog).map (kind.clientName s.serverNamespace) := by
  unfold contribution shownNames
  induction kind.items catalog with
  | nil => rfl
  | cons item items ih =>
      rw [List.map_cons, List.filter_cons, List.filterMap_cons]
      cases hname : kind.itemName item with
      | none =>
          have hshown : kind.itemName (kind.shown s.serverNamespace item) = none := by
            rw [itemName_shown, hname, Option.map_none]
          split
          · rw [List.filterMap_cons, hshown]
            exact ih
          · exact ih
      | some name =>
          have htext : itemText kind.key (kind.shown s.serverNamespace item) =
              kind.clientName s.serverNamespace name := itemText_shown hname
          have hshown : kind.itemName (kind.shown s.serverNamespace item) =
              some (kind.clientName s.serverNamespace name) := by
            rw [itemName_shown, hname, Option.map_some]
          dsimp only
          rw [htext, List.filter_cons]
          split
          · rw [List.filterMap_cons, hshown, List.map_cons]
            dsimp only
            rw [ih]
          · exact ih

theorem metaTools_nodup : (metaToolDefinitions.filterMap CallKind.tool.itemName).Nodup := by
  decide

/-- The names of the entries that are of the gateway itself. -/
theorem ownEntries_names {own : List Json} (hown : ownEntries P st auth kind = some own) :
    (∀ name ∈ own.filterMap kind.itemName, callRoute st auth kind name = none) ∧
    ((own.filterMap kind.itemName).Nodup ↔
      (kind = .prompt → ((listedSkills P st auth).map fun s => s.config.name).Nodup)) := by
  cases kind with
  | tool =>
      obtain rfl := Option.some.inj hown
      constructor
      · intro name hname
        obtain ⟨item, hitem, hname⟩ := List.mem_filterMap.mp hname
        split at hitem
        · cases hitem
        have hmeta := isMetaTool_of_mem hitem
        have htext : itemText "name".toList item = name := congrArg (Option.getD · []) hname
        rw [htext] at hmeta
        exact if_pos ⟨rfl, hmeta⟩
      · refine iff_of_true ?_ nofun
        split
        · exact List.nodup_nil
        · exact metaTools_nodup
  | resource =>
      obtain rfl := Option.some.inj hown
      exact ⟨fun name hname => absurd hname List.not_mem_nil, iff_of_true List.nodup_nil nofun⟩
  | prompt =>
      obtain ⟨skills, hskills, rfl⟩ := Option.map_eq_some_iff.mp hown
      have hlisted : listedSkills P st auth = skills := congrArg (Option.getD · []) hskills
      have hnames : (skills.map SkillsRegistry.buildPromptEntry).filterMap
          CallKind.prompt.itemName =
          (skills.map fun s => s.config.name).map (prefixName skillNamespace) := by
        rw [List.filterMap_map, List.map_map]
        exact congrFun List.filterMap_eq_map skills
      rw [hnames, hlisted]
      constructor
      · intro name hname
        obtain ⟨skill, -, rfl⟩ := List.mem_map.mp hname
        have htarget : callTarget .prompt (prefixName skillNamespace skill) =
            some (skillNamespace, skill) := by
          show Rust.splitOncePair '_' (skillNamespace ++ "__".toList ++ skill) = _
          rw [List.append_assoc]
          exact Rust.splitOncePair_append skill rfl
        rw [callRoute, if_neg (fun h => nomatch h.1), htarget, Option.bind_some]
        exact if_pos ⟨rfl, rfl⟩
      · have hinjective : Function.Injective (prefixName skillNamespace) :=
          CallKind.prompt.clientName_injective skillNamespace
        rw [List.nodup_map_iff hinjective]
        exact ⟨fun h _ => h, fun h => h rfl⟩

/-- The names of a list: those of the servers, and those of the gateway. -/
theorem names_list {msgId : Json} {r : Response}
    (hlist : (kind.list P w st msgId auth).exit = .value r) :
    ∃ own, ownEntries P st auth kind = some own ∧
      kind.names r = ((st.visible auth.teamId).flatMap fun s =>
        (serverNames P w st auth kind s).map (kind.clientName s.serverNamespace)) ++
          own.filterMap kind.itemName := by
  obtain ⟨own, hown, hlisted⟩ := listed_list hlist
  refine ⟨own, hown, ?_⟩
  rw [CallKind.names, hlisted, List.filterMap_append, List.filterMap_flatMap]
  congr 1
  refine List.flatMap_congr fun s _ => ?_
  unfold serverNames
  cases w.catalog s.id with
  | none => rfl
  | some catalog => exact contribution_names s catalog

theorem visible_sublist (st : GatewayState) (teamId : Int) :
    (st.visible teamId).Sublist (st.teamServers teamId) :=
  List.filter_sublist.trans List.filter_sublist

/-- **Names lead back.**  If the namespaces of the servers of a team are different, then every
name of a list leads back to the item it was shown for and no two names are the same, if and only
if every item is routable and neither a server nor the skills list a name twice. -/
theorem names_lead_back_iff
    (hdistinct : ((st.teamServers auth.teamId).map ServerConfig.serverNamespace).Nodup)
    {msgId : Json} {r : Response} (hlist : (kind.list P w st msgId auth).exit = .value r) :
    LeadsBack P w st auth kind r ↔ Unambiguous P w st auth kind := by
  obtain ⟨own, hown, hnames⟩ := names_list hlist
  obtain ⟨hunrouted, hskills⟩ := ownEntries_names hown
  have hvisible := visible_sublist st auth.teamId
  have hroute : ∀ s ∈ st.visible auth.teamId, ∀ name,
      (∃ original, callRoute st auth kind (kind.clientName s.serverNamespace name) =
        some (s, original) ∧ (kind ≠ .resource → original = name)) ↔
      kind.Routable s.serverNamespace name :=
    fun s hs name => callRoute_clientName_iff hdistinct (hvisible.subset hs)
  have hserver : ∀ s, ((serverNames P w st auth kind s).map
      (kind.clientName s.serverNamespace)).Nodup ↔ (serverNames P w st auth kind s).Nodup :=
    fun s => List.nodup_map_iff (kind.clientName_injective s.serverNamespace)
  constructor
  · rintro ⟨hrouted, hnodup⟩
    rw [hnames, List.nodup_append, List.nodup_flatMap] at hnodup
    exact ⟨fun s hs name hname => (hroute s hs name).mp (hrouted s hs name hname),
      fun s hs => (hserver s).mp (hnodup.1.1 s hs), hskills.mp hnodup.2.1⟩
  · rintro ⟨hroutable, hitems, hskillNames⟩
    have hrouted : ∀ s ∈ st.visible auth.teamId, ∀ name ∈ (serverNames P w st auth kind s).map
        (kind.clientName s.serverNamespace), ∃ original,
          callRoute st auth kind name = some (s, original) := by
      intro s hs name hname
      obtain ⟨old, hold, rfl⟩ := List.mem_map.mp hname
      obtain ⟨original, hcall, -⟩ := (hroute s hs old).mpr (hroutable s hs old hold)
      exact ⟨original, hcall⟩
    refine ⟨fun s hs name hname => (hroute s hs name).mpr (hroutable s hs name hname), ?_⟩
    rw [hnames, List.nodup_append, List.nodup_flatMap]
    refine ⟨⟨fun s hs => (hserver s).mpr (hitems s hs), ?_⟩, hskills.mpr hskillNames, ?_⟩
    · -- A name that two servers showed would be routed to both.
      have hne := List.pairwise_map.mp (hdistinct.sublist (hvisible.map _))
      refine hne.imp_of_mem fun {s s'} hs hs' hns name hname hname' => hns ?_
      obtain ⟨original, hcall⟩ := hrouted s hs name hname
      obtain ⟨original', hcall'⟩ := hrouted s' hs' name hname'
      cases hcall.symm.trans hcall'
      rfl
    · rintro name hname name' hname' rfl
      obtain ⟨s, hs, hname⟩ := List.mem_flatMap.mp hname
      obtain ⟨original, hcall⟩ := hrouted s hs name hname
      rw [hunrouted name hname'] at hcall
      cases hcall

end Names

theorem names_lead_back_jira :
    LeadsBack .plain catalogWorld (.ofBundle .plain (jiraBundle [])) ci .tool
        (successResponse .null (listResult "tools".toList
          [CallKind.tool.shown "jira".toList createTool] [])) ↔
      Unambiguous .plain catalogWorld (.ofBundle .plain (jiraBundle [])) ci .tool := by
  have hlist : (CallKind.tool.list .plain catalogWorld (.ofBundle .plain (jiraBundle [])) .null
      ci).exit = .value (successResponse .null (listResult "tools".toList
        [CallKind.tool.shown "jira".toList createTool] [])) := rfl
  exact names_lead_back_iff (by decide) hlist

/-! ### Namespaces the backend accepts -/

/-- A character of `_NamespaceRe`. -/
def namespaceChar (c : Char) : Bool :=
  ('a' ≤ c && c ≤ 'z') || ('0' ≤ c && c ≤ '9') || c == '_' || c == '-'

/-- `_NamespaceRe.match`, where the dollar sign lets a line feed stand at the end. -/
def namespaceRe (ns : Text) : Bool :=
  let body := if ns.getLast? = some '\n' then ns.dropLast else ns
  !body.isEmpty && body.all namespaceChar

/-- The checks of `create_server` and `update_server`, given the namespaces of the other servers;
an installation from the marketplace is not checked. -/
def checkNamespace (used : List Text) (ns : Text) : Except (Nat × Text) Unit :=
  if !namespaceRe ns then .error (400, "Namespace must match [a-z0-9_-]+".toList)
  else if Rust.contains ns "__".toList then
    .error (400, "Namespace cannot contain double underscore".toList)
  else if ns ∈ used then .error (409, "Namespace already in use".toList)
  else .ok ()

theorem accepted_iff {used : List Text} {ns : Text} :
    checkNamespace used ns = .ok () ↔
      namespaceRe ns = true ∧ ¬ "__".toList <:+: ns ∧ ns ∉ used := by
  unfold checkNamespace Rust.contains
  by_cases hre : namespaceRe ns = true
  · rw [hre, if_neg (by decide)]
    by_cases hpair : "__".toList <:+: ns
    · rw [if_pos (decide_eq_true hpair)]
      exact iff_of_false nofun fun h => h.2.1 hpair
    rw [if_neg (by rw [decide_eq_true_iff]; exact hpair)]
    by_cases hused : ns ∈ used
    · rw [if_pos hused]
      exact iff_of_false nofun fun h => h.2.2 hused
    · rw [if_neg hused]
      exact iff_of_true rfl ⟨rfl, hpair, hused⟩
  · rw [Bool.eq_false_iff.mpr hre, if_pos (by decide)]
    exact iff_of_false nofun fun h => Bool.false_ne_true h.1

/-- A namespace that the expression matches has no slash. -/
theorem not_mem_of_namespaceRe {ns : Text} (h : namespaceRe ns = true) : '/' ∉ ns := by
  have hslash : ∀ body : Text, body.all namespaceChar = true → '/' ∉ body := fun body hall hmem =>
    absurd (List.all_eq_true.mp hall '/' hmem) (by decide)
  have hbody := (Bool.and_eq_true_iff.mp h).2
  split at hbody
  case isTrue hlast =>
    intro hmem
    rw [← List.dropLast_append_getLast? '\n' hlast, List.mem_append] at hmem
    rcases hmem with hmem | hmem
    · exact hslash _ hbody hmem
    · exact absurd (List.mem_singleton.mp hmem) (by decide)
  · exact hslash ns hbody

/-- A namespace without a separator is not cut short unless it ends in an underscore. -/
theorem splitOncePair_namespace_iff {ns : Text} (h : ¬ "__".toList <:+: ns) :
    Rust.splitOncePair '_' (ns ++ ['_']) = none ↔ ns.getLast? ≠ some '_' := by
  rw [Rust.splitOncePair_eq_none_iff, List.infix_concat_iff]
  refine not_congr ⟨?_, fun hlast => .inl ?_⟩
  · rintro (⟨before, hbefore⟩ | hinside)
    · have hns : (before ++ ['_']) ++ ['_'] = ns ++ ['_'] := by
        rw [List.append_assoc]
        exact hbefore
      rw [← List.append_cancel_right hns]
      exact List.getLast?_concat ..
    · exact absurd hinside h
  · obtain ⟨before, rfl⟩ := List.getLast?_eq_some_iff.mp hlast
    exact ⟨before, by rw [List.append_assoc]; rfl⟩

/-- What is routable of a server with an accepted namespace: all its resources, and its tools and
prompts if the namespace does not end in an underscore and is not in the way of the gateway's. -/
theorem accepted_routable_iff {used : List Text} {ns name : Text} {kind : CallKind}
    (haccepted : checkNamespace used ns = .ok ()) :
    kind.Routable ns name ↔
      match kind with
      | .tool => ns.getLast? ≠ some '_' ∧ isMetaTool (prefixName ns name) = false
      | .resource => True
      | .prompt => ns.getLast? ≠ some '_' ∧ ns ≠ skillNamespace := by
  obtain ⟨hre, hpair, -⟩ := accepted_iff.mp haccepted
  cases kind with
  | tool => exact and_congr_left' (splitOncePair_namespace_iff hpair)
  | prompt => exact and_congr_left' (splitOncePair_namespace_iff hpair)
  | resource => exact iff_of_true (not_mem_of_namespaceRe hre) trivial

/-! ### A name that leads elsewhere -/

/-- Two servers of a team. -/
def shortServer : ServerConfig := { jira with serverNamespace := "a".toList }

def longServer : ServerConfig := { jira with id := 2, serverNamespace := "a_".toList }

/-- Their gateway. -/
def underscoreState : GatewayState :=
  .ofBundle .plain { jiraBundle [] with servers := [shortServer, longServer] }

/-- Their tools. -/
def underscoreTool (id : Int) : Json :=
  .obj [("name".toList, .str (if id = 2 then "x".toList else "_x".toList))]

def underscoreWorld : World :=
  { calmWorld with catalog := fun id => some ⟨[underscoreTool id], [], []⟩ }

/-- The list of the tools. -/
def underscoreList : Response :=
  successResponse .null (listResult "tools".toList
    [CallKind.tool.shown "a".toList (underscoreTool 1),
      CallKind.tool.shown "a_".toList (underscoreTool 2)] [])

/-- The backend accepts both namespaces, and the tools of the servers have the same name in the
list, which leads to the first of them. -/
theorem underscore_misroutes :
    checkNamespace [] "a".toList = .ok () ∧ checkNamespace ["a".toList] "a_".toList = .ok () ∧
    ((underscoreState.teamServers 1).map ServerConfig.serverNamespace).Nodup ∧
    (CallKind.tool.list .plain underscoreWorld underscoreState .null ci).exit =
      .value underscoreList ∧
    ¬ LeadsBack .plain underscoreWorld underscoreState ci .tool underscoreList := by
  refine ⟨by decide, by decide, by decide, rfl, fun h => ?_⟩
  have hshown : "x".toList ∈ serverNames .plain underscoreWorld underscoreState ci .tool
      longServer := List.mem_singleton_self _
  have hvisible : longServer ∈ underscoreState.visible ci.teamId :=
    List.mem_cons_of_mem _ (List.mem_singleton_self _)
  obtain ⟨original, hroute, -⟩ := h.routed longServer hvisible "x".toList hshown
  have hfirst : callRoute underscoreState ci .tool
      (CallKind.tool.clientName longServer.serverNamespace "x".toList) =
      some (shortServer, "_x".toList) := rfl
  cases hroute.symm.trans hfirst

end CorexManager.Gateway
