import CorexManager.Cache.Rules
import CorexManager.Logic.FirstMatch

/-!
# The directives of the cache rules

HAProxy can be told to use a cache, never not to.  The first rule that matches still
decides, since every `cache-use` and every `use-server` line repeats the `bypass` rules
before it with an exclamation mark.

* `conditions` — the loop both emitters run.
* `conditions_hold` — one of its conditions holds exactly when the first rule that applies
  is a `cache` rule, and the condition added to all of them holds.
* `first_match` — the directives of a backend use the memory cache, and the server of the
  disk cache, exactly when the first matching rule of that cache says so.
-/

namespace CorexManager.Cache

open Data
open HAProxy

/-! ### The emitters -/

/-- A line of the backend section. -/
inductive CacheLine where
  | acl (name criterion : Text)
  | comment (text : Text)
  /-- `http-request cache-use cache if cond`. -/
  | cacheUse (cache cond : Text)
  /-- `use-server server if cond`. -/
  | useServer (server cond : Text)
  deriving DecidableEq, Repr

/-- The prefix the ACLs of a backend have. -/
def backendAclPrefix (backend : Text) : Text := "cacherule_".toList ++ Frontend.safeName backend

/-- The name of a rule's ACL. -/
def CacheRule.aclName (aclPrefix : Text) (r : CacheRule) : Text :=
  aclPrefix ++ '_' :: natText r.id

/-- The ACL of a rule. -/
def CacheRule.aclLine (aclPrefix : Text) (r : CacheRule) : Option CacheLine :=
  r.haproxyAclCriterion.map (.acl (r.aclName aclPrefix))

/-- The loop over the rules: a `bypass` rule is remembered, a `cache` rule has its condition,
with the rules remembered so far negated. -/
def conditions (aclPrefix : Text) (extra : Option Text) :
    (precedingBypass : List Text) → List CacheRule → List Text
  | _, [] => []
  | preceding, r :: rs =>
      if r.action = .bypass then
        conditions aclPrefix extra (preceding ++ [r.aclName aclPrefix]) rs
      else
        blankJoin (r.aclName aclPrefix :: (preceding.map ('!' :: ·) ++ extra.toList)) ::
          conditions aclPrefix extra preceding rs

/-- `emit_haproxy_cache_rules`. -/
def emitHaproxyCacheRules (c : CacheConfig) (cacheName aclPrefix : Text)
    (extraCondition : Option Text) (emitAcls : Bool) : Option (List CacheLine × Bool) :=
  let rules := c.requestRules .memory
  if rules = [] then
    some ([.comment "No cacheability rules for memory tier — memory cache stores nothing".toList],
      false)
  else
    ((if emitAcls then rules else []).mapM (CacheRule.aclLine aclPrefix)).map fun lines =>
      let extra := extraCondition.filter (· ≠ [])
      let useLines := (conditions aclPrefix extra [] rules).map (CacheLine.cacheUse cacheName)
      if useLines = [] then
        (lines ++ [.comment
          "All memory tier cacheability rules are bypass rules — memory cache stores nothing".toList],
          false)
      else (lines ++ useLines, true)

/-- `emit_cache_rule_acls`. -/
def emitCacheRuleAcls (c : CacheConfig) (aclPrefix : Text) : Option (List CacheLine) :=
  (c.activeRules.filter fun r => r.matchType.requestPhase).mapM (CacheRule.aclLine aclPrefix)

/-- `emit_disk_cache_use_server_directives`: the lines, and their conditions. -/
def emitDiskCacheUseServerDirectives (c : CacheConfig) (varnishServerName aclPrefix : Text) :
    List CacheLine × List Text :=
  let conds := conditions aclPrefix none [] (c.requestRules .disk)
  (conds.map (CacheLine.useServer varnishServerName), conds)

/-- What the rules put into a backend's section: the ACLs of all of them, and the lines of
both caches. -/
def backendLines (c : CacheConfig) (backend cacheName varnishServerName : Text) :
    Option (List CacheLine) := do
  let acls ← emitCacheRuleAcls c (backendAclPrefix backend)
  let memory ← emitHaproxyCacheRules c cacheName (backendAclPrefix backend) none false
  some (acls ++ memory.1 ++
    (emitDiskCacheUseServerDirectives c varnishServerName (backendAclPrefix backend)).1)

/-! ### What HAProxy does with them -/

namespace CacheLine

/-- The ACL line a line is. -/
def acl? : CacheLine → Option Line
  | acl name criterion => some (.acl name criterion)
  | _ => none

/-- The cache a line uses, and when. -/
def cacheUse? : CacheLine → Option (Text × Text)
  | cacheUse cache cond => some (cache, cond)
  | _ => none

/-- The server a line chooses, and when. -/
def useServer? : CacheLine → Option (Text × Text)
  | useServer server cond => some (server, cond)
  | _ => none

end CacheLine

/-- What the conditions of a section see. -/
def sectionView (E : Engine) (lines : List CacheLine) (t : Txn) : View :=
  t.view E (declaredAcls E (lines.filterMap CacheLine.acl?))

/-- The caches a request is looked up in. -/
def cachesUsed (E : Engine) (lines : List CacheLine) (t : Txn) : List Text :=
  ((lines.filterMap CacheLine.cacheUse?).filter fun u =>
    (sectionView E lines t).holds u.2 == some true).map Prod.fst

/-- The server a request is sent to; without one, the load balancer chooses. -/
def serverUsed (E : Engine) (lines : List CacheLine) (t : Txn) : Option Text :=
  ((lines.filterMap CacheLine.useServer?).find? fun u =>
    (sectionView E lines t).holds u.2 == some true).map Prod.fst

/-- **The condition of a rule matches** the request. -/
def CacheRule.applies (E : Engine) (t : Txn) (r : CacheRule) : Bool :=
  r.haproxyAclCriterion.any fun c =>
    ((words E.expand c).bind parseAcl).any fun a => a.eval E t.samples

/-- The rule lets responses be cached. -/
def CacheRule.allows (r : CacheRule) : Bool := r.action == .cache

/-! ### The names of the ACLs -/

theorem backendAclPrefix_bare (backend : Text) : ∀ ch ∈ backendAclPrefix backend, bare ch = true := by
  have hchar : ∀ ch : Char, Frontend.nameChar ch = true → bare ch = true := by
    intro ch h
    by_contra hbare
    simp only [bare, Bool.not_eq_true, Bool.not_eq_false', Bool.or_eq_true, beq_iff_eq] at hbare
    rcases hbare with ((((((rfl | rfl) | rfl) | rfl) | rfl) | rfl) | rfl) | rfl <;>
      exact absurd h (by decide)
  have hword : ∀ ch ∈ "cacherule_".toList, bare ch = true := by decide
  intro ch hch
  rcases List.mem_append.mp hch with hch | hch
  · exact hword ch hch
  · exact hchar ch (Frontend.safeName_nameChar backend ch hch)

/-- The name of a rule's ACL is one word, and no word of the syntax. -/
theorem aclName_isName (backend : Text) (r : CacheRule) :
    isName (r.aclName (backendAclPrefix backend)) = true := by
  obtain ⟨rest, hrest⟩ : ∃ rest, r.aclName (backendAclPrefix backend) = 'c' :: 'a' :: 'c' :: rest :=
    ⟨_, rfl⟩
  have hlower : 'c'.toLower = 'c' := by decide
  rw [hrest]
  simp [isName, isOr, hlower]

theorem aclName_bare (backend : Text) (r : CacheRule) :
    ∀ ch ∈ r.aclName (backendAclPrefix backend), bare ch = true := by
  intro ch hch
  rcases List.mem_append.mp hch with hch | hch
  · exact backendAclPrefix_bare backend ch hch
  · rcases List.mem_cons.mp hch with rfl | hch
    · decide
    · exact intText_bare (Int.ofNat r.id) ch hch

/-- Rules with the same ACL are the same rule. -/
theorem aclName_id {aclPrefix : Text} {r q : CacheRule} (h : r.aclName aclPrefix = q.aclName aclPrefix) :
    r.id = q.id := by
  have htext : natText r.id = natText q.id := by
    have htail := List.append_cancel_left h
    exact (List.cons.inj htail).2
  have hread := congrArg readNat htext
  rw [readNat_natText, readNat_natText] at hread
  exact Option.some.inj hread

/-- **An ACL declared once** says whether its rule's condition matches. -/
theorem named_aclName {E : Engine} {t : Txn} {aclPrefix : Text} {rules : List CacheRule}
    {lines : List Line} (hids : ∀ r ∈ rules, ∀ q ∈ rules, r.id = q.id → r = q)
    (hlines : lines = rules.filterMap fun r =>
      r.haproxyAclCriterion.map (Line.acl (r.aclName aclPrefix)))
    {r : CacheRule} (hr : r ∈ rules) :
    (t.view E (declaredAcls E lines)).named (r.aclName aclPrefix) = r.applies E t := by
  show declared E t.samples (declaredAcls E lines) (r.aclName aclPrefix) = r.applies E t
  rw [Bool.eq_iff_iff]
  simp only [declared, declaredAcls, hlines, CacheRule.applies, List.any_eq_true, Option.any_eq_true,
    Bool.and_eq_true, beq_iff_eq]
  constructor
  · rintro ⟨a, ha, hname, heval⟩
    obtain ⟨line, hline, hacl⟩ := List.mem_filterMap.mp ha
    obtain ⟨q, hq, hcriterion⟩ := List.mem_filterMap.mp hline
    obtain ⟨c, hc, rfl⟩ := Option.map_eq_some_iff.mp hcriterion
    obtain ⟨acl, hparse, rfl⟩ := Option.map_eq_some_iff.mp hacl
    obtain rfl := hids q hq r hr (aclName_id hname)
    exact ⟨c, hc, acl, hparse, heval⟩
  · rintro ⟨c, hc, acl, hparse, heval⟩
    refine ⟨(r.aclName aclPrefix, acl), ?_, rfl, heval⟩
    refine List.mem_filterMap.mpr ⟨.acl (r.aclName aclPrefix) c, ?_, ?_⟩
    · exact List.mem_filterMap.mpr ⟨r, hr, by rw [hc, Option.map_some]⟩
    · rw [Line.acl?, hparse, Option.map_some]

/-! ### The ACL lines -/

/-- The lines of rules are their ACLs and nothing else. -/
private theorem lines_of_mapM {aclPrefix : Text} {rules : List CacheRule} {lines : List CacheLine}
    (h : rules.mapM (CacheRule.aclLine aclPrefix) = some lines) :
    lines.filterMap CacheLine.acl? = (rules.filterMap fun r =>
        r.haproxyAclCriterion.map (Line.acl (r.aclName aclPrefix))) ∧
      lines.filterMap CacheLine.cacheUse? = [] ∧ lines.filterMap CacheLine.useServer? = [] := by
  induction rules generalizing lines with
  | nil =>
      rw [List.mapM_nil] at h
      cases h
      exact ⟨rfl, rfl, rfl⟩
  | cons r rs ih =>
      rw [List.mapM_cons] at h
      obtain ⟨line, hline, htail⟩ := Option.bind_eq_some_iff.mp h
      obtain ⟨rest, hrest, hlines⟩ := Option.bind_eq_some_iff.mp htail
      cases hlines
      obtain ⟨c, hc, rfl⟩ := Option.map_eq_some_iff.mp hline
      obtain ⟨hacls, huses, hservers⟩ := ih hrest
      refine ⟨?_, huses, hservers⟩
      rw [List.filterMap_cons, List.filterMap_cons, hacls, hc]
      rfl

/-- Rules that look at the request all have an ACL. -/
private theorem exists_mapM (aclPrefix : Text) (rules : List CacheRule)
    (h : ∀ r ∈ rules, r.matchType.requestPhase = true) :
    ∃ lines, rules.mapM (CacheRule.aclLine aclPrefix) = some lines := by
  induction rules with
  | nil => exact ⟨[], rfl⟩
  | cons r rs ih =>
      obtain ⟨c, hc⟩ := CacheRule.criterion_of_requestPhase (h r List.mem_cons_self)
      obtain ⟨rest, hrest⟩ := ih fun q hq => h q (List.mem_cons_of_mem r hq)
      refine ⟨.acl (r.aclName aclPrefix) c :: rest, ?_⟩
      rw [List.mapM_cons, hrest, CacheRule.aclLine, hc]
      rfl

/-! ### The conditions -/

section Conditions

variable {v : View} {E : Engine} {t : Txn} {backend : Text} {extra : Option Text} {b : Bool}

/-- **A condition** spells that its rule applies and none of its guards does. -/
private theorem condition_spelt {r : CacheRule} {denied : List CacheRule}
    (hnamed : ∀ q ∈ r :: denied, v.named (q.aclName (backendAclPrefix backend)) = q.applies E t)
    (hextra : ∀ e ∈ extra, SpeltGroup v e b) :
    SpeltGroup v
      (blankJoin (r.aclName (backendAclPrefix backend) ::
        ((denied.map (CacheRule.aclName (backendAclPrefix backend))).map ('!' :: ·) ++
          extra.toList)))
      (FirstMatch.Holds (CacheRule.applies E t) (r, denied) && (extra.isNone || b)) := by
  have hguards : List.Forall₂ (SpeltGroup v)
      ((denied.map (CacheRule.aclName (backendAclPrefix backend))).map ('!' :: ·))
      (denied.map fun q => !q.applies E t) := by
    rw [List.map_map, List.forall₂_map_left_iff, List.forall₂_map_right_iff, List.forall₂_same]
    intro q hq
    have hspelt := SpeltGroup.not_named v (aclName_bare backend q) (aclName_isName backend q)
    rwa [hnamed q (List.mem_cons_of_mem r hq)] at hspelt
  have hadded : List.Forall₂ (SpeltGroup v) extra.toList (extra.toList.map fun _ => b) := by
    rw [List.forall₂_map_right_iff, List.forall₂_same]
    exact fun e he => hextra e (Option.mem_toList.mp he)
  have hhead := SpeltGroup.named v (aclName_bare backend r) (aclName_isName backend r)
  rw [hnamed r List.mem_cons_self] at hhead
  have hall := SpeltGroup.blankJoin (.cons hhead (List.rel_append hguards hadded))
    (List.cons_ne_nil _ _)
  convert hall using 1
  have hnone : (denied.map fun q => !q.applies E t).all id = !denied.any (CacheRule.applies E t) := by
    rw [List.all_map, List.not_any_eq_all_not]
    rfl
  rw [List.all_cons, List.all_append, hnone, FirstMatch.Holds, Bool.and_assoc]
  cases extra with
  | none => simp
  | some e => simp

/-- **The conditions of the loop** hold as the rules decide, when what is added to all of them
holds. -/
theorem conditions_hold {rules denied : List CacheRule}
    (hnamed : ∀ q ∈ denied ++ rules,
      v.named (q.aclName (backendAclPrefix backend)) = q.applies E t)
    (hextra : ∀ e ∈ extra, SpeltGroup v e b) (hdenied : denied.any (CacheRule.applies E t) = false) :
    ((conditions (backendAclPrefix backend) extra
        (denied.map (CacheRule.aclName (backendAclPrefix backend))) rules).any fun cond =>
          v.holds cond == some true) =
      ((FirstMatch.decision (CacheRule.applies E t) CacheRule.allows rules == some true) &&
        (extra.isNone || b)) := by
  have hguarded : ∀ denied : List CacheRule, (∀ q ∈ denied ++ rules,
      v.named (q.aclName (backendAclPrefix backend)) = q.applies E t) →
      ((conditions (backendAclPrefix backend) extra
        (denied.map (CacheRule.aclName (backendAclPrefix backend))) rules).any fun cond =>
          v.holds cond == some true) =
      ((FirstMatch.guarded CacheRule.allows denied rules).any
        (FirstMatch.Holds (CacheRule.applies E t)) && (extra.isNone || b)) := by
    clear hnamed hdenied
    induction rules with
    | nil => exact fun _ _ => rfl
    | cons r rs ih =>
        intro denied hnamed
        rw [conditions, FirstMatch.guarded]
        have hsplit : (denied ++ [r]) ++ rs = denied ++ r :: rs := by simp
        cases haction : r.action with
        | bypass =>
            have hallow : r.allows = false := by rw [CacheRule.allows, haction]; rfl
            have hrest := ih (denied ++ [r]) (by rwa [hsplit])
            rw [List.map_append, List.map_singleton] at hrest
            rw [if_pos rfl, hallow, if_neg Bool.false_ne_true]
            exact hrest
        | cache =>
            have hallow : r.allows = true := by rw [CacheRule.allows, haction]; rfl
            have hhead : SpeltGroup v _ (FirstMatch.Holds (CacheRule.applies E t) (r, denied) &&
                (extra.isNone || b)) :=
              condition_spelt (fun q hq => hnamed q (by
                rcases List.mem_cons.mp hq with rfl | hq
                · simp
                · exact List.mem_append_left _ hq)) hextra
            have hrest := ih denied fun q hq => hnamed q (by
              rcases List.mem_append.mp hq with hq | hq
              · exact List.mem_append_left _ hq
              · simp [hq])
            rw [if_neg (by decide), hallow, if_pos rfl, List.any_cons, List.any_cons, hhead.holds,
              hrest, Bool.and_or_distrib_right]
            congr 1
            cases FirstMatch.Holds (CacheRule.applies E t) (r, denied) && (extra.isNone || b) <;> rfl
  rw [hguarded denied hnamed, FirstMatch.any_guarded hdenied]

end Conditions

/-! ### The first match -/

/-- The rule is one of a cache that may match a request. -/
def CacheRule.candidate (tier : Tier) (r : CacheRule) : Bool :=
  r.enabled && (r.tier == tier && r.matchType.requestPhase)

/-- **The first matching rule of a cache** is a `cache` rule: of the enabled rules of the
cache that look at the request and match it, the one with the least priority (and, among
these, the least id). -/
def FirstMatchCaches (E : Engine) (t : Txn) (c : CacheConfig) (tier : Tier) : Prop :=
  ∃ i r, Priority.IsFirst (fun r : CacheRule => toLex (r.priority, r.id))
      (fun r => r.candidate tier && r.applies E t) c.rules i r ∧
    r.action = .cache

/-- The rules in their order decide by the first match. -/
private theorem decision_iff (E : Engine) (t : Txn) (c : CacheConfig) (tier : Tier) :
    FirstMatch.decision (CacheRule.applies E t) CacheRule.allows (c.requestRules tier) = some true ↔
      FirstMatchCaches E t c tier := by
  have hfind : (c.requestRules tier).find? (CacheRule.applies E t) =
      (Priority.sortByKey (fun r : CacheRule => toLex (r.priority, r.id)) c.rules).find?
        fun r => r.candidate tier && r.applies E t := by
    rw [CacheConfig.requestRules, CacheConfig.activeRules, Priority.sortByKey_filter,
      List.find?_filter, List.find?_filter]
    simp only [CacheRule.candidate, Bool.decide_and, Bool.decide_coe, Bool.and_assoc]
  rw [FirstMatch.decision, hfind, Option.map_eq_some_iff]
  constructor
  · rintro ⟨r, hr, hallow⟩
    obtain ⟨i, hi⟩ := Priority.find?_sortByKey hr
    exact ⟨i, r, hi, beq_iff_eq.mp hallow⟩
  · rintro ⟨i, r, hi, haction⟩
    exact ⟨r, hi.find?, beq_iff_eq.mpr haction⟩

/-- In a section with the ACLs of the rules, the conditions of a cache decide by the first
match, and by what is added to them. -/
private theorem conditions_firstMatch {E : Engine} {t : Txn} {c : CacheConfig} {tier : Tier}
    {backend : Text} {rules : List CacheRule} {lines : List CacheLine} {extra : Option Text}
    {b : Bool}
    (hlines : lines.filterMap CacheLine.acl? = (rules.filterMap fun r =>
      r.haproxyAclCriterion.map (Line.acl (r.aclName (backendAclPrefix backend)))))
    (hrules : ∀ r ∈ rules, r ∈ c.activeRules) (hall : ∀ r ∈ c.requestRules tier, r ∈ rules)
    (hextra : ∀ e ∈ extra, SpeltGroup (sectionView E lines t) e b) :
    ((conditions (backendAclPrefix backend) extra [] (c.requestRules tier)).any fun cond =>
      (sectionView E lines t).holds cond == some true) = true ↔
      FirstMatchCaches E t c tier ∧ (extra.isNone || b) = true := by
  have hnamed : ∀ q ∈ [] ++ c.requestRules tier,
      (sectionView E lines t).named (q.aclName (backendAclPrefix backend)) = q.applies E t :=
    fun q hq => named_aclName (fun r hr q hq => c.eq_of_id (hrules r hr) (hrules q hq)) hlines
      (hall q hq)
  have hhold : _ = ((FirstMatch.decision (CacheRule.applies E t) CacheRule.allows
      (c.requestRules tier) == some true) && (extra.isNone || b)) :=
    conditions_hold hnamed hextra rfl
  rw [List.map_nil] at hhold
  rw [hhold, Bool.and_eq_true, beq_iff_eq, decision_iff]

/-- Nothing is added. -/
private theorem conditions_firstMatch_none {E : Engine} {t : Txn} {c : CacheConfig} {tier : Tier}
    {backend : Text} {rules : List CacheRule} {lines : List CacheLine}
    (hlines : lines.filterMap CacheLine.acl? = (rules.filterMap fun r =>
      r.haproxyAclCriterion.map (Line.acl (r.aclName (backendAclPrefix backend)))))
    (hrules : ∀ r ∈ rules, r ∈ c.activeRules) (hall : ∀ r ∈ c.requestRules tier, r ∈ rules) :
    ((conditions (backendAclPrefix backend) none [] (c.requestRules tier)).any fun cond =>
      (sectionView E lines t).holds cond == some true) = true ↔ FirstMatchCaches E t c tier := by
  have h : _ ↔ FirstMatchCaches E t c tier ∧ ((none : Option Text).isNone || true) = true :=
    conditions_firstMatch hlines hrules hall fun e he => nomatch he
  rwa [Option.isNone_none, Bool.true_or, eq_self, and_true] at h

/-- The `cache-use` lines of conditions. -/
private theorem cacheUse_lines (cache : Text) (conds : List Text) :
    (conds.map (CacheLine.cacheUse cache)).filterMap CacheLine.acl? = [] ∧
      (conds.map (CacheLine.cacheUse cache)).filterMap CacheLine.cacheUse? =
        conds.map (cache, ·) ∧
      (conds.map (CacheLine.cacheUse cache)).filterMap CacheLine.useServer? = [] := by
  simp only [List.filterMap_map, List.filterMap_eq_nil_iff]
  exact ⟨fun _ _ => rfl, congrFun List.filterMap_eq_map conds, fun _ _ => rfl⟩

/-- The `use-server` lines of conditions. -/
private theorem useServer_lines (server : Text) (conds : List Text) :
    (conds.map (CacheLine.useServer server)).filterMap CacheLine.acl? = [] ∧
      (conds.map (CacheLine.useServer server)).filterMap CacheLine.cacheUse? = [] ∧
      (conds.map (CacheLine.useServer server)).filterMap CacheLine.useServer? =
        conds.map (server, ·) := by
  simp only [List.filterMap_map, List.filterMap_eq_nil_iff]
  exact ⟨fun _ _ => rfl, fun _ _ => rfl, congrFun List.filterMap_eq_map conds⟩

/-- The lines of the memory cache: the ACLs, if they are asked for, and a `cache-use` line for
every condition. -/
private theorem emitHaproxyCacheRules_lines (c : CacheConfig) (cacheName aclPrefix : Text)
    (extraCondition : Option Text) (emitAcls : Bool) :
    ∃ out, emitHaproxyCacheRules c cacheName aclPrefix extraCondition emitAcls = some out ∧
      out.1.filterMap CacheLine.acl? = (if emitAcls then c.requestRules .memory else []).filterMap
        (fun r => r.haproxyAclCriterion.map (Line.acl (r.aclName aclPrefix))) ∧
      out.1.filterMap CacheLine.cacheUse? =
        (conditions aclPrefix (extraCondition.filter (· ≠ [])) [] (c.requestRules .memory)).map
          (cacheName, ·) ∧
      out.1.filterMap CacheLine.useServer? = [] := by
  obtain ⟨acls, hacls⟩ := exists_mapM aclPrefix
    (if emitAcls then c.requestRules .memory else []) (by
      intro r hr
      cases emitAcls with
      | true => exact (CacheConfig.mem_requestRules.mp hr).2.2
      | false => cases hr)
  obtain ⟨hlines, huses, hservers⟩ := lines_of_mapM hacls
  unfold emitHaproxyCacheRules
  by_cases hrules : c.requestRules .memory = []
  · rw [if_pos hrules, hrules, ite_self]
    exact ⟨_, rfl, rfl, rfl, rfl⟩
  · rw [if_neg hrules, hacls, Option.map_some]
    refine ⟨_, rfl, ?_⟩
    dsimp only
    split
    · next hnone =>
        simp only [List.filterMap_append, hlines, huses, hservers, List.map_eq_nil_iff.mp hnone]
        exact ⟨List.append_nil _, rfl, rfl⟩
    · obtain ⟨hacl, hcache, hserver⟩ := cacheUse_lines cacheName
        (conditions aclPrefix (extraCondition.filter (· ≠ [])) [] (c.requestRules .memory))
      simp only [List.filterMap_append, hlines, huses, hservers, hacl, hcache, hserver,
        List.nil_append, List.append_nil, and_self]

/-- A request is looked up in the cache when a condition holds. -/
private theorem mem_cachesUsed {E : Engine} {t : Txn} {lines : List CacheLine} {cache : Text}
    {conds : List Text} (h : lines.filterMap CacheLine.cacheUse? = conds.map (cache, ·)) :
    cache ∈ cachesUsed E lines t ↔
      (conds.any fun cond => (sectionView E lines t).holds cond == some true) = true := by
  rw [cachesUsed, h, List.filter_map, List.map_map, List.any_eq_true]
  simp only [List.mem_map, List.mem_filter, Function.comp_apply, and_true]

/-- A request is sent to the server when a condition holds. -/
private theorem serverUsed_eq {E : Engine} {t : Txn} {lines : List CacheLine} {server : Text}
    {conds : List Text} (h : lines.filterMap CacheLine.useServer? = conds.map (server, ·)) :
    serverUsed E lines t = some server ↔
      (conds.any fun cond => (sectionView E lines t).holds cond == some true) = true := by
  rw [serverUsed, h, List.find?_map, Option.map_map, List.any_eq_true]
  simp only [Option.map_eq_some_iff, Function.comp_apply, and_true, ← Option.isSome_iff_exists,
    List.find?_isSome]

/-- **The first match decides.**  The directives generated from the rules use the memory cache
for a request exactly when the first rule of the memory cache that matches is a `cache` rule,
whether they bring their own ACLs or share those of all rules, and they send it to the disk
cache exactly when the first rule of the disk cache that matches is one. -/
theorem first_match (E : Engine) (t : Txn) (c : CacheConfig)
    (backend cacheName varnishServerName : Text) :
    (∃ memory, emitHaproxyCacheRules c cacheName (backendAclPrefix backend) none true = some memory ∧
      (cacheName ∈ cachesUsed E memory.1 t ↔ FirstMatchCaches E t c .memory)) ∧
    ∃ lines, backendLines c backend cacheName varnishServerName = some lines ∧
      (cacheName ∈ cachesUsed E lines t ↔ FirstMatchCaches E t c .memory) ∧
      (serverUsed E lines t = some varnishServerName ↔ FirstMatchCaches E t c .disk) := by
  have hmember : ∀ r ∈ c.activeRules.filter fun r => r.matchType.requestPhase,
      r ∈ c.activeRules := fun r hr => (List.mem_filter.mp hr).1
  have hall : ∀ {tier : Tier}, ∀ r ∈ c.requestRules tier,
      r ∈ c.activeRules.filter fun r => r.matchType.requestPhase := fun r hr =>
    have hrule := CacheConfig.mem_requestRules.mp hr
    List.mem_filter.mpr ⟨hrule.1, hrule.2.2⟩
  constructor
  · obtain ⟨memory, hemit, hacls, huses, -⟩ := emitHaproxyCacheRules_lines c cacheName
      (backendAclPrefix backend) none true
    rw [if_pos rfl] at hacls
    exact ⟨memory, hemit, (mem_cachesUsed huses).trans
      (conditions_firstMatch_none hacls (fun r hr => (CacheConfig.mem_requestRules.mp hr).1)
        fun r hr => hr)⟩
  · obtain ⟨memory, hemit, hacls, huses, hservers⟩ := emitHaproxyCacheRules_lines c cacheName
      (backendAclPrefix backend) none false
    obtain ⟨shared, hshared⟩ := exists_mapM (backendAclPrefix backend)
      (c.activeRules.filter fun r => r.matchType.requestPhase)
      fun r hr => (List.mem_filter.mp hr).2
    obtain ⟨hsharedAcls, hsharedUses, hsharedServers⟩ := lines_of_mapM hshared
    obtain ⟨hdiskAcls, hdiskUses, hdiskServers⟩ := useServer_lines varnishServerName
      (conditions (backendAclPrefix backend) none [] (c.requestRules .disk))
    rw [if_neg Bool.false_ne_true, List.filterMap_nil] at hacls
    obtain ⟨lines, hsection⟩ : ∃ lines, lines = shared ++ memory.1 ++
      (emitDiskCacheUseServerDirectives c varnishServerName (backendAclPrefix backend)).1 := ⟨_, rfl⟩
    have hlines : backendLines c backend cacheName varnishServerName = some lines := by
      rw [backendLines, emitCacheRuleAcls, hshared, hemit, hsection]
      rfl
    have hallAcls : lines.filterMap CacheLine.acl? =
        ((c.activeRules.filter fun r => r.matchType.requestPhase).filterMap fun r =>
          r.haproxyAclCriterion.map (Line.acl (r.aclName (backendAclPrefix backend)))) := by
      rw [hsection, List.filterMap_append, List.filterMap_append, hsharedAcls, hacls,
        List.append_nil, emitDiskCacheUseServerDirectives, hdiskAcls, List.append_nil]
    have hallUses : lines.filterMap CacheLine.cacheUse? =
        (conditions (backendAclPrefix backend) none [] (c.requestRules .memory)).map
          (cacheName, ·) := by
      rw [hsection, List.filterMap_append, List.filterMap_append, hsharedUses, huses,
        List.nil_append, emitDiskCacheUseServerDirectives, hdiskUses, List.append_nil]
      rfl
    have hallServers : lines.filterMap CacheLine.useServer? =
        (conditions (backendAclPrefix backend) none [] (c.requestRules .disk)).map
          (varnishServerName, ·) := by
      rw [hsection, List.filterMap_append, List.filterMap_append, hsharedServers, hservers,
        List.nil_append, List.nil_append, emitDiskCacheUseServerDirectives, hdiskServers]
    exact ⟨lines, hlines,
      (mem_cachesUsed hallUses).trans (conditions_firstMatch_none hallAcls hmember hall),
      (serverUsed_eq hallServers).trans (conditions_firstMatch_none hallAcls hmember hall)⟩

/-- **What is added to every condition** narrows the use of the memory cache and nothing
else: the first match still decides. -/
theorem first_match_extra (E : Engine) (t : Txn) (c : CacheConfig) (backend cacheName : Text)
    {extra : Text} (hne : extra ≠ []) {b : Bool}
    (hextra : ∀ lines, SpeltGroup (sectionView E lines t) extra b) :
    ∃ memory, emitHaproxyCacheRules c cacheName (backendAclPrefix backend) (some extra) true =
        some memory ∧
      (cacheName ∈ cachesUsed E memory.1 t ↔ FirstMatchCaches E t c .memory ∧ b = true) := by
  obtain ⟨memory, hemit, hacls, huses, -⟩ := emitHaproxyCacheRules_lines c cacheName
    (backendAclPrefix backend) (some extra) true
  have hsome : (some extra).filter (· ≠ []) = some extra := by
    rw [Option.filter_some, if_pos (decide_eq_true hne)]
  rw [if_pos rfl] at hacls
  rw [hsome] at huses
  refine ⟨memory, hemit, (mem_cachesUsed huses).trans ?_⟩
  have h : _ ↔ FirstMatchCaches E t c .memory ∧ ((some extra).isNone || b) = true :=
    conditions_firstMatch hacls (fun r hr => (CacheConfig.mem_requestRules.mp hr).1)
      (fun r hr => hr) (fun e he => by rw [← Option.some.inj he]; exact hextra memory.1)
  rwa [Option.isNone_some, Bool.false_or] at h

end CorexManager.Cache
