import CorexManager.Cache.Rules
import CorexManager.Logic.FirstMatch

/-!
# The rules on responses

Rules on the content type and the status of the response are meant to become the condition of
`http-response cache-store`.  The condition is written with parentheses and `&&`.  HAProxy has
neither: it splits a condition at its blanks, and a word that is not `or`, an exclamation mark or a
brace is the name of an ACL.

* `emitResponsePhaseCacheStoreCondition` — the line that is generated.
* `StoreLine.Stores` — HAProxy accepts the condition, and it holds.
* `FirstMatchStores` — the first rule that matches the response is a `cache` rule.
* `store_iff` — the line does what the rules say for the responses of no `cache` rule only, and the
  range of a class of status codes is the class for `5xx` only.
-/

namespace CorexManager.Cache

open Data
open HAProxy

/-! ### The line -/

/-- The rules of the memory cache that look at the response. -/
def CacheConfig.responseRules (c : CacheConfig) : List CacheRule :=
  c.activeRules.filter fun r => r.tier == .memory && !r.matchType.requestPhase

/-- The range of the status codes of a class, which begins with the digit. -/
def classRange (d : Char) : Text := d :: "00:599".toList

/-- The test of one status code or class. -/
def statusCondition (code : Text) : Text :=
  if "xx".toList <:+ code then "\x7b status ".toList ++ (classRange (code.headD ' ') ++ " \x7d".toList)
  else "\x7b status ".toList ++ (code ++ " \x7d".toList)

/-- `haproxy_response_condition`; the request-phase kinds raise. -/
def CacheRule.haproxyResponseCondition (r : CacheRule) : Option Text :=
  match r.matchType with
  | .contentType =>
      if "/*".toList <:+ r.pattern then
        some ("res.hdr(Content-Type) -m beg ".toList ++ (r.pattern.dropLast.dropLast ++ ['/']))
      else some ("res.hdr(Content-Type) -m beg ".toList ++ r.pattern)
  | .statusCode =>
      if ',' ∈ r.pattern then
        some (orJoin "||".toList ((r.pattern.splitOn ',').map statusCondition))
      else some (statusCondition r.pattern)
  | _ => none

/-- The condition of a `cache` rule behind some `bypass` rules. -/
def guardCondition (precedingBypass : List Text) (ruleCond : Text) : Text :=
  if precedingBypass = [] then '(' :: (ruleCond ++ [')'])
  else
    let negated := orJoin "&&".toList (precedingBypass.map fun cond => "!(".toList ++ (cond ++ [')']))
    '(' :: (ruleCond ++ (" && ".toList ++ (negated ++ [')'])))

/-- The loop over the rules. -/
def storeConditions : (precedingBypass : List Text) → List CacheRule → Option (List Text)
  | _, [] => some []
  | preceding, r :: rs => do
      let cond ← r.haproxyResponseCondition
      if r.action = .bypass then storeConditions (preceding ++ [cond]) rs
      else return guardCondition preceding cond :: (← storeConditions preceding rs)

/-- A line about storing responses. -/
inductive StoreLine where
  /-- Nothing is cached. -/
  | comment
  /-- `http-response cache-store cache if cond`. -/
  | cacheStore (cache cond : Text)

/-- `emit_response_phase_cache_store_condition`: without rules there is no line. -/
def emitResponsePhaseCacheStoreCondition (c : CacheConfig) (cacheName : Text) :
    Option (Option StoreLine) :=
  if c.responseRules = [] then some none
  else do
    let conditions ← storeConditions [] c.responseRules
    if conditions = [] then return some .comment
    else return some (.cacheStore cacheName (orJoin "||".toList conditions))

/-! ### What HAProxy makes of it -/

/-- A response. -/
structure Response where
  status : Nat
  /-- The lines of its header, `Set-Cookie` among them. -/
  headers : List (Text × Text)
  /-- The remaining fetches. -/
  other : Text → List Sample

/-- The values of `Content-Type`. -/
def Response.contentTypes (r : Response) : List Text :=
  (r.headers.filter fun h => Txn.sameName h.1 "Content-Type".toList).map Prod.snd

/-- What the names of ACLs are made of. -/
def aclNameChar (c : Char) : Bool := c.isAlphanum || c == '.' || c == ':' || c == '_' || c == '-'

/-- The ACLs of a section, with those that are predefined. -/
structure Acls where
  names : Set Text
  holds : Text → Bool
  plain : ∀ n ∈ names, ∀ c ∈ n, aclNameChar c = true

/-- What a condition on the response sees. -/
def Response.view (r : Response) (E : Engine) (A : Acls) : View where
  engine := E
  samples w :=
    if w = "status".toList then [.int r.status]
    else if w = "res.hdr(Content-Type)".toList then r.contentTypes.map .str
    else r.other w
  named := A.holds

/-- The ACLs a condition names. -/
def NamesOf (alts : Alternatives) (n : Text) : Prop := ∃ g ∈ alts, ∃ t ∈ g, t.test = .named n

/-- HAProxy accepts the condition of the line, with the ACLs it knows, and the condition holds. -/
def StoreLine.Stores (E : Engine) (A : Acls) (r : Response) : StoreLine → Prop
  | .comment => False
  | .cacheStore _ cond =>
      ∃ alts, readCondition E.expand cond = some alts ∧ (∀ n, NamesOf alts n → n ∈ A.names) ∧
        (r.view E A).eval alts = true

/-! ### What the rules say -/

/-- The status is the code, or of the class. -/
def codeMatches (status : Nat) : Text → Bool
  | [d, 'x', 'x'] => d.toNat - '0'.toNat == status / 100
  | code => readNat code == some status

/-- The rule matches the response. -/
def CacheRule.matchesResponse (r : Response) (rule : CacheRule) : Bool :=
  match rule.matchType with
  | .contentType =>
      let kind := if "/*".toList <:+ rule.pattern then rule.pattern.dropLast else rule.pattern
      r.contentTypes.any fun v => kind.isPrefixOf (v.map Char.toLower)
  | .statusCode => (rule.pattern.splitOn ',').any (codeMatches r.status)
  | _ => false

/-- **The first rule that matches the response** is a `cache` rule. -/
def FirstMatchStores (c : CacheConfig) (r : Response) : Prop :=
  FirstMatch.decision (CacheRule.matchesResponse r) (fun rule => rule.action == .cache)
    c.responseRules = some true

/-! ### Ranges of codes -/

/-- An integer matches a range, or a number. -/
def rangeMatches (pattern : Text) (n : Nat) : Bool :=
  match pattern.splitOn ':' with
  | [lo, hi] => (readNat lo).any (· ≤ n) && (readNat hi).any (n ≤ ·)
  | _ => readNat pattern == some n

/-- The digits that name a class. -/
def classDigits : List Char := ['1', '2', '3', '4', '5']

/-- A class reaches from its hundred to 599. -/
theorem rangeMatches_classRange {d : Char} (hd : d ∈ classDigits) (n : Nat) :
    rangeMatches (classRange d) n = true ↔ 100 * (d.toNat - '0'.toNat) ≤ n ∧ n ≤ 599 := by
  have hsplit := (by decide : ∀ d ∈ classDigits,
    (classRange d).splitOn ':' = [d :: ['0', '0'], ['5', '9', '9']]) d hd
  have hlo := (by decide : ∀ d ∈ classDigits,
    readNat (d :: ['0', '0']) = some (100 * (d.toNat - '0'.toNat))) d hd
  have hhi : readNat ['5', '9', '9'] = some 599 := by decide
  unfold rangeMatches
  rw [hsplit]
  dsimp only
  rw [hlo, hhi, Option.any_some, Option.any_some, Bool.and_eq_true, decide_eq_true_eq,
    decide_eq_true_eq]

/-- The class is right if it is the last. -/
theorem classRange_iff {d : Char} (hd : d ∈ classDigits) :
    (∀ n, rangeMatches (classRange d) n = true ↔ codeMatches n [d, 'x', 'x'] = true) ↔ d = '5' := by
  have hmatches : ∀ n, codeMatches n [d, 'x', 'x'] = true ↔ d.toNat - '0'.toNat = n / 100 :=
    fun n => beq_iff_eq
  have hlast := (by decide : ∀ d ∈ classDigits, d.toNat - '0'.toNat = 5 ↔ d = '5') d hd
  have hbound := (by decide : ∀ d ∈ classDigits, d.toNat - '0'.toNat ≤ 5) d hd
  rw [← hlast]
  simp only [rangeMatches_classRange hd, hmatches]
  constructor
  · intro h
    have h599 := (h 599).mp ⟨by omega, Nat.le_refl _⟩
    omega
  · intro h n
    omega

/-! ### The words of the condition -/

/-- The words a condition begins with. -/
def openings : List Text := ["(\x7b".toList, "(res.hdr(Content-Type)".toList]

/-- The text begins with one of these words. -/
def Opens (t : Text) : Prop := ∃ w ∈ openings, ∃ rest, t = w ++ ' ' :: rest

theorem Opens.append {t : Text} (h : Opens t) (u : Text) : Opens (t ++ u) := by
  obtain ⟨w, hw, rest, rfl⟩ := h
  exact ⟨w, hw, rest ++ u, by rw [List.append_assoc, List.cons_append]⟩

theorem statusCondition_opens (code : Text) : Opens ('(' :: statusCondition code) := by
  unfold statusCondition
  split_ifs
  · exact ⟨"(\x7b".toList, List.mem_cons_self, _, rfl⟩
  · exact ⟨"(\x7b".toList, List.mem_cons_self, _, rfl⟩

/-- A join begins as its first text. -/
theorem orJoin_opens (pre : Text) {sep t : Text} {ts : List Text} (h : Opens (pre ++ t)) :
    Opens (pre ++ orJoin sep (t :: ts)) := by
  by_cases hts : ts = []
  · rw [hts]
    exact h
  · rw [orJoin_cons_of_ne_nil hts, ← List.append_assoc]
    exact h.append _

theorem haproxyResponseCondition_opens {r : CacheRule} {cond : Text}
    (h : r.haproxyResponseCondition = some cond) : Opens ('(' :: cond) := by
  unfold CacheRule.haproxyResponseCondition at h
  split at h
  · split_ifs at h
    · obtain rfl := Option.some.inj h
      exact ⟨"(res.hdr(Content-Type)".toList, by decide, _, rfl⟩
    · obtain rfl := Option.some.inj h
      exact ⟨"(res.hdr(Content-Type)".toList, by decide, _, rfl⟩
  · split_ifs at h
    · obtain rfl := Option.some.inj h
      cases hcodes : r.pattern.splitOn ',' with
      | nil => exact absurd hcodes (List.splitOn_ne_nil _ _)
      | cons code codes => exact orJoin_opens ['('] (statusCondition_opens code)
    · obtain rfl := Option.some.inj h
      exact statusCondition_opens _
  · cases h

theorem guardCondition_opens {cond : Text} (h : Opens ('(' :: cond)) (preceding : List Text) :
    Opens (guardCondition preceding cond) := by
  unfold guardCondition
  dsimp only
  split_ifs
  · exact h.append [')']
  · exact h.append _

/-- Every condition of the loop begins so. -/
theorem storeConditions_opens {preceding conds : List Text} {rules : List CacheRule}
    (h : storeConditions preceding rules = some conds) : ∀ cond ∈ conds, Opens cond := by
  induction rules generalizing preceding conds with
  | nil =>
      rw [← Option.some.inj h]
      exact fun cond hcond => absurd hcond List.not_mem_nil
  | cons r rs ih =>
      obtain ⟨cond, hcond, hrest⟩ := Option.bind_eq_some_iff.mp h
      split_ifs at hrest with haction
      · exact ih hrest
      · obtain ⟨conds', hconds, heq⟩ := Option.bind_eq_some_iff.mp hrest
        rw [← Option.some.inj heq]
        intro x hx
        rcases List.mem_cons.mp hx with rfl | hx
        · exact guardCondition_opens (haproxyResponseCondition_opens hcond) preceding
        · exact ih hconds x hx

/-! ### The condition is refused -/

/-- The ACLs named so far. -/
def NamedBy (s : CondScan) (n : Text) : Prop := NamesOf (s.front ++ [s.cur]) n

/-- A name stays. -/
theorem namedBy_step {s s' : CondScan} {w n : Text} (h : s.step w = some s') (hn : NamedBy s n) :
    NamedBy s' n := by
  obtain ⟨g, hg, t, ht, htest⟩ := hn
  have hadd : ∀ (u : CondScan) (test : Test), u.front = s.front → u.cur = s.cur →
      NamedBy (u.add test) n := by
    intro u test hfront hcur
    rcases List.mem_append.mp hg with hg | hg
    · exact ⟨g, List.mem_append_left _ (hfront ▸ hg), t, ht, htest⟩
    · rw [List.mem_singleton.mp hg] at ht
      refine ⟨u.cur ++ [⟨u.neg, test⟩], ?_, t, List.mem_append_left _ (hcur ▸ ht), htest⟩
      exact List.mem_append_right _ (List.mem_singleton_self _)
  unfold CondScan.step at h
  split at h
  · split_ifs at h
    · obtain ⟨a, -, rfl⟩ := Option.map_eq_some_iff.mp h
      exact hadd s _ rfl rfl
    · rw [← Option.some.inj h]
      exact ⟨g, hg, t, ht, htest⟩
  · dsimp only at h
    split_ifs at h
    · rw [← Option.some.inj h]
      exact ⟨g, hg, t, ht, htest⟩
    · rw [← Option.some.inj h]
      exact ⟨g, List.mem_append_left _ hg, t, ht, htest⟩
    · rw [← Option.some.inj h]
      exact ⟨g, hg, t, ht, htest⟩
    · rw [← Option.some.inj h]
      exact hadd _ _ rfl rfl

theorem namedBy_foldlM {ws : List Text} {s s' : CondScan} {n : Text}
    (h : ws.foldlM CondScan.step s = some s') (hn : NamedBy s n) : NamedBy s' n := by
  induction ws generalizing s with
  | nil =>
      rw [← Option.some.inj h]
      exact hn
  | cons w ws ih =>
      rw [List.foldlM_cons] at h
      obtain ⟨t, ht, hrest⟩ := Option.bind_eq_some_iff.mp h
      exact ih hrest (namedBy_step ht hn)

/-- The alternatives have the names of the scan. -/
theorem namesOf_finish {s : CondScan} {alts : Alternatives} {n : Text} (h : s.finish = some alts)
    (hn : NamedBy s n) : NamesOf alts n := by
  obtain ⟨g, hg, t, ht, htest⟩ := hn
  unfold CondScan.finish at h
  split at h
  · rw [← Option.some.inj h]
    refine ⟨g, List.mem_filter.mpr ⟨hg, ?_⟩, t, ht, htest⟩
    rw [Bool.not_eq_true', List.isEmpty_eq_false_iff]
    exact List.ne_nil_of_mem ht
  · cases h

/-- A condition with such a beginning names an ACL by its first word. -/
theorem namesOf_opening {expand : Text → Text} {t : Text} {alts : Alternatives} (ht : Opens t)
    (h : readCondition expand t = some alts) : ∃ w ∈ openings, NamesOf alts w := by
  obtain ⟨w, hw, rest, rfl⟩ := ht
  refine ⟨w, hw, ?_⟩
  have hword := (by decide : ∀ w ∈ openings, w ≠ [] ∧ isName w = true ∧ ∀ c ∈ w, bare c = true) w hw
  have hread : Reads w [w] := (piece_bare hword.1 hword.2.2).reads
  unfold readCondition at h
  rw [hread.words_blank] at h
  obtain ⟨ws, hws, hparse⟩ := Option.bind_eq_some_iff.mp h
  obtain ⟨vs, -, rfl⟩ := Option.map_eq_some_iff.mp hws
  obtain ⟨s, hrun, hfinish⟩ := Option.bind_eq_some_iff.mp hparse
  refine namesOf_finish hfinish ?_
  have htake : ([w] ++ vs).takeWhile (fun w => !w.isEmpty) =
      [w] ++ vs.takeWhile fun w => !w.isEmpty := by
    rw [List.singleton_append, List.takeWhile_cons_of_pos]
    · rfl
    · rw [Bool.not_eq_true', List.isEmpty_eq_false_iff]
      exact hword.1
  rw [htake, List.foldlM_append, CondScan.start, (OneTerm.named hword.2.1).run] at hrun
  refine namedBy_foldlM hrun ⟨_, List.mem_append_right _ (List.mem_singleton_self _), _,
    List.mem_append_right _ (List.mem_singleton_self _), rfl⟩

/-- **No line stores a response**: the conditions are refused. -/
theorem not_stores {c : CacheConfig} {cacheName : Text} {line : StoreLine}
    (h : emitResponsePhaseCacheStoreCondition c cacheName = some (some line)) (E : Engine) (A : Acls)
    (r : Response) : ¬ line.Stores E A r := by
  unfold emitResponsePhaseCacheStoreCondition at h
  split_ifs at h with hrules
  · cases h
  obtain ⟨conds, hconds, hline⟩ := Option.bind_eq_some_iff.mp h
  split_ifs at hline with hnone
  · obtain rfl := Option.some.inj (Option.some.inj hline)
    exact id
  · obtain rfl := Option.some.inj (Option.some.inj hline)
    rintro ⟨alts, hread, hknown, -⟩
    have hopens : Opens (orJoin "||".toList conds) := by
      cases conds with
      | nil => exact absurd rfl hnone
      | cons cond conds =>
          exact orJoin_opens [] (storeConditions_opens hconds cond List.mem_cons_self)
    obtain ⟨w, hw, hnames⟩ := namesOf_opening hopens hread
    have hodd := (by decide : ∀ w ∈ openings, '(' ∈ w) w hw
    exact absurd (A.plain w (hknown w hnames) '(' hodd) (by decide)

/-! ### What is generated against what is said -/

theorem storeConditions_some {rules : List CacheRule}
    (h : ∀ r ∈ rules, r.matchType.requestPhase = false) (preceding : List Text) :
    ∃ conds, storeConditions preceding rules = some conds := by
  induction rules generalizing preceding with
  | nil => exact ⟨[], rfl⟩
  | cons r rs ih =>
      have hrs := fun q hq => h q (List.mem_cons_of_mem _ hq)
      have hcond : ∃ cond, r.haproxyResponseCondition = some cond := by
        have hphase := h r List.mem_cons_self
        unfold CacheRule.haproxyResponseCondition
        cases hkind : r.matchType with
        | contentType =>
            dsimp only
            split_ifs <;> exact ⟨_, rfl⟩
        | statusCode =>
            dsimp only
            split_ifs <;> exact ⟨_, rfl⟩
        | _ =>
            rw [hkind] at hphase
            cases hphase
      obtain ⟨cond, hcond⟩ := hcond
      rw [storeConditions, hcond]
      show ∃ conds, (if r.action = .bypass then _ else _) = some conds
      split_ifs with haction
      · exact ih hrs _
      · obtain ⟨conds, hconds⟩ := ih hrs preceding
        exact ⟨guardCondition preceding cond :: conds, by rw [hconds]; rfl⟩

/-- **Storing responses**: the generated line stores what the first matching rule says exactly if no
`cache` rule decides, and the range of a class of codes is the class exactly if it is the last. -/
theorem store_iff (c : CacheConfig) (cacheName : Text) (E : Engine) (A : Acls) (r : Response) :
    ((∀ line, emitResponsePhaseCacheStoreCondition c cacheName = some (some line) →
      (line.Stores E A r ↔ FirstMatchStores c r)) ↔ ¬ FirstMatchStores c r) ∧
    ∀ d ∈ classDigits,
      (∀ n, rangeMatches (classRange d) n = true ↔ codeMatches n [d, 'x', 'x'] = true) ↔
        d = '5' := by
  refine ⟨⟨fun h hfirst => ?_, fun h line hline => ?_⟩, fun d hd => classRange_iff hd⟩
  · have hsome : ∃ line, emitResponsePhaseCacheStoreCondition c cacheName = some (some line) := by
      unfold emitResponsePhaseCacheStoreCondition
      by_cases hrules : c.responseRules = []
      · unfold FirstMatchStores at hfirst
        rw [hrules] at hfirst
        cases hfirst
      · have hphase : ∀ q ∈ c.responseRules, q.matchType.requestPhase = false := by
          intro q hq
          have hnot := (Bool.and_eq_true_iff.mp (List.mem_filter.mp hq).2).2
          rwa [Bool.not_eq_true'] at hnot
        obtain ⟨conds, hconds⟩ := storeConditions_some hphase []
        rw [if_neg hrules, hconds]
        show ∃ line, (if conds = [] then _ else _) = some (some line)
        split_ifs <;> exact ⟨_, rfl⟩
    obtain ⟨line, hline⟩ := hsome
    exact not_stores hline E A r ((h line hline).mpr hfirst)
  · exact iff_of_false (not_stores hline E A r) h

/-! ### A rule that caches everything that was found -/

/-- Responses with the status 200 are cached. -/
def okConfig : CacheConfig where
  rules := [⟨1, 10, true, .statusCode, "200".toList, .cache, .memory⟩]
  distinct := by decide

/-- A response with a status. -/
def statusResponse (status : Nat) : Response := ⟨status, [], fun _ => []⟩

/-- A section without ACLs. -/
def noAcls : Acls where
  names := ∅
  holds _ := false
  plain _ h := absurd h (Set.notMem_empty _)

/-- **A rule without effect**: the line of the rule stores no response with the status 200, and the
range of `4xx` has the status 503. -/
theorem found_notStored :
    (∃ line, emitResponsePhaseCacheStoreCondition okConfig ['c'] = some (some line) ∧
      FirstMatchStores okConfig (statusResponse 200) ∧
      ¬ line.Stores Engine.simple noAcls (statusResponse 200)) ∧
    rangeMatches (classRange '4') 503 = true ∧ codeMatches 503 ['4', 'x', 'x'] = false := by
  have hline : emitResponsePhaseCacheStoreCondition okConfig ['c'] =
      some (some (.cacheStore ['c'] "(\x7b status 200 \x7d)".toList)) := rfl
  have hfirst : FirstMatchStores okConfig (statusResponse 200) := rfl
  exact ⟨⟨_, hline, hfirst, not_stores hline _ _ _⟩, by decide, by decide⟩

end CorexManager.Cache
