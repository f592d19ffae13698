import CorexManager.Frontend.BackendRules
import Mathlib.Data.List.Find
import Mathlib.Data.List.Nodup

/-!
# Which backend a request goes to

The meaning of a condition, stated without the generator: it is about the samples of
the path, the host, a header, a cookie, a parameter or the source address, and it
holds when some sample stands to the value as the operator says.

`Faithful` lists the conditions the generator keeps the meaning of.  `eq` is not
among them: it is renamed to HAProxy's `str` before the branches that would use it,
and is compared as a prefix.
-/

namespace CorexManager.Frontend

open Data
open HAProxy
open Python (UnicodeTables)

/-! ### The meaning of a condition -/

/-- A sample stands to the value as the operator says. -/
def Operator.holds (E : Engine) (value : Text) (s : Sample) : Operator → Bool
  | .beg => value.isPrefixOf s.text
  | .end => value.isSuffixOf s.text
  | .sub => decide (value <:+: s.text)
  | .dir => delimitedFrom ['/', '?'] value true s.text
  | .eq => value == s.text
  | .found => true
  | .len => (readInt value).any fun n => (s.text.length : Int) == n
  | .reg => E.reg false value s.text

namespace RuleCondition

/-- What the condition is about. -/
def subject (c : RuleCondition) : Text :=
  let name := c.conditionName.getD []
  match c.conditionType with
  | .path => "path".toList
  | .host => "req.hdr(host)".toList
  | .hdr => "req.hdr".toList ++ '(' :: (name ++ [')'])
  | .cookie => "req.cook".toList ++ '(' :: (name ++ [')'])
  | .urlParam => "url_param".toList ++ '(' :: (name ++ [')'])
  | .src => "src".toList

/-- **The meaning of a condition**; an address equals a value when it is in the
network the value names. -/
def holds (E : Engine) (t : Txn) (c : RuleCondition) : Bool :=
  let value := c.value.getD []
  (t.samples c.subject).any fun s =>
    if c.conditionType = .src ∧ c.operator = .eq then E.net s.text value
    else Operator.holds E value s c.operator

end RuleCondition

/-- The meaning of a rule: its conditions as joined. -/
def BackendRule.holds (E : Engine) (t : Txn) (r : BackendRule) : Bool :=
  let alts := joinAlternatives ([], r.first.holds E t)
    (r.more.map fun c => (c.join, c.holds E t))
  (alts.1 ++ [alts.2]).any fun b => b

/-! ### The conditions the generator is faithful on -/

/-- A character that reaches HAProxy as it is. -/
def plainChar (U : UnicodeTables) (drops : Char → Bool) (c : Char) : Bool :=
  bare c && !drops c && !U.space c

/-- A value that reaches HAProxy as one pattern: not empty, nothing in it dropped,
stripped or split, and not taken for a flag. -/
def plainWord (U : UnicodeTables) (drops : Char → Bool) (value : Text) : Bool :=
  value ≠ [] && value.all (plainChar U drops) && notFlag value

namespace RuleCondition

/-- The conditions on something named. -/
def keyed (c : RuleCondition) : Bool :=
  c.conditionType = .hdr || c.conditionType = .cookie || c.conditionType = .urlParam

/-- **The conditions whose meaning the generator keeps**: what is named has a name of
plain characters, the value is one plain word, the operator is not `eq`; addresses
are only compared to a network, or asked to be there. -/
def Faithful (U : UnicodeTables) (c : RuleCondition) : Bool :=
  (!c.keyed || (c.conditionName.getD [] ≠ [] &&
    (c.conditionName.getD []).all (plainChar U tokenDrops))) &&
  if c.conditionType = .src then
    (c.operator = .found && c.value.getD [] = []) ||
      (c.operator = .eq && plainWord U tokenDrops (c.value.getD []))
  else match c.operator with
    | .found => true
    | .eq => false
    | .reg => plainWord U regexDrops (c.value.getD [])
    | _ => plainWord U tokenDrops (c.value.getD [])

end RuleCondition

/-! ### Reading the conditions back -/

private theorem sanitized_plain {U : UnicodeTables} {drops : Char → Bool} {t : Text}
    (h : ∀ c ∈ t, plainChar U drops c = true) : U.strip (t.filter fun c => !drops c) = t := by
  have hchar : ∀ c ∈ t, bare c = true ∧ drops c = false ∧ U.space c = false := by
    intro c hc
    have hplain := h c hc
    simp only [plainChar, Bool.and_eq_true, Bool.not_eq_true'] at hplain
    exact ⟨hplain.1.1, hplain.1.2, hplain.2⟩
  rw [List.filter_eq_self.mpr fun c hc => by simp [(hchar c hc).2.1]]
  exact U.strip_eq_self fun c hc => (hchar c hc).2.2

private theorem plainWord_spec {U : UnicodeTables} {drops : Char → Bool} {value : Text}
    (h : plainWord U drops value = true) :
    value ≠ [] ∧ (∀ c ∈ value, plainChar U drops c = true) ∧ notFlag value = true := by
  simp only [plainWord, Bool.and_eq_true, decide_eq_true_eq, List.all_eq_true] at h
  exact ⟨h.1.1, h.1.2, h.2⟩

private theorem plainChar_bare {U : UnicodeTables} {drops : Char → Bool} {t : Text}
    (h : ∀ c ∈ t, plainChar U drops c = true) : ∀ c ∈ t, bare c = true := by
  intro c hc
  have hplain := h c hc
  simp only [plainChar, Bool.and_eq_true] at hplain
  exact hplain.1.1

private theorem safeToken_plain {U : UnicodeTables} {t : Text}
    (h : ∀ c ∈ t, plainChar U tokenDrops c = true) : safeToken U t = t := sanitized_plain h

private theorem safeRegex_plain {U : UnicodeTables} {t : Text}
    (h : ∀ c ∈ t, plainChar U regexDrops c = true) : safeRegex U t = t := sanitized_plain h

private theorem safeToken_word (U : UnicodeTables) (o : Operator) :
    safeToken U o.word = o.word := by
  cases o <;> rfl

/-- A fetch with a name as its argument. -/
private theorem fetchText_named {name arg : Text} (hne : name ≠ []) (hname : '(' ∉ name)
    (hplain : derivedFetch name = (name, none)) (hbare : ∀ c ∈ name, bare c = true)
    (harg : ∀ c ∈ arg, bare c = true) :
    FetchText (name ++ '(' :: (arg ++ [')'])) (name ++ '(' :: (arg ++ [')'])) := by
  refine FetchText.call hne hname hplain hbare fun c hc => ?_
  rcases List.mem_append.mp hc with hc | hc
  · exact harg c hc
  · rw [List.mem_singleton.mp hc]
    decide

/-- The fetch of a condition with a plain name is its subject. -/
private theorem subject_fetch {U : UnicodeTables} {c : RuleCondition}
    (h : (!c.keyed || (c.conditionName.getD [] ≠ [] &&
      (c.conditionName.getD []).all (plainChar U tokenDrops))) = true) :
    conditionFetch c.conditionType (safeToken U (c.conditionName.getD [])) = c.subject ∧
      FetchText c.subject c.subject := by
  have hfixed : FetchText "path".toList "path".toList ∧
      FetchText "req.hdr(host)".toList "req.hdr(host)".toList ∧
      FetchText "src".toList "src".toList := by
    refine ⟨⟨(piece_bare (by decide) (by decide)).reads, by decide +kernel, by decide⟩,
      ⟨(piece_bare (by decide) (by decide)).reads, by decide +kernel, by decide⟩,
      ⟨(piece_bare (by decide) (by decide)).reads, by decide +kernel, by decide⟩⟩
  obtain ⟨ty, name, op, value, join⟩ := c
  have hkeyed : ty = .hdr ∨ ty = .cookie ∨ ty = .urlParam →
      name.getD [] ≠ [] ∧ ∀ c ∈ name.getD [], plainChar U tokenDrops c = true := by
    intro hty
    have hk : RuleCondition.keyed ⟨ty, name, op, value, join⟩ = true := by
      rcases hty with rfl | rfl | rfl <;> rfl
    simpa [hk] using h
  cases ty with
  | path => exact ⟨rfl, hfixed.1⟩
  | host => exact ⟨rfl, hfixed.2.1⟩
  | src => exact ⟨rfl, hfixed.2.2⟩
  | hdr =>
      obtain ⟨hne, hplain⟩ := hkeyed (.inl rfl)
      rw [safeToken_plain hplain]
      exact ⟨if_neg hne, fetchText_named (by decide) (by decide) (by decide +kernel) (by decide)
        (plainChar_bare hplain)⟩
  | cookie =>
      obtain ⟨hne, hplain⟩ := hkeyed (.inr (.inl rfl))
      rw [safeToken_plain hplain]
      exact ⟨if_neg hne, fetchText_named (by decide) (by decide) (by decide +kernel) (by decide)
        (plainChar_bare hplain)⟩
  | urlParam =>
      obtain ⟨hne, hplain⟩ := hkeyed (.inr (.inr rfl))
      rw [safeToken_plain hplain]
      exact ⟨if_neg hne, fetchText_named (by decide) (by decide) (by decide +kernel) (by decide)
        (plainChar_bare hplain)⟩

/-! ### The ACL of a condition -/

/-- A fetch, a method and a plain value. -/
private theorem acl_matching {U : UnicodeTables} {drops : Char → Bool} {fetch value : Text}
    (m : Method) (hfetch : FetchText fetch fetch) (hvalue : plainWord U drops value = true) :
    ∃ ws, Reads (fetch ++ " -m ".toList ++ m.name ++ ' ' :: value) ws ∧
      parseAcl ws = some { fetch := fetch, method := some m, patterns := [value] } := by
  obtain ⟨hne, hplain, hflag⟩ := plainWord_spec hvalue
  have hread := hfetch.reads.append ((piece_bare (t := "-m".toList) (by decide)
    (by decide)).reads.append ((reads_methodName m).append
      (piece_bare hne (plainChar_bare hplain)).reads))
  refine ⟨_, ?_, parseAcl_method hfetch.plain (by simpa using hflag)⟩
  have htext : fetch ++ " -m ".toList ++ m.name ++ ' ' :: value
      = fetch ++ ' ' :: ("-m".toList ++ ' ' :: (m.name ++ ' ' :: value)) := by
    rw [List.append_assoc, List.append_assoc]
    rfl
  rw [htext]
  exact hread

/-- A fetch that is asked to be there. -/
private theorem acl_found {fetch : Text} (hfetch : FetchText fetch fetch) :
    ∃ ws, Reads (fetch ++ " -m found".toList) ws ∧
      parseAcl ws = some { fetch := fetch, method := some .found } := by
  have hread := hfetch.reads.append ((piece_bare (t := "-m".toList) (by decide)
    (by decide)).reads.append (reads_methodName .found))
  have hnone : ∀ w ∈ ([] : List Text).head?, notFlag w = true := by simp
  exact ⟨_, hread, parseAcl_method hfetch.plain hnone⟩

/-- The texts of the conditions that are not about the source address. -/
private theorem expression_matching (U : UnicodeTables) {c : RuleCondition} {m : Method}
    (hsrc : c.conditionType ≠ .src)
    (hop : (c.operator, m) ∈ [(Operator.beg, Method.beg), (.end, .end), (.sub, .sub),
      (.dir, .dir)]) :
    backendConditionExpression U c =
      conditionFetch c.conditionType (safeToken U (c.conditionName.getD [])) ++ " -m ".toList ++
        m.name ++ ' ' :: safeToken U (c.value.getD []) := by
  obtain ⟨ty, name, op, value, join⟩ := c
  unfold backendConditionExpression
  rw [safeToken_word]
  dsimp only at hsrc hop ⊢
  rw [if_neg hsrc]
  simp only [List.mem_cons, Prod.mk.injEq, List.not_mem_nil, or_false] at hop
  rcases hop with ⟨rfl, rfl⟩ | ⟨rfl, rfl⟩ | ⟨rfl, rfl⟩ | ⟨rfl, rfl⟩ <;> rfl

private theorem expression_reg (U : UnicodeTables) {c : RuleCondition}
    (hsrc : c.conditionType ≠ .src) (hop : c.operator = .reg) :
    backendConditionExpression U c =
      conditionFetch c.conditionType (safeToken U (c.conditionName.getD [])) ++ " -m ".toList ++
        Method.reg.name ++ ' ' :: safeRegex U (c.value.getD []) := by
  obtain ⟨ty, name, op, value, join⟩ := c
  dsimp only at hsrc hop
  subst hop
  unfold backendConditionExpression
  rw [safeToken_word]
  exact if_neg hsrc

private theorem expression_len (U : UnicodeTables) {c : RuleCondition}
    (hsrc : c.conditionType ≠ .src) (hop : c.operator = .len)
    (hvalue : safeToken U (c.value.getD []) ≠ []) :
    backendConditionExpression U c =
      conditionFetch c.conditionType (safeToken U (c.conditionName.getD [])) ++ " -m ".toList ++
        Method.len.name ++ ' ' :: safeToken U (c.value.getD []) := by
  obtain ⟨ty, name, op, value, join⟩ := c
  dsimp only at hsrc hop
  subst hop
  unfold backendConditionExpression
  rw [safeToken_word]
  exact (if_neg hsrc).trans (if_neg hvalue)

private theorem expression_found (U : UnicodeTables) {c : RuleCondition}
    (hsrc : c.conditionType ≠ .src) (hop : c.operator = .found) :
    backendConditionExpression U c =
      conditionFetch c.conditionType (safeToken U (c.conditionName.getD [])) ++
        " -m found".toList := by
  obtain ⟨ty, name, op, value, join⟩ := c
  dsimp only at hsrc hop
  subst hop
  unfold backendConditionExpression
  rw [safeToken_word]
  exact if_neg hsrc

/-- **`eq` is compared as a prefix.** -/
theorem expression_eq (U : UnicodeTables) {c : RuleCondition}
    (hsrc : c.conditionType ≠ .src) (hop : c.operator = .eq) :
    backendConditionExpression U c = backendConditionExpression U { c with operator := .beg } := by
  obtain ⟨ty, name, op, value, join⟩ := c
  dsimp only at hsrc hop
  subst hop
  unfold backendConditionExpression
  rw [safeToken_word, safeToken_word]
  exact (if_neg hsrc).trans (if_neg hsrc).symm

/-! ### Faithful conditions -/

private theorem eval_matching (E : Engine) (t : Txn) {fetch value : Text} {m : Method}
    {o : Operator} (h : ∀ s, matchSample E m false [value] s = Operator.holds E value s o) :
    ({ fetch := fetch, method := some m, patterns := [value] } : Acl).eval E t.samples
      = (t.samples fetch).any fun s => Operator.holds E value s o := by
  simp only [Acl.eval, Option.getD_some, List.flatMap_nil, List.nil_append]
  exact congrArg (List.any (t.samples fetch)) (funext h)

/-- A comparison word is not an integer. -/
private theorem readInt_intOp {w : Text} {op : IntOp} (h : IntOp.read w = some op) :
    readInt w = none := by
  unfold IntOp.read at h
  split_ifs at h with h₁ h₂ h₃ h₄ h₅
  · rw [h₁]; rfl
  · rw [h₂]; rfl
  · rw [h₃]; rfl
  · rw [h₄]; rfl
  · rw [h₅]; rfl

/-- One pattern of a length match. -/
private theorem matchSample_len (E : Engine) (value : Text) (s : Sample) :
    matchSample E .len false [value] s = Operator.holds E value s .len := by
  simp only [matchSample, Operator.holds, intMatch, Bool.or_false]
  cases hread : IntOp.read value with
  | some op => simp [readInt_intOp hread]
  | none => rfl

/-- A condition on the source address. -/
private theorem source_acl {U : UnicodeTables} (E : Engine) {c : RuleCondition}
    (hsrc : c.conditionType = .src) (hsubject : FetchText "src".toList "src".toList)
    (hop : (c.operator = .found ∧ c.value.getD [] = []) ∨
      (c.operator = .eq ∧ plainWord U tokenDrops (c.value.getD []) = true)) :
    ∃ ws a, Reads (backendConditionExpression U c) ws ∧ parseAcl ws = some a ∧
      ∀ t : Txn, a.eval E t.samples = c.holds E t := by
  obtain ⟨ty, name, op, value, join⟩ := c
  dsimp only at hsrc hop
  subst hsrc
  rcases hop with ⟨rfl, hvalue⟩ | ⟨rfl, hvalue⟩
  · have htext : backendConditionExpression U ⟨.src, name, .found, value, join⟩
        = "src".toList ++ " -m found".toList := by
      unfold backendConditionExpression
      rw [safeToken_word]
      dsimp only
      rw [hvalue]
      rfl
    obtain ⟨ws, hread, hacl⟩ := acl_found hsubject
    rw [htext]
    refine ⟨ws, _, hread, hacl, fun t => ?_⟩
    simp [Acl.eval, matchSample, RuleCondition.holds, RuleCondition.subject, Operator.holds]
  · obtain ⟨hne, hplain, hflag⟩ := plainWord_spec hvalue
    have htext : backendConditionExpression U ⟨.src, name, .eq, value, join⟩
        = "src".toList ++ ' ' :: value.getD [] := by
      unfold backendConditionExpression
      rw [safeToken_word]
      have hsafe := safeToken_plain hplain
      have hempty : ¬ safeToken U (value.getD []) = [] := by rwa [hsafe]
      refine (if_pos rfl).trans ((if_neg hempty).trans ?_)
      show "src".toList ++ ' ' :: safeToken U (value.getD []) = _
      rw [hsafe]
    have hread := hsubject.reads.append (piece_bare hne (plainChar_bare hplain)).reads
    rw [htext]
    refine ⟨_, _, hread, parseAcl_default hsubject.plain (by simpa using hflag), fun t => ?_⟩
    have hsamples : t.samples "src".toList = [.addr t.src] := t.samples_src
    simp only [Acl.eval, RuleCondition.holds, RuleCondition.subject, hsamples]
    simp [matchSample, Sample.method]

/-- **A faithful condition**: its `acl` line is read, and means the condition. -/
theorem condition_acl {U : UnicodeTables} (E : Engine) {c : RuleCondition}
    (h : c.Faithful U = true) :
    ∃ ws a, Reads (backendConditionExpression U c) ws ∧ parseAcl ws = some a ∧
      ∀ t : Txn, a.eval E t.samples = c.holds E t := by
  rw [RuleCondition.Faithful, Bool.and_eq_true] at h
  obtain ⟨hname, hop⟩ := h
  obtain ⟨hfetch, hsubject⟩ := subject_fetch hname
  split at hop
  · next hsrc =>
    have hsource : c.subject = "src".toList := by
      rw [RuleCondition.subject, hsrc]
    rw [hsource] at hsubject
    simp only [Bool.or_eq_true, Bool.and_eq_true, decide_eq_true_eq] at hop
    exact source_acl E hsrc hsubject hop
  · next hsrc =>
    have hmeaning : ∀ (t : Txn) (o : Operator), c.operator = o →
        c.holds E t = (t.samples c.subject).any fun s =>
          Operator.holds E (c.value.getD []) s o := by
      rintro t o rfl
      simp only [RuleCondition.holds, hsrc, false_and, if_false]
    have htext : ∀ (m : Method) (o : Operator) (drops : Char → Bool), c.operator = o →
        plainWord U drops (c.value.getD []) = true →
        (∀ s, matchSample E m false [c.value.getD []] s
          = Operator.holds E (c.value.getD []) s o) →
        backendConditionExpression U c
          = c.subject ++ " -m ".toList ++ m.name ++ ' ' :: c.value.getD [] →
        ∃ ws a, Reads (backendConditionExpression U c) ws ∧ parseAcl ws = some a ∧
          ∀ t : Txn, a.eval E t.samples = c.holds E t := by
      intro m o drops ho hvalue hmatch heq
      obtain ⟨ws, hread, hacl⟩ := acl_matching m hsubject hvalue
      exact ⟨ws, _, heq ▸ hread, hacl, fun t => by
        rw [eval_matching E t hmatch, hmeaning t o ho]⟩
    have hsafe : plainWord U tokenDrops (c.value.getD []) = true →
        safeToken U (c.value.getD []) = c.value.getD [] := fun hv =>
      safeToken_plain (plainWord_spec hv).2.1
    cases ho : c.operator with
    | found =>
        rw [expression_found U hsrc ho, hfetch]
        obtain ⟨ws, hread, hacl⟩ := acl_found hsubject
        exact ⟨ws, _, hread, hacl, fun t => by
          rw [hmeaning t .found ho]
          simp [Acl.eval, matchSample, Operator.holds]⟩
    | eq => simp [ho] at hop
    | reg =>
        simp only [ho] at hop
        refine htext .reg .reg _ ho hop (fun s => by simp [matchSample, Operator.holds]) ?_
        rw [expression_reg U hsrc ho, hfetch, safeRegex_plain (plainWord_spec hop).2.1]
    | len =>
        simp only [ho] at hop
        have hne : safeToken U (c.value.getD []) ≠ [] := by
          rw [hsafe hop]
          exact (plainWord_spec hop).1
        refine htext .len .len _ ho hop (matchSample_len E _) ?_
        rw [expression_len U hsrc ho hne, hfetch, hsafe hop]
    | beg =>
        simp only [ho] at hop
        refine htext .beg .beg _ ho hop
          (fun s => by simp [matchSample, Operator.holds, foldCase]) ?_
        rw [expression_matching U hsrc (m := .beg) (by simp [ho]), hfetch, hsafe hop]
    | «end» =>
        simp only [ho] at hop
        refine htext .end .end _ ho hop
          (fun s => by simp [matchSample, Operator.holds, foldCase]) ?_
        rw [expression_matching U hsrc (m := .end) (by simp [ho]), hfetch, hsafe hop]
    | sub =>
        simp only [ho] at hop
        refine htext .sub .sub _ ho hop
          (fun s => by simp [matchSample, Operator.holds, foldCase]) ?_
        rw [expression_matching U hsrc (m := .sub) (by simp [ho]), hfetch, hsafe hop]
    | dir =>
        simp only [ho] at hop
        refine htext .dir .dir _ ho hop
          (fun s => by simp [matchSample, Operator.holds, foldCase]) ?_
        rw [expression_matching U hsrc (m := .dir) (by simp [ho]), hfetch, hsafe hop]

/-! ### Which backend -/

/-- The rules as the generator reads them: in priority order, each with its own
identifier. -/
structure Switching where
  rules : List BackendRule
  default : Option Text
  ordered : rules.Pairwise fun r q => r.priority ≤ q.priority
  distinct : (rules.map BackendRule.id).Nodup

namespace Switching

variable {U : UnicodeTables} {E : Engine} (w : Switching)

/-- The lines of the rules. -/
def lines (U : UnicodeTables) : List Line := switchingLines U w.rules w.default

/-- The conditions of all rules keep their meaning. -/
def Faithful (U : UnicodeTables) : Prop := ∀ r ∈ w.rules, ∀ c ∈ r.conditions, c.Faithful U = true

theorem mem_resolved {r : BackendRule} {b : Text} (h : (r, b) ∈ resolved w.rules) :
    r ∈ w.rules ∧ r.backend = some b := by
  obtain ⟨q, hq, heq⟩ := List.mem_filterMap.mp h
  obtain ⟨b', hb', hpair⟩ := Option.map_eq_some_iff.mp heq
  cases hpair
  exact ⟨hq, hb'⟩

/-- The `acl` lines of the section are those of the rules. -/
theorem mem_acls {a : Text × Acl} :
    a ∈ declaredAcls E (w.lines U) ↔ ∃ r b, (r, b) ∈ resolved w.rules ∧
      ∃ c i, (c, i) ∈ r.conditions.zipIdx 1 ∧
        (Line.acl (aclName r.id i) (backendConditionExpression U c)).acl? E = some a := by
  simp only [declaredAcls, lines, switchingLines, List.filterMap_append, List.mem_append,
    List.mem_filterMap, List.mem_flatMap, List.mem_map]
  constructor
  · rintro ((⟨l, ⟨⟨r, b⟩, hr, hl⟩, ha⟩ | ⟨l, ⟨r, -, rfl⟩, ha⟩) | ⟨l, ⟨d, -, rfl⟩, ha⟩)
    · obtain ⟨⟨c, i⟩, hc, rfl⟩ := List.mem_map.mp hl
      exact ⟨r, b, hr, c, i, hc, ha⟩
    · cases ha
    · cases ha
  · rintro ⟨r, b, hr, c, i, hc, ha⟩
    exact .inl (.inl ⟨_, ⟨(r, b), hr, List.mem_map.mpr ⟨(c, i), hc, rfl⟩⟩, ha⟩)

/-- **The name of an ACL means its condition.** -/
theorem named_eq (hfaithful : w.Faithful U) (t : Txn) {r : BackendRule} {b : Text}
    (hr : (r, b) ∈ resolved w.rules) {c : RuleCondition} {i : Nat}
    (hc : (c, i) ∈ r.conditions.zipIdx 1) :
    (t.view E (declaredAcls E (w.lines U))).named (aclName r.id i) = c.holds E t := by
  have hmem : c ∈ r.conditions := by
    rw [(List.mem_zipIdx hc).2.2]
    exact List.getElem_mem _
  obtain ⟨ws, a, hread, hacl, hmeaning⟩ :=
    condition_acl E (hfaithful r (w.mem_resolved hr).1 c hmem)
  have hline : (Line.acl (aclName r.id i) (backendConditionExpression U c)).acl? E
      = some (aclName r.id i, a) := Line.acl?_of_reads hread hacl
  rw [← hmeaning t]
  refine declared_unique (w.mem_acls.mpr ⟨r, b, hr, c, i, hc, hline⟩) ?_
  rintro ⟨name, a'⟩ ha' hname
  obtain ⟨r', b', hr', c', i', hc', hline'⟩ := w.mem_acls.mp ha'
  have hname' : aclName r'.id i' = name := by
    obtain ⟨_, _, hpair⟩ := Option.map_eq_some_iff.mp hline'
    exact congrArg Prod.fst hpair
  obtain ⟨hid, rfl⟩ := aclName_inj (hname'.trans hname)
  have hrule : r' = r := List.inj_on_of_nodup_map w.distinct (w.mem_resolved hr').1
    (w.mem_resolved hr).1 hid
  subst hrule
  have hcond : c' = c := by
    rw [(List.mem_zipIdx hc').2.2, (List.mem_zipIdx hc).2.2]
  subst hcond
  rw [hline] at hline'
  exact (congrArg Prod.snd (Option.some.inj hline')).symm

private theorem zipIdx_map_join {id : Nat} {named : Text → Bool} {E : Engine} {t : Txn}
    {cs : List RuleCondition} {k : Nat}
    (h : ∀ c i, (c, i) ∈ cs.zipIdx k → named (aclName id i) = c.holds E t) :
    (cs.zipIdx k).map (fun c => (c.1.join, named (aclName id c.2)))
      = cs.map fun c => (c.join, c.holds E t) := by
  induction cs generalizing k with
  | nil => rfl
  | cons c cs ih =>
      rw [List.zipIdx_cons, List.map_cons, List.map_cons, h c k (by simp [List.zipIdx_cons]),
        ih fun d i hd => h d i (by simp [List.zipIdx_cons, hd])]

/-- **The condition of a rule** holds exactly when the rule does. -/
theorem holds_combined (hfaithful : w.Faithful U) (t : Txn) {r : BackendRule} {b : Text}
    (hr : (r, b) ∈ resolved w.rules) :
    (t.view E (declaredAcls E (w.lines U))).holds r.combined = some (r.holds E t) := by
  have hnamed : ∀ c i, (c, i) ∈ r.conditions.zipIdx 1 →
      (t.view E (declaredAcls E (w.lines U))).named (aclName r.id i) = c.holds E t :=
    fun c i hc => w.named_eq hfaithful t hr hc
  rw [(combined_spelt _ r).holds, BackendRule.alternatives,
    hnamed r.first 1 (by simp [BackendRule.conditions, List.zipIdx_cons]),
    zipIdx_map_join fun c i hc => hnamed c i (by simp [BackendRule.conditions,
      List.zipIdx_cons, hc])]
  rfl

/-- The first rule that holds, of those with a backend. -/
def firstHolding (E : Engine) (t : Txn) : Option (BackendRule × Text) :=
  (resolved w.rules).find? fun r => r.1.holds E t

private theorem choices_lines (U : UnicodeTables) :
    (w.lines U).filterMap Line.choice?
      = (resolved w.rules).map fun r => (r.2, r.1.combined) := by
  have hacls : ((resolved w.rules).flatMap fun r => r.1.acls U).filterMap Line.choice? = [] := by
    refine List.filterMap_eq_nil_iff.mpr fun l hl => ?_
    obtain ⟨r, -, hl⟩ := List.mem_flatMap.mp hl
    obtain ⟨c, -, rfl⟩ := List.mem_map.mp hl
    rfl
  have hdefault : (w.default.toList.map Line.defaultBackend).filterMap Line.choice? = [] := by
    cases w.default <;> rfl
  rw [lines, switchingLines, List.filterMap_append, List.filterMap_append, hacls, hdefault,
    List.nil_append, List.append_nil, List.filterMap_map]
  exact congrFun List.filterMap_eq_map' _

private theorem defaults_lines (U : UnicodeTables) :
    (w.lines U).filterMap Line.default? = w.default.toList := by
  have hfront : ((resolved w.rules).flatMap (fun r => r.1.acls U) ++
      (resolved w.rules).map fun r => Line.useBackend r.2 r.1.combined).filterMap
        Line.default? = [] := by
    refine List.filterMap_eq_nil_iff.mpr fun l hl => ?_
    rcases List.mem_append.mp hl with hl | hl
    · obtain ⟨r, -, hl⟩ := List.mem_flatMap.mp hl
      obtain ⟨c, -, rfl⟩ := List.mem_map.mp hl
      rfl
    · obtain ⟨r, -, rfl⟩ := List.mem_map.mp hl
      rfl
  rw [lines, switchingLines, List.filterMap_append, hfront, List.nil_append]
  cases w.default <;> rfl

/-- No rule that holds comes before the first. -/
theorem firstHolding_least {t : Txn} {r : BackendRule × Text}
    (h : w.firstHolding E t = some r) :
    r.1.holds E t = true ∧
      ∀ q ∈ resolved w.rules, q.1.holds E t = true → r.1.priority ≤ q.1.priority := by
  obtain ⟨hr, front, rest, hsplit, hfront⟩ := List.find?_eq_some_iff_append.mp h
  refine ⟨hr, fun q hq hholds => ?_⟩
  have hordered : (resolved w.rules).Pairwise fun r q => r.1.priority ≤ q.1.priority := by
    refine List.Pairwise.filterMap _ ?_ w.ordered
    intro a b hab a' ha' b' hb'
    obtain ⟨_, _, rfl⟩ := Option.map_eq_some_iff.mp ha'
    obtain ⟨_, _, rfl⟩ := Option.map_eq_some_iff.mp hb'
    exact hab
  rw [hsplit] at hq hordered
  rcases List.mem_append.mp hq with hq | hq
  · have hnot := hfront q hq
    simp [hholds] at hnot
  · rcases List.mem_cons.mp hq with rfl | hq
    · exact Int.le_refl _
    · exact List.rel_of_pairwise_cons (List.pairwise_append.mp hordered).2.1 hq

end Switching

/-! ### Two listeners -/

/-- A request for a path. -/
def pathRequest (path : Text) : Txn where
  headers := []
  src := "203.0.113.9".toList
  vars _ := none
  logLevel := none
  convert _ _ := []
  other fetch := if fetch = "path".toList then [.str path] else []

/-- One rule, which sends the paths that stand to `/admin` as the operator says to
their own backend. -/
def adminSwitching (op : Operator) : Switching where
  rules := [{
    id := 1
    priority := 100
    backend := some "admin_pool".toList
    first := { conditionType := .path, operator := op, value := some "/admin".toList }
    more := [] }]
  default := some "web_pool".toList
  ordered := List.pairwise_singleton _ _
  distinct := List.nodup_singleton _

end CorexManager.Frontend
