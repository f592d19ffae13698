import CorexManager.Gateway.Scan

/-!
# Compiling guardrails in Python

`compile_rules` of `guardrails_core.py`.  Its loop over the patterns of a rule takes back the last
regular expression when a pattern is suspected to backtrack, whether that pattern was compiled or
not: a suspect pattern that is no regular expression takes back the one before it, and raises an
error if there is none.

* `compileRules` — the function, over the dictionaries it reads.
* `KeepsGood` — it keeps of every enabled rule the patterns that are valid and not suspect.
* `keepsGood_iff` — it does exactly when no pattern is both invalid and suspect, none makes the
  compiler raise another error, and every rule that is kept has a name.
* `GuardrailConfig.compile_eq` — the gateway's `compile_rules` keeps these patterns.
-/

namespace CorexManager.Gateway

open Data (Text)
open Priority (sortByKey)
open Rust (Regex)

/-! ### The function -/

/-- What `re.compile` does with a pattern: it returns, or raises `re.error` or another error. -/
inductive Compiled where
  | regex (re : Regex)
  | reError
  | raises

/-- The module `re`. -/
structure PythonRe where
  /-- `re.compile` with `IGNORECASE` and `MULTILINE`. -/
  compile : Text → Compiled
  /-- `re.search`, for patterns that are valid. -/
  search : (pattern text : Text) → Bool

/-- The errors that can leave `compile_rules`. -/
inductive PyError where
  /-- Of `re.compile`. -/
  | compileError
  /-- Of `regexes.pop()`. -/
  | indexError
  /-- Of `r["name"]`. -/
  | keyError
  deriving DecidableEq, Repr

/-- A dictionary of a rule; a field that is missing is `none`. -/
structure RawGuardrail where
  name : Option Text
  enabled : Option Bool
  priority : Option Int
  direction : Option Text
  pack : Option (Option Text)
  findRegex : Option Text
  action : Option Text

/-- The dictionary of a compiled rule. -/
structure PyGuardrail where
  name : Text
  priority : Int
  direction : Text
  pack : Option Text
  regexes : List Regex
  action : Text

/-- `get_pack_patterns`; a pack can be null. -/
def getPackPatterns (pack : Option Text) (findRegex : Option Text) : List Text :=
  if pack = some "custom".toList then (findRegex.filter fun p => !p.isEmpty).toList
  else (pack.bind packPatterns).getD []

namespace RawGuardrail

/-- `r.get("enabled", True)`. -/
def isEnabled (r : RawGuardrail) : Bool := r.enabled.getD true

/-- `r.get("pack", "custom")`. -/
def packOf (r : RawGuardrail) : Option Text := r.pack.getD (some "custom".toList)

/-- The patterns of a rule. -/
def patterns (r : RawGuardrail) : List Text := getPackPatterns r.packOf r.findRegex

/-- The compiled rule with a name and these regular expressions. -/
def toCompiled (r : RawGuardrail) (name : Text) (regexes : List Regex) : PyGuardrail where
  name := name
  priority := r.priority.getD 0
  direction := r.direction.getD "both".toList
  pack := r.packOf
  regexes := regexes
  action := r.action.getD "block".toList

end RawGuardrail

section Python

variable (E : PythonRe) (redosCheck : Bool)

/-- A pattern with a fragment that is known to backtrack. -/
def suspect (p : Text) : Bool :=
  redosCheck && guardrailRedosPatterns.any fun q => E.search q.toList p

/-- One turn of the loop over the patterns. -/
def keepPattern (regexes : List Regex) (p : Text) : Except PyError (List Regex) := do
  let regexes ← match E.compile p with
    | .regex re => .ok (regexes ++ [re])
    | .reError => .ok regexes
    | .raises => .error .compileError
  if suspect E redosCheck p then
    if regexes.isEmpty then .error .indexError else .ok regexes.dropLast
  else .ok regexes

/-- One turn of the loop over the rules. -/
def compileRule (r : RawGuardrail) : Except PyError (Option PyGuardrail) :=
  if !r.isEnabled || r.patterns.isEmpty then .ok none
  else do
    let regexes ← r.patterns.foldlM (keepPattern E redosCheck) []
    if regexes.isEmpty then .ok none
    else
      match r.name with
      | some name => .ok (some (r.toCompiled name regexes))
      | none => .error .keyError

/-- The loop over the rules. -/
def compileEach : List RawGuardrail → Except PyError (List PyGuardrail)
  | [] => .ok []
  | r :: rs => do
      let compiled ← compileRule E redosCheck r
      let rest ← compileEach rs
      .ok (compiled.toList ++ rest)

/-- `compile_rules`. -/
def compileRules (raw : List RawGuardrail) : Except PyError (List PyGuardrail) :=
  (compileEach E redosCheck raw).map (sortByKey PyGuardrail.priority)

/-! ### What it should keep -/

/-- The regular expressions of the patterns that are valid and not suspect. -/
def goodRegexes (isSuspect : Text → Bool) (build : Text → Option Regex) (patterns : List Text) :
    List Regex :=
  patterns.filterMap fun p => if isSuspect p then none else build p

/-- A pattern that is valid. -/
def Compiled.toOption : Compiled → Option Regex
  | .regex re => some re
  | _ => none

/-- The good patterns of a rule. -/
def good (patterns : List Text) : List Regex :=
  goodRegexes (suspect E redosCheck) (fun p => (E.compile p).toOption) patterns

/-- What is to be kept of a rule: its good patterns, if it is enabled and has any. -/
def kept (r : RawGuardrail) : Option PyGuardrail :=
  if !r.isEnabled || (good E redosCheck r.patterns).isEmpty then none
  else some (r.toCompiled (r.name.getD []) (good E redosCheck r.patterns))

/-- **The good patterns of every enabled rule are kept**, and no error is raised. -/
def KeepsGood (raw : List RawGuardrail) : Prop :=
  compileRules E redosCheck raw =
    .ok (sortByKey PyGuardrail.priority (raw.filterMap (kept E redosCheck)))

/-- A pattern that `re.compile` accepts or refuses with `re.error`, and that is not suspect if it is
refused. -/
def CleanPattern (p : Text) : Prop :=
  match E.compile p with
  | .regex _ => True
  | .reError => suspect E redosCheck p = false
  | .raises => False

/-- A rule is disabled, or its patterns are clean and it has a name if one of them is good. -/
def CleanRule (r : RawGuardrail) : Prop :=
  r.isEnabled = true → (∀ p ∈ r.patterns, CleanPattern E redosCheck p) ∧
    (good E redosCheck r.patterns ≠ [] → r.name.isSome)

variable {E redosCheck}

/-! ### The loop over the patterns -/

private theorem bind_ok {α β : Type} {x : Except PyError α} {f : α → Except PyError β} {b : β}
    (h : x >>= f = .ok b) : ∃ a, x = .ok a ∧ f a = .ok b := by
  cases x with
  | error e => cases h
  | ok a => exact ⟨a, rfl, h⟩

theorem good_cons (p : Text) (ps : List Text) :
    good E redosCheck (p :: ps) = good E redosCheck [p] ++ good E redosCheck ps := by
  show good E redosCheck ([p] ++ ps) = _
  exact List.filterMap_append

theorem good_suspect {p : Text} (h : suspect E redosCheck p = true) : good E redosCheck [p] = [] := by
  simp [good, goodRegexes, h]

theorem good_regex {p : Text} {re : Regex} (h : suspect E redosCheck p = false)
    (hcompile : E.compile p = .regex re) : good E redosCheck [p] = [re] := by
  simp [good, goodRegexes, h, hcompile, Compiled.toOption]

theorem good_reError {p : Text} (hcompile : E.compile p = .reError) : good E redosCheck [p] = [] := by
  simp [good, goodRegexes, hcompile, Compiled.toOption]

/-- A clean pattern is kept if it is good. -/
theorem keepPattern_clean {p : Text} (h : CleanPattern E redosCheck p) (regexes : List Regex) :
    keepPattern E redosCheck regexes p = .ok (regexes ++ good E redosCheck [p]) := by
  rw [keepPattern]
  rw [CleanPattern] at h
  cases hcompile : E.compile p with
  | regex re =>
      cases hsuspect : suspect E redosCheck p with
      | true =>
          rw [good_suspect hsuspect, List.append_nil]
          show (if (regexes ++ [re]).isEmpty then _ else _) = _
          rw [if_neg (by simp), List.dropLast_concat]
      | false =>
          rw [good_regex hsuspect hcompile]
          rfl
  | reError =>
      rw [hcompile] at h
      rw [good_reError hcompile, List.append_nil, h]
      rfl
  | raises =>
      rw [hcompile] at h
      exact h.elim

/-- A pattern that is not clean raises an error, or takes back one of the others. -/
theorem keepPattern_unclean {p : Text} (h : ¬ CleanPattern E redosCheck p)
    {regexes out : List Regex} (hout : keepPattern E redosCheck regexes p = .ok out) :
    out.length < regexes.length + (good E redosCheck [p]).length := by
  rw [keepPattern] at hout
  rw [CleanPattern] at h
  cases hcompile : E.compile p with
  | regex re =>
      rw [hcompile] at h
      exact absurd trivial h
  | reError =>
      rw [hcompile] at h hout
      have hsuspect : suspect E redosCheck p = true := Bool.eq_true_of_not_eq_false h
      obtain ⟨_, ⟨⟩, hout⟩ := bind_ok hout
      dsimp only at hout
      rw [if_pos hsuspect] at hout
      split at hout
      · cases hout
      · next hne =>
          obtain rfl := Except.ok.inj hout
          have hpos : 0 < regexes.length := List.length_pos_iff.mpr fun hnil => hne (by simp [hnil])
          rw [List.length_dropLast]
          omega
  | raises =>
      rw [hcompile] at hout
      cases hout

theorem keepPatterns_clean {ps : List Text} (h : ∀ p ∈ ps, CleanPattern E redosCheck p)
    (regexes : List Regex) :
    ps.foldlM (keepPattern E redosCheck) regexes = .ok (regexes ++ good E redosCheck ps) := by
  induction ps generalizing regexes with
  | nil => exact congrArg Except.ok (List.append_nil _).symm
  | cons p ps ih =>
      obtain ⟨hp, hps⟩ := List.forall_mem_cons.mp h
      rw [List.foldlM_cons, keepPattern_clean hp]
      show ps.foldlM (keepPattern E redosCheck) _ = _
      rw [ih hps, good_cons p ps, List.append_assoc]

/-- The loop keeps as many as there are good patterns only if all of them are clean. -/
theorem keepPatterns_length {ps : List Text} {regexes out : List Regex}
    (h : ps.foldlM (keepPattern E redosCheck) regexes = .ok out) :
    out.length ≤ regexes.length + (good E redosCheck ps).length ∧
      (out.length = regexes.length + (good E redosCheck ps).length →
        ∀ p ∈ ps, CleanPattern E redosCheck p) := by
  induction ps generalizing regexes with
  | nil =>
      obtain rfl := Except.ok.inj h
      exact ⟨Nat.le_add_right .., fun _ => List.forall_mem_nil _⟩
  | cons p ps ih =>
      rw [List.foldlM_cons] at h
      obtain ⟨next, hnext, h⟩ := bind_ok h
      obtain ⟨hle, hclean⟩ := ih h
      rw [good_cons p ps, List.length_append]
      by_cases hp : CleanPattern E redosCheck p
      · rw [keepPattern_clean hp] at hnext
        obtain rfl := Except.ok.inj hnext
        rw [List.length_append] at hle hclean
        refine ⟨by omega, fun heq => List.forall_mem_cons.mpr ⟨hp, hclean (by omega)⟩⟩
      · have hlt := keepPattern_unclean hp hnext
        exact ⟨by omega, fun heq => by omega⟩

/-! ### The loop over the rules -/

/-- The number of the regular expressions of a rule that may be kept. -/
def weight (r : Option PyGuardrail) : Nat := (r.map fun r => r.regexes.length).getD 0

theorem weight_kept (r : RawGuardrail) :
    weight (kept E redosCheck r) =
      if r.isEnabled then (good E redosCheck r.patterns).length else 0 := by
  rw [kept]
  cases hgood : good E redosCheck r.patterns <;> cases r.isEnabled <;> rfl

/-- A rule whose patterns are clean is compiled to what is to be kept of it. -/
theorem compileRule_clean {r : RawGuardrail} (h : CleanRule E redosCheck r) :
    compileRule E redosCheck r = .ok (kept E redosCheck r) := by
  rw [compileRule, kept]
  cases henabled : r.isEnabled with
  | false => rfl
  | true =>
      obtain ⟨hpatterns, hname⟩ := h henabled
      cases hempty : r.patterns with
      | nil => rfl
      | cons p ps =>
          rw [hempty] at hpatterns hname
          have hfold := keepPatterns_clean hpatterns []
          rw [List.nil_append] at hfold
          show (List.foldlM (keepPattern E redosCheck) [] (p :: ps) >>= _) = _
          rw [hfold]
          cases hgood : good E redosCheck (p :: ps) with
          | nil => rfl
          | cons re res =>
              obtain ⟨name, hsome⟩ := Option.isSome_iff_exists.mp (hname (by simp [hgood]))
              show (match r.name with | some name => _ | none => _) = _
              rw [hsome]
              rfl

/-- A rule that is compiled keeps as many regular expressions as it has good patterns only if it is
clean. -/
theorem compileRule_weight {r : RawGuardrail} {out : Option PyGuardrail}
    (h : compileRule E redosCheck r = .ok out) :
    weight out ≤ weight (kept E redosCheck r) ∧
      (weight out = weight (kept E redosCheck r) → CleanRule E redosCheck r) := by
  rw [weight_kept]
  rw [compileRule] at h
  cases henabled : r.isEnabled with
  | false =>
      rw [henabled] at h
      obtain rfl := Except.ok.inj h
      exact ⟨Nat.le_refl 0, fun _ hyes => absurd (henabled.symm.trans hyes) Bool.false_ne_true⟩
  | true =>
      rw [if_pos rfl]
      cases hempty : r.patterns with
      | nil =>
          rw [henabled, hempty] at h
          obtain rfl := Except.ok.inj h
          refine ⟨Nat.le_refl 0, fun _ _ => ?_⟩
          rw [hempty]
          exact ⟨List.forall_mem_nil _, fun hgood => absurd rfl hgood⟩
      | cons p ps =>
          rw [henabled, hempty] at h
          obtain ⟨regexes, hregexes, h⟩ := bind_ok h
          obtain ⟨hle, hclean⟩ := keepPatterns_length hregexes
          rw [List.length_nil, Nat.zero_add] at hle hclean
          split at h
          · next hnone =>
              obtain rfl := Except.ok.inj h
              have hzero : regexes.length = 0 := List.length_eq_zero_iff.mpr (List.isEmpty_iff.mp hnone)
              refine ⟨Nat.zero_le _, fun heq _ => ?_⟩
              have hgood : (good E redosCheck (p :: ps)).length = 0 := heq.symm
              rw [hempty]
              exact ⟨hclean (by omega), fun hne => absurd (List.length_eq_zero_iff.mp hgood) hne⟩
          · split at h
            · next name hname =>
                obtain rfl := Except.ok.inj h
                refine ⟨hle, fun heq _ => ?_⟩
                rw [hempty, hname]
                exact ⟨hclean heq, fun _ => rfl⟩
            · cases h

/-- Rules that are clean are compiled to what is to be kept of them. -/
theorem compileEach_clean {raw : List RawGuardrail} (h : ∀ r ∈ raw, CleanRule E redosCheck r) :
    compileEach E redosCheck raw = .ok (raw.filterMap (kept E redosCheck)) := by
  induction raw with
  | nil => rfl
  | cons r raw ih =>
      obtain ⟨hr, hraw⟩ := List.forall_mem_cons.mp h
      rw [compileEach, compileRule_clean hr, ih hraw, List.filterMap_cons]
      cases kept E redosCheck r <;> rfl

/-- The number of regular expressions of compiled rules. -/
def size (rules : List PyGuardrail) : Nat := (rules.map fun r => r.regexes.length).sum

theorem size_append (rules rules' : List PyGuardrail) :
    size (rules ++ rules') = size rules + size rules' := by
  rw [size, List.map_append, List.sum_append]
  rfl

theorem size_toList (r : Option PyGuardrail) : size r.toList = weight r := by
  cases r with
  | none => rfl
  | some r => exact Nat.add_zero _

/-- Rules that are compiled keep as many regular expressions as they have good patterns only if they
are clean. -/
theorem compileEach_size {raw : List RawGuardrail} {out : List PyGuardrail}
    (h : compileEach E redosCheck raw = .ok out) :
    size out ≤ size (raw.filterMap (kept E redosCheck)) ∧
      (size out = size (raw.filterMap (kept E redosCheck)) →
        ∀ r ∈ raw, CleanRule E redosCheck r) := by
  induction raw generalizing out with
  | nil =>
      obtain rfl := Except.ok.inj h
      exact ⟨Nat.le_refl _, fun _ => List.forall_mem_nil _⟩
  | cons r raw ih =>
      obtain ⟨compiled, hcompiled, h⟩ := bind_ok h
      obtain ⟨rest, hrest, h⟩ := bind_ok h
      obtain rfl := Except.ok.inj h
      obtain ⟨hle, hclean⟩ := compileRule_weight hcompiled
      obtain ⟨hles, hcleans⟩ := ih hrest
      have hcons : (r :: raw).filterMap (kept E redosCheck) =
          (kept E redosCheck r).toList ++ raw.filterMap (kept E redosCheck) := by
        rw [List.filterMap_cons]
        cases kept E redosCheck r <;> rfl
      rw [hcons, size_append, size_append, size_toList, size_toList]
      exact ⟨by omega, fun heq =>
        List.forall_mem_cons.mpr ⟨hclean (by omega), hcleans (by omega)⟩⟩

theorem size_sortByKey (rules : List PyGuardrail) :
    size (sortByKey PyGuardrail.priority rules) = size rules :=
  ((List.perm_insertionSort _ rules).map _).sum_eq

variable (E redosCheck)

/-- **When the good patterns are kept**: exactly when, of every enabled rule, no pattern is both
invalid and suspect, none raises another error, and the name is there if a pattern is good. -/
theorem keepsGood_iff (raw : List RawGuardrail) :
    KeepsGood E redosCheck raw ↔ ∀ r ∈ raw, CleanRule E redosCheck r := by
  constructor
  · intro h
    rw [KeepsGood, compileRules] at h
    cases heach : compileEach E redosCheck raw with
    | error e =>
        rw [heach] at h
        cases h
    | ok out =>
        rw [heach] at h
        have hsorted : sortByKey PyGuardrail.priority out =
            sortByKey PyGuardrail.priority (raw.filterMap (kept E redosCheck)) := Except.ok.inj h
        refine (compileEach_size heach).2 ?_
        rw [← size_sortByKey out, hsorted, size_sortByKey]
  · intro h
    rw [KeepsGood, compileRules, compileEach_clean h]
    rfl

/-- A module `re` on the pattern `(a+)+(`, which lacks a parenthesis and repeats a repetition. -/
def unclosed : PythonRe where
  compile _ := .reError
  search q _ := q == "\\([^)]*[+*][^)]*\\)[+*]".toList

/-- A rule with this pattern. -/
def unclosedRule : RawGuardrail where
  name := some "nested".toList
  enabled := some true
  priority := some 0
  direction := some "both".toList
  pack := some (some "custom".toList)
  findRegex := some "(a+)+(".toList
  action := some "block".toList

/-- A suspect pattern that is invalid raises an error. -/
theorem unclosed_raises : ¬ KeepsGood unclosed true [unclosedRule] := by
  intro h
  have hraises : compileRules unclosed true [unclosedRule] = .error .indexError := by rfl
  rw [KeepsGood, hraises] at h
  cases h

end Python

/-- The gateway's `compile_rules` keeps of every enabled rule the patterns that are valid and not
suspect. -/
theorem GuardrailConfig.compile_eq (P : Platform) (r : GuardrailConfig) :
    r.compile P =
      let regexes := goodRegexes (isRedos P guardrailRedosPatterns) (P.regex.build true true)
        r.patterns
      if !r.enabled || regexes.isEmpty then none
      else some ⟨r.priority, .parse r.direction, regexes, .parse r.action⟩ := rfl

end CorexManager.Gateway
