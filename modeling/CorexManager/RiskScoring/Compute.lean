import CorexManager.Data.Dict
import CorexManager.HAProxy.Acl
import Mathlib.Logic.Function.Basic

/-!
# The scores of a request

The Lua action `risk_compute`: it reads the match flag of every rule of the data file, adds up the
points for each ruleset, and leaves four variables for every ruleset and four for the default one.

* `riskCompute` — the action.
* `riskCompute_ruleset` — what the variables of a ruleset of the file are.
* `sumOf_score`, `sumOf_count` — the points and the number of the rules that matched.

The numbers of Lua are integers here; the quotient of `hit_density`, which is taken in floating
point, is a parameter.
-/

namespace CorexManager.RiskScoring

open Data
open HAProxy (Sample)

/-- The variables of a transaction. -/
abbrev Vars := Text → Option Sample

/-- A rule of the data file. -/
structure DataRule where
  id : Nat
  ruleset : Text
  points : Int
  name : Text
  log : Bool
  enabled : Bool
  deriving DecidableEq, Repr

/-- What `dofile` gives of `risk_rules_data.lua`. -/
structure RiskData where
  rulesets : List Text
  rules : List DataRule

/-- The match flag of a rule. -/
def matchVar (id : Nat) : Text := "txn.risk.match_".toList ++ natText id

/-- The flag is set: it is read as a string that is not empty, `0` or `false`. -/
def matched : Option Sample → Bool
  | none => false
  | some s => s.text != [] && s.text != "0".toList && s.text != "false".toList

/-! ### Adding up -/

/-- The entries of a ruleset in `scores`, `hits` and `counts`. -/
structure Tally where
  score : Int := 0
  hits : List Text := []
  count : Nat := 0

/-- One more rule that matched. -/
def Tally.add (t : Tally) (r : DataRule) : Tally where
  score := t.score + r.points
  hits := if r.log then t.hits ++ [r.name] else t.hits
  count := t.count + 1

/-- `scores`, `hits` and `counts` after one more rule. -/
def tallyRule (vars : Vars) (d : List (Text × Tally)) (r : DataRule) : List (Text × Tally) :=
  if matched (vars (matchVar r.id)) then
    Dict.set d r.ruleset (((Dict.lookup d r.ruleset).getD {}).add r)
  else d

/-- `scores`, `hits` and `counts` after the rules. -/
def tallies (data : RiskData) (vars : Vars) : List (Text × Tally) :=
  data.rules.foldl (tallyRule vars) (data.rulesets.foldl (fun d slug => Dict.set d slug {}) [])

/-- `total_enabled`. -/
def totalEnabled (data : RiskData) : List (Text × Nat) :=
  data.rules.foldl
    (fun d r =>
      if r.enabled then Dict.set d r.ruleset ((Dict.lookup d r.ruleset).getD 0 + 1) else d)
    (data.rulesets.foldl (fun d slug => Dict.set d slug 0) [])

/-- A score within `[0, 99]`. -/
def clamp (score : Int) : Int :=
  let score := if score < 0 then 0 else score
  if score > 99 then 99 else score

theorem clamp_eq (score : Int) : clamp score = min 99 (max 0 score) := by
  unfold clamp
  dsimp only
  split <;> split <;> omega

/-! ### Variables -/

/-- What is written of a ruleset. -/
inductive Output
  | score | rulesHit | rulesHitCount | hitDensity
  deriving DecidableEq, Repr

namespace Output

/-- The last part of the name of a variable. -/
def name : Output → Text
  | score => "score".toList
  | rulesHit => "rules_hit".toList
  | rulesHitCount => "rules_hit_count".toList
  | hitDensity => "hit_density".toList

/-- In the order of the assignments. -/
def all : List Output := [score, rulesHit, rulesHitCount, hitDensity]

/-- The text of a variable.  `percent` is `math.floor` of a count by a total in percent, rounded. -/
def value (percent : Nat → Nat → Int) (total : Nat) (t : Tally) : Output → Text
  | score => intText (clamp t.score)
  | rulesHit => [','].intercalate t.hits
  | rulesHitCount => natText t.count
  | hitDensity => intText (if total > 0 then percent t.count total else 0)

theorem mem_all (o : Output) : o ∈ all := by cases o <;> decide

theorem nodup_all : all.Nodup := by decide

end Output

/-- A variable of a ruleset. -/
def rulesetVar (slug : Text) (o : Output) : Text := "txn.risk.".toList ++ slug ++ '.' :: o.name

/-- The variable of the default ruleset under its old name. -/
def aliasVar (o : Output) : Text := "txn.risk.".toList ++ o.name

/-- Write four variables. -/
def writeAll (var : Output → Text) (value : Output → Text) (vars : Vars) : Vars :=
  Output.all.foldl (fun vars o => Function.update vars (var o) (some (.str (value o)))) vars

/-- `risk_compute`. -/
def riskCompute (percent : Nat → Nat → Int) (data : RiskData) (vars : Vars) : Vars :=
  let scores := tallies data vars
  let totals := totalEnabled data
  let total := fun slug => (Dict.lookup totals slug).getD 0
  let vars := scores.foldl
    (fun vars e => writeAll (rulesetVar e.1) (Output.value percent (total e.1) e.2) vars) vars
  let default := (Dict.lookup scores "default".toList).getD {}
  writeAll aliasVar
    (Output.value percent (total "default".toList) { default with score := clamp default.score })
    vars

/-! ### What the rules add up to -/

/-- The tally of a list of rules. -/
def sumOf (rules : List DataRule) : Tally := rules.foldl Tally.add {}

theorem sumOf_concat (rules : List DataRule) (r : DataRule) :
    sumOf (rules ++ [r]) = (sumOf rules).add r := by
  rw [sumOf, List.foldl_append]
  rfl

theorem sumOf_score (rules : List DataRule) :
    (sumOf rules).score = (rules.map DataRule.points).sum := by
  induction rules using List.reverseRecOn with
  | nil => rfl
  | append_singleton rules r ih =>
      rw [sumOf_concat, List.map_append, List.sum_append, ← ih]
      simp [Tally.add]

theorem sumOf_count (rules : List DataRule) : (sumOf rules).count = rules.length := by
  induction rules using List.reverseRecOn with
  | nil => rfl
  | append_singleton rules r ih =>
      rw [sumOf_concat, List.length_append, ← ih]
      rfl

theorem sumOf_hits (rules : List DataRule) :
    (sumOf rules).hits = (rules.filter DataRule.log).map DataRule.name := by
  induction rules using List.reverseRecOn with
  | nil => rfl
  | append_singleton rules r ih =>
      rw [sumOf_concat, List.filter_append, List.map_append, ← ih, Tally.add]
      cases hlog : r.log <;> simp [hlog]

/-! ### The tables of the action -/

section Tables

variable {α : Type*} {f : α → Text} {d : List (Text × α)} {slug : Text}

/-- Every slug of the file has an entry. -/
theorem lookup_init {β : Type*} (x : β) (slugs : List Text) (d : List (Text × β)) :
    Dict.lookup (slugs.foldl (fun d s => Dict.set d s x) d) slug =
      if slug ∈ slugs then some x else Dict.lookup d slug := by
  induction slugs generalizing d with
  | nil => simp
  | cons s slugs ih =>
      rw [List.foldl_cons, ih]
      by_cases hmem : slug ∈ slugs
      · simp [hmem]
      · by_cases hs : slug = s
        · subst hs
          simp [hmem, Dict.lookup_set_self]
        · simp [hmem, hs, Dict.lookup_set_other _ _ hs]

theorem distinct_init {β : Type*} (x : β) (slugs : List Text) {d : List (Text × β)}
    (hd : Dict.Distinct d) : Dict.Distinct (slugs.foldl (fun d s => Dict.set d s x) d) := by
  induction slugs generalizing d with
  | nil => exact hd
  | cons s slugs ih => exact ih (hd.set s x)

end Tables

/-- The rules of a ruleset that matched. -/
def RiskData.hitting (data : RiskData) (vars : Vars) (slug : Text) : List DataRule :=
  data.rules.filter fun r => matched (vars (matchVar r.id)) && r.ruleset == slug

/-- The rules of a list add up entry by entry. -/
private theorem lookup_adding (vars : Vars) (rules : List DataRule) {slug : Text}
    {d : List (Text × Tally)} {t : Tally} (h : Dict.lookup d slug = some t) :
    Dict.lookup (rules.foldl (tallyRule vars) d) slug =
      some ((rules.filter fun r =>
        matched (vars (matchVar r.id)) && r.ruleset == slug).foldl Tally.add t) := by
  induction rules generalizing d t with
  | nil => exact h
  | cons r rules ih =>
      rw [List.foldl_cons, tallyRule]
      by_cases hmatched : matched (vars (matchVar r.id)) = true
      · rw [if_pos hmatched]
        by_cases hslug : r.ruleset = slug
        · have hset : Dict.lookup (Dict.set d r.ruleset
              (((Dict.lookup d r.ruleset).getD {}).add r)) slug = some (t.add r) := by
            rw [hslug, h, Dict.lookup_set_self, Option.getD_some]
          rw [ih hset, List.filter_cons_of_pos (by simp [hmatched, hslug]), List.foldl_cons]
        · have hset : Dict.lookup (Dict.set d r.ruleset
              (((Dict.lookup d r.ruleset).getD {}).add r)) slug = some t := by
            rw [Dict.lookup_set_other _ _ (Ne.symm hslug), h]
          rw [ih hset, List.filter_cons_of_neg (by simp [hslug])]
      · rw [if_neg hmatched, ih h, List.filter_cons_of_neg (by simp [hmatched])]

/-- **The entry of a ruleset** is the tally of its rules that matched. -/
theorem lookup_tallies {data : RiskData} (vars : Vars) {slug : Text} (h : slug ∈ data.rulesets) :
    Dict.lookup (tallies data vars) slug = some (sumOf (data.hitting vars slug)) := by
  have hinit : Dict.lookup (data.rulesets.foldl (fun d s => Dict.set d s ({} : Tally)) []) slug =
      some {} := by
    rw [lookup_init, if_pos h]
  exact lookup_adding vars data.rules hinit

theorem distinct_tallies (data : RiskData) (vars : Vars) : Dict.Distinct (tallies data vars) := by
  unfold tallies
  have hinit := distinct_init ({} : Tally) data.rulesets (d := []) List.nodup_nil
  induction data.rules using List.reverseRecOn with
  | nil => exact hinit
  | append_singleton rules r ih =>
      rw [List.foldl_append, List.foldl_cons, List.foldl_nil, tallyRule]
      split
      · exact ih.set _ _
      · exact ih

/-! ### The variables that are written -/

/-- What stands behind the last dot of a name, and what before it. -/
theorem last_dot_inj {s t a b : Text} (ha : '.' ∉ a) (hb : '.' ∉ b)
    (h : s ++ '.' :: a = t ++ '.' :: b) : s = t ∧ a = b := by
  have hrev : a.reverse ++ '.' :: s.reverse = b.reverse ++ '.' :: t.reverse := by
    simpa using congrArg List.reverse h
  have hclean : ∀ u : Text, '.' ∉ u → ∀ c ∈ u.reverse, (c != '.') = true := fun u hu c hc =>
    bne_iff_ne.mpr fun hdot => hu (hdot ▸ List.mem_reverse.mp hc)
  have hdot : ∀ u : Text, ∀ c ∈ ('.' :: u).head?, (c != '.') = false := fun u c hc => by
    cases hc
    rfl
  have htake : a.reverse = b.reverse := by
    rw [← (takeWhile_of_boundary _ (hclean a ha) (hdot s.reverse)).1, hrev,
      (takeWhile_of_boundary _ (hclean b hb) (hdot t.reverse)).1]
  rw [htake] at hrev
  have htail := List.append_cancel_left hrev
  exact ⟨List.reverse_injective (List.cons.inj htail).2, List.reverse_injective htake⟩

namespace Output

theorem name_no_dot (o : Output) : '.' ∉ o.name := by cases o <;> decide

theorem name_inj {o p : Output} (h : o.name = p.name) : o = p := by
  cases o <;> cases p <;> first | rfl | exact absurd h (by decide)

end Output

theorem rulesetVar_inj {s t : Text} {o p : Output} (h : rulesetVar s o = rulesetVar t p) :
    s = t ∧ o = p := by
  obtain ⟨hslug, hname⟩ := last_dot_inj o.name_no_dot p.name_no_dot h
  exact ⟨List.append_cancel_left hslug, Output.name_inj hname⟩

theorem aliasVar_ne_rulesetVar (s : Text) (o p : Output) : aliasVar o ≠ rulesetVar s p := by
  intro h
  have hdot : "txn.risk".toList ++ '.' :: o.name = "txn.risk.".toList ++ s ++ '.' :: p.name := h
  obtain ⟨hbase, -⟩ := last_dot_inj o.name_no_dot p.name_no_dot hdot
  have hlength := congrArg List.length hbase
  rw [List.length_append] at hlength
  have h₁ : "txn.risk".toList.length = 8 := rfl
  have h₂ : "txn.risk.".toList.length = 9 := rfl
  omega

section Write

variable {var value : Output → Text} {vars : Vars}

theorem writeAll_other {n : Text} (h : ∀ o, var o ≠ n) : writeAll var value vars n = vars n := by
  unfold writeAll
  induction Output.all generalizing vars with
  | nil => rfl
  | cons o os ih => rw [List.foldl_cons, ih, Function.update_of_ne (h o).symm]

theorem writeAll_self (hinj : ∀ o p, var o = var p → o = p) (o : Output) :
    writeAll var value vars (var o) = some (.str (value o)) := by
  have hmem : ∀ (os : List Output) (vars : Vars), o ∈ os →
      os.foldl (fun vars o => Function.update vars (var o) (some (.str (value o)))) vars (var o) =
        some (.str (value o)) := by
    intro os
    induction os using List.reverseRecOn with
    | nil => exact fun _ h => absurd h List.not_mem_nil
    | append_singleton os p ih =>
        intro vars h
        rw [List.foldl_append, List.foldl_cons, List.foldl_nil]
        by_cases hp : var o = var p
        · rw [hinj o p hp, Function.update_self]
        · rw [Function.update_of_ne hp]
          refine ih vars ((List.mem_append.mp h).resolve_right fun hlast => hp ?_)
          rw [List.mem_singleton.mp hlast]
  exact hmem _ vars o.mem_all

/-- A list of rulesets is written entry by entry. -/
theorem writeRulesets {value : Text × Tally → Output → Text} {d : List (Text × Tally)}
    (hd : Dict.Distinct d) {e : Text × Tally} (he : e ∈ d) (o : Output) (vars : Vars) :
    d.foldl (fun vars e => writeAll (rulesetVar e.1) (value e) vars) vars (rulesetVar e.1 o) =
      some (.str (value e o)) := by
  induction d using List.reverseRecOn with
  | nil => exact absurd he List.not_mem_nil
  | append_singleton d last ih =>
      rw [List.foldl_append, List.foldl_cons, List.foldl_nil]
      rw [Dict.Distinct, List.map_append, List.map_singleton] at hd
      obtain ⟨hinit, -, hdisjoint⟩ := List.nodup_append.mp hd
      rcases List.mem_append.mp he with he | he
      · rw [writeAll_other fun p hp => ?_]
        · exact ih hinit he
        · exact hdisjoint _ (List.mem_map_of_mem he) _ (List.mem_singleton_self _)
            (rulesetVar_inj hp).1.symm
      · rw [List.mem_singleton.mp he]
        exact writeAll_self (fun p q hpq => (rulesetVar_inj hpq).2) o

end Write

/-- **The variables of a ruleset** say what its rules that matched add up to. -/
theorem riskCompute_ruleset (percent : Nat → Nat → Int) {data : RiskData} (vars : Vars)
    {slug : Text} (h : slug ∈ data.rulesets) (o : Output) :
    riskCompute percent data vars (rulesetVar slug o) =
      some (.str (o.value percent ((Dict.lookup (totalEnabled data) slug).getD 0)
        (sumOf (data.hitting vars slug)))) := by
  have hentry := Dict.mem_of_lookup (lookup_tallies vars h)
  unfold riskCompute
  dsimp only
  rw [writeAll_other fun p => aliasVar_ne_rulesetVar slug p o]
  exact writeRulesets (distinct_tallies data vars) hentry o vars

end CorexManager.RiskScoring
