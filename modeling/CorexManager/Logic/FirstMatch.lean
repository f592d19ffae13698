import Mathlib.Data.List.Basic

/-!
# Ordered rules that allow or deny

A list of rules is asked in order, and the first rule that applies decides
(`decision`).  A mechanism that knows nothing of order, and can only allow, says the
same when every allowing rule is guarded by the denying rules before it (`guarded`):
one of these conditions holds exactly when the first rule that applies allows
(`any_guarded`).

Where the first rule that applies is tried, and may fail (`attempt`), the order is of no
consequence exactly when all rules that apply come to the same (`attempt_perm_iff`).
-/

namespace FirstMatch

variable {ρ : Type*} (applies allows : ρ → Bool)

/-- What the first rule that applies says. -/
def decision (rules : List ρ) : Option Bool := (rules.find? applies).map allows

/-- The allowing rules, each with the denying rules before it; `denied` are those read
so far. -/
def guarded : List ρ → List ρ → List (ρ × List ρ)
  | _, [] => []
  | denied, r :: rs =>
      if allows r then (r, denied) :: guarded denied rs else guarded (denied ++ [r]) rs

/-- A rule applies and none of its guards does. -/
def Holds (g : ρ × List ρ) : Bool := applies g.1 && !g.2.any applies

variable {applies allows} {denied rs qs : List ρ} {r : ρ}

theorem decision_cons_of_applies (h : applies r = true) :
    decision applies allows (r :: rs) = some (allows r) := by
  rw [decision, List.find?_cons_of_pos h, Option.map_some]

theorem decision_cons_of_not_applies (h : applies r = false) :
    decision applies allows (r :: rs) = decision applies allows rs := by
  rw [decision, List.find?_cons_of_neg (by simp [h]), decision]

/-- **Later rules never override the first that applies.** -/
theorem decision_append (h : rs.any applies = true) (qs : List ρ) :
    decision applies allows (rs ++ qs) = decision applies allows rs := by
  obtain ⟨r, hr⟩ := Option.isSome_iff_exists.mp (List.find?_isSome.mpr (List.any_eq_true.mp h))
  rw [decision, decision, List.find?_append, hr, Option.some_or]

/-- Behind a denying rule that applies nothing is allowed. -/
theorem any_guarded_of_denied (h : denied.any applies = true) :
    (guarded allows denied rs).any (Holds applies) = false := by
  induction rs generalizing denied with
  | nil => rfl
  | cons r rs ih =>
      rw [guarded]
      split
      · have hhead : Holds applies (r, denied) = false := by
          rw [Holds, h, Bool.not_true, Bool.and_false]
        rw [List.any_cons, hhead, ih h, Bool.or_false]
      · exact ih (by rw [List.any_append, h, Bool.true_or])

/-- **The guarded rules decide as the ordered ones do.** -/
theorem any_guarded (h : denied.any applies = false) :
    (guarded allows denied rs).any (Holds applies) = (decision applies allows rs == some true) := by
  induction rs generalizing denied with
  | nil => rfl
  | cons r rs ih =>
      rw [guarded]
      cases happly : applies r with
      | true =>
          rw [decision_cons_of_applies happly]
          cases hallow : allows r with
          | true =>
              have hhead : Holds applies (r, denied) = true := by
                rw [Holds, happly, h, Bool.not_false, Bool.true_and]
              rw [if_pos rfl, List.any_cons, hhead, Bool.true_or]
              rfl
          | false =>
              -- the rule denies: it guards every rule after it
              rw [if_neg Bool.false_ne_true]
              exact any_guarded_of_denied (by simp [happly])
      | false =>
          rw [decision_cons_of_not_applies happly]
          cases hallow : allows r with
          | true =>
              have hhead : Holds applies (r, denied) = false := by
                rw [Holds, happly, Bool.false_and]
              rw [if_pos rfl, List.any_cons, hhead, Bool.false_or, ih h]
          | false =>
              rw [if_neg Bool.false_ne_true]
              exact ih (by simp [h, happly])

/-- The guarded rules are rules, and so are their guards. -/
theorem mem_of_mem_guarded {g : ρ × List ρ} (h : g ∈ guarded allows denied rs) :
    g.1 ∈ rs ∧ ∀ d ∈ g.2, d ∈ denied ++ rs := by
  induction rs generalizing denied with
  | nil => cases h
  | cons r rs ih =>
      rw [guarded] at h
      split at h
      · rcases List.mem_cons.mp h with rfl | h
        · exact ⟨List.mem_cons_self, fun d hd => List.mem_append_left _ hd⟩
        · obtain ⟨hmem, hguards⟩ := ih h
          refine ⟨List.mem_cons_of_mem r hmem, fun d hd => ?_⟩
          have hd := hguards d hd
          simp only [List.mem_append, List.mem_cons] at hd ⊢
          tauto
      · obtain ⟨hmem, hguards⟩ := ih h
        refine ⟨List.mem_cons_of_mem r hmem, fun d hd => ?_⟩
        have hd := hguards d hd
        simpa using hd

/-! ### The order of the rules -/

section Attempt

variable {β : Type*} {tries : ρ → Option β}

/-- What comes of the first rule that applies, if anything does. -/
def attempt (applies : ρ → Bool) (tries : ρ → Option β) (rules : List ρ) : Option β :=
  (rules.find? applies).bind tries

theorem attempt_cons_of_applies (h : applies r = true) :
    attempt applies tries (r :: rs) = tries r := by
  rw [attempt, List.find?_cons_of_pos h, Option.bind_some]

theorem attempt_eq_some {b : β} (h : attempt applies tries rs = some b) :
    ∃ r ∈ rs, applies r = true ∧ rs.find? applies = some r ∧ tries r = some b := by
  obtain ⟨r, hfind, htries⟩ := Option.bind_eq_some_iff.mp h
  exact ⟨r, List.mem_of_find?_eq_some hfind, List.find?_some hfind, hfind, htries⟩

/-- **The order is of no consequence** when all rules that apply come to the same, and only
then: each of them is the first in some order. -/
theorem attempt_perm_iff {rules : List ρ} :
    (∀ rules', rules'.Perm rules → attempt applies tries rules' = attempt applies tries rules) ↔
      ∀ r ∈ rules, applies r = true → tries r = attempt applies tries rules := by
  constructor
  · intro h r hr happly
    obtain ⟨before, after, rfl⟩ := List.append_of_mem hr
    rw [← h (r :: (before ++ after)) List.perm_middle.symm, attempt_cons_of_applies happly]
  · intro h rules' hperm
    cases hfind : rules'.find? applies with
    | some r =>
        have hmem := hperm.subset (List.mem_of_find?_eq_some hfind)
        rw [← h r hmem (List.find?_some hfind), attempt, hfind, Option.bind_some]
    | none =>
        have hnone : rules.find? applies = none :=
          List.find?_eq_none.mpr fun r hr => List.find?_eq_none.mp hfind r (hperm.mem_iff.mpr hr)
        rw [attempt, attempt, hfind, hnone]

/-- Where what comes of a rule names the rule, it is the same in every order when no other rule
applies. -/
theorem attempt_eq_perm_iff {rules : List ρ} {origin : β → ρ}
    (horigin : ∀ r b, tries r = some b → origin b = r) {b : β}
    (hattempt : attempt applies tries rules = some b) :
    (∀ rules', rules'.Perm rules → attempt applies tries rules' = some b) ↔
      ∀ r ∈ rules, applies r = true → r = origin b := by
  rw [← hattempt, attempt_perm_iff, hattempt]
  refine forall_congr' fun r => forall_congr' fun _ => forall_congr' fun happly => ?_
  constructor
  · exact fun h => (horigin r b h).symm
  · rintro rfl
    obtain ⟨r, -, -, -, htries⟩ := attempt_eq_some hattempt
    rwa [horigin r b htries]

end Attempt

end FirstMatch
