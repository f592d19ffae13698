import Mathlib.Data.List.Basic

/-!
# Ordered rules

A chain of rules is run in order against a state.  A rule whose condition holds
in the current state fires: it changes the state, and it may give a verdict,
which ends the chain.  The outcome records which rules fired.

* `Machine.run_append` — a chain that gives no verdict hands its state over.
* `Machine.run_quiet` — a chain none of whose rules fires does nothing.
* `Machine.run_invariant`, `Machine.fired_invariant` — what firing preserves holds
  at the end, and held wherever a rule fired.
* `Machine.run_rel` — two runs that stay related fire the same rules.
-/

namespace RuleChain

/-- How rules `ρ` act on states `σ`, with verdicts `ν`. -/
structure Machine (σ ρ ν : Type*) where
  fires : σ → ρ → Bool
  effect : ρ → σ → σ
  verdict : ρ → Option ν

/-- What a run leaves: the state, the rules that fired in order, the verdict. -/
structure Outcome (σ ρ ν : Type*) where
  state : σ
  fired : List ρ
  verdict : Option ν

namespace Outcome

variable {σ ρ ν : Type*}

/-- The outcome with rules fired before. -/
def after (rs : List ρ) (o : Outcome σ ρ ν) : Outcome σ ρ ν := { o with fired := rs ++ o.fired }

@[simp] theorem after_state (rs : List ρ) (o : Outcome σ ρ ν) : (o.after rs).state = o.state := rfl

@[simp] theorem after_fired (rs : List ρ) (o : Outcome σ ρ ν) :
    (o.after rs).fired = rs ++ o.fired := rfl

@[simp] theorem after_verdict (rs : List ρ) (o : Outcome σ ρ ν) :
    (o.after rs).verdict = o.verdict := rfl

@[simp] theorem after_nil (o : Outcome σ ρ ν) : o.after [] = o := rfl

theorem after_after (rs qs : List ρ) (o : Outcome σ ρ ν) :
    (o.after qs).after rs = o.after (rs ++ qs) := by
  simp [after]

/-- Go on with `k` unless there is a verdict. -/
def andThen (o : Outcome σ ρ ν) (k : σ → Outcome σ ρ ν) : Outcome σ ρ ν :=
  match o.verdict with
  | some _ => o
  | none => (k o.state).after o.fired

theorem andThen_none {o : Outcome σ ρ ν} (h : o.verdict = none) (k : σ → Outcome σ ρ ν) :
    o.andThen k = (k o.state).after o.fired := by
  rw [andThen, h]

theorem andThen_some {o : Outcome σ ρ ν} {v : ν} (h : o.verdict = some v)
    (k : σ → Outcome σ ρ ν) : o.andThen k = o := by
  rw [andThen, h]

theorem andThen_after (o : Outcome σ ρ ν) (rs : List ρ) (k : σ → Outcome σ ρ ν) :
    (o.after rs).andThen k = (o.andThen k).after rs := by
  cases h : o.verdict with
  | some v => rw [andThen_some (by simpa using h), andThen_some h]
  | none =>
      rw [andThen_none (by simpa using h), andThen_none h, after_after]
      rfl

end Outcome

namespace Machine

variable {σ ρ ν : Type*} (M : Machine σ ρ ν)

/-- Run a chain. -/
def run : List ρ → σ → Outcome σ ρ ν
  | [], s => ⟨s, [], none⟩
  | r :: rs, s =>
      if M.fires s r then
        match M.verdict r with
        | some v => ⟨M.effect r s, [r], some v⟩
        | none => (run rs (M.effect r s)).after [r]
      else run rs s

@[simp] theorem run_nil (s : σ) : M.run [] s = ⟨s, [], none⟩ := rfl

variable {M}

theorem run_cons_skip {r : ρ} {s : σ} (h : M.fires s r = false) (rs : List ρ) :
    M.run (r :: rs) s = M.run rs s := by
  simp [run, h]

theorem run_cons_fire {r : ρ} {s : σ} (h : M.fires s r = true) (hv : M.verdict r = none)
    (rs : List ρ) : M.run (r :: rs) s = (M.run rs (M.effect r s)).after [r] := by
  simp [run, h, hv]

theorem run_cons_stop {r : ρ} {s : σ} {v : ν} (h : M.fires s r = true)
    (hv : M.verdict r = some v) (rs : List ρ) :
    M.run (r :: rs) s = ⟨M.effect r s, [r], some v⟩ := by
  simp [run, h, hv]

/-- The three things the first rule of a chain can do. -/
theorem run_cons_cases (M : Machine σ ρ ν) (r : ρ) (rs : List ρ) (s : σ) :
    (M.fires s r = false ∧ M.run (r :: rs) s = M.run rs s) ∨
    (M.fires s r = true ∧ M.verdict r = none ∧
      M.run (r :: rs) s = (M.run rs (M.effect r s)).after [r]) ∨
    (∃ v, M.fires s r = true ∧ M.verdict r = some v ∧
      M.run (r :: rs) s = ⟨M.effect r s, [r], some v⟩) := by
  cases h : M.fires s r with
  | false => exact .inl ⟨rfl, run_cons_skip h rs⟩
  | true =>
      cases hv : M.verdict r with
      | none => exact .inr (.inl ⟨rfl, rfl, run_cons_fire h hv rs⟩)
      | some v => exact .inr (.inr ⟨v, rfl, rfl, run_cons_stop h hv rs⟩)

/-- **Chains compose.** -/
theorem run_append (M : Machine σ ρ ν) (rs qs : List ρ) (s : σ) :
    M.run (rs ++ qs) s = (M.run rs s).andThen (M.run qs) := by
  induction rs generalizing s with
  | nil =>
      rw [List.nil_append, run_nil, Outcome.andThen_none rfl]
      rfl
  | cons r rs ih =>
      rw [List.cons_append]
      rcases run_cons_cases M r rs s with ⟨h, hrun⟩ | ⟨h, hv, hrun⟩ | ⟨v, h, hv, hrun⟩
      · rw [hrun, run_cons_skip h, ih]
      · rw [hrun, run_cons_fire h hv, ih, Outcome.andThen_after]
      · rw [hrun, run_cons_stop h hv, Outcome.andThen_some rfl]

/-- **A chain none of whose rules fires does nothing.** -/
theorem run_quiet {rs : List ρ} {s : σ} (h : ∀ r ∈ rs, M.fires s r = false) :
    M.run rs s = ⟨s, [], none⟩ := by
  induction rs with
  | nil => rfl
  | cons r rs ih =>
      rw [run_cons_skip (h r (by simp))]
      exact ih fun q hq => h q (List.mem_cons_of_mem _ hq)

/-- Rules that never fire may be left out. -/
theorem run_append_quiet {rs : List ρ} {s : σ} (h : ∀ r ∈ rs, M.fires s r = false) (qs : List ρ) :
    M.run (rs ++ qs) s = M.run qs s := by
  rw [run_append, run_quiet h, Outcome.andThen_none rfl]
  rfl

/-- **A chain of rules that always fire and give no verdict** has all their effects. -/
theorem run_effects {rs : List ρ} (h : ∀ r ∈ rs, (∀ s, M.fires s r = true) ∧ M.verdict r = none)
    (s : σ) : M.run rs s = ⟨rs.foldl (fun s r => M.effect r s) s, rs, none⟩ := by
  induction rs generalizing s with
  | nil => rfl
  | cons r rs ih =>
      obtain ⟨⟨hfires, hverdict⟩, hrest⟩ := List.forall_mem_cons.mp h
      rw [run_cons_fire (hfires s) hverdict, ih hrest]
      rfl

/-- **A chain of rules without verdicts gives none.** -/
theorem run_verdict_none {rs : List ρ} (h : ∀ r ∈ rs, M.verdict r = none) (s : σ) :
    (M.run rs s).verdict = none := by
  induction rs generalizing s with
  | nil => rfl
  | cons r rs ih =>
      have htail := ih fun q hq => h q (List.mem_cons_of_mem r hq)
      rcases run_cons_cases M r rs s with ⟨-, hrun⟩ | ⟨-, -, hrun⟩ | ⟨v, -, hv, -⟩
      · rw [hrun, htail]
      · rw [hrun, Outcome.after_verdict, htail]
      · rw [h r (by simp)] at hv
        cases hv

/-- The verdict of a chain continued. -/
theorem run_append_verdict (M : Machine σ ρ ν) {rs : List ρ} {s : σ}
    (h : (M.run rs s).verdict = none) (qs : List ρ) :
    (M.run (rs ++ qs) s).verdict = (M.run qs (M.run rs s).state).verdict := by
  rw [run_append, Outcome.andThen_none h, Outcome.after_verdict]

/-- The state a chain continued ends in. -/
theorem run_append_state (M : Machine σ ρ ν) {rs : List ρ} {s : σ}
    (h : (M.run rs s).verdict = none) (qs : List ρ) :
    (M.run (rs ++ qs) s).state = (M.run qs (M.run rs s).state).state := by
  rw [run_append, Outcome.andThen_none h, Outcome.after_state]

/-- **A chain that can do nothing does nothing**: each rule stays quiet or leaves the state. -/
theorem run_idle {rs : List ρ} {s : σ}
    (h : ∀ r ∈ rs, M.fires s r = false ∨ M.verdict r = none ∧ M.effect r s = s) :
    M.run rs s = ⟨s, rs.filter (M.fires s), none⟩ := by
  induction rs with
  | nil => rfl
  | cons r rs ih =>
      obtain ⟨hr, hrs⟩ := List.forall_mem_cons.mp h
      cases hfires : M.fires s r with
      | false => rw [run_cons_skip hfires, ih hrs, List.filter_cons_of_neg (by simp [hfires])]
      | true =>
          obtain ⟨hverdict, heffect⟩ := hr.resolve_left (by simp [hfires])
          rw [run_cons_fire hfires hverdict, heffect, ih hrs, List.filter_cons_of_pos hfires]
          rfl

/-- **A verdict is that of a rule that fired.** -/
theorem run_verdict_fired {rs : List ρ} {s : σ} {v : ν} (h : (M.run rs s).verdict = some v) :
    ∃ r ∈ (M.run rs s).fired, M.verdict r = some v := by
  induction rs generalizing s with
  | nil => cases h
  | cons r rs ih =>
      rcases run_cons_cases M r rs s with ⟨-, hrun⟩ | ⟨-, -, hrun⟩ | ⟨w, -, hw, hrun⟩
      · rw [hrun] at h ⊢
        exact ih h
      · rw [hrun] at h ⊢
        obtain ⟨q, hq, hv⟩ := ih h
        exact ⟨q, List.mem_append_right _ hq, hv⟩
      · rw [hrun] at h ⊢
        exact ⟨r, List.mem_singleton_self r, hw.trans h⟩

/-- Only rules of the chain fire. -/
theorem fired_subset (rs : List ρ) (s : σ) : (M.run rs s).fired ⊆ rs := by
  induction rs generalizing s with
  | nil => simp
  | cons r rs ih =>
      rcases run_cons_cases M r rs s with ⟨-, hrun⟩ | ⟨-, -, hrun⟩ | ⟨v, -, -, hrun⟩
      · rw [hrun]
        exact List.Subset.trans (ih s) (List.subset_cons_self r rs)
      · rw [hrun]
        intro q hq
        rcases List.mem_cons.mp hq with rfl | hq
        · exact List.mem_cons_self
        · exact List.mem_cons_of_mem _ (ih _ hq)
      · rw [hrun]
        simp

/-- Where nothing fires nothing changes. -/
theorem fired_eq_nil {rs : List ρ} {s : σ} (h : (M.run rs s).fired = []) :
    ∀ r ∈ rs, M.fires s r = false := by
  induction rs with
  | nil => simp
  | cons r rs ih =>
      rcases run_cons_cases M r rs s with ⟨hfire, hrun⟩ | ⟨-, -, hrun⟩ | ⟨v, -, -, hrun⟩
      · rw [hrun] at h
        intro q hq
        rcases List.mem_cons.mp hq with rfl | hq
        · exact hfire
        · exact ih h q hq
      · rw [hrun] at h
        simp at h
      · rw [hrun] at h
        simp at h

/-- **What firing preserves holds at the end**, and held wherever a rule fired. -/
theorem run_invariant {I : σ → Prop} {rs : List ρ}
    (hstep : ∀ r ∈ rs, ∀ s, I s → M.fires s r = true → I (M.effect r s)) {s : σ} (hs : I s) :
    I (M.run rs s).state ∧ ∀ r ∈ (M.run rs s).fired, ∃ s', I s' ∧ M.fires s' r = true := by
  induction rs generalizing s with
  | nil => exact ⟨hs, by simp⟩
  | cons r rs ih =>
      have htail := fun q hq => hstep q (List.mem_cons_of_mem r hq)
      rcases run_cons_cases M r rs s with ⟨-, hrun⟩ | ⟨h, -, hrun⟩ | ⟨v, h, -, hrun⟩
      · rw [hrun]
        exact ih htail hs
      · rw [hrun]
        obtain ⟨hend, hfired⟩ := ih htail (hstep r (by simp) s hs h)
        refine ⟨hend, fun q hq => ?_⟩
        rcases List.mem_cons.mp hq with rfl | hq
        · exact ⟨s, hs, h⟩
        · exact hfired q hq
      · rw [hrun]
        refine ⟨hstep r (by simp) s hs h, fun q hq => ?_⟩
        rw [List.mem_singleton.mp hq]
        exact ⟨s, hs, h⟩

/-- **Blocks that keep an invariant and give no verdict** can be written one after the
other. -/
theorem run_flatMap {α : Type*} {I : σ → Prop} {block : α → List ρ} {xs : List α}
    (h : ∀ x ∈ xs, ∀ s, I s → (M.run (block x) s).verdict = none ∧ I (M.run (block x) s).state)
    {s : σ} (hs : I s) :
    (M.run (xs.flatMap block) s).verdict = none ∧ I (M.run (xs.flatMap block) s).state := by
  induction xs generalizing s with
  | nil => exact ⟨rfl, hs⟩
  | cons x xs ih =>
      obtain ⟨hnone, hnext⟩ := h x List.mem_cons_self s hs
      rw [List.flatMap_cons, run_append_verdict M hnone, run_append_state M hnone]
      exact ih (fun y hy => h y (List.mem_cons_of_mem x hy)) hnext

/-- **Two runs that stay related fire the same rules** and end with the same
verdict. -/
theorem run_rel {R : σ → σ → Prop} {rs : List ρ}
    (hfires : ∀ r ∈ rs, ∀ s t, R s t → M.fires s r = M.fires t r)
    (heffect : ∀ r ∈ rs, ∀ s t, R s t → R (M.effect r s) (M.effect r t)) {s t : σ}
    (h : R s t) :
    R (M.run rs s).state (M.run rs t).state ∧ (M.run rs s).fired = (M.run rs t).fired ∧
      (M.run rs s).verdict = (M.run rs t).verdict := by
  induction rs generalizing s t with
  | nil => exact ⟨h, rfl, rfl⟩
  | cons r rs ih =>
      have hsame := hfires r (by simp) s t h
      have hnext := heffect r (by simp) s t h
      have hrest := fun {s t} => @ih (fun q hq => hfires q (List.mem_cons_of_mem r hq))
        (fun q hq => heffect q (List.mem_cons_of_mem r hq)) s t
      rcases run_cons_cases M r rs s with ⟨hs, hrun⟩ | ⟨hs, hv, hrun⟩ | ⟨v, hs, hv, hrun⟩
      · rw [hrun, run_cons_skip (hsame ▸ hs)]
        exact hrest h
      · rw [hrun, run_cons_fire (hsame ▸ hs) hv]
        obtain ⟨hstate, hfired, hverdict⟩ := hrest hnext
        exact ⟨hstate, by simp [hfired], hverdict⟩
      · rw [hrun, run_cons_stop (hsame ▸ hs) hv]
        exact ⟨hnext, rfl, rfl⟩

end Machine

end RuleChain
