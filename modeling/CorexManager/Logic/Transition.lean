import Mathlib.Tactic.Common

/-!
# Runs of a transition function

A transition function gives the state after an action, or nothing when the action is not
possible.  A condition on actions and the states before them is met along a run, and an
invariant that the transitions under the condition preserve holds after it.
-/

namespace Transition

variable {σ α : Type*} (step : σ → α → Option σ)

/-- The state after some actions. -/
def run (s : σ) : List α → Option σ
  | [] => some s
  | a :: as => (step s a).bind fun s' => run s' as

/-- Every action of a run meets a condition in the state before it. -/
def Along (C : σ → α → Prop) (s : σ) : List α → Prop
  | [] => True
  | a :: as => C s a ∧ ∀ s' ∈ step s a, Along C s' as

variable {step} {C : σ → α → Prop} {s s' : σ} {as bs : List α}

theorem run_cons_iff {a : α} :
    run step s (a :: as) = some s' ↔ ∃ t, step s a = some t ∧ run step t as = some s' :=
  Option.bind_eq_some_iff

theorem run_append_iff :
    run step s (as ++ bs) = some s' ↔ ∃ t, run step s as = some t ∧ run step t bs = some s' := by
  induction as generalizing s with
  | nil => exact ⟨fun h => ⟨s, rfl, h⟩, fun ⟨t, ht, h⟩ => Option.some.inj ht ▸ h⟩
  | cons a as ih =>
      rw [List.cons_append, run_cons_iff]
      constructor
      · rintro ⟨t, ht, h⟩
        obtain ⟨u, hu, h⟩ := ih.mp h
        exact ⟨u, run_cons_iff.mpr ⟨t, ht, hu⟩, h⟩
      · rintro ⟨u, hu, h⟩
        obtain ⟨t, ht, hu⟩ := run_cons_iff.mp hu
        exact ⟨t, ht, ih.mpr ⟨u, hu, h⟩⟩

theorem along_append (h : Along step C s (as ++ bs)) (hrun : run step s as = some s') :
    Along step C s as ∧ Along step C s' bs := by
  induction as generalizing s with
  | nil =>
      rw [← Option.some.inj hrun]
      exact ⟨trivial, h⟩
  | cons a as ih =>
      obtain ⟨t, ht, hrun⟩ := run_cons_iff.mp hrun
      refine ⟨⟨h.1, fun u hu => ?_⟩, (ih (h.2 t ht) hrun).2⟩
      rw [ht] at hu
      rw [← Option.some.inj hu]
      exact (ih (h.2 t ht) hrun).1

/-- One more action in front of a run under the condition. -/
theorem along_run_cons {a : α} {t : σ} (hC : C s a) (hstep : step s a = some t)
    (h : Along step C t as ∧ run step t as = some s') :
    Along step C s (a :: as) ∧ run step s (a :: as) = some s' := by
  refine ⟨⟨hC, fun u hu => ?_⟩, run_cons_iff.mpr ⟨t, hstep, h.2⟩⟩
  rw [hstep] at hu
  exact Option.some.inj hu ▸ h.1

/-- **Invariants**: what every action under the condition preserves holds after a run. -/
theorem run_invariant {I : σ → Prop}
    (hstep : ∀ s a s', I s → C s a → step s a = some s' → I s') (hs : I s)
    (halong : Along step C s as) (hrun : run step s as = some s') : I s' := by
  induction as generalizing s with
  | nil => exact Option.some.inj hrun ▸ hs
  | cons a as ih =>
      obtain ⟨t, ht, hrun⟩ := run_cons_iff.mp hrun
      exact ih (hstep s a t hs halong.1 ht) (halong.2 t ht) hrun

theorem along_true {C : σ → α → Prop} (h : ∀ s a, C s a) : Along step C s as := by
  induction as generalizing s with
  | nil => trivial
  | cons a as ih => exact ⟨h s a, fun s' _ => ih⟩

/-- What every action preserves holds after a run. -/
theorem run_preserves {I : σ → Prop} (hstep : ∀ s a s', I s → step s a = some s' → I s')
    (hs : I s) (hrun : run step s as = some s') : I s' :=
  run_invariant (C := fun _ _ => True) (fun s a s' h _ hnext => hstep s a s' h hnext) hs
    (along_true fun _ _ => trivial) hrun

/-- Two conditions that agree where an invariant holds are met along the same runs, if actions
under them preserve it. -/
theorem along_congr {I : σ → Prop} {D : σ → α → Prop}
    (hstep : ∀ s a s', I s → C s a → step s a = some s' → I s')
    (h : ∀ s a, I s → (C s a ↔ D s a)) (hs : I s) : Along step C s as ↔ Along step D s as := by
  induction as generalizing s with
  | nil => rfl
  | cons a as ih =>
      constructor
      · rintro ⟨hC, hnext⟩
        exact ⟨(h s a hs).mp hC, fun t ht => (ih (hstep s a t hs hC ht)).mp (hnext t ht)⟩
      · rintro ⟨hD, hnext⟩
        have hC := (h s a hs).mpr hD
        exact ⟨hC, fun t ht => (ih (hstep s a t hs hC ht)).mpr (hnext t ht)⟩

/-- A condition that implies another where an invariant holds is met along fewer runs. -/
theorem along_imp {I : σ → Prop} {D : σ → α → Prop}
    (hstep : ∀ s a s', I s → C s a → step s a = some s' → I s')
    (h : ∀ s a, I s → C s a → D s a) (hs : I s) (halong : Along step C s as) :
    Along step D s as := by
  induction as generalizing s with
  | nil => trivial
  | cons a as ih =>
      exact ⟨h s a hs halong.1, fun t ht =>
        ih (hstep s a t hs halong.1 ht) (halong.2 t ht)⟩

/-- **What holds throughout a run** under a condition: if, where an invariant holds, such an action
preserves a property exactly under another condition, then the property holds in every state of a run
exactly when the actions of the run are under the other condition too. -/
theorem along_iff_throughout_of_along {I J : σ → Prop} {B : σ → α → Prop}
    (hinv : ∀ s a s', J s → B s a → step s a = some s' → J s')
    (hstep : ∀ s a s', J s → I s → B s a → step s a = some s' → (C s a ↔ I s')) (hJ : J s) (hI : I s)
    (hB : Along step B s as) (hrun : run step s as = some s') :
    Along step C s as ↔ ∀ bs t, bs <+: as → run step s bs = some t → I t := by
  induction as generalizing s with
  | nil =>
      refine ⟨fun _ bs t hbs hbrun => ?_, fun _ => trivial⟩
      rw [List.prefix_nil.mp hbs] at hbrun
      exact Option.some.inj hbrun ▸ hI
  | cons a as ih =>
      obtain ⟨t, ht, hrun⟩ := run_cons_iff.mp hrun
      have hJt := hinv s a t hJ hB.1 ht
      constructor
      · rintro ⟨hC, hnext⟩ bs u hbs hbrun
        have hIt := (hstep s a t hJ hI hB.1 ht).mp hC
        rcases List.prefix_cons_iff.mp hbs with rfl | ⟨cs, rfl, hcs⟩
        · exact Option.some.inj hbrun ▸ hI
        · obtain ⟨t', ht', hbrun⟩ := run_cons_iff.mp hbrun
          obtain rfl := Option.some.inj (ht.symm.trans ht')
          exact (ih hJt hIt (hB.2 t ht) hrun).mp (hnext t ht) cs u hcs hbrun
      · intro hall
        have hIt : I t := hall [a] t (by simp) (run_cons_iff.mpr ⟨t, ht, rfl⟩)
        refine ⟨(hstep s a t hJ hI hB.1 ht).mpr hIt, fun t' ht' => ?_⟩
        obtain rfl := Option.some.inj (ht.symm.trans ht')
        refine (ih hJt hIt (hB.2 t ht) hrun).mpr fun cs u hcs hbrun => hall (a :: cs) u ?_ ?_
        · exact List.cons_prefix_cons.mpr ⟨rfl, hcs⟩
        · exact run_cons_iff.mpr ⟨t, ht, hbrun⟩

/-- The same for runs of any actions. -/
theorem along_iff_throughout {I J : σ → Prop} (hinv : ∀ s a s', J s → step s a = some s' → J s')
    (hstep : ∀ s a s', J s → I s → step s a = some s' → (C s a ↔ I s')) (hJ : J s) (hI : I s)
    (hrun : run step s as = some s') :
    Along step C s as ↔ ∀ bs t, bs <+: as → run step s bs = some t → I t :=
  along_iff_throughout_of_along (B := fun _ _ => True) (fun s a s' h _ => hinv s a s' h)
    (fun s a s' hJ hI _ => hstep s a s' hJ hI) hJ hI (along_true fun _ _ => trivial) hrun

/-- A transition function that is always possible always runs. -/
theorem run_total (h : ∀ s a, ∃ s', step s a = some s') (s : σ) (as : List α) :
    ∃ s', run step s as = some s' := by
  induction as generalizing s with
  | nil => exact ⟨s, rfl⟩
  | cons a as ih =>
      obtain ⟨t, ht⟩ := h s a
      obtain ⟨s', hs'⟩ := ih t
      exact ⟨s', run_cons_iff.mpr ⟨t, ht, hs'⟩⟩

/-- A transition function that is always possible runs to the fold of its states. -/
theorem run_some_eq_foldl (next : σ → α → σ) (s : σ) (as : List α) :
    run (fun s a => some (next s a)) s as = some (as.foldl next s) := by
  induction as generalizing s with
  | nil => rfl
  | cons a as ih => exact run_cons_iff.mpr ⟨next s a, rfl, ih _⟩

/-- **What holds throughout** the runs of such a function. -/
theorem along_iff_forall_foldl {next : σ → α → σ} {I J : σ → Prop}
    (hinv : ∀ s a, J s → J (next s a)) (hstep : ∀ s a, J s → I s → (C s a ↔ I (next s a)))
    (hJ : J s) (hI : I s) (as : List α) :
    Along (fun s a => some (next s a)) C s as ↔ ∀ bs, bs <+: as → I (bs.foldl next s) := by
  refine (along_iff_throughout (J := J) (fun s a s' h hs' => Option.some.inj hs' ▸ hinv s a h)
    (fun s a s' hJ hI hs' => Option.some.inj hs' ▸ hstep s a hJ hI) hJ hI
    (run_some_eq_foldl next s as)).trans ⟨fun h bs hbs => ?_, fun h bs t hbs hrun => ?_⟩
  · exact h bs _ hbs (run_some_eq_foldl next s bs)
  · rw [run_some_eq_foldl] at hrun
    exact Option.some.inj hrun ▸ h bs hbs

/-! ### Processes -/

variable {ι β : Type*} [DecidableEq ι] {f : ι → β} {i j : ι} {x y : β}

/-- What holds of where a process is, once one of them has moved. -/
theorem moved_holds {P : β → Prop} (h : P (Function.update f i x j)) :
    j = i ∧ P x ∨ j ≠ i ∧ P (f j) := by
  by_cases hj : j = i
  · subst hj
    exact .inl ⟨rfl, Function.update_self j x f ▸ h⟩
  · exact .inr ⟨hj, Function.update_of_ne hj x f ▸ h⟩

/-- Where a process is, once one of them has moved. -/
theorem moved_cases (h : Function.update f i x j = y) : j = i ∧ x = y ∨ j ≠ i ∧ f j = y :=
  moved_holds (P := (· = y)) h

end Transition
