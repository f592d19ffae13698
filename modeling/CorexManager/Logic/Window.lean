import Mathlib.Algebra.Order.Group.Defs
import Mathlib.Algebra.Order.Sub.Basic
import Mathlib.Data.Int.Order.Basic
import Mathlib.Tactic.Abel

/-!
# Windows of time

How many of some times fall in a window of a given length, wherever it begins.  A time that
is added when few of the others are recent leaves every window with few.
-/

namespace Window

variable {T : Type*} [AddCommGroup T] [LinearOrder T]

/-- In the window of length `w` after `a`. -/
def Within (a w t : T) : Prop := a < t ∧ t ≤ a + w

instance (a w t : T) : Decidable (Within a w t) := inferInstanceAs (Decidable (_ ∧ _))

/-- At most `m` of the times are in one window. -/
def Bounded (w : T) (m : ℤ) (ts : List T) : Prop :=
  ∀ a, (ts.countP (fun t => decide (Within a w t)) : ℤ) ≤ m

variable [IsOrderedAddMonoid T] {a w t t' : T} {m : ℤ} {ts : List T}

/-- In a window every time is recent for every other. -/
theorem Within.recent (h : Within a w t) (h' : Within a w t') : t - w < t' :=
  (sub_le_iff_le_add.mpr h.2).trans_lt h'.1

/-- **Another time**, for which few of the others are recent. -/
theorem Bounded.cons (h : Bounded w m ts)
    (hfew : (ts.countP (fun t' => decide (t - w < t')) : ℤ) < m) : Bounded w m (t :: ts) := by
  intro a
  rw [List.countP_cons]
  by_cases ht : Within a w t
  · have hrecent : ts.countP (fun t' => decide (Within a w t')) ≤
        ts.countP (fun t' => decide (t - w < t')) := by
      apply List.countP_mono_left
      intro t' _ ht'
      exact decide_eq_true (ht.recent (of_decide_eq_true ht'))
    rw [if_pos (decide_eq_true ht)]
    omega
  · rw [if_neg (by simpa using ht)]
    exact h a

omit [IsOrderedAddMonoid T] in
theorem Bounded.nil (hm : 0 ≤ m) : Bounded w m ([] : List T) := fun _ => hm

end Window
