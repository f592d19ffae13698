import Mathlib.Data.List.Induction
import Mathlib.Tactic.Common

/-!
# Stores

Values by keys, such as the contents of files by their paths, with the writes and
removals a program makes and what can be read after a run of them.
-/

namespace Data

variable {α β : Type*} [DecidableEq α]

/-- The values of the keys that have one. -/
abbrev Store (α β : Type*) := α → Option β

namespace Store

/-- Write a value, over the one that is there. -/
def write (s : Store α β) (key : α) (value : β) : Store α β := fun k =>
  if k = key then some value else s k

/-- Write several values, in order. -/
def writeAll (s : Store α β) (ws : List (α × β)) : Store α β :=
  ws.foldl (fun s w => s.write w.1 w.2) s

omit [DecidableEq α] in
/-- Remove the keys that are not kept. -/
def keep (s : Store α β) (kept : α → Bool) : Store α β := fun k => if kept k then s k else none

@[simp] theorem write_self (s : Store α β) (key : α) (value : β) :
    s.write key value key = some value := if_pos rfl

theorem write_other (s : Store α β) {key k : α} (value : β) (h : k ≠ key) :
    s.write key value k = s k := if_neg h

omit [DecidableEq α] in
theorem keep_of_kept (s : Store α β) {kept : α → Bool} {k : α} (h : kept k = true) :
    s.keep kept k = s k := if_pos h

/-- The value the last write of a key writes. -/
def lastWrite (ws : List (α × β)) (key : α) : Option β :=
  (ws.reverse.find? fun w => w.1 == key).map Prod.snd

theorem lastWrite_concat (ws : List (α × β)) (w : α × β) (key : α) :
    lastWrite (ws ++ [w]) key = if w.1 = key then some w.2 else lastWrite ws key := by
  unfold lastWrite
  rw [List.reverse_append, List.reverse_singleton, List.singleton_append, List.find?_cons]
  by_cases hkey : w.1 = key
  · rw [if_pos hkey, beq_iff_eq.mpr hkey]
    rfl
  · rw [if_neg hkey, beq_eq_false_iff_ne.mpr hkey]

/-- **What a run of writes leaves**: the value of the last write, or what was there. -/
theorem read_writeAll (s : Store α β) (ws : List (α × β)) (key : α) :
    s.writeAll ws key = (lastWrite ws key).or (s key) := by
  induction ws using List.reverseRecOn with
  | nil => rfl
  | append_singleton ws w ih =>
      have hstep : s.writeAll (ws ++ [w]) = (s.writeAll ws).write w.1 w.2 := by
        unfold writeAll
        rw [List.foldl_append]
        rfl
      rw [hstep, lastWrite_concat]
      by_cases hkey : w.1 = key
      · rw [if_pos hkey, ← hkey, write_self]
        rfl
      · rw [if_neg hkey, write_other _ _ (Ne.symm hkey), ih]

theorem lastWrite_isSome_iff {ws : List (α × β)} {key : α} :
    (lastWrite ws key).isSome ↔ key ∈ ws.map Prod.fst := by
  rw [lastWrite, Option.isSome_map, List.find?_isSome]
  simp only [List.mem_reverse, beq_iff_eq, List.mem_map]

/-- Every value is written twice, also under another key: what is read under the first. -/
theorem lastWrite_copies {copy : α → α} {ws : List (α × β)} {key : α}
    (h : ∀ w ∈ ws, copy w.1 ≠ key) :
    lastWrite (ws.flatMap fun w => [w, (copy w.1, w.2)]) key = lastWrite ws key := by
  induction ws using List.reverseRecOn with
  | nil => rfl
  | append_singleton ws w ih =>
      have hw := h w (List.mem_append_right _ (List.mem_singleton_self w))
      have hsplit : (ws ++ [w]).flatMap (fun w => [w, (copy w.1, w.2)]) =
          (ws.flatMap (fun w => [w, (copy w.1, w.2)]) ++ [w]) ++ [(copy w.1, w.2)] := by simp
      rw [hsplit, lastWrite_concat, if_neg hw, lastWrite_concat, lastWrite_concat,
        ih fun v hv => h v (List.mem_append_left _ hv)]

/-- And under the other. -/
theorem lastWrite_copy {copy : α → α} (hinj : Function.Injective copy) {ws : List (α × β)} {key : α}
    (h : ∀ w ∈ ws, w.1 ≠ copy key) :
    lastWrite (ws.flatMap fun w => [w, (copy w.1, w.2)]) (copy key) = lastWrite ws key := by
  induction ws using List.reverseRecOn with
  | nil => rfl
  | append_singleton ws w ih =>
      have hw := h w (List.mem_append_right _ (List.mem_singleton_self w))
      have hsplit : (ws ++ [w]).flatMap (fun w => [w, (copy w.1, w.2)]) =
          (ws.flatMap (fun w => [w, (copy w.1, w.2)]) ++ [w]) ++ [(copy w.1, w.2)] := by simp
      rw [hsplit, lastWrite_concat, lastWrite_concat, lastWrite_concat, if_neg hw,
        ih fun v hv => h v (List.mem_append_left _ hv)]
      by_cases hkey : w.1 = key
      · rw [if_pos hkey, if_pos (congrArg copy hkey)]
      · rw [if_neg hkey, if_neg fun heq => hkey (hinj heq)]

/-- The last write of a key is the only one. -/
theorem lastWrite_of_unique {ws : List (α × β)} {w : α × β} (hw : w ∈ ws)
    (hunique : ∀ v ∈ ws, v.1 = w.1 → v = w) : lastWrite ws w.1 = some w.2 := by
  unfold lastWrite
  have hfound : (ws.reverse.find? fun v => v.1 == w.1).isSome = true := by
    rw [List.find?_isSome]
    exact ⟨w, List.mem_reverse.mpr hw, beq_self_eq_true _⟩
  obtain ⟨v, hv⟩ := Option.isSome_iff_exists.mp hfound
  have hmem := List.mem_reverse.mp (List.mem_of_find?_eq_some hv)
  have hkey : v.1 = w.1 := by
    have hpred := List.find?_some hv
    exact beq_iff_eq.mp hpred
  rw [hv, hunique v hmem hkey]
  rfl

/-- Keys that are not written keep their values. -/
theorem writeAll_other (s : Store α β) {ws : List (α × β)} {key : α}
    (h : ∀ w ∈ ws, w.1 ≠ key) : s.writeAll ws key = s key := by
  have hnone : lastWrite ws key = none := by
    refine Option.map_eq_none_iff.mpr (List.find?_eq_none.mpr fun w hw => ?_)
    exact fun heq => h w (List.mem_reverse.mp hw) (beq_iff_eq.mp heq)
  rw [read_writeAll, hnone, Option.none_or]

end Store

end Data
