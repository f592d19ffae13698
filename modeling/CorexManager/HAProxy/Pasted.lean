import CorexManager.HAProxy.Transaction

/-!
# Terms before and behind a condition

A text that is pasted behind a condition of several alternatives joins the last one only, a text
pasted before it the first one only: the others stand as they were.

* `Spelt.paste`, `SpeltGroup.paste_before` — the readings of the pasted texts.
* `guardLast_iff` — terms behind a condition guard all of it exactly if they hold, or no alternative
  before the last does.
-/

namespace HAProxy

open Data

/-- The alternatives of a condition with terms behind it. -/
def pasteLast (bs : List Bool) (g : Bool) : List Bool :=
  bs.dropLast ++ (bs.getLast?.map (· && g)).toList

/-- The alternatives of a condition with terms before it. -/
def pasteFirst (g : Bool) : List Bool → List Bool
  | [] => []
  | b :: bs => (g && b) :: bs

/-- What a condition with terms behind it says. -/
def guardLast (bs : List Bool) (g : Bool) : Bool := (pasteLast bs g).any id

/-- The condition of a rule is met. -/
def View.meets (v : View) : Cond → Bool
  | .always => true
  | .when c => v.holds c == some true
  | .unless c => v.holds c == some false

variable {v : View} {t u : Text} {bs : List Bool} {g : Bool}

@[simp] theorem pasteLast_concat (bs : List Bool) (b g : Bool) :
    pasteLast (bs ++ [b]) g = bs ++ [b && g] := by
  simp [pasteLast]

/-- Terms that hold change nothing. -/
@[simp] theorem pasteLast_true (bs : List Bool) : pasteLast bs true = bs := by
  rcases List.eq_nil_or_concat bs with rfl | ⟨bs, b, rfl⟩
  · rfl
  · simp

@[simp] theorem guardLast_true (bs : List Bool) : guardLast bs true = bs.any id := by
  rw [guardLast, pasteLast_true]

/-- Terms that do not hold leave the alternatives before the last. -/
@[simp] theorem guardLast_false (bs : List Bool) : guardLast bs false = bs.dropLast.any id := by
  rcases List.eq_nil_or_concat bs with rfl | ⟨bs, b, rfl⟩
  · rfl
  · simp [guardLast]

/-- **What the pasted terms guard**: the whole condition, exactly if they hold or no alternative
before the last one does. -/
theorem guardLast_iff (bs : List Bool) (g : Bool) :
    guardLast bs g = (bs.any id && g) ↔ g = true ∨ bs.dropLast.any id = false := by
  cases g with
  | true => simp
  | false => simp

/-- **The text with terms behind it** is read as alternatives of which the last has the terms. -/
theorem Spelt.paste (h : Spelt v t bs) (hne : bs ≠ []) (k : SpeltGroup v u g) :
    Spelt v (t ++ ' ' :: u) (pasteLast bs g) := by
  obtain ⟨front, b, rfl⟩ := (List.eq_nil_or_concat bs).resolve_left hne
  rw [List.concat_eq_append] at h ⊢
  rw [pasteLast_concat]
  exact h.append k

theorem Spelt.holds_pasted (h : Spelt v t bs) (hne : bs ≠ []) (k : SpeltGroup v u g) :
    v.holds (t ++ ' ' :: u) = some (guardLast bs g) := (h.paste hne k).holds

/-- **The text with terms before it** is read as alternatives of which the first has the terms. -/
theorem SpeltGroup.paste_before (k : SpeltGroup v u g) (h : Spelt v t bs) :
    Spelt v (u ++ ' ' :: t) (pasteFirst g bs) := by
  obtain ⟨ts, hts, hne, rfl⟩ := k
  obtain ⟨front, last, hspells, hfront, rfl⟩ := h
  refine ⟨_, _, hts.append_spells hspells, ?_, ?_⟩
  · cases front with
    | nil =>
        intro group hgroup
        simp only [guardFirst, List.nil_append, List.mem_singleton] at hgroup
        rw [hgroup]
        exact List.append_ne_nil_of_left_ne_nil hne last
    | cons first front =>
        intro group hgroup
        simp only [guardFirst, List.cons_append, List.mem_cons] at hgroup
        rcases hgroup with rfl | hgroup
        · exact List.append_ne_nil_of_left_ne_nil hne first
        · exact hfront group (List.mem_cons_of_mem first hgroup)
  · cases front with
    | nil => simp [guardFirst, pasteFirst, v.group_append]
    | cons first front => simp [guardFirst, pasteFirst, v.group_append]

end HAProxy
