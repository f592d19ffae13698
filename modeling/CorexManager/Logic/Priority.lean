import Mathlib.Data.List.Sort

/-!
# First by priority

Lists in the order of a key: a smaller key comes first, and elements with the same key stay
in the order of the list.  The first element of the sorted list that passes a test is the one
with the least key, and the earliest of those (`find?_sortByKey`).
-/

namespace Priority

variable {α β : Type*} [LinearOrder β] (key : α → β)

/-- Sort by a key; the sort is stable. -/
def sortByKey (l : List α) : List α := l.insertionSort fun a b => key a ≤ key b

/-- The element `a` at the position `i` comes before `b` at `j`. -/
def Before (i : ℕ) (a : α) (j : ℕ) (b : α) : Prop := key a < key b ∨ key a = key b ∧ i < j

/-- Of the elements that pass a test, the first is at the position `i`. -/
structure IsFirst (q : α → Bool) (l : List α) (i : ℕ) (a : α) : Prop where
  here : l[i]? = some a
  passes : q a = true
  least : ∀ j b, l[j]? = some b → q b = true → key a < key b ∨ key a = key b ∧ i ≤ j

variable {key} {q : α → Bool} {l : List α} {i j : ℕ} {a b : α}

theorem before_asymm (h : Before key i a j b) : ¬ Before key j b i a := by
  rintro (hlt | ⟨heq, hji⟩)
  · rcases h with h | ⟨h, -⟩
    · exact lt_asymm h hlt
    · exact hlt.ne h.symm
  · rcases h with h | ⟨-, h⟩
    · exact h.ne heq.symm
    · omega

namespace IsFirst

/-- Nothing that passes the test comes before the first. -/
theorem not_before (h : IsFirst key q l i a) (hb : l[j]? = some b) (hq : q b = true) :
    ¬ Before key j b i a := by
  rintro (hlt | ⟨heq, hji⟩)
  · rcases h.least j b hb hq with hab | ⟨hab, -⟩
    · exact lt_asymm hlt hab
    · exact hlt.ne hab.symm
  · rcases h.least j b hb hq with hab | ⟨-, hij⟩
    · exact hab.ne heq.symm
    · omega

/-- Anything else that passes the test comes after the first. -/
theorem eq_or_before (h : IsFirst key q l i a) (hb : l[j]? = some b) (hq : q b = true) :
    (i = j ∧ a = b) ∨ Before key i a j b := by
  rcases h.least j b hb hq with hlt | ⟨heq, hij⟩
  · exact .inr (.inl hlt)
  · rcases Nat.eq_or_lt_of_le hij with rfl | hlt
    · exact .inl ⟨rfl, Option.some.inj (h.here.symm.trans hb)⟩
    · exact .inr (.inr ⟨heq, hlt⟩)

theorem unique (h : IsFirst key q l i a) (h' : IsFirst key q l j b) : i = j ∧ a = b :=
  (h.eq_or_before h'.here h'.passes).resolve_right (h'.not_before h.here h.passes)

end IsFirst

/-! ### The sorted list -/

theorem mem_sortByKey : a ∈ sortByKey key l ↔ a ∈ l := List.mem_insertionSort _

theorem pairwise_sortByKey (l : List α) : (sortByKey key l).Pairwise fun a b => key a ≤ key b :=
  List.pairwise_insertionSort _ l

/-- An element whose key is smaller than all others comes first. -/
theorem sortByKey_least (ha : a ∈ l) (h : ∀ b ∈ l, b = a ∨ key a < key b) :
    ∃ rest, sortByKey key l = a :: rest := by
  have hmem : a ∈ sortByKey key l := mem_sortByKey.mpr ha
  have hpairwise : (sortByKey key l).Pairwise fun a b => key a ≤ key b := pairwise_sortByKey l
  have hall : ∀ b ∈ sortByKey key l, b = a ∨ key a < key b :=
    fun b hb => h b (mem_sortByKey.mp hb)
  revert hmem hpairwise hall
  cases sortByKey key l with
  | nil => exact fun hmem => absurd hmem List.not_mem_nil
  | cons b rest =>
      intro hmem hpairwise hall
      refine ⟨rest, congrArg (· :: rest) ?_⟩
      rcases List.mem_cons.mp hmem with rfl | hrest
      · rfl
      · have hle := List.rel_of_pairwise_cons hpairwise hrest
        exact (hall b (.head _)).resolve_right fun hlt => absurd hlt (not_lt.mpr hle)

/-- An element that comes first in the list stays there if no key is smaller. -/
theorem sortByKey_cons_of_least (h : ∀ b ∈ l, key a ≤ key b) :
    sortByKey key (a :: l) = a :: sortByKey key l := by
  have hcons : sortByKey key (a :: l) =
      (sortByKey key l).orderedInsert (fun a b => key a ≤ key b) a := rfl
  rw [hcons]
  cases hsorted : sortByKey key l with
  | nil => rfl
  | cons b s =>
      have hb : b ∈ l := mem_sortByKey.mp (hsorted ▸ List.mem_cons_self)
      rw [List.orderedInsert_cons, if_pos (h b hb)]

/-- Inserting an element that fails the test changes nothing. -/
private theorem find?_orderedInsert_neg (hq : q a = false) (s : List α) :
    (s.orderedInsert (fun a b => key a ≤ key b) a).find? q = s.find? q := by
  induction s with
  | nil => simp [hq]
  | cons b s ih =>
      rw [List.orderedInsert_cons]
      split
      · rw [List.find?_cons_of_neg (by simp [hq])]
      · rw [List.find?_cons, List.find?_cons, ih]

/-- Inserting an element that passes it: the least of the two comes first. -/
private theorem find?_orderedInsert_pos (hq : q a = true) {s : List α}
    (hs : s.Pairwise fun a b => key a ≤ key b) :
    (s.orderedInsert (fun a b => key a ≤ key b) a).find? q =
      match s.find? q with
      | some b => if key a ≤ key b then some a else some b
      | none => some a := by
  induction s with
  | nil => simp [hq]
  | cons b s ih =>
      rw [List.orderedInsert_cons]
      obtain ⟨hb, hs⟩ := List.pairwise_cons.mp hs
      split
      · next hle =>
          rw [List.find?_cons_of_pos hq]
          cases hfind : (b :: s).find? q with
          | none => rfl
          | some c =>
              have hle' : key a ≤ key c := by
                rcases List.mem_cons.mp (List.mem_of_find?_eq_some hfind) with rfl | hc
                · exact hle
                · exact hle.trans (hb c hc)
              simp [hle']
      · next hle =>
          rw [List.find?_cons, List.find?_cons]
          cases hqb : q b with
          | true => simp [hle]
          | false => exact ih hs

/-- **The first of the sorted list** is the first by priority. -/
theorem find?_sortByKey (h : (sortByKey key l).find? q = some a) :
    ∃ i, IsFirst key q l i a := by
  induction l generalizing a with
  | nil => simp [sortByKey] at h
  | cons x l ih =>
      have hcons : sortByKey key (x :: l) =
          (sortByKey key l).orderedInsert (fun a b => key a ≤ key b) x := rfl
      rw [hcons] at h
      cases hx : q x with
      | false =>
          rw [find?_orderedInsert_neg hx] at h
          obtain ⟨i, hi⟩ := ih h
          refine ⟨i + 1, hi.here, hi.passes, fun j b hb hq => ?_⟩
          cases j with
          | zero => exact absurd hq (by simp [← Option.some.inj hb, hx])
          | succ j => simpa using hi.least j b hb hq
      | true =>
          rw [find?_orderedInsert_pos hx (pairwise_sortByKey l)] at h
          cases hfind : (sortByKey key l).find? q with
          | none =>
              rw [hfind] at h
              obtain rfl := Option.some.inj h
              refine ⟨0, rfl, hx, fun j b hb hq => ?_⟩
              cases j with
              | zero => exact .inr ⟨by rw [Option.some.inj hb], le_refl 0⟩
              | succ j =>
                  have hmem : b ∈ sortByKey key l := mem_sortByKey.mpr (List.mem_of_getElem? hb)
                  exact absurd hq (List.find?_eq_none.mp hfind b hmem)
          | some c =>
              rw [hfind] at h
              dsimp only at h
              obtain ⟨i, hi⟩ := ih hfind
              by_cases hle : key x ≤ key c
              · rw [if_pos hle] at h
                obtain rfl := Option.some.inj h
                refine ⟨0, rfl, hx, fun j b hb hq => ?_⟩
                have hxb : key x ≤ key b := by
                  cases j with
                  | zero => rw [Option.some.inj hb]
                  | succ j =>
                      rcases hi.least j b hb hq with hlt | ⟨heq, -⟩
                      · exact hle.trans hlt.le
                      · exact heq ▸ hle
                exact hxb.lt_or_eq.imp_right fun heq => ⟨heq, Nat.zero_le j⟩
              · rw [if_neg hle] at h
                obtain rfl := Option.some.inj h
                refine ⟨i + 1, hi.here, hi.passes, fun j b hb hq => ?_⟩
                cases j with
                | zero => exact .inl (Option.some.inj hb ▸ not_le.mp hle)
                | succ j => simpa using hi.least j b hb hq

theorem find?_sortByKey_eq_none : (sortByKey key l).find? q = none ↔ ∀ b ∈ l, q b = false := by
  simp [List.find?_eq_none, mem_sortByKey]

/-- The first by priority is what a search of the sorted list finds. -/
theorem IsFirst.find? (h : IsFirst key q l i a) : (sortByKey key l).find? q = some a := by
  cases hfind : (sortByKey key l).find? q with
  | none =>
      have := find?_sortByKey_eq_none.mp hfind a (List.mem_of_getElem? h.here)
      rw [h.passes] at this
      cases this
  | some b =>
      obtain ⟨j, hj⟩ := find?_sortByKey hfind
      rw [(h.unique hj).2]

/-- If something passes the test, something is first. -/
theorem exists_isFirst (hb : b ∈ l) (hq : q b = true) : ∃ i a, IsFirst key q l i a := by
  cases hfind : (sortByKey key l).find? q with
  | none => exact absurd (find?_sortByKey_eq_none.mp hfind b hb) (by simp [hq])
  | some a => exact (find?_sortByKey hfind).imp fun i hi => ⟨a, hi⟩

/-! ### Filtering -/

private theorem filter_orderedInsert_pos {p : α → Bool} (hp : p a = true) {s : List α}
    (hs : s.Pairwise fun a b => key a ≤ key b) :
    (s.orderedInsert (fun a b => key a ≤ key b) a).filter p =
      (s.filter p).orderedInsert (fun a b => key a ≤ key b) a := by
  induction s with
  | nil => simp [hp]
  | cons b s ih =>
      obtain ⟨hb, hs⟩ := List.pairwise_cons.mp hs
      rw [List.orderedInsert_cons]
      split
      · next hle =>
          rw [List.filter_cons_of_pos hp]
          cases hfilter : (b :: s).filter p with
          | nil => rfl
          | cons c t =>
              have hc : c ∈ b :: s := List.mem_of_mem_filter (hfilter ▸ List.mem_cons_self)
              have hle' : key a ≤ key c := by
                rcases List.mem_cons.mp hc with rfl | hc
                · exact hle
                · exact hle.trans (hb c hc)
              rw [List.orderedInsert_cons, if_pos hle']
      · next hle =>
          cases hpb : p b with
          | true =>
              rw [List.filter_cons_of_pos hpb, List.filter_cons_of_pos hpb, ih hs,
                List.orderedInsert_cons, if_neg hle]
          | false =>
              rw [List.filter_cons_of_neg (by simp [hpb]), List.filter_cons_of_neg (by simp [hpb]),
                ih hs]

private theorem filter_orderedInsert_neg {p : α → Bool} (hp : p a = false) (s : List α) :
    (s.orderedInsert (fun a b => key a ≤ key b) a).filter p = s.filter p := by
  induction s with
  | nil => simp [hp]
  | cons b s ih =>
      rw [List.orderedInsert_cons]
      split
      · rw [List.filter_cons_of_neg (by simp [hp])]
      · rw [List.filter_cons, List.filter_cons, ih]

/-- Selecting before sorting is selecting after it. -/
theorem sortByKey_filter (p : α → Bool) (l : List α) :
    sortByKey key (l.filter p) = (sortByKey key l).filter p := by
  induction l with
  | nil => rfl
  | cons x l ih =>
      have hcons : ∀ t : List α, sortByKey key (x :: t) =
          (sortByKey key t).orderedInsert (fun a b => key a ≤ key b) x := fun _ => rfl
      cases hx : p x with
      | true =>
          rw [List.filter_cons_of_pos hx, hcons, hcons, ih,
            filter_orderedInsert_pos hx (pairwise_sortByKey l)]
      | false =>
          rw [List.filter_cons_of_neg (by simp [hx]), hcons, filter_orderedInsert_neg hx, ih]

end Priority
