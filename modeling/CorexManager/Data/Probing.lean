import Mathlib.Data.Finset.Card
import Mathlib.Data.List.Nodup
import Mathlib.Logic.Function.Basic
import Mathlib.Tactic.Common

/-!
# Linear probing

An entry of a table stands in its own cell or, if that is in use, in a later one, round the end of the
table.  A search begins at its own cell and passes over cells in use and over tombstones, which stand
for entries that were removed, up to the first empty cell.

* `search` — the first entry on the way that is accepted.
* `Reached` — a search from one cell comes to another.  It does so as long as no cell is emptied.
* `insertion` — the cell for a new entry, which a search from its own cell comes to.
-/

namespace Data.Probing

/-- A cell of a table. -/
inductive Cell (α : Type*) where
  | empty
  | tombstone
  | full (entry : α)

variable {α β : Type*}

/-- The cells from one on, once round. -/
def probes (size start : Nat) : List Nat :=
  (List.range size).map fun probe => (start + probe) % size

/-- The first answer for an entry, before an empty cell. -/
def search (answer : Nat → α → Option β) (table : Nat → Cell α) : List Nat → Option β
  | [] => none
  | i :: rest =>
      match table i with
      | .empty => none
      | .tombstone => search answer table rest
      | .full a => (answer i a).or (search answer table rest)

/-- The first cell that is empty, unless a tombstone or a cell of the same kind was before it. -/
def insertion (same : α → Bool) (table : Nat → Cell α) (tombstone : Option Nat) (otherwise : Nat) :
    List Nat → Nat
  | [] => tombstone.getD otherwise
  | i :: rest =>
      match table i with
      | .empty => tombstone.getD i
      | .tombstone => insertion same table (tombstone.or (some i)) otherwise rest
      | .full a => if same a then i else insertion same table tombstone otherwise rest

/-- A search comes to a cell: none of those before it is empty. -/
def Reached (table : Nat → Cell α) (cells : List Nat) (i : Nat) : Prop :=
  ∃ before after, cells = before ++ i :: after ∧ ∀ j ∈ before, table j ≠ .empty

section Probes

variable {size start i : Nat}

theorem mem_probes : i ∈ probes size start ↔ i < size := by
  rw [probes, List.mem_map]
  constructor
  · rintro ⟨probe, hprobe, rfl⟩
    exact Nat.mod_lt _ (Nat.zero_lt_of_lt (List.mem_range.mp hprobe))
  · intro hi
    have hsize := Nat.zero_lt_of_lt hi
    refine ⟨(i + (size - start % size)) % size, List.mem_range.mpr (Nat.mod_lt _ hsize), ?_⟩
    have hstart := Nat.mod_lt start hsize
    have hsum : start % size + (i + (size - start % size)) = i + size := by omega
    rw [Nat.add_mod_mod, ← Nat.mod_add_mod, hsum, Nat.add_mod_right, Nat.mod_eq_of_lt hi]

theorem length_probes : (probes size start).length = size := by
  rw [probes, List.length_map, List.length_range]

/-- The first cell is the own one. -/
theorem head?_probes (h : 0 < size) : (probes size start).head? = some (start % size) := by
  obtain ⟨n, rfl⟩ := Nat.exists_eq_succ_of_ne_zero h.ne'
  rw [probes, List.range_succ_eq_map, List.map_cons, List.head?_cons, Nat.add_zero]

end Probes

/-- A cell or the default has a property. -/
theorem getD_of {P : Nat → Prop} {i : Nat} {t : Option Nat} (hi : P i) (ht : ∀ j ∈ t, P j) :
    P (t.getD i) := by
  cases t with
  | none => exact hi
  | some j => exact ht j rfl

section Reached

variable {table : Nat → Cell α} {cells : List Nat} {i : Nat}

/-- A search comes to the first cell. -/
theorem Reached.head (h : cells.head? = some i) : Reached table cells i := by
  obtain ⟨rest, rfl⟩ := List.head?_eq_some_iff.mp h
  exact ⟨[], rest, rfl, fun j hj => absurd hj List.not_mem_nil⟩

theorem Reached.mem (h : Reached table cells i) : i ∈ cells := by
  obtain ⟨before, after, rfl, -⟩ := h
  exact List.mem_append_right _ List.mem_cons_self

/-- Past a cell that is not empty. -/
theorem Reached.cons {j : Nat} (hj : table j ≠ .empty) (h : Reached table cells i) :
    Reached table (j :: cells) i := by
  obtain ⟨before, after, rfl, hbefore⟩ := h
  refine ⟨j :: before, after, rfl, fun k hk => ?_⟩
  rcases List.mem_cons.mp hk with rfl | hk
  · exact hj
  · exact hbefore k hk

/-- **A cell stays reached** as long as no cell is emptied. -/
theorem Reached.update (h : Reached table cells i) (j : Nat) {cell : Cell α} (hcell : cell ≠ .empty) :
    Reached (Function.update table j cell) cells i := by
  obtain ⟨before, after, hcells, hbefore⟩ := h
  refine ⟨before, after, hcells, fun k hk => ?_⟩
  by_cases hkj : k = j
  · rwa [hkj, Function.update_self]
  · rw [Function.update_of_ne hkj]
    exact hbefore k hk

end Reached

section Search

variable {answer : Nat → α → Option β} {table : Nat → Cell α} {i : Nat} {rest cells : List Nat} {a : α}
  {b : β}

theorem search_empty (h : table i = .empty) : search answer table (i :: rest) = none := by
  rw [search, h]

theorem search_tombstone (h : table i = .tombstone) :
    search answer table (i :: rest) = search answer table rest := by
  rw [search, h]

theorem search_full (h : table i = .full a) :
    search answer table (i :: rest) = (answer i a).or (search answer table rest) := by
  rw [search, h]

theorem ne_empty_of_tombstone (h : table i = .tombstone) : table i ≠ .empty := by
  rw [h]
  exact fun hcell => by cases hcell

theorem ne_empty_of_full (h : table i = .full a) : table i ≠ .empty := by
  rw [h]
  exact fun hcell => by cases hcell

/-- What a search answers is the answer for an entry that it comes to. -/
theorem search_eq_some (h : search answer table cells = some b) :
    ∃ i a, Reached table cells i ∧ table i = .full a ∧ answer i a = some b := by
  induction cells with
  | nil => cases h
  | cons i rest ih =>
      cases hcell : table i with
      | empty =>
          rw [search_empty hcell] at h
          cases h
      | tombstone =>
          rw [search_tombstone hcell] at h
          obtain ⟨j, a, hreached, hj⟩ := ih h
          exact ⟨j, a, hreached.cons (ne_empty_of_tombstone hcell), hj⟩
      | full a =>
          rw [search_full hcell] at h
          rcases Option.or_eq_some_iff.mp h with hanswer | ⟨-, h⟩
          · exact ⟨i, a, Reached.head rfl, hcell, hanswer⟩
          · obtain ⟨j, a', hreached, hj⟩ := ih h
            exact ⟨j, a', hreached.cons (ne_empty_of_full hcell), hj⟩

/-- A search without an answer has come to no entry with one. -/
theorem answer_of_search_eq_none (h : search answer table cells = none)
    (hreached : Reached table cells i) (hcell : table i = .full a) : answer i a = none := by
  obtain ⟨before, after, rfl, hbefore⟩ := hreached
  induction before with
  | nil =>
      rw [List.nil_append, search_full hcell] at h
      exact (Option.or_eq_none_iff.mp h).1
  | cons j before ih =>
      refine ih (fun k hk => hbefore k (List.mem_cons_of_mem _ hk)) ?_
      rw [List.cons_append] at h
      cases hj : table j with
      | empty => exact absurd hj (hbefore j List.mem_cons_self)
      | tombstone => rwa [search_tombstone hj] at h
      | full a' =>
          rw [search_full hj] at h
          exact (Option.or_eq_none_iff.mp h).2

/-- A search that comes to an entry with an answer finds it, if no other entry has one. -/
theorem search_of_reached (hreached : Reached table cells i) (hcell : table i = .full a)
    (hanswer : answer i a = some b)
    (hunique : ∀ j ∈ cells, ∀ a', table j = .full a' → answer j a' ≠ none → j = i) :
    search answer table cells = some b := by
  cases hsearch : search answer table cells with
  | none =>
      rw [answer_of_search_eq_none hsearch hreached hcell] at hanswer
      cases hanswer
  | some b' =>
      obtain ⟨j, a', hj, hcell', hanswer'⟩ := search_eq_some hsearch
      obtain rfl := hunique j hj.mem a' hcell' (by rw [hanswer']; exact Option.some_ne_none b')
      obtain rfl := Cell.full.inj (hcell.symm.trans hcell')
      exact hanswer'.symm.trans hanswer

end Search

section Insertion

variable {same : α → Bool} {table : Nat → Cell α} {tombstone : Option Nat} {otherwise : Nat}
  {cells passed rest : List Nat}

/-- **A search comes to the cell for a new entry**. -/
theorem reached_insertion (hcells : cells = passed ++ rest) (hpassed : ∀ j ∈ passed, table j ≠ .empty)
    (htombstone : ∀ j ∈ tombstone, Reached table cells j) (hotherwise : Reached table cells otherwise) :
    Reached table cells (insertion same table tombstone otherwise rest) := by
  induction rest generalizing passed tombstone with
  | nil => exact getD_of hotherwise htombstone
  | cons i rest ih =>
      have hi : Reached table cells i := ⟨passed, rest, hcells, hpassed⟩
      have hnext : cells = (passed ++ [i]) ++ rest := by
        rw [hcells, List.append_assoc, List.singleton_append]
      have hpassed' (hcell : table i ≠ .empty) : ∀ j ∈ passed ++ [i], table j ≠ .empty := by
        intro j hj
        rcases List.mem_append.mp hj with hj | hj
        · exact hpassed j hj
        · rwa [List.mem_singleton.mp hj]
      rw [insertion]
      cases hcell : table i with
      | empty => exact getD_of hi htombstone
      | tombstone =>
          refine ih hnext (hpassed' (ne_empty_of_tombstone hcell)) fun j hj => ?_
          rcases Option.or_eq_some_iff.mp hj with hj | ⟨-, hj⟩
          · exact htombstone j hj
          · exact Option.some.inj hj ▸ hi
      | full a =>
          dsimp only
          split
          · exact hi
          · exact ih hnext (hpassed' (ne_empty_of_full hcell)) htombstone

/-- **A new entry replaces none**: its cell is not in use, if no entry of the same kind is in the
table and a cell is not in use. -/
theorem insertion_unused (hsame : ∀ i ∈ cells, ∀ a, table i = .full a → same a = false)
    (htombstone : ∀ j ∈ tombstone, table j = .tombstone)
    (hunused : tombstone = none → ∃ i ∈ cells, ∀ a, table i ≠ .full a) (a : α) :
    table (insertion same table tombstone otherwise cells) ≠ .full a := by
  have hgetD {i : Nat} {t : Option Nat} (ht : ∀ j ∈ t, table j = .tombstone)
      (hi : t = none → table i ≠ .full a) : table (t.getD i) ≠ .full a := by
    cases t with
    | none => exact hi rfl
    | some j =>
        rw [Option.getD_some, ht j rfl]
        exact fun hcell => by cases hcell
  induction cells generalizing tombstone with
  | nil =>
      refine hgetD htombstone fun h => ?_
      obtain ⟨i, hi, -⟩ := hunused h
      exact absurd hi List.not_mem_nil
  | cons i rest ih =>
      have hrest := fun j hj => hsame j (List.mem_cons_of_mem i hj)
      rw [insertion]
      cases hcell : table i with
      | empty =>
          refine hgetD htombstone fun _ => ?_
          rw [hcell]
          exact fun hfull => by cases hfull
      | tombstone =>
          refine ih hrest (fun j hj => ?_) fun h => ?_
          · rcases Option.or_eq_some_iff.mp hj with hj | ⟨-, hj⟩
            · exact htombstone j hj
            · exact Option.some.inj hj ▸ hcell
          · cases tombstone <;> cases h
      | full a' =>
          dsimp only
          rw [if_neg (by rw [hsame i List.mem_cons_self a' hcell]; exact Bool.false_ne_true)]
          refine ih hrest htombstone fun h => ?_
          obtain ⟨j, hj, hnone⟩ := hunused h
          rcases List.mem_cons.mp hj with rfl | hj
          · exact absurd hcell (hnone a')
          · exact ⟨j, hj, hnone⟩

end Insertion

end Data.Probing
