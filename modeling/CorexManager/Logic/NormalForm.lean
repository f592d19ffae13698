import Mathlib.Data.List.Flatten
import Mathlib.Tactic.Common

/-!
# Disjunctive normal forms

A disjunctive normal form is a list of groups; it holds when every member of some
group does.  Disjunction is concatenation and conjunction is the product, whose
groups are the concatenations of one group of each operand.  The members are
arbitrary and carry their own sign: what it means to negate one is the caller's.
-/

namespace NormalForm

variable {α β : Type*}

/-- A **disjunctive normal form**: a disjunction of conjunctions. -/
abbrev Dnf (α : Type*) := List (List α)

namespace Dnf

/-- Some group has every member true. -/
def Holds (v : α → Prop) (d : Dnf α) : Prop := ∃ g ∈ d, ∀ a ∈ g, v a

/-- The **product**: one group of `d` followed by one of `e`, in that order. -/
def product (d e : Dnf α) : Dnf α := d.flatMap fun g => e.map (g ++ ·)

/-- The product of several forms, from the empty conjunction on. -/
def productAll (ds : List (Dnf α)) : Dnf α := ds.foldl product [[]]

variable {v : α → Prop}

theorem holds_single (a : α) : Holds v [[a]] ↔ v a := by simp [Holds]

theorem holds_nil : ¬ Holds v [] := by simp [Holds]

theorem holds_unit : Holds v [[]] := by simp [Holds]

theorem holds_append (d e : Dnf α) : Holds v (d ++ e) ↔ Holds v d ∨ Holds v e := by
  simp only [Holds, List.mem_append, or_and_right, exists_or]

/-- A disjunction of forms holds exactly when one of them does. -/
theorem holds_flatten_map (f : β → Dnf α) (bs : List β) :
    Holds v (bs.map f).flatten ↔ ∃ b ∈ bs, Holds v (f b) := by
  induction bs with
  | nil => simp [holds_nil]
  | cons b bs ih => simp [holds_append, ih]

theorem holds_product (d e : Dnf α) : Holds v (product d e) ↔ Holds v d ∧ Holds v e := by
  constructor
  · rintro ⟨g, hg, hv⟩
    obtain ⟨g₁, hg₁, hg⟩ := List.mem_flatMap.mp hg
    obtain ⟨g₂, hg₂, rfl⟩ := List.mem_map.mp hg
    exact ⟨⟨g₁, hg₁, fun a ha => hv a (List.mem_append_left _ ha)⟩,
      ⟨g₂, hg₂, fun a ha => hv a (List.mem_append_right _ ha)⟩⟩
  · rintro ⟨⟨g₁, hg₁, hv₁⟩, ⟨g₂, hg₂, hv₂⟩⟩
    refine ⟨g₁ ++ g₂, List.mem_flatMap.mpr ⟨g₁, hg₁, List.mem_map_of_mem hg₂⟩, ?_⟩
    intro a ha
    cases List.mem_append.mp ha with
    | inl ha => exact hv₁ a ha
    | inr ha => exact hv₂ a ha

private theorem holds_foldl_product (ds : List (Dnf α)) (acc : Dnf α) :
    Holds v (ds.foldl product acc) ↔ Holds v acc ∧ ∀ d ∈ ds, Holds v d := by
  induction ds generalizing acc with
  | nil => simp
  | cons d ds ih =>
      rw [List.foldl_cons, ih, holds_product, List.forall_mem_cons, and_assoc]

/-- A product holds exactly when every factor does. -/
theorem holds_productAll_map (f : β → Dnf α) (bs : List β) :
    Holds v (productAll (bs.map f)) ↔ ∀ b ∈ bs, Holds v (f b) := by
  rw [productAll, holds_foldl_product, List.forall_mem_map]
  exact and_iff_right holds_unit

/-! ### Forms without empty parts -/

theorem nonempty_flatten_map {f : β → Dnf α} {bs : List β} (hne : bs ≠ [])
    (h : ∀ b ∈ bs, f b ≠ [] ∧ ∀ g ∈ f b, g ≠ []) :
    (bs.map f).flatten ≠ [] ∧ ∀ g ∈ (bs.map f).flatten, g ≠ [] := by
  constructor
  · obtain ⟨b, hb⟩ := List.exists_mem_of_ne_nil bs hne
    simp only [ne_eq, List.flatten_eq_nil_iff, List.forall_mem_map, not_forall]
    exact ⟨b, hb, (h b hb).1⟩
  · intro g hg
    obtain ⟨d, hd, hg⟩ := List.mem_flatten.mp hg
    obtain ⟨b, hb, rfl⟩ := List.mem_map.mp hd
    exact (h b hb).2 g hg

theorem product_ne_nil {d e : Dnf α} (hd : d ≠ []) (he : e ≠ []) : product d e ≠ [] := by
  obtain ⟨g, hg⟩ := List.exists_mem_of_ne_nil d hd
  obtain ⟨k, hk⟩ := List.exists_mem_of_ne_nil e he
  exact List.ne_nil_of_mem (List.mem_flatMap.mpr ⟨g, hg, List.mem_map_of_mem hk⟩)

theorem product_groups {d e : Dnf α} (he : ∀ g ∈ e, g ≠ []) : ∀ g ∈ product d e, g ≠ [] := by
  intro g hg
  obtain ⟨g₁, -, hg⟩ := List.mem_flatMap.mp hg
  obtain ⟨g₂, hg₂, rfl⟩ := List.mem_map.mp hg
  exact List.append_ne_nil_of_right_ne_nil _ (he g₂ hg₂)

private theorem nonempty_foldl {ds : List (Dnf α)} {acc : Dnf α} (hacc : acc ≠ [])
    (hgroups : ∀ g ∈ acc, g ≠ []) (h : ∀ d ∈ ds, d ≠ [] ∧ ∀ g ∈ d, g ≠ []) :
    ds.foldl product acc ≠ [] ∧ ∀ g ∈ ds.foldl product acc, g ≠ [] := by
  induction ds generalizing acc with
  | nil => exact ⟨hacc, hgroups⟩
  | cons d ds ih =>
      obtain ⟨hd, hds⟩ := List.forall_mem_cons.mp h
      exact ih (product_ne_nil hacc hd.1) (product_groups hd.2) hds

/-- The first factor already removes the empty group the product begins with. -/
theorem nonempty_productAll_map {f : β → Dnf α} {bs : List β} (hne : bs ≠ [])
    (h : ∀ b ∈ bs, f b ≠ [] ∧ ∀ g ∈ f b, g ≠ []) :
    productAll (bs.map f) ≠ [] ∧ ∀ g ∈ productAll (bs.map f), g ≠ [] := by
  cases bs with
  | nil => exact absurd rfl hne
  | cons b bs =>
      obtain ⟨hb, hbs⟩ := List.forall_mem_cons.mp h
      have hfirst := product_ne_nil (d := [[]]) (by simp) hb.1
      rw [productAll, List.map_cons, List.foldl_cons]
      exact nonempty_foldl hfirst (product_groups hb.2) (List.forall_mem_map.mpr hbs)

/-! ### Members -/

/-- The members of a form. -/
def members (d : Dnf α) : List α := d.flatten

theorem mem_members {d : Dnf α} {a : α} : a ∈ d.members ↔ ∃ g ∈ d, a ∈ g :=
  List.mem_flatten

theorem mem_members_product {d e : Dnf α} {a : α} (h : a ∈ (product d e).members) :
    a ∈ d.members ∨ a ∈ e.members := by
  obtain ⟨g, hg, ha⟩ := mem_members.mp h
  obtain ⟨g₁, hg₁, hg⟩ := List.mem_flatMap.mp hg
  obtain ⟨g₂, hg₂, rfl⟩ := List.mem_map.mp hg
  cases List.mem_append.mp ha with
  | inl ha => exact .inl (mem_members.mpr ⟨g₁, hg₁, ha⟩)
  | inr ha => exact .inr (mem_members.mpr ⟨g₂, hg₂, ha⟩)

private theorem mem_members_foldl {ds : List (Dnf α)} {acc : Dnf α} {a : α}
    (h : a ∈ (ds.foldl product acc).members) :
    a ∈ acc.members ∨ ∃ d ∈ ds, a ∈ d.members := by
  induction ds generalizing acc with
  | nil => exact .inl h
  | cons d ds ih =>
      cases ih h with
      | inl hacc =>
          cases mem_members_product hacc with
          | inl hacc => exact .inl hacc
          | inr hd => exact .inr ⟨d, List.mem_cons_self, hd⟩
      | inr hds =>
          obtain ⟨e, he, ha⟩ := hds
          exact .inr ⟨e, List.mem_cons_of_mem _ he, ha⟩

/-- A product has no member that is not a factor's. -/
theorem mem_members_productAll_map {f : β → Dnf α} {bs : List β} {a : α}
    (h : a ∈ (productAll (bs.map f)).members) : ∃ b ∈ bs, a ∈ (f b).members := by
  cases mem_members_foldl h with
  | inl hunit => simp [members] at hunit
  | inr hds =>
      obtain ⟨d, hd, ha⟩ := hds
      obtain ⟨b, hb, rfl⟩ := List.mem_map.mp hd
      exact ⟨b, hb, ha⟩

theorem mem_members_flatten_map {f : β → Dnf α} {bs : List β} {a : α}
    (h : a ∈ members (bs.map f).flatten) : ∃ b ∈ bs, a ∈ (f b).members := by
  obtain ⟨g, hg, ha⟩ := mem_members.mp h
  obtain ⟨d, hd, hg⟩ := List.mem_flatten.mp hg
  obtain ⟨b, hb, rfl⟩ := List.mem_map.mp hd
  exact ⟨b, hb, mem_members.mpr ⟨g, hg, ha⟩⟩

/-- A form depends on the truth of its members only. -/
theorem holds_congr {w : α → Prop} {d : Dnf α} (h : ∀ a ∈ d.members, (v a ↔ w a)) :
    Holds v d ↔ Holds w d := by
  refine exists_congr fun g => and_congr_right fun hg => ?_
  exact forall₂_congr fun a ha => h a (mem_members.mpr ⟨g, hg, ha⟩)

end Dnf

end NormalForm
