import CorexManager.Expression.Syntax
import CorexManager.Logic.NormalForm

/-!
# Normal forms of expressions

`to_dnf` and `_negate_to_dnf`, and what they mean under an arbitrary valuation of
the leaves.  The normaliser pushes every `not` down to the leaves and flips their
`negated` flag there, so its result means the tree in which each leaf is read at
its own sign (`holds_toDnf`).  That is the tree's own meaning exactly as far as
the flag negates (`holds_toDnf_iff`): nothing here says that it does.

* `Node.Holds` is the boolean meaning of a tree;
* `Node.occurrences` lists the leaves with the sign they occur at, negative under
  an odd number of `not`s;
* `Node.Signed` is the meaning with the signs pushed to the leaves.
-/

namespace CorexManager.Expression

open NormalForm

/-- The copy of a leaf that `_negate_to_dnf` makes: `negated` is flipped. -/
def Leaf.negate (l : Leaf) : Leaf := { l with negated := !l.negated }

mutual

/-- `to_dnf`. -/
def toDnf : Node → Dnf Leaf
  | .leaf l => [[l]]
  | .or cs => (toDnfs cs).flatten
  | .and cs => Dnf.productAll (toDnfs cs)
  | .not c => negateToDnf c

/-- `to_dnf` of each child. -/
def toDnfs : List Node → List (Dnf Leaf)
  | [] => []
  | c :: cs => toDnf c :: toDnfs cs

/-- `_negate_to_dnf`. -/
def negateToDnf : Node → Dnf Leaf
  | .leaf l => [[l.negate]]
  | .or cs => Dnf.productAll (negateToDnfs cs)
  | .and cs => (negateToDnfs cs).flatten
  | .not c => toDnf c

/-- `_negate_to_dnf` of each child. -/
def negateToDnfs : List Node → List (Dnf Leaf)
  | [] => []
  | c :: cs => negateToDnf c :: negateToDnfs cs

end

theorem toDnfs_eq_map (cs : List Node) : toDnfs cs = cs.map toDnf := by
  induction cs with
  | nil => rfl
  | cons c cs ih => rw [toDnfs, ih, List.map_cons]

theorem negateToDnfs_eq_map (cs : List Node) : negateToDnfs cs = cs.map negateToDnf := by
  induction cs with
  | nil => rfl
  | cons c cs ih => rw [negateToDnfs, ih, List.map_cons]

/-! ### The meaning of a tree -/

section Meaning

variable (v : Leaf → Prop)

mutual

/-- The **boolean meaning** of a tree under a valuation of its leaves. -/
def Node.Holds : Node → Prop
  | .leaf l => v l
  | .and cs => HoldsAll cs
  | .or cs => HoldsAny cs
  | .not c => ¬ c.Holds

/-- Every child holds. -/
def HoldsAll : List Node → Prop
  | [] => True
  | c :: cs => c.Holds ∧ HoldsAll cs

/-- Some child holds. -/
def HoldsAny : List Node → Prop
  | [] => False
  | c :: cs => c.Holds ∨ HoldsAny cs

end

@[simp] theorem holds_leaf (l : Leaf) : (Node.leaf l).Holds v ↔ v l := by rw [Node.Holds]

@[simp] theorem holds_not (c : Node) : (Node.not c).Holds v ↔ ¬ c.Holds v := by
  rw [Node.Holds]

@[simp] theorem holds_and (cs : List Node) :
    (Node.and cs).Holds v ↔ ∀ c ∈ cs, c.Holds v := by
  rw [Node.Holds]
  induction cs with
  | nil => simp [HoldsAll]
  | cons c cs ih => rw [HoldsAll, ih, List.forall_mem_cons]

@[simp] theorem holds_or (cs : List Node) :
    (Node.or cs).Holds v ↔ ∃ c ∈ cs, c.Holds v := by
  rw [Node.Holds]
  induction cs with
  | nil => simp [HoldsAny]
  | cons c cs ih => rw [HoldsAny, ih, List.exists_mem_cons_iff]

/-- The leaf that stands in the normal form for an occurrence of `l` at a sign. -/
def Leaf.signed (sign : Bool) (l : Leaf) : Leaf := if sign then l else l.negate

mutual

/-- The meaning of a tree with its `not`s pushed to the leaves; `sign` is false
under an odd number of them. -/
def Node.Signed (sign : Bool) : Node → Prop
  | .leaf l => v (l.signed sign)
  | .and cs => if sign then SignedAll sign cs else SignedAny sign cs
  | .or cs => if sign then SignedAny sign cs else SignedAll sign cs
  | .not c => c.Signed (!sign)

/-- Every child holds at the sign. -/
def SignedAll (sign : Bool) : List Node → Prop
  | [] => True
  | c :: cs => c.Signed sign ∧ SignedAll sign cs

/-- Some child holds at the sign. -/
def SignedAny (sign : Bool) : List Node → Prop
  | [] => False
  | c :: cs => c.Signed sign ∨ SignedAny sign cs

end

theorem signedAll_iff (sign : Bool) (cs : List Node) :
    SignedAll v sign cs ↔ ∀ c ∈ cs, c.Signed v sign := by
  induction cs with
  | nil => simp [SignedAll]
  | cons c cs ih => rw [SignedAll, ih, List.forall_mem_cons]

theorem signedAny_iff (sign : Bool) (cs : List Node) :
    SignedAny v sign cs ↔ ∃ c ∈ cs, c.Signed v sign := by
  induction cs with
  | nil => simp [SignedAny]
  | cons c cs ih => rw [SignedAny, ih, List.exists_mem_cons_iff]

end Meaning

mutual

/-- The leaves of a tree with the signs they occur at. -/
def Node.occurrences (sign : Bool) : Node → List (Bool × Leaf)
  | .leaf l => [(sign, l)]
  | .and cs => occurrencesOf sign cs
  | .or cs => occurrencesOf sign cs
  | .not c => c.occurrences (!sign)

/-- The occurrences of each child, in order. -/
def occurrencesOf (sign : Bool) : List Node → List (Bool × Leaf)
  | [] => []
  | c :: cs => c.occurrences sign ++ occurrencesOf sign cs

end

theorem mem_occurrencesOf {sign : Bool} {cs : List Node} {o : Bool × Leaf} :
    o ∈ occurrencesOf sign cs ↔ ∃ c ∈ cs, o ∈ c.occurrences sign := by
  induction cs with
  | nil => simp [occurrencesOf]
  | cons c cs ih => rw [occurrencesOf, List.mem_append, ih, List.exists_mem_cons_iff]

/-! ### The meaning of a normal form -/

section Normal

variable {v : Leaf → Prop}

/-- What the two normalisers mean, at both signs.  The induction is on the tree;
each `not` moves it from one of them to the other. -/
private theorem holds_both (n : Node) :
    (Dnf.Holds v (toDnf n) ↔ n.Signed v true) ∧
      (Dnf.Holds v (negateToDnf n) ↔ n.Signed v false) := by
  induction n using Node.induct with
  | leaf l =>
      simp only [toDnf, negateToDnf, Node.Signed, Dnf.holds_single]
      exact ⟨Iff.rfl, Iff.rfl⟩
  | and cs ih =>
      simp only [toDnf, negateToDnf, Node.Signed, toDnfs_eq_map, negateToDnfs_eq_map,
        Dnf.holds_productAll_map, Dnf.holds_flatten_map, ite_true, Bool.false_eq_true,
        ite_false, signedAll_iff, signedAny_iff]
      exact ⟨forall₂_congr fun c hc => (ih c hc).1,
        exists_congr fun c => and_congr_right fun hc => (ih c hc).2⟩
  | or cs ih =>
      simp only [toDnf, negateToDnf, Node.Signed, toDnfs_eq_map, negateToDnfs_eq_map,
        Dnf.holds_productAll_map, Dnf.holds_flatten_map, ite_true, Bool.false_eq_true,
        ite_false, signedAll_iff, signedAny_iff]
      exact ⟨exists_congr fun c => and_congr_right fun hc => (ih c hc).1,
        forall₂_congr fun c hc => (ih c hc).2⟩
  | not c ih =>
      simp only [toDnf, negateToDnf, Node.Signed, Bool.not_true, Bool.not_false]
      exact ⟨ih.2, ih.1⟩

/-- The normal form of a tree means the tree with its signs at the leaves,
whatever the flag `negated` does to a leaf. -/
theorem holds_toDnf (n : Node) : Dnf.Holds v (toDnf n) ↔ n.Signed v true :=
  (holds_both n).1

/-- Reading a leaf at its sign is the tree's own meaning when the flag negates
every leaf that occurs under an odd number of `not`s. -/
theorem signed_iff (n : Node) (sign : Bool)
    (hflag : ∀ o ∈ n.occurrences sign, o.1 = false → (v o.2.negate ↔ ¬ v o.2)) :
    n.Signed v sign ↔ (n.Holds v ↔ sign = true) := by
  induction n using Node.induct generalizing sign with
  | leaf l =>
      cases sign with
      | true => simp [Node.Signed, Leaf.signed]
      | false =>
          simpa [Node.Signed, Leaf.signed] using
            hflag (false, l) (by simp [Node.occurrences]) rfl
  | and cs ih =>
      have hcs : ∀ c ∈ cs, (c.Signed v sign ↔ (c.Holds v ↔ sign = true)) := fun c hc =>
        ih c hc sign fun o ho => hflag o (mem_occurrencesOf.mpr ⟨c, hc, ho⟩)
      cases sign with
      | true =>
          simp only [Node.Signed, ite_true, signedAll_iff, holds_and, iff_true]
          exact forall₂_congr fun c hc => by simpa using hcs c hc
      | false =>
          simp only [Node.Signed, Bool.false_eq_true, ite_false, signedAny_iff, holds_and,
            iff_false, not_forall]
          exact exists_congr fun c => by
            rw [exists_prop]
            exact and_congr_right fun hc => by simpa using hcs c hc
  | or cs ih =>
      have hcs : ∀ c ∈ cs, (c.Signed v sign ↔ (c.Holds v ↔ sign = true)) := fun c hc =>
        ih c hc sign fun o ho => hflag o (mem_occurrencesOf.mpr ⟨c, hc, ho⟩)
      cases sign with
      | true =>
          simp only [Node.Signed, ite_true, signedAny_iff, holds_or, iff_true]
          exact exists_congr fun c => and_congr_right fun hc => by simpa using hcs c hc
      | false =>
          simp only [Node.Signed, Bool.false_eq_true, ite_false, signedAll_iff, holds_or,
            iff_false, not_exists, not_and]
          exact forall₂_congr fun c hc => by simpa using hcs c hc
  | not c ih =>
      have hc := ih (!sign) fun o ho => hflag o ho
      rw [Node.Signed, hc, holds_not]
      cases sign <;> simp

/-- The normal form means the tree as far as the flag negates. -/
theorem holds_toDnf_iff (n : Node)
    (hflag : ∀ o ∈ n.occurrences true, o.1 = false → (v o.2.negate ↔ ¬ v o.2)) :
    Dnf.Holds v (toDnf n) ↔ n.Holds v := by
  rw [holds_toDnf, signed_iff n true hflag]
  simp

end Normal

/-! ### The members of a normal form -/

private theorem members_both (n : Node) (l : Leaf) :
    (l ∈ (toDnf n).members → ∃ o ∈ n.occurrences true, l = o.2.signed o.1) ∧
      (l ∈ (negateToDnf n).members → ∃ o ∈ n.occurrences false, l = o.2.signed o.1) := by
  induction n using Node.induct with
  | leaf k => simp [toDnf, negateToDnf, Dnf.members, Node.occurrences, Leaf.signed]
  | and cs ih =>
      refine ⟨fun h => ?_, fun h => ?_⟩
      · rw [toDnf, toDnfs_eq_map] at h
        obtain ⟨c, hc, hl⟩ := Dnf.mem_members_productAll_map h
        obtain ⟨o, ho, rfl⟩ := (ih c hc).1 hl
        exact ⟨o, mem_occurrencesOf.mpr ⟨c, hc, ho⟩, rfl⟩
      · rw [negateToDnf, negateToDnfs_eq_map] at h
        obtain ⟨c, hc, hl⟩ := Dnf.mem_members_flatten_map h
        obtain ⟨o, ho, rfl⟩ := (ih c hc).2 hl
        exact ⟨o, mem_occurrencesOf.mpr ⟨c, hc, ho⟩, rfl⟩
  | or cs ih =>
      refine ⟨fun h => ?_, fun h => ?_⟩
      · rw [toDnf, toDnfs_eq_map] at h
        obtain ⟨c, hc, hl⟩ := Dnf.mem_members_flatten_map h
        obtain ⟨o, ho, rfl⟩ := (ih c hc).1 hl
        exact ⟨o, mem_occurrencesOf.mpr ⟨c, hc, ho⟩, rfl⟩
      · rw [negateToDnf, negateToDnfs_eq_map] at h
        obtain ⟨c, hc, hl⟩ := Dnf.mem_members_productAll_map h
        obtain ⟨o, ho, rfl⟩ := (ih c hc).2 hl
        exact ⟨o, mem_occurrencesOf.mpr ⟨c, hc, ho⟩, rfl⟩
  | not c ih =>
      simp only [toDnf, negateToDnf, Node.occurrences, Bool.not_true, Bool.not_false]
      exact ⟨ih.2, ih.1⟩

/-- Every member of the normal form is an occurrence of a leaf of the tree, at
its sign. -/
theorem mem_members_toDnf {n : Node} {l : Leaf} (h : l ∈ (toDnf n).members) :
    ∃ o ∈ n.occurrences true, l = o.2.signed o.1 :=
  (members_both n l).1 h

private theorem nonempty_both (n : Node) (h : n.Proper) :
    (toDnf n ≠ [] ∧ ∀ g ∈ toDnf n, g ≠ []) ∧
      (negateToDnf n ≠ [] ∧ ∀ g ∈ negateToDnf n, g ≠ []) := by
  induction n using Node.induct with
  | leaf l => simp [toDnf, negateToDnf]
  | and cs ih =>
      obtain ⟨hne, hcs⟩ := h
      have hboth := fun c hc => ih c hc ((properAll_iff cs).mp hcs c hc)
      rw [toDnf, negateToDnf, toDnfs_eq_map, negateToDnfs_eq_map]
      exact ⟨Dnf.nonempty_productAll_map hne fun c hc => (hboth c hc).1,
        Dnf.nonempty_flatten_map hne fun c hc => (hboth c hc).2⟩
  | or cs ih =>
      obtain ⟨hne, hcs⟩ := h
      have hboth := fun c hc => ih c hc ((properAll_iff cs).mp hcs c hc)
      rw [toDnf, negateToDnf, toDnfs_eq_map, negateToDnfs_eq_map]
      exact ⟨Dnf.nonempty_flatten_map hne fun c hc => (hboth c hc).1,
        Dnf.nonempty_productAll_map hne fun c hc => (hboth c hc).2⟩
  | not c ih => exact (ih h).symm

/-- The normal form of a proper tree has a group, and no empty one. -/
theorem toDnf_nonempty {n : Node} (h : n.Proper) :
    toDnf n ≠ [] ∧ ∀ g ∈ toDnf n, g ≠ [] :=
  (nonempty_both n h).1

end CorexManager.Expression
