import CorexManager.Data.Store

/-!
# Programs with regions of their own

A program on a store is local to a region when it reads and writes the keys of the region
only.  Programs whose regions are apart do not notice each other: after a run of all of
them, each region is as its own program alone leaves it.
-/

namespace Data

variable {α β : Type*}

namespace Store

/-- A program that reads and writes the keys of a region only. -/
structure LocalTo (region : α → Prop) (f : Store α β → Store α β) : Prop where
  frame : ∀ s k, ¬ region k → f s k = s k
  reads : ∀ s s', (∀ k, region k → s k = s' k) → ∀ k, region k → f s k = f s' k

namespace LocalTo

variable {region : α → Prop} {f g : Store α β → Store α β}

theorem id : LocalTo region (fun s : Store α β => s) where
  frame _ _ _ := rfl
  reads _ _ h := h

theorem comp (hg : LocalTo region g) (hf : LocalTo region f) :
    LocalTo region (fun s => g (f s)) where
  frame s k hk := (hg.frame (f s) k hk).trans (hf.frame s k hk)
  reads s s' h := hg.reads (f s) (f s') (hf.reads s s' h)

/-- Either of two programs, the same one for stores that agree on the region. -/
theorem ite {c : Store α β → Prop} [DecidablePred c] (hc : ∀ s s',
    (∀ k, region k → s k = s' k) → (c s ↔ c s')) (hf : LocalTo region f) (hg : LocalTo region g) :
    LocalTo region (fun s => if c s then f s else g s) where
  frame s k hk := by
    by_cases h : c s
    · rw [if_pos h]
      exact hf.frame s k hk
    · rw [if_neg h]
      exact hg.frame s k hk
  reads s s' hs k hk := by
    by_cases h : c s
    · rw [if_pos h, if_pos ((hc s s' hs).mp h)]
      exact hf.reads s s' hs k hk
    · rw [if_neg h, if_neg fun h' => h ((hc s s' hs).mpr h')]
      exact hg.reads s s' hs k hk

end LocalTo

theorem write_localTo [DecidableEq α] {region : α → Prop} {key : α} (h : region key) (value : β) :
    LocalTo region (fun s : Store α β => s.write key value) where
  frame s k hk := write_other s value fun heq => hk (heq ▸ h)
  reads s s' hs k hk := by
    by_cases heq : k = key
    · rw [heq, write_self, write_self]
    · rw [write_other s value heq, write_other s' value heq, hs k hk]

theorem writeAll_localTo [DecidableEq α] {region : α → Prop} {ws : List (α × β)}
    (h : ∀ w ∈ ws, region w.1) : LocalTo region (fun s : Store α β => s.writeAll ws) where
  frame s k hk := writeAll_other s fun w hw heq => hk (heq ▸ h w hw)
  reads s s' hs k hk := by
    show s.writeAll ws k = s'.writeAll ws k
    rw [read_writeAll, read_writeAll, hs k hk]

theorem keep_localTo {region : α → Prop} {kept : α → Bool} (h : ∀ k, ¬ region k → kept k = true) :
    LocalTo region (fun s : Store α β => s.keep kept) where
  frame s k hk := keep_of_kept s (h k hk)
  reads s s' hs k hk := by
    show (if kept k then s k else none) = if kept k then s' k else none
    rw [hs k hk]

/-! ### Runs -/

/-- Programs one after the other. -/
def runAll (fs : List (Store α β → Store α β)) (s : Store α β) : Store α β :=
  fs.foldl (fun s f => f s) s

variable {ps : List ((α → Prop) × (Store α β → Store α β))}

/-- Keys outside of all regions keep their values. -/
theorem runAll_frame (hlocal : ∀ p ∈ ps, LocalTo p.1 p.2) (s : Store α β) {k : α}
    (hk : ∀ p ∈ ps, ¬ p.1 k) : runAll (ps.map Prod.snd) s k = s k := by
  induction ps generalizing s with
  | nil => rfl
  | cons p ps ih =>
      have hrest := ih (fun q hq => hlocal q (List.mem_cons_of_mem _ hq)) (p.2 s)
        fun q hq => hk q (List.mem_cons_of_mem _ hq)
      exact hrest.trans ((hlocal p List.mem_cons_self).frame s k (hk p List.mem_cons_self))

/-- **Each region is as its own program leaves it**, run alone. -/
theorem runAll_local (hlocal : ∀ p ∈ ps, LocalTo p.1 p.2)
    (hapart : ps.Pairwise fun p q => ∀ k, p.1 k → ¬ q.1 k) (s : Store α β)
    {p : (α → Prop) × (Store α β → Store α β)} (hp : p ∈ ps) {k : α} (hk : p.1 k) :
    runAll (ps.map Prod.snd) s k = p.2 s k := by
  induction ps generalizing s with
  | nil => cases hp
  | cons q ps ih =>
      rw [List.pairwise_cons] at hapart
      have hrest : ∀ r ∈ ps, LocalTo r.1 r.2 := fun r hr => hlocal r (List.mem_cons_of_mem _ hr)
      show runAll (ps.map Prod.snd) (q.2 s) k = p.2 s k
      rcases List.mem_cons.mp hp with rfl | hp
      · exact runAll_frame hrest _ fun r hr => hapart.1 r hr k hk
      · have hlater : ∀ k', p.1 k' → q.2 s k' = s k' := fun k' hk' =>
          (hlocal q List.mem_cons_self).frame s k' fun hq => hapart.1 p hp k' hq hk'
        rw [ih hrest hapart.2 (q.2 s) hp]
        exact (hrest p hp).reads _ _ hlater k hk

end Store

/-! ### Directories -/

/-- The last separator of a text splits it in one way. -/
theorem separator_inj {c : α} {a b n m : List α} (hn : c ∉ n) (hm : c ∉ m)
    (h : a ++ c :: n = b ++ c :: m) : a = b ∧ n = m := by
  rcases List.append_eq_append_iff.mp h with ⟨as, rfl, hrest⟩ | ⟨bs, rfl, hrest⟩
  · cases as with
    | nil => exact ⟨(List.append_nil a).symm, (List.cons.inj hrest).2⟩
    | cons d as =>
        obtain ⟨-, rfl⟩ := List.cons.inj hrest
        exact absurd (List.mem_append_right _ List.mem_cons_self) hn
  · cases bs with
    | nil => exact ⟨List.append_nil b, (List.cons.inj hrest).2.symm⟩
    | cons d bs =>
        obtain ⟨-, rfl⟩ := List.cons.inj hrest
        exact absurd (List.mem_append_right _ List.mem_cons_self) hm

end Data
