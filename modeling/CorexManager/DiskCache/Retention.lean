import CorexManager.DiskCache.Slots

/-!
# What the disk cache keeps

While the keys stored since a reset fit in the slots and no two of them have the same hash, no slot is
evicted and no cell of the table is taken over.

* `Complete` — every key has an entry, and every slot in use has one.
* `serve_eq_lastPut` — then every lookup answers exactly what was stored last, if it is not too old.
-/

namespace CorexManager.DiskCache

open Data.Probing
open Transition

variable {g : Geometry} {c : Cache} {r : Record} {p : Put}

/-- What was stored for a key can be found, and slots in use are found for their keys. -/
structure Complete (g : Geometry) (c : Cache) (r : Record) : Prop where
  resident key p : r key = some p → ∃ i s, c.table i = .full s ∧ (c.slots s).key = key
  used s : s < g.slotCount → ¬ c.Free s → ∃ i, c.table i = .full s

/-- All keys are among some. -/
def Within (r : Record) (keys : Finset (List UInt8)) : Prop := ∀ key p, r key = some p → key ∈ keys

theorem Leads.mem_cells {i s : Nat} (h : Leads g c r i s p) : i < g.slotCount :=
  mem_probes.mp h.reached.mem

/-- While there are keys left that are not stored, there is a free slot. -/
theorem exists_free (h : Represents g c r) (hc : Complete g c r) {keys : Finset (List UInt8)}
    (hkeys : Within r keys) (hcount : keys.card ≤ g.slotCount) (hp : p.key ∈ keys)
    (hnew : ∀ i s, c.table i = .full s → (c.slots s).key ≠ p.key) :
    ∃ s < g.slotCount, c.Free s := by
  by_contra hnone
  have hused (s : Nat) (hs : s < g.slotCount) : ∃ i, c.table i = .full s :=
    hc.used s hs fun hfree => hnone ⟨s, hs, hfree⟩
  -- the slots have different keys, none of them the new one
  have hmaps : ∀ s ∈ Finset.range g.slotCount, (c.slots s).key ∈ keys.erase p.key := by
    intro s hs
    obtain ⟨i, hi⟩ := hused s (Finset.mem_range.mp hs)
    obtain ⟨q, hq⟩ := h.entry i s hi
    exact Finset.mem_erase.mpr ⟨hnew i s hi, hkeys _ q (hq.key ▸ hq.recorded)⟩
  have hinjective : Set.InjOn (fun s => (c.slots s).key) (Finset.range g.slotCount) := by
    intro s hs t ht hsame
    obtain ⟨i, hi⟩ := hused s (Finset.mem_range.mp hs)
    obtain ⟨j, hj⟩ := hused t (Finset.mem_range.mp ht)
    obtain rfl := h.unique i j s t hi hj hsame
    exact Cell.full.inj (hi.symm.trans hj)
  have hcard := Finset.card_le_card_of_injOn _ hmaps hinjective
  rw [Finset.card_range, Finset.card_erase_of_mem hp] at hcard
  have hpos := Finset.card_pos.mpr ⟨p.key, hp⟩
  omega

/-- The scan finds a free slot if there is one. -/
theorem scanSlots_of_free (c : Cache) (oldestTs oldestIdx : Nat) {slots : List Nat}
    (h : ∃ s ∈ slots, c.Free s) : (c.scanSlots oldestTs oldestIdx slots).2 = true := by
  induction slots generalizing oldestTs oldestIdx with
  | nil =>
      obtain ⟨s, hs, -⟩ := h
      exact absurd hs List.not_mem_nil
  | cons i rest ih =>
      rw [Cache.scanSlots]
      split
      · rfl
      · rename_i hi
        have hrest : ∃ s ∈ rest, c.Free s := by
          obtain ⟨s, hs, hfree⟩ := h
          rcases List.mem_cons.mp hs with rfl | hs
          · exact absurd hfree hi
          · exact ⟨s, hs, hfree⟩
        split
        · exact ih _ _ hrest
        · exact ih _ _ hrest

/-- Then nothing is evicted. -/
theorem findFreeSlot_of_free (h : ∃ s < g.slotCount, c.Free s) :
    (c.findFreeSlot g).1 = c ∧ c.Free (c.findFreeSlot g).2 := by
  obtain ⟨s, hs, hfree⟩ := h
  have hscan := scanSlots_of_free c (2 ^ 64 - 1) 0 ⟨s, List.mem_range.mpr hs, hfree⟩
  have hspec := (scanSlots_spec c (2 ^ 64 - 1) 0 (List.range g.slotCount)).2 hscan
  rw [Cache.findFreeSlot]
  rcases hscan' : c.scanSlots (2 ^ 64 - 1) 0 (List.range g.slotCount) with ⟨t, _ | _⟩
  · rw [hscan'] at hscan
    cases hscan
  · rw [hscan'] at hspec
    exact ⟨rfl, hspec⟩

/-- With a free slot, some cell of the table is not in use. -/
theorem exists_unused (h : Represents g c r) (hfree : ∃ s < g.slotCount, c.Free s) :
    ∃ i < g.slotCount, ∀ s, c.table i ≠ .full s := by
  by_contra hnone
  have hfull (i : Nat) (hi : i < g.slotCount) : ∃ s, c.table i = .full s := by
    by_contra hempty
    exact hnone ⟨i, hi, fun s hs => hempty ⟨s, hs⟩⟩
  choose! slot hslot using hfull
  obtain ⟨s, hs, hfree⟩ := hfree
  have hmaps : ∀ i ∈ Finset.range g.slotCount, slot i ∈ (Finset.range g.slotCount).erase s := by
    intro i hi
    have hi := hslot i (Finset.mem_range.mp hi)
    obtain ⟨q, hq⟩ := h.entry i _ hi
    refine Finset.mem_erase.mpr ⟨fun heq => ?_, Finset.mem_range.mpr hq.slot_lt⟩
    exact h.unused_of_free hfree i (heq ▸ hi)
  have hinjective : Set.InjOn slot (Finset.range g.slotCount) := by
    intro i hi j hj hsame
    have hi := hslot i (Finset.mem_range.mp hi)
    have hj := hslot j (Finset.mem_range.mp hj)
    exact h.injective hi (hsame ▸ hj)
  have hcard := Finset.card_le_card_of_injOn _ hmaps hinjective
  rw [Finset.card_range, Finset.card_erase_of_mem (Finset.mem_range.mpr hs), Finset.card_range] at hcard
  have hpos := g.slotCount_pos
  omega

/-- A slot that is written again keeps its entry. -/
theorem Complete.writeSlot (h : Complete g c r) {i s : Nat} (hi : c.table i = .full s)
    (hkey : (c.slots s).key = p.key) :
    Complete g (c.writeSlot s p) (Function.update r p.key (some p)) where
  resident key q hq := by
    by_cases hsame : key = p.key
    · exact ⟨i, s, hi, by rw [Cache.writeSlot_self, Slot.write_key, hsame]⟩
    · rw [Function.update_of_ne hsame] at hq
      obtain ⟨j, t, hj, ht⟩ := h.resident key q hq
      refine ⟨j, t, hj, ?_⟩
      rw [Cache.writeSlot_of_ne p, ht]
      rintro rfl
      exact hsame (ht.symm.trans hkey)
  used t ht hused := by
    by_cases hts : t = s
    · exact ⟨i, hts ▸ hi⟩
    · refine h.used t ht fun hfree => hused ?_
      rwa [Cache.Free, Cache.writeSlot_of_ne p hts]

/-- A cell that was not in use leads to a slot that was not in use. -/
theorem Complete.place (h : Complete g c r) {i s : Nat} (hunused : ∀ j, c.table j ≠ .full s)
    (hi : ∀ t, c.table i ≠ .full t) :
    Complete g (c.place i s p) (Function.update r p.key (some p)) where
  resident key q hq := by
    by_cases hsame : key = p.key
    · refine ⟨i, s, Cache.place_table_self i s p, ?_⟩
      exact (congrArg Slot.key (Cache.writeSlot_self s p)).trans ((Slot.write_key _).trans hsame.symm)
    · rw [Function.update_of_ne hsame] at hq
      obtain ⟨j, t, hj, ht⟩ := h.resident key q hq
      refine ⟨j, t, ?_, ?_⟩
      · rw [Cache.place_table_of_ne s p, hj]
        rintro rfl
        exact hi t hj
      · refine (congrArg Slot.key (Cache.writeSlot_of_ne p ?_)).trans ht
        rintro rfl
        exact hunused j hj
  used t ht hused := by
    by_cases hts : t = s
    · exact ⟨i, by rw [hts, Cache.place_table_self]⟩
    · have hslot : (c.place i s p).slots t = c.slots t := Cache.writeSlot_of_ne p hts
      rw [Cache.Free, hslot] at hused
      obtain ⟨j, hj⟩ := h.used t ht hused
      refine ⟨j, ?_⟩
      rw [Cache.place_table_of_ne s p, hj]
      rintro rfl
      exact hi t hj

/-- **A store loses no other key** while there is room and hashes differ. -/
theorem Complete.storeInner (h : Represents g c r) (hc : Complete g c r) {keys : Finset (List UInt8)}
    (hkeys : Within r keys) (hcount : keys.card ≤ g.slotCount) (hhash : Set.InjOn hashKey keys)
    (hp : p.key ∈ keys) :
    Complete g (c.storeInner g p) (Function.update r p.key (some p)) := by
  rw [Cache.storeInner]
  cases hstored : c.findStored g p.key with
  | some s =>
      obtain ⟨i, q, hi, hq, hkey⟩ := findStored_eq_some h hstored
      exact hc.writeSlot hi (hq.key.trans hkey)
  | none =>
      have hnew (i s) (hi : c.table i = .full s) := findStored_eq_none h hstored hi
      have hroom := exists_free h hc hkeys hcount hp hnew
      obtain ⟨heq, hfree⟩ := findFreeSlot_of_free hroom
      dsimp only
      rw [heq]
      refine hc.place (h.unused_of_free hfree) (insertion_unused (fun i hi s hs => ?_)
        (fun j hj => by cases hj) fun _ => ?_)
      · -- an entry with the same hash would have the same key
        obtain ⟨q, hq⟩ := h.entry i s hs
        refine Bool.eq_false_iff.mpr fun hsame => hnew i s hs ?_
        have hsame := beq_iff_eq.mp (Bool.and_eq_true_iff.mp hsame).2
        rw [hq.keyHash] at hsame
        rw [hq.key]
        exact hhash (hkeys _ q hq.recorded) hp hsame
      · obtain ⟨i, hi, hunused⟩ := exists_unused h hroom
        exact ⟨i, mem_probes.mpr hi, hunused⟩

/-- The key of a response that is found is looked up at once. -/
theorem lookup_of_entry (h : Represents g c r) {i s : Nat} (hi : c.table i = .full s)
    (hp : Leads g c r i s p) (now : Nat) :
    c.lookup g p.key now = if p.Fresh now then some s else none := by
  obtain ⟨old, hslot⟩ := hp.written
  have htimestamp : (c.slots s).timestamp = p.now := by rw [hslot, Slot.write_timestamp]
  have hfound : c.found g p.key now s =
      some (if now - p.now > defaultTtlSecs then none else some s) := by
    rw [Cache.found, if_pos ⟨hp.slot_lt, (hp.hasKey p.key).mpr rfl, hp.ready⟩, htimestamp]
  have hunique (j) (_ : j ∈ Cache.cells g (hashKey p.key)) (t) (hj : c.table j = .full t)
      (hanswer : c.found g p.key now t ≠ none) : j = i := by
    obtain ⟨q, hq⟩ := h.entry j t hj
    by_cases hkey : q.key = p.key
    · exact h.unique j i t s hj hi (by rw [hq.key, hp.key, hkey])
    · exact absurd (if_neg fun hsame => hkey ((hq.hasKey p.key).mp hsame.2.1)) hanswer
  have hsearch : search (fun _ s => c.found g p.key now s) c.table (Cache.cells g (hashKey p.key)) =
      some (if now - p.now > defaultTtlSecs then none else some s) :=
    search_of_reached hp.reached hi hfound hunique
  rw [Cache.lookup, hsearch, Option.join_some]
  by_cases hfresh : p.Fresh now
  · rw [if_pos hfresh, if_neg (Nat.not_lt.mpr hfresh)]
  · rw [if_neg hfresh, if_pos (Nat.lt_of_not_le hfresh)]

/-- What is served when nothing was lost. -/
theorem Complete.serve (h : Represents g c r) (hc : Complete g c r) (key : List UInt8) (now : Nat) :
    c.serve g key now = ((r key).filter fun p => p.Fresh now).map Put.response := by
  cases hr : r key with
  | none =>
      rw [Option.filter_none, Option.map_none]
      refine Option.eq_none_iff_forall_ne_some.mpr fun response hserve => ?_
      obtain ⟨p, hp, -⟩ := h.serve hserve
      rw [hr] at hp
      cases hp
  | some p =>
      obtain ⟨i, s, hi, hkey⟩ := hc.resident key p hr
      obtain ⟨q, hq⟩ := h.entry i s hi
      obtain rfl : q.key = key := hq.key.symm.trans hkey
      obtain rfl : q = p := Option.some.inj (hq.recorded.symm.trans hr)
      obtain ⟨old, hslot⟩ := hq.written
      rw [Cache.serve, lookup_of_entry h hi hq]
      by_cases hfresh : q.Fresh now
      · rw [if_pos hfresh, Option.bind_some, readSlot_of_write hslot hq.fits,
          Option.filter_some, if_pos (decide_eq_true hfresh), Option.map_some]
      · rw [if_neg hfresh, Option.bind_none, Option.filter_some, if_neg (by simpa using hfresh),
          Option.map_none]

theorem complete_reset : Complete g c.reset fun _ => none where
  resident key p hr := by cases hr
  used s _ hused := absurd (Or.inl rfl) hused

/-- The keys of some stores that fit in a slot. -/
def storedKeys (g : Geometry) (puts : List Put) : Finset (List UInt8) :=
  ((puts.filter fun p => p.size ≤ g.slotDataSize).map Put.key).toFinset

theorem mem_storedKeys {puts : List Put} {key : List UInt8} :
    key ∈ storedKeys g puts ↔ ∃ p ∈ puts, p.size ≤ g.slotDataSize ∧ p.key = key := by
  simp [storedKeys, and_assoc]

/-- The stores of a run lose no key. -/
theorem complete_run {keys : Finset (List UInt8)} (hcount : keys.card ≤ g.slotCount)
    (hhash : Set.InjOn hashKey keys) {puts : List Put} (hputs : storedKeys g puts ⊆ keys)
    (h : Represents g c r) (hc : Complete g c r) (hkeys : Within r keys) {c' : Cache}
    (hrun : run (Cache.step g) c (puts.map .store) = some c') :
    Represents g c' ((puts.map Operation.store).foldl (Record.next g) r) ∧
      Complete g c' ((puts.map Operation.store).foldl (Record.next g) r) := by
  induction puts generalizing c r with
  | nil => exact Option.some.inj hrun ▸ ⟨h, hc⟩
  | cons p puts ih =>
      obtain ⟨t, ht, hrun⟩ := run_cons_iff.mp hrun
      have hrest : storedKeys g puts ⊆ keys := fun key hkey => by
        obtain ⟨q, hq, hsize, rfl⟩ := mem_storedKeys.mp hkey
        exact hputs (mem_storedKeys.mpr ⟨q, List.mem_cons_of_mem _ hq, hsize, rfl⟩)
      have hstep := h.step (.store p) ht
      rw [List.map_cons, List.foldl_cons]
      by_cases hsize : p.size ≤ g.slotDataSize
      · have hp := hputs (mem_storedKeys.mpr ⟨p, List.mem_cons_self, hsize, rfl⟩)
        rw [Record.next, if_pos hsize] at hstep ⊢
        rw [Cache.step, Cache.store, if_neg (Nat.not_lt.mpr hsize)] at ht
        obtain rfl := Option.some.inj ht
        refine ih hrest hstep (hc.storeInner h hkeys hcount hhash hp) (fun key q hq => ?_) hrun
        by_cases hsame : key = p.key
        · exact hsame ▸ hp
        · rw [Function.update_of_ne hsame] at hq
          exact hkeys key q hq
      · rw [Record.next, if_neg hsize] at hstep ⊢
        rw [Cache.step, Cache.store, if_pos (Nat.lt_of_not_le hsize)] at ht
        obtain rfl := Option.some.inj ht
        exact ih hrest h hc hkeys hrun

/-- **Nothing is lost while there is room**: if the keys stored since a reset are no more than the slots
and have different hashes, a lookup answers exactly what was stored last for its key, unless it is too
old.  Before the reset anything may have happened. -/
theorem serve_eq_lastPut (g : Geometry) (before : List Operation) (puts : List Put)
    (hcount : (storedKeys g puts).card ≤ g.slotCount) (hhash : Set.InjOn hashKey (storedKeys g puts))
    (c : Cache) (hrun : run (Cache.step g) (newFile g) (before ++ .reset :: puts.map .store) = some c)
    (key : List UInt8) (now : Nat) :
    c.serve g key now =
      ((lastPut g (before ++ .reset :: puts.map .store) key).filter fun p => p.Fresh now).map
        Put.response := by
  obtain ⟨t, -, hrun⟩ := run_append_iff.mp hrun
  obtain ⟨u, hreset, hrun⟩ := run_cons_iff.mp hrun
  obtain rfl := Option.some.inj hreset
  obtain ⟨h, hc⟩ := complete_run hcount hhash (Finset.Subset.refl _) (represents_reset _) complete_reset
    (fun key p hr => by cases hr) hrun
  rw [lastPut, List.foldl_append, List.foldl_cons]
  exact hc.serve h key now

/-- Two pages in two slots. -/
theorem serve_eq_lastPut_pages : ∃ c,
    run (Cache.step twoSlots) (newFile twoSlots)
      [.reset, .store page, .store { page with key := [8] }] = some c ∧
      c.serve twoSlots [7] 170 = some page.response := by
  have hhash : ∀ key ∈ storedKeys twoSlots [page, { page with key := [8] }],
      ∀ key' ∈ storedKeys twoSlots [page, { page with key := [8] }],
        hashKey key = hashKey key' → key = key' := by decide +kernel
  exact ⟨_, rfl, (serve_eq_lastPut twoSlots [] [page, { page with key := [8] }] (by decide +kernel)
    (fun key hkey key' hkey' => hhash key hkey key' hkey') _ rfl [7] 170).trans rfl⟩

end CorexManager.DiskCache
