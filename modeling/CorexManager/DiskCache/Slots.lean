import CorexManager.Data.Probing
import CorexManager.Data.Text
import CorexManager.Logic.Transition

/-!
# The slots of the disk cache

`MmapStore` of `disk_cache/src/lib.rs` keeps responses by key in the slots of one mapped file.  A hash
table with linear probing finds the slot of a key, and the oldest slot is evicted when none is free.
Stores hold a lock, so each is one step.

* `Cache.store`, `Cache.lookup`, `Cache.readSlot`, `Cache.reset`, `Cache.reopen` — the operations.
* `lastPut` — what was stored last for each key, over a run.
* `Represents` — every entry of the table leads to what was stored last for its key, a search for this
  key comes to the entry, and no other entry has the key.
* `serve_lastPut` — in every run, what is served for a key was stored last for it, and not long ago.
-/

namespace CorexManager.DiskCache

open Data (Text natText)
open Data.Probing
open Transition

/-- The number of slots, and the bytes of data in each. -/
structure Geometry where
  slotCount : Nat
  slotDataSize : Nat
  slotCount_pos : 0 < slotCount

/-- `SLOT_COUNT`, and `SLOT_SIZE` without the size of `SlotMeta`. -/
def geometry : Geometry := ⟨1000, 1024 * 1024 - 56, Nat.zero_lt_succ 999⟩

/-- `DEFAULT_TTL_SECS` -/
def defaultTtlSecs : Nat := 120

/-- `CachedResponse` -/
structure CachedResponse where
  status : UInt16
  headers : List UInt8
  body : List UInt8
  deriving DecidableEq

/-- The arguments of `store`, and the time at which it writes. -/
structure Put where
  key : List UInt8
  status : UInt16
  headers : List UInt8
  body : List UInt8
  now : Nat

def Put.response (p : Put) : CachedResponse := ⟨p.status, p.headers, p.body⟩

/-- `total_data` -/
def Put.size (p : Put) : Nat := p.key.length + p.headers.length + p.body.length

/-- The constants `SLOT_EMPTY` and so on. -/
inductive SlotState where
  | empty
  | filling
  | ready
  | evicted
  deriving DecidableEq

/-- `SlotMeta`, and the data behind it. -/
structure Slot where
  state : SlotState
  timestamp : Nat
  keyHash : UInt64
  keyLen : Nat
  bodyLen : Nat
  status : UInt64
  headersLen : Nat
  data : List UInt8

/-- `hash_key` -/
def hashKey (key : List UInt8) : UInt64 :=
  key.foldl (fun hash b => (hash ^^^ b.toUInt64) * 0x100000001b3) 0xcbf29ce484222325

/-- `write_slot`: the data beyond the response stays. -/
def Slot.write (slot : Slot) (p : Put) : Slot where
  state := .ready
  timestamp := p.now
  keyHash := hashKey p.key
  keyLen := p.key.length
  bodyLen := p.body.length
  status := p.status.toUInt64
  headersLen := p.headers.length
  data := p.key ++ p.headers ++ p.body ++ slot.data.drop p.size

/-- The key of a slot. -/
def Slot.key (slot : Slot) : List UInt8 := slot.data.take slot.keyLen

/-- A slot has a key, as `store_inner` compares them. -/
def Slot.hasKey (slot : Slot) (key : List UInt8) : Bool :=
  slot.keyHash == hashKey key && slot.keyLen == key.length && slot.key == key

/-- The table, and the slots. -/
structure Cache where
  table : Nat → Cell Nat
  slots : Nat → Slot

namespace Cache

variable (g : Geometry) (c : Cache)

/-- The cells in the order in which they are searched for a hash. -/
def cells (hash : UInt64) : List Nat := probes g.slotCount (hash.toNat % g.slotCount)

/-- What `lookup` returns at an entry, unless it goes on. -/
def found (key : List UInt8) (now s : Nat) : Option (Option Nat) :=
  if s < g.slotCount ∧ (c.slots s).hasKey key = true ∧ (c.slots s).state = .ready then
    some (if now - (c.slots s).timestamp > defaultTtlSecs then none else some s)
  else none

/-- `lookup` -/
def lookup (key : List UInt8) (now : Nat) : Option Nat :=
  (search (fun _ s => c.found g key now s) c.table (cells g (hashKey key))).join

/-- `read_slot` -/
def readSlot (s : Nat) : Option CachedResponse :=
  let slot := c.slots s
  if slot.state ≠ .ready then none
  else if slot.keyLen + slot.headersLen + slot.bodyLen > g.slotDataSize then none
  else some ⟨slot.status.toUInt16, (slot.data.drop slot.keyLen).take slot.headersLen,
    (slot.data.drop (slot.keyLen + slot.headersLen)).take slot.bodyLen⟩

/-- `_disk_cache_serve` -/
def serve (key : List UInt8) (now : Nat) : Option CachedResponse :=
  (c.lookup g key now).bind (c.readSlot g)

/-- The slot that `store_inner` updates in place. -/
def findStored (key : List UInt8) : Option Nat :=
  search (fun _ s => if s < g.slotCount ∧ (c.slots s).hasKey key = true then some s else none)
    c.table (cells g (hashKey key))

/-- A slot can be taken. -/
def Free (s : Nat) : Prop := (c.slots s).state = .empty ∨ (c.slots s).state = .evicted

instance (s : Nat) : Decidable (c.Free s) := inferInstanceAs (Decidable (_ ∨ _))

/-- The loop of `find_free_slot`: a free slot, or else the oldest. -/
def scanSlots (oldestTs oldestIdx : Nat) : List Nat → Nat × Bool
  | [] => (oldestIdx, false)
  | i :: rest =>
      if c.Free i then (i, true)
      else if (c.slots i).timestamp < oldestTs then scanSlots (c.slots i).timestamp i rest
      else scanSlots oldestTs oldestIdx rest

/-- The end of `find_free_slot`: a slot is evicted, and its entry becomes a tombstone. -/
def evict (s : Nat) : Cache where
  slots := Function.update c.slots s { c.slots s with state := .evicted }
  table :=
    match search (fun i t => if t = s then some i else none) c.table
        (cells g (c.slots s).keyHash) with
    | some i => Function.update c.table i .tombstone
    | none => c.table

/-- `find_free_slot` -/
def findFreeSlot : Cache × Nat :=
  match c.scanSlots (2 ^ 64 - 1) 0 (List.range g.slotCount) with
  | (s, true) => (c, s)
  | (oldest, false) => (c.evict g oldest, oldest)

/-- `find_hash_entry` -/
def findHashEntry (hash : UInt64) : Nat :=
  insertion (fun s => decide (s < g.slotCount) && (c.slots s).keyHash == hash) c.table none
    (hash.toNat % g.slotCount) (cells g hash)

def writeSlot (s : Nat) (p : Put) : Cache :=
  { c with slots := Function.update c.slots s ((c.slots s).write p) }

/-- A slot is written, and a cell leads to it. -/
def place (i s : Nat) (p : Put) : Cache :=
  { c.writeSlot s p with table := Function.update c.table i (.full s) }

/-- `store_inner` -/
def storeInner (p : Put) : Cache :=
  match c.findStored g p.key with
  | some s => c.writeSlot s p
  | none =>
      let (c', s) := c.findFreeSlot g
      c'.place (c'.findHashEntry g (hashKey p.key)) s p

/-- `store` -/
def store (p : Put) : Except Text Cache :=
  if p.size > g.slotDataSize then
    .error ("data too large: ".toList ++ natText p.size ++ " > ".toList ++ natText g.slotDataSize)
  else .ok (c.storeInner g p)

/-- `reset`, and `init_header` of a file that is there. -/
def reset : Cache where
  table _ := .empty
  slots s := { c.slots s with state := .empty }

/-- `open` of a file that a process left: it counts as corrupt if a cell near the start is in use. -/
def reopen : Cache :=
  if (List.range 10).any fun i => match c.table i with | .empty => false | _ => true then c.reset
  else c

end Cache

/-- A new file. -/
def newFile (g : Geometry) : Cache where
  table _ := .empty
  slots _ := ⟨.empty, 0, 0, 0, 0, 0, 0, List.replicate g.slotDataSize 0⟩

inductive Operation where
  | store (p : Put)
  | reset
  | reopen

/-- An operation on the file; a store that fails changes nothing. -/
def Cache.step (g : Geometry) (c : Cache) : Operation → Option Cache
  | .store p =>
      match c.store g p with
      | .ok c' => some c'
      | .error _ => some c
  | .reset => some c.reset
  | .reopen => some c.reopen

/-- What was stored for each key. -/
abbrev Record := List UInt8 → Option Put

/-- What was stored last for each key after an operation. -/
def Record.next (g : Geometry) (r : Record) : Operation → Record
  | .store p => if p.size ≤ g.slotDataSize then Function.update r p.key (some p) else r
  | .reset => fun _ => none
  | .reopen => r

/-- What was stored last for each key, since the last reset. -/
def lastPut (g : Geometry) (operations : List Operation) : Record :=
  operations.foldl (Record.next g) fun _ => none

/-- A response is not too old. -/
def Put.Fresh (p : Put) (now : Nat) : Prop := now - p.now ≤ defaultTtlSecs

instance (p : Put) (now : Nat) : Decidable (p.Fresh now) := inferInstanceAs (Decidable (_ ≤ _))

section Slots

variable {g : Geometry} {p : Put}

@[simp] theorem Slot.write_state (slot : Slot) : (slot.write p).state = .ready := rfl

@[simp] theorem Slot.write_keyHash (slot : Slot) : (slot.write p).keyHash = hashKey p.key := rfl

@[simp] theorem Slot.write_timestamp (slot : Slot) : (slot.write p).timestamp = p.now := rfl

@[simp] theorem Slot.write_key (slot : Slot) : (slot.write p).key = p.key := by
  rw [Slot.key, Slot.write]
  simp only [List.append_assoc]
  exact List.take_left

theorem Slot.write_hasKey (slot : Slot) (key : List UInt8) :
    (slot.write p).hasKey key = true ↔ p.key = key := by
  rw [Slot.hasKey, Slot.write_key, Slot.write_keyHash, Bool.and_eq_true, Bool.and_eq_true, beq_iff_eq,
    beq_iff_eq, beq_iff_eq]
  constructor
  · exact fun h => h.2
  · rintro rfl
    exact ⟨⟨rfl, rfl⟩, rfl⟩

/-- **A slot holds what was written**. -/
theorem readSlot_of_write {c : Cache} {s : Nat} {old : Slot} (hslot : c.slots s = old.write p)
    (hsize : p.size ≤ g.slotDataSize) : c.readSlot g s = some p.response := by
  have hheaders : ((old.write p).data.drop p.key.length).take p.headers.length = p.headers := by
    rw [Slot.write]
    simp only [List.append_assoc]
    rw [List.drop_left, List.take_left]
  have hbody : ((old.write p).data.drop (p.key.length + p.headers.length)).take p.body.length =
      p.body := by
    rw [Slot.write, ← List.length_append, List.append_assoc (p.key ++ p.headers), List.drop_left,
      List.take_left]
  rw [Cache.readSlot, hslot]
  refine (if_neg fun h => h rfl).trans ((if_neg (Nat.not_lt.mpr hsize)).trans (congrArg some ?_))
  exact (CachedResponse.mk.injEq ..).mpr ⟨UInt16.toUInt16_toUInt64 p.status, hheaders, hbody⟩

end Slots

/-! ### What the file represents -/

/-- An entry of the table leads to what was stored for its key. -/
structure Leads (g : Geometry) (c : Cache) (r : Record) (i s : Nat) (p : Put) : Prop where
  slot_lt : s < g.slotCount
  written : ∃ old : Slot, c.slots s = old.write p
  fits : p.size ≤ g.slotDataSize
  recorded : r p.key = some p
  reached : Reached c.table (Cache.cells g (hashKey p.key)) i

/-- The entries of the table lead to what was stored last for different keys. -/
structure Represents (g : Geometry) (c : Cache) (r : Record) : Prop where
  entry i s : c.table i = .full s → ∃ p, Leads g c r i s p
  unique i j s t : c.table i = .full s → c.table j = .full t → (c.slots s).key = (c.slots t).key → i = j

section Represents

variable {g : Geometry} {c : Cache} {r : Record}

theorem Leads.key {i s : Nat} {p : Put} (h : Leads g c r i s p) : (c.slots s).key = p.key := by
  obtain ⟨old, hslot⟩ := h.written
  rw [hslot, Slot.write_key]

theorem Leads.hasKey {i s : Nat} {p : Put} (h : Leads g c r i s p) (key : List UInt8) :
    (c.slots s).hasKey key = true ↔ p.key = key := by
  obtain ⟨old, hslot⟩ := h.written
  rw [hslot, Slot.write_hasKey]

theorem Leads.ready {i s : Nat} {p : Put} (h : Leads g c r i s p) : (c.slots s).state = .ready := by
  obtain ⟨old, hslot⟩ := h.written
  rw [hslot, Slot.write_state]

theorem Leads.keyHash {i s : Nat} {p : Put} (h : Leads g c r i s p) :
    (c.slots s).keyHash = hashKey p.key := by
  obtain ⟨old, hslot⟩ := h.written
  rw [hslot, Slot.write_keyHash]

/-- No two entries lead to one slot. -/
theorem Represents.injective (h : Represents g c r) {i j s : Nat} (hi : c.table i = .full s)
    (hj : c.table j = .full s) : i = j :=
  h.unique i j s s hi hj rfl

/-- An entry that leads to a slot is not the only thing to stay the same. -/
theorem Leads.congr {c' : Cache} {r' : Record} {i s : Nat} {p : Put} (h : Leads g c r i s p)
    (hslot : c'.slots s = c.slots s) (hr : r' p.key = r p.key)
    (hreached : Reached c'.table (Cache.cells g (hashKey p.key)) i) : Leads g c' r' i s p where
  slot_lt := h.slot_lt
  written := hslot ▸ h.written
  fits := h.fits
  recorded := hr.trans h.recorded
  reached := hreached

theorem represents_empty (h : ∀ i, c.table i = .empty) (r : Record) : Represents g c r where
  entry i s hi := by
    rw [h i] at hi
    cases hi
  unique i j s t hi := by
    rw [h i] at hi
    cases hi

theorem represents_reset (r : Record) : Represents g c.reset r := represents_empty (fun _ => rfl) r

theorem Represents.reopen (h : Represents g c r) : Represents g c.reopen r := by
  rw [Cache.reopen]
  split
  · exact represents_reset r
  · exact h

/-! ### Storing -/

variable {p : Put}

theorem cells_head (hash : UInt64) :
    (Cache.cells g hash).head? = some (hash.toNat % g.slotCount) := by
  rw [Cache.cells, head?_probes g.slotCount_pos, Nat.mod_mod]

/-- A key is found where it is stored. -/
theorem findStored_eq_some (h : Represents g c r) {key : List UInt8} {s : Nat}
    (hs : c.findStored g key = some s) :
    ∃ i q, c.table i = .full s ∧ Leads g c r i s q ∧ q.key = key := by
  obtain ⟨i, t, -, hi, hanswer⟩ := search_eq_some hs
  split at hanswer
  · rename_i hkey
    obtain rfl := Option.some.inj hanswer
    obtain ⟨q, hq⟩ := h.entry i t hi
    exact ⟨i, q, hi, hq, (hq.hasKey key).mp hkey.2⟩
  · cases hanswer

/-- A key that is not found is not stored. -/
theorem findStored_eq_none (h : Represents g c r) {key : List UInt8} (hs : c.findStored g key = none)
    {i s : Nat} (hi : c.table i = .full s) : (c.slots s).key ≠ key := by
  obtain ⟨q, hq⟩ := h.entry i s hi
  rw [hq.key]
  rintro rfl
  have hanswer := answer_of_search_eq_none hs hq.reached hi
  rw [if_pos ⟨hq.slot_lt, (hq.hasKey q.key).mpr rfl⟩] at hanswer
  cases hanswer

theorem Cache.writeSlot_self (s : Nat) (p : Put) : (c.writeSlot s p).slots s = (c.slots s).write p :=
  Function.update_self ..

theorem Cache.writeSlot_of_ne {s t : Nat} (p : Put) (ht : t ≠ s) :
    (c.writeSlot s p).slots t = c.slots t :=
  Function.update_of_ne ht ..

theorem Cache.place_table_self (i s : Nat) (p : Put) : (c.place i s p).table i = .full s :=
  Function.update_self ..

theorem Cache.place_table_of_ne {i j : Nat} (s : Nat) (p : Put) (hj : j ≠ i) :
    (c.place i s p).table j = c.table j :=
  Function.update_of_ne hj ..

/-- The slot of the key is written again. -/
theorem Represents.writeSlot (h : Represents g c r) {i s : Nat} {q : Put} (hi : c.table i = .full s)
    (hq : Leads g c r i s q) (hkey : q.key = p.key) (hsize : p.size ≤ g.slotDataSize) :
    Represents g (c.writeSlot s p) (Function.update r p.key (some p)) := by
  have hslotKey (t : Nat) : ((c.writeSlot s p).slots t).key = (c.slots t).key := by
    by_cases ht : t = s
    · rw [ht, Cache.writeSlot_self, Slot.write_key, hq.key, hkey]
    · rw [Cache.writeSlot_of_ne p ht]
  refine ⟨fun j t hj => ?_, fun j k t u hj hk hkeys => ?_⟩
  · by_cases ht : t = s
    · subst ht
      obtain rfl := h.injective hi hj
      exact ⟨p, hq.slot_lt, ⟨c.slots t, Cache.writeSlot_self t p⟩, hsize, Function.update_self ..,
        hkey ▸ hq.reached⟩
    · obtain ⟨q', hq'⟩ := h.entry j t hj
      have hne : q'.key ≠ p.key := by
        intro hsame
        obtain rfl := h.unique j i t s hj hi (by rw [hq'.key, hq.key, hsame, hkey])
        exact ht (Cell.full.inj (hj.symm.trans hi))
      exact ⟨q', hq'.congr (Cache.writeSlot_of_ne p ht) (Function.update_of_ne hne ..) hq'.reached⟩
  · rw [hslotKey, hslotKey] at hkeys
    exact h.unique j k t u hj hk hkeys

/-- A new key is written to a slot that no entry leads to. -/
theorem Represents.place (h : Represents g c r) {i s : Nat} (hs : s < g.slotCount)
    (hunused : ∀ j, c.table j ≠ .full s)
    (hkey : ∀ j t, c.table j = .full t → (c.slots t).key ≠ p.key)
    (hi : Reached c.table (Cache.cells g (hashKey p.key)) i) (hsize : p.size ≤ g.slotDataSize) :
    Represents g (c.place i s p) (Function.update r p.key (some p)) := by
  have hfull : (Cell.full s : Cell Nat) ≠ .empty := fun hcell => by cases hcell
  have hslot : (c.place i s p).slots s = (c.slots s).write p := Cache.writeSlot_self s p
  have hold {j t : Nat} (hj : c.table j = .full t) : (c.place i s p).slots t = c.slots t := by
    refine Cache.writeSlot_of_ne p ?_
    rintro rfl
    exact hunused j hj
  have htable {j t : Nat} (hj : (c.place i s p).table j = .full t) :
      j = i ∧ t = s ∨ c.table j = .full t := by
    by_cases hji : j = i
    · subst hji
      rw [Cache.place_table_self] at hj
      exact Or.inl ⟨rfl, (Cell.full.inj hj).symm⟩
    · rw [Cache.place_table_of_ne s p hji] at hj
      exact Or.inr hj
  have hkeys {j t : Nat} (hj : c.table j = .full t) : ((c.place i s p).slots t).key ≠ p.key := by
    rw [hold hj]
    exact hkey j t hj
  refine ⟨fun j t hj => ?_, fun j k t u hj hk hsame => ?_⟩
  · rcases htable hj with ⟨rfl, rfl⟩ | hj
    · exact ⟨p, hs, ⟨c.slots t, hslot⟩, hsize, Function.update_self .., hi.update j hfull⟩
    · obtain ⟨q, hq⟩ := h.entry j t hj
      exact ⟨q, hq.congr (hold hj) (Function.update_of_ne (hq.key ▸ hkey j t hj) ..)
        (hq.reached.update i hfull)⟩
  · rcases htable hj with ⟨rfl, rfl⟩ | hj'
    · rcases htable hk with ⟨rfl, -⟩ | hk'
      · rfl
      · rw [hslot, Slot.write_key] at hsame
        exact absurd hsame.symm (hkeys hk')
    · rcases htable hk with ⟨rfl, rfl⟩ | hk'
      · rw [hslot, Slot.write_key] at hsame
        exact absurd hsame (hkeys hj')
      · rw [hold hj', hold hk'] at hsame
        exact h.unique j k t u hj' hk' hsame

/-- What eviction leaves in the table. -/
theorem evict_table (h : Represents g c r) {s : Nat} {i t : Nat} :
    (c.evict g s).table i = .full t ↔ c.table i = .full t ∧ t ≠ s := by
  rw [Cache.evict]
  dsimp only
  cases hsearch : search (fun i t => if t = s then some i else none) c.table
      (Cache.cells g (c.slots s).keyHash) with
  | some j =>
      obtain ⟨k, u, -, hk, hanswer⟩ := search_eq_some hsearch
      split at hanswer
      · rename_i hus
        subst hus
        obtain rfl := Option.some.inj hanswer
        dsimp only
        by_cases hik : i = k
        · subst hik
          rw [Function.update_self]
          constructor
          · exact fun hcell => by cases hcell
          · rintro ⟨hi, hne⟩
            exact absurd (Cell.full.inj (hi.symm.trans hk)) hne
        · rw [Function.update_of_ne hik]
          refine ⟨fun hi => ⟨hi, fun hts => hik (h.injective (hts ▸ hi) hk)⟩, fun hi => hi.1⟩
      · cases hanswer
  | none =>
      refine ⟨fun hi => ⟨hi, ?_⟩, fun hi => hi.1⟩
      rintro rfl
      obtain ⟨q, hq⟩ := h.entry i t hi
      have hanswer := answer_of_search_eq_none hsearch (hq.keyHash ▸ hq.reached) hi
      rw [if_pos rfl] at hanswer
      cases hanswer

/-- A slot is evicted, and no entry leads to it any more. -/
theorem Represents.evict (h : Represents g c r) (s : Nat) : Represents g (c.evict g s) r := by
  have hold {t : Nat} (ht : t ≠ s) : (c.evict g s).slots t = c.slots t := Function.update_of_ne ht ..
  have hreached {cells : List Nat} {i : Nat} (hi : Reached c.table cells i) :
      Reached (c.evict g s).table cells i := by
    rw [Cache.evict]
    dsimp only
    split
    · exact hi.update _ fun hcell => by cases hcell
    · exact hi
  refine ⟨fun i t hi => ?_, fun i j t u hi hj hsame => ?_⟩
  · obtain ⟨hi, ht⟩ := (evict_table h).mp hi
    obtain ⟨q, hq⟩ := h.entry i t hi
    exact ⟨q, hq.congr (hold ht) rfl (hreached hq.reached)⟩
  · obtain ⟨hi, ht⟩ := (evict_table h).mp hi
    obtain ⟨hj, hu⟩ := (evict_table h).mp hj
    rw [hold ht, hold hu] at hsame
    exact h.unique i j t u hi hj hsame

/-- The scan returns a slot that is free, or one of those that it passes. -/
theorem scanSlots_spec (c : Cache) (oldestTs oldestIdx : Nat) (slots : List Nat) :
    (c.scanSlots oldestTs oldestIdx slots).1 ∈ oldestIdx :: slots ∧
      ((c.scanSlots oldestTs oldestIdx slots).2 = true →
        c.Free (c.scanSlots oldestTs oldestIdx slots).1) := by
  induction slots generalizing oldestTs oldestIdx with
  | nil => exact ⟨List.mem_cons_self, fun h => by cases h⟩
  | cons i rest ih =>
      rw [Cache.scanSlots]
      split
      · rename_i hfree
        exact ⟨List.mem_cons_of_mem _ List.mem_cons_self, fun _ => hfree⟩
      · split
        · obtain ⟨hmem, hfree⟩ := ih (c.slots i).timestamp i
          exact ⟨List.mem_cons_of_mem _ hmem, hfree⟩
        · obtain ⟨hmem, hfree⟩ := ih oldestTs oldestIdx
          refine ⟨?_, hfree⟩
          rcases List.mem_cons.mp hmem with heq | hmem
          · exact List.mem_cons.mpr (Or.inl heq)
          · exact List.mem_cons_of_mem _ (List.mem_cons_of_mem _ hmem)

/-- A free slot is one that no entry leads to. -/
theorem Represents.unused_of_free (h : Represents g c r) {s : Nat} (hs : c.Free s) (i : Nat) :
    c.table i ≠ .full s := by
  intro hi
  obtain ⟨q, hq⟩ := h.entry i s hi
  rcases hs with hs | hs <;> rw [hq.ready] at hs <;> cases hs

/-- **A slot is found**, and no entry leads to it; the other entries stay. -/
theorem findFreeSlot_spec (h : Represents g c r) :
    Represents g (c.findFreeSlot g).1 r ∧ (c.findFreeSlot g).2 < g.slotCount ∧
      (∀ i, (c.findFreeSlot g).1.table i ≠ .full (c.findFreeSlot g).2) ∧
      ∀ i t, (c.findFreeSlot g).1.table i = .full t →
        c.table i = .full t ∧ (c.findFreeSlot g).1.slots t = c.slots t := by
  obtain ⟨hmem, hfree⟩ := scanSlots_spec c (2 ^ 64 - 1) 0 (List.range g.slotCount)
  have hlt : (c.scanSlots (2 ^ 64 - 1) 0 (List.range g.slotCount)).1 < g.slotCount := by
    rcases List.mem_cons.mp hmem with hzero | hmem
    · rw [hzero]
      exact g.slotCount_pos
    · exact List.mem_range.mp hmem
  rw [Cache.findFreeSlot]
  rcases hscan : c.scanSlots (2 ^ 64 - 1) 0 (List.range g.slotCount) with ⟨s, _ | _⟩
  · rw [hscan] at hlt
    exact ⟨h.evict s, hlt, fun i hi => ((evict_table h).mp hi).2 rfl,
      fun i t hi => ⟨((evict_table h).mp hi).1, Function.update_of_ne ((evict_table h).mp hi).2 ..⟩⟩
  · rw [hscan] at hlt hfree
    exact ⟨h, hlt, h.unused_of_free (hfree rfl), fun i t hi => ⟨hi, rfl⟩⟩

theorem reached_findHashEntry (hash : UInt64) :
    Reached c.table (Cache.cells g hash) (c.findHashEntry g hash) :=
  reached_insertion (List.nil_append _).symm (fun j hj => absurd hj List.not_mem_nil)
    (fun j hj => by cases hj) (Reached.head (cells_head hash))

/-- **A store keeps what the file represents**, with the new response. -/
theorem Represents.storeInner (h : Represents g c r) (hsize : p.size ≤ g.slotDataSize) :
    Represents g (c.storeInner g p) (Function.update r p.key (some p)) := by
  rw [Cache.storeInner]
  cases hstored : c.findStored g p.key with
  | some s =>
      obtain ⟨i, q, hi, hq, hkey⟩ := findStored_eq_some h hstored
      exact h.writeSlot hi hq hkey hsize
  | none =>
      obtain ⟨h', hlt, hunused, htable⟩ := findFreeSlot_spec h
      refine h'.place hlt hunused (fun j t hj => ?_) (reached_findHashEntry _) hsize
      obtain ⟨hj, hslot⟩ := htable j t hj
      rw [hslot]
      exact findStored_eq_none h hstored hj

/-- **Every operation keeps what the file represents**. -/
theorem Represents.step (h : Represents g c r) (o : Operation) {c' : Cache}
    (hstep : c.step g o = some c') : Represents g c' (r.next g o) := by
  cases o with
  | store p =>
      rw [Cache.step, Cache.store] at hstep
      rw [Record.next]
      by_cases hsize : p.size ≤ g.slotDataSize
      · rw [if_neg (Nat.not_lt.mpr hsize)] at hstep
        rw [if_pos hsize]
        exact Option.some.inj hstep ▸ h.storeInner hsize
      · rw [if_pos (Nat.lt_of_not_le hsize)] at hstep
        rw [if_neg hsize]
        exact Option.some.inj hstep ▸ h
  | reset => exact Option.some.inj hstep ▸ represents_reset _
  | reopen => exact Option.some.inj hstep ▸ h.reopen

theorem lastPut_append (operations : List Operation) (o : Operation) :
    lastPut g (operations ++ [o]) = (lastPut g operations).next g o := by
  rw [lastPut, List.foldl_append]
  rfl

/-- What the file represents over a run. -/
theorem represents_run {operations : List Operation} (h : Represents g c r) {c' : Cache}
    (hrun : run (Cache.step g) c operations = some c') :
    Represents g c' (operations.foldl (Record.next g) r) := by
  induction operations generalizing c r with
  | nil => exact Option.some.inj hrun ▸ h
  | cons o operations ih =>
      obtain ⟨t, ht, hrun⟩ := run_cons_iff.mp hrun
      exact ih (h.step o ht) hrun

/-! ### Lookups -/

/-- What a lookup finds is the slot of the key. -/
theorem lookup_eq_some (h : Represents g c r) {key : List UInt8} {now s : Nat}
    (hs : c.lookup g key now = some s) : ∃ i p, Leads g c r i s p ∧ p.key = key ∧ p.Fresh now := by
  obtain ⟨i, t, -, hi, hanswer⟩ := search_eq_some (Option.join_eq_some_iff.mp hs)
  rw [Cache.found] at hanswer
  split at hanswer
  · rename_i hkey
    obtain ⟨p, hp⟩ := h.entry i t hi
    obtain ⟨old, hslot⟩ := hp.written
    have hanswer := Option.some.inj hanswer
    split at hanswer
    · cases hanswer
    · rename_i hfresh
      obtain rfl := Option.some.inj hanswer
      rw [hslot, Slot.write_timestamp] at hfresh
      exact ⟨i, p, hp, (hp.hasKey key).mp hkey.2.1, Nat.le_of_not_lt hfresh⟩
  · cases hanswer

/-- What is served for a key was stored last for it. -/
theorem Represents.serve (h : Represents g c r) {key : List UInt8} {now : Nat}
    {response : CachedResponse} (hserve : c.serve g key now = some response) :
    ∃ p, r key = some p ∧ response = p.response ∧ p.Fresh now := by
  obtain ⟨s, hs, hread⟩ := Option.bind_eq_some_iff.mp hserve
  obtain ⟨i, p, hp, rfl, hfresh⟩ := lookup_eq_some h hs
  obtain ⟨old, hslot⟩ := hp.written
  rw [readSlot_of_write hslot hp.fits] at hread
  exact ⟨p, hp.recorded, (Option.some.inj hread).symm, hfresh⟩

end Represents

/-- Two small slots, and a page. -/
def twoSlots : Geometry := ⟨2, 16, Nat.zero_lt_succ 1⟩

def page : Put := ⟨[7], 200, [1], [2, 3], 50⟩

end CorexManager.DiskCache
