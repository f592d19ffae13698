import CorexManager.Gateway.Discovery
import CorexManager.Logic.Transition

/-!
# Changes of catalogs

`CatalogStore` keeps the lists of every server in memory and in Valkey, and notes a change when
a catalog is stored over one with another hash; `pop_changed` returns the servers with a noted
change, for which clients are told that the lists changed.

* `step` — the operations of the store, with what clients were last told beside it.
* `Reports` — a change is noted for the servers whose lists are not the reported ones.
* `changes_reported_iff` — this holds throughout exactly those runs whose operations are `Noted`.
* `change_unreported` — a server comes back with other lists, and no change is noted.
-/

namespace CorexManager.CatalogChanges

open Data (Text)
open Gateway (Catalog)
open Transition

/-- A catalog without lists. -/
def noLists : Catalog := ⟨[], [], []⟩

/-- What `CatalogStore` has of a server in its maps and in Valkey, and what was reported. -/
structure Entry where
  cache : Option Catalog
  hash : Option Text
  changed : Bool
  valkey : Option Catalog
  /-- The lists of which clients know. -/
  reported : Catalog

/-- An operation, and whether Valkey replied to it. -/
inductive Act where
  /-- `store`, after a successful fetch. -/
  | store (serverId : Int) (catalog : Catalog) (replied : Bool)
  | get (serverId : Int) (replied : Bool)
  | popChanged
  /-- `clear`, also after a failed fetch. -/
  | clear (serverId : Int) (replied : Bool)
  | clearAll
  /-- The time to live of a catalog in Valkey is over. -/
  | timeout (serverId : Int)

section Operations

variable (computeHash : Catalog → Text)

namespace Entry

variable (e : Entry)

/-- The lists that are stored. -/
def lists : Catalog := (e.cache.or e.valkey).getD noLists

/-- `store`. -/
def store (catalog : Catalog) (replied : Bool) : Entry :=
  { e with
    cache := some catalog
    hash := some (computeHash catalog)
    changed := e.changed || e.hash.any fun old => old != computeHash catalog
    valkey := if replied then some catalog else e.valkey }

/-- `get`, which keeps a catalog of Valkey in memory. -/
def get (replied : Bool) : Entry :=
  if e.cache.isNone && replied then { e with cache := e.valkey } else e

/-- `pop_changed`: clients whose lists changed ask for them. -/
def popChanged : Entry :=
  { e with changed := false, reported := if e.changed then e.lists else e.reported }

/-- `clear`. -/
def clear (replied : Bool) : Entry :=
  { e with cache := none, hash := none, valkey := if replied then none else e.valkey }

/-- `clear_all`, which leaves Valkey as it is. -/
def clearAll : Entry := { e with cache := none, hash := none, changed := false }

/-- The catalog in Valkey is gone. -/
def timeout : Entry := { e with valkey := none }

end Entry

/-- An operation on the entries of all servers. -/
def step (s : Int → Entry) : Act → Option (Int → Entry)
  | .store serverId catalog replied =>
      some (Function.update s serverId ((s serverId).store computeHash catalog replied))
  | .get serverId replied => some (Function.update s serverId ((s serverId).get replied))
  | .popChanged => some fun k => (s k).popChanged
  | .clear serverId replied => some (Function.update s serverId ((s serverId).clear replied))
  | .clearAll => some fun k => (s k).clearAll
  | .timeout serverId => some (Function.update s serverId (s serverId).timeout)

end Operations

/-- An empty store, of which clients know that it is. -/
def start : Int → Entry := fun _ => ⟨none, none, false, none, noLists⟩

/-! ### Changes that are reported -/

/-- **What `pop_changed` reports**: a change is noted when the lists are not those that were
reported last. -/
def Reports (e : Entry) : Prop := e.changed = true ↔ e.lists ≠ e.reported

/-- An operation whose effect on the lists is noted.

* The lists clients know are stored only while no change is noted, and others only when one is
  noted already or the hash of a catalog is kept and theirs is another.
* Lists are removed, from memory or from Valkey, only if those that are left, in Valkey or in
  memory, are the reported ones exactly when no change is noted. -/
def Noted (computeHash : Catalog → Text) (s : Int → Entry) : Act → Prop
  | .store serverId catalog _ =>
      (catalog = (s serverId).reported → (s serverId).changed = false) ∧
        (catalog ≠ (s serverId).reported → (s serverId).changed = true ∨
          (s serverId).hash.isSome ∧
            computeHash catalog ≠ computeHash (s serverId).reported)
  | .clear serverId replied =>
      (s serverId).changed = true ↔
        (if replied then none else (s serverId).valkey).getD noLists ≠ (s serverId).reported
  | .clearAll => ∀ k, (s k).valkey.getD noLists = (s k).reported
  | .timeout serverId =>
      (s serverId).changed = true ↔ (s serverId).cache.getD noLists ≠ (s serverId).reported
  | _ => True

/-- A hash that is kept is that of the catalog in memory. -/
def Hashed (computeHash : Catalog → Text) (e : Entry) : Prop :=
  e.hash = none ∨ e.hash = e.cache.map computeHash

variable {computeHash : Catalog → Text} {e : Entry} {catalog : Catalog} {replied : Bool}

theorem Hashed.get (h : Hashed computeHash e) : Hashed computeHash (e.get replied) := by
  unfold Entry.get
  split
  · next hfill =>
      have hcache : e.cache = none := by
        rw [Bool.and_eq_true, Option.isNone_iff_eq_none] at hfill
        exact hfill.1
      refine .inl (h.elim id fun hhash => ?_)
      rw [hhash, hcache]
      rfl
  · exact h

/-- The hash that is kept is that of the lists. -/
theorem Hashed.lists (h : Hashed computeHash e) {old : Text} (hold : e.hash = some old) :
    old = computeHash e.lists := by
  rcases h with hnone | hhash
  · cases hnone.symm.trans hold
  · rw [hold] at hhash
    obtain ⟨c, hc, rfl⟩ := Option.map_eq_some_iff.mp hhash.symm
    rw [Entry.lists, hc]
    rfl

/-- A catalog is stored and noted. -/
theorem store_reports_iff (hhash : Hashed computeHash e) (h : Reports e) :
    ((catalog = e.reported → e.changed = false) ∧ (catalog ≠ e.reported → e.changed = true ∨
        e.hash.isSome ∧ computeHash catalog ≠ computeHash e.reported)) ↔
      Reports (e.store computeHash catalog replied) := by
  have hlists : (e.store computeHash catalog replied).lists = catalog := rfl
  have hreported : (e.store computeHash catalog replied).reported = e.reported := rfl
  have hchanged : (e.store computeHash catalog replied).changed = true ↔
      e.changed = true ∨ ∃ old, e.hash = some old ∧ old ≠ computeHash catalog := by
    show (e.changed || e.hash.any fun old => old != computeHash catalog) = true ↔ _
    rw [Bool.or_eq_true, Option.any_eq_true]
    simp only [bne_iff_ne]
  rw [Reports, hlists, hreported, hchanged]
  -- while no change is noted, the hash that is kept is that of the reported lists
  have hkept : e.changed = false → ∀ old, e.hash = some old → old = computeHash e.reported := by
    intro hnot old hold
    have hsame : e.lists = e.reported := by
      by_contra hne
      exact Bool.false_ne_true (hnot.symm.trans (h.mpr hne))
    rw [hhash.lists hold, hsame]
  by_cases hsame : catalog = e.reported
  · constructor
    · rintro ⟨hnot, -⟩
      refine iff_of_false ?_ (not_not.mpr hsame)
      rintro (hnoted | ⟨old, hold, hne⟩)
      · exact Bool.false_ne_true ((hnot hsame).symm.trans hnoted)
      · exact hne ((hkept (hnot hsame) old hold).trans (congrArg computeHash hsame.symm))
    · intro hiff
      refine ⟨fun _ => ?_, fun hne => absurd hsame hne⟩
      by_contra hnoted
      exact hiff.mp (.inl (Bool.not_eq_false _ ▸ hnoted)) hsame
  · constructor
    · rintro ⟨-, hnoted⟩
      refine iff_of_true ?_ hsame
      rcases hnoted hsame with hnoted | ⟨hsome, hne⟩
      · exact .inl hnoted
      · cases hchange : e.changed with
        | true => exact .inl rfl
        | false =>
            obtain ⟨old, hold⟩ := Option.isSome_iff_exists.mp hsome
            exact .inr ⟨old, hold, fun heq => hne (heq.symm.trans (hkept hchange old hold))⟩
    · intro hiff
      refine ⟨fun heq => absurd heq hsame, fun _ => ?_⟩
      rcases hiff.mpr hsame with hnoted | ⟨old, hold, hne⟩
      · exact .inl hnoted
      · cases hchange : e.changed with
        | true => exact .inl rfl
        | false =>
            refine .inr ⟨Option.isSome_iff_exists.mpr ⟨old, hold⟩, fun heq => hne ?_⟩
            exact (hkept hchange old hold).trans heq.symm

/-- What is read does not change the lists. -/
theorem get_reports (h : Reports e) : Reports (e.get replied) := by
  unfold Entry.get
  split
  · next hfill =>
      have hcache : e.cache = none := by
        rw [Bool.and_eq_true, Option.isNone_iff_eq_none] at hfill
        exact hfill.1
      have hlists : ({ e with cache := e.valkey } : Entry).lists = e.lists := by
        rw [Entry.lists, Entry.lists, hcache]
        cases e.valkey <;> rfl
      rw [Reports, hlists]
      exact h
  · exact h

theorem popChanged_reports (h : Reports e) : Reports e.popChanged := by
  have hreported : e.popChanged.lists = e.popChanged.reported := by
    show e.lists = if e.changed then e.lists else e.reported
    split
    · rfl
    · next hnot =>
        by_contra hne
        exact hnot (h.mpr hne)
  exact iff_of_false Bool.false_ne_true (not_not.mpr hreported)

/-! ### Runs -/

variable {s s' : Int → Entry} {a : Act} {as : List Act}

theorem step_total (s : Int → Entry) (a : Act) : ∃ s', step computeHash s a = some s' := by
  cases a <;> exact ⟨_, rfl⟩

theorem step_hashed (h : ∀ k, Hashed computeHash (s k)) (hstep : step computeHash s a = some s') :
    ∀ k, Hashed computeHash (s' k) := by
  have hupdate : ∀ serverId e, Hashed computeHash e →
      ∀ k, Hashed computeHash (Function.update s serverId e k) := fun serverId e he =>
    (Function.forall_update_iff s fun _ => Hashed computeHash).mpr ⟨he, fun k _ => h k⟩
  cases a with
  | store serverId catalog replied =>
      exact Option.some.inj hstep ▸ hupdate _ _ (.inr rfl)
  | get serverId replied => exact Option.some.inj hstep ▸ hupdate _ _ (h serverId).get
  | popChanged => exact Option.some.inj hstep ▸ fun k => h k
  | clear serverId replied => exact Option.some.inj hstep ▸ hupdate _ _ (.inl rfl)
  | clearAll => exact Option.some.inj hstep ▸ fun k => .inl rfl
  | timeout serverId => exact Option.some.inj hstep ▸ hupdate _ _ (h serverId)

theorem step_reports_iff (hhash : ∀ k, Hashed computeHash (s k)) (h : ∀ k, Reports (s k))
    (hstep : step computeHash s a = some s') : Noted computeHash s a ↔ ∀ k, Reports (s' k) := by
  have hupdate : ∀ serverId e, (∀ k, Reports (Function.update s serverId e k)) ↔ Reports e :=
    fun serverId e => (Function.forall_update_iff s fun _ => Reports).trans
      (and_iff_left fun k _ => h k)
  cases a with
  | store serverId catalog replied =>
      obtain rfl := Option.some.inj hstep
      rw [hupdate]
      exact store_reports_iff (hhash serverId) (h serverId)
  | get serverId replied =>
      obtain rfl := Option.some.inj hstep
      rw [hupdate]
      exact iff_of_true trivial (get_reports (h serverId))
  | popChanged =>
      obtain rfl := Option.some.inj hstep
      exact iff_of_true trivial fun k => popChanged_reports (h k)
  | clear serverId replied =>
      obtain rfl := Option.some.inj hstep
      rw [hupdate]
      rfl
  | clearAll =>
      obtain rfl := Option.some.inj hstep
      refine forall_congr' fun k => ?_
      show _ ↔ (false = true ↔ (s k).valkey.getD noLists ≠ (s k).reported)
      rw [iff_false_left Bool.false_ne_true, not_not]
  | timeout serverId =>
      obtain rfl := Option.some.inj hstep
      rw [hupdate, Reports, Entry.lists]
      show _ ↔ (_ ↔ ((s serverId).cache.or none).getD noLists ≠ _)
      rw [Option.or_none]
      rfl

/-- **Changes are reported exactly in noted runs.** -/
theorem changes_reported_iff (computeHash : Catalog → Text) (as : List Act) :
    (∀ bs t, bs <+: as → run (step computeHash) start bs = some t → ∀ k, Reports (t k)) ↔
      Along (step computeHash) (Noted computeHash) start as := by
  have htotal : ∀ (s : Int → Entry) a, ∃ s', step computeHash s a = some s' := step_total
  obtain ⟨s, hs⟩ := run_total htotal start as
  exact (along_iff_throughout (C := Noted computeHash) (J := fun s => ∀ k, Hashed computeHash (s k))
    (I := fun s => ∀ k, Reports (s k)) (fun _ _ _ h hstep => step_hashed h hstep)
    (fun _ _ _ hhash h hstep => step_reports_iff hhash h hstep) (fun _ => .inl rfl)
    (fun _ => iff_of_false Bool.false_ne_true (not_not.mpr rfl)) hs).symm

/-! ### A server that comes back -/

/-- A catalog with one tool. -/
def oneTool (name : String) : Catalog := ⟨[.str name.toList], [], []⟩

/-- A hash that tells catalogs with one tool from those without. -/
def toolHash (catalog : Catalog) : Text :=
  (catalog.tools.filterMap Data.Json.asStr).flatten

/-- The lists of a server are reported; then they cannot be fetched, and then they are others. -/
def comeBack : List Act :=
  [.store 1 noLists false, .store 1 (oneTool "a") false, .popChanged, .clear 1 false,
    .store 1 (oneTool "b") false]

/-- The lists of a server change and change back. -/
def backAndForth : List Act :=
  [.store 1 noLists false, .store 1 (oneTool "a") false, .store 1 noLists false]

/-- No change is noted for other lists, and one is noted for the same lists. -/
theorem change_unreported :
    (¬ ∀ t, run (step toolHash) start comeBack = some t → ∀ k, Reports (t k)) ∧
      ¬ ∀ t, run (step toolHash) start backAndForth = some t → ∀ k, Reports (t k) := by
  constructor
  · intro h
    have hreports := h _ (Option.some_get (x := run (step toolHash) start comeBack) rfl).symm 1
    refine Bool.false_ne_true (hreports.mpr fun hsame => ?_)
    have htools : [Data.Json.str "b".toList] = [Data.Json.str "a".toList] :=
      congrArg Catalog.tools hsame
    exact absurd htools (by decide)
  · intro h
    have hreports := h _ (Option.some_get (x := run (step toolHash) start backAndForth) rfl).symm 1
    exact hreports.mp rfl rfl

end CorexManager.CatalogChanges
