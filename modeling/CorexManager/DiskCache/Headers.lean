import CorexManager.Rust.Lossy

/-!
# The headers of a stored response

`serialize_headers` and `parse_headers` of `disk_cache/src/lib.rs`: a name and a value are stored as the
name, a zero byte, the value and a line feed.

* `parseHeaders_serializeHeaders_iff` — the headers that are kept are read back exactly when no name has
  a zero byte and no value a line feed.
-/

namespace CorexManager.DiskCache

open Data (Text)
open Rust (asBytes fromUtf8Lossy fromUtf8Lossy_asBytes toAsciiLowercase zero_mem_asBytes)

/-- The headers of a message, each with its values. -/
abbrev Headers := List (Text × List (List UInt8))

/-- The headers that `serialize_headers` leaves out. -/
def leftOut : List Text :=
  ["transfer-encoding", "connection", "keep-alive", "x-cache", "x-cache-backend", "via", "x-varnish",
    "x-varnish-fetch", "set-cookie", "cache-control"].map String.toList

/-- The headers that are kept, with one value each. -/
def keptHeaders (headers : Headers) : List (Text × List UInt8) :=
  (headers.filter fun pair => !leftOut.contains (toAsciiLowercase pair.1)).flatMap fun pair =>
    pair.2.map fun value => (pair.1, value)

/-- A header as it is stored. -/
def serializePair (pair : Text × List UInt8) : List UInt8 := asBytes pair.1 ++ 0 :: pair.2 ++ [10]

/-- `serialize_headers` -/
def serializeHeaders : Headers → List UInt8
  | [] => []
  | (name, values) :: rest =>
      if leftOut.contains (toAsciiLowercase name) then serializeHeaders rest
      else (values.flatMap fun value => asBytes name ++ 0 :: value ++ [10]) ++ serializeHeaders rest

/-- What is before a byte, and what is after it. -/
def cutAt (b : UInt8) (data : List UInt8) : Option (List UInt8 × List UInt8) :=
  if b ∈ data then some (data.takeWhile (· != b), (data.dropWhile (· != b)).drop 1) else none

/-- The loop of `parse_headers`, which takes at least one byte each time. -/
def parseFrom : (steps : Nat) → List UInt8 → List (Text × List UInt8)
  | 0, _ => []
  | steps + 1, data =>
      match cutAt 0 data with
      | none => []
      | some (name, rest) =>
          match cutAt 10 rest with
          | none => []
          | some (value, rest) => (fromUtf8Lossy name, value) :: parseFrom steps rest

/-- `parse_headers` -/
def parseHeaders (data : List UInt8) : List (Text × List UInt8) := parseFrom data.length data

theorem serializeHeaders_eq (headers : Headers) :
    serializeHeaders headers = (keptHeaders headers).flatMap serializePair := by
  induction headers with
  | nil => rfl
  | cons pair headers ih =>
      rw [serializeHeaders, ih]
      cases hkept : leftOut.contains (toAsciiLowercase pair.1) with
      | true =>
          rw [if_pos rfl, keptHeaders, keptHeaders, List.filter_cons_of_neg (by rw [hkept]; decide)]
      | false =>
          rw [if_neg Bool.false_ne_true, keptHeaders, keptHeaders,
            List.filter_cons_of_pos (by rw [hkept]; rfl), List.flatMap_cons, List.flatMap_append,
            List.flatMap_map]
          rfl

/-- The first cut is where the byte is first. -/
theorem cutAt_append {b : UInt8} {before : List UInt8} (after : List UInt8) (h : b ∉ before) :
    cutAt b (before ++ b :: after) = some (before, after) := by
  have hall : ∀ x ∈ before, (x != b) = true := fun x hx => bne_iff_ne.mpr fun hxb => h (hxb ▸ hx)
  rw [cutAt, if_pos (List.mem_append_right _ List.mem_cons_self),
    List.takeWhile_append_of_pos hall, List.dropWhile_append_of_pos hall,
    List.takeWhile_cons_of_neg (by simp), List.dropWhile_cons_of_neg (by simp), List.append_nil]
  rfl

/-- A header can be told from what is behind it. -/
structure Separable (pair : Text × List UInt8) : Prop where
  name : Char.ofNat 0 ∉ pair.1
  value : 10 ∉ pair.2

section Pairs

variable {steps : Nat} {pair : Text × List UInt8} (rest : List UInt8)

/-- What the loop takes first. -/
theorem parseFrom_cons {name value : List UInt8} (hname : 0 ∉ name) (hvalue : 10 ∉ value) :
    parseFrom (steps + 1) (name ++ 0 :: (value ++ 10 :: rest)) =
      (fromUtf8Lossy name, value) :: parseFrom steps rest := by
  rw [parseFrom, cutAt_append _ hname]
  dsimp only
  rw [cutAt_append _ hvalue]

theorem serializePair_append : serializePair pair ++ rest =
    asBytes pair.1 ++ 0 :: (pair.2 ++ 10 :: rest) := by
  simp [serializePair]

theorem parseFrom_serializePair (h : Separable pair) :
    parseFrom (steps + 1) (serializePair pair ++ rest) = pair :: parseFrom steps rest := by
  rw [serializePair_append, parseFrom_cons rest (mt zero_mem_asBytes.mp h.name) h.value,
    fromUtf8Lossy_asBytes]

/-- A header that is read first is one that can be told apart: otherwise its name or its value ends too
early. -/
theorem separable_of_parseFrom {tail : List (Text × List UInt8)}
    (h : parseFrom (steps + 1) (serializePair pair ++ rest) = pair :: tail) : Separable pair := by
  rw [serializePair_append] at h
  have hlength {α : Type} {a : α} {u w : List α} (hsame : u = u ++ a :: w) : False := by
    have hlen := congrArg List.length hsame
    rw [List.length_append, List.length_cons] at hlen
    omega
  have hname : Char.ofNat 0 ∉ pair.1 := by
    intro hmem
    obtain ⟨u, w, hname, hu⟩ := List.eq_append_cons_of_mem hmem
    have hbytes : asBytes pair.1 ++ 0 :: (pair.2 ++ 10 :: rest) =
        asBytes u ++ 0 :: (asBytes w ++ 0 :: (pair.2 ++ 10 :: rest)) := by
      rw [hname, asBytes, List.flatMap_append, List.flatMap_cons, List.append_assoc]
      rfl
    rw [hbytes, parseFrom, cutAt_append _ (mt zero_mem_asBytes.mp hu)] at h
    dsimp only at h
    split at h
    · cases h
    · have hread := (Prod.ext_iff.mp (List.cons.inj h).1).1
      rw [fromUtf8Lossy_asBytes, hname] at hread
      exact hlength hread
  refine ⟨hname, fun hmem => ?_⟩
  obtain ⟨u, w, hvalue, hu⟩ := List.eq_append_cons_of_mem hmem
  rw [hvalue, List.append_assoc, List.cons_append, parseFrom_cons _ (mt zero_mem_asBytes.mp hname) hu] at h
  have hread := (Prod.ext_iff.mp (List.cons.inj h).1).2
  exact hlength (hread.trans hvalue)

theorem parseFrom_nil : parseFrom steps [] = [] := by
  cases steps with
  | zero => rfl
  | succ steps => rfl

end Pairs

/-- The headers are read back exactly if each of them can be told apart. -/
theorem parseFrom_flatMap_iff {steps : Nat} (pairs : List (Text × List UInt8))
    (hsteps : (pairs.flatMap serializePair).length ≤ steps) :
    parseFrom steps (pairs.flatMap serializePair) = pairs ↔ ∀ pair ∈ pairs, Separable pair := by
  induction pairs generalizing steps with
  | nil => exact iff_of_true parseFrom_nil fun pair hpair => absurd hpair List.not_mem_nil
  | cons pair pairs ih =>
      have hpair : 0 < (serializePair pair).length := by simp [serializePair]
      rw [List.flatMap_cons, List.length_append] at hsteps
      obtain ⟨steps, rfl⟩ := Nat.exists_eq_succ_of_ne_zero (by omega : steps ≠ 0)
      rw [List.flatMap_cons, List.forall_mem_cons]
      constructor
      · intro h
        have hseparable := separable_of_parseFrom _ h
        rw [parseFrom_serializePair _ hseparable] at h
        exact ⟨hseparable, (ih (by omega)).mp (List.cons.inj h).2⟩
      · rintro ⟨hseparable, hrest⟩
        rw [parseFrom_serializePair _ hseparable, (ih (by omega)).mpr hrest]

/-- **Stored headers are read back** as they were, without those that are left out, exactly when no name
has a zero character and no value a line feed. -/
theorem parseHeaders_serializeHeaders_iff (headers : Headers) :
    parseHeaders (serializeHeaders headers) = keptHeaders headers ↔
      ∀ pair ∈ keptHeaders headers, Separable pair := by
  rw [parseHeaders, serializeHeaders_eq]
  exact parseFrom_flatMap_iff _ (Nat.le_refl _)

end CorexManager.DiskCache
