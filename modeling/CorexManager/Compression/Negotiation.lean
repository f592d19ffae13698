import CorexManager.Rust.Float
import Mathlib.Algebra.Order.Ring.Unbundled.Rat

/-!
# The negotiated encoding

`preferred_encoding` of the compression filter: of the encodings that are enabled the one with the
greatest weight in `Accept-Encoding`, and Brotli of two with the same.  It reads the names of the
header as they are written, and the weights behind `;q=` as `f32`; `*`, other letters and blanks
around the semicolon are read as other encodings.

* `preferredEncoding` — the function; its choice is `preferredEncoding_fst`.
* `asked` — the weight that a header gives an encoding, as a rational.
* `Negotiated` — what is to be chosen.
* `negotiated_iff` — it is, for every set of enabled encodings, exactly when the weights that are
  read have the signs and the order of those that are asked for.
-/

namespace CorexManager.Compression

open Data (Text)
open Rust (Decimal Weight parseF32 rank split splitOnce toAsciiLowercase trim)

/-! ### The function -/

/-- The encodings that can be enabled. -/
inductive Encoding where
  | br
  | zstd
  deriving DecidableEq, Repr

/-- The name of an encoding. -/
def Encoding.name : Encoding → Text
  | .br => "br".toList
  | .zstd => "zstd".toList

/-- `str::split_once` at a text. -/
def splitOnceAt (pattern : Text) : Text → Option (Text × Text)
  | [] => if pattern = [] then some ([], []) else none
  | c :: t =>
      if pattern <+: c :: t then some ([], (c :: t).drop pattern.length)
      else (splitOnceAt pattern t).map fun r => (c :: r.1, r.2)

/-- The elements of the header, without blanks around them. -/
def elements (values : List Text) : List Text :=
  values.flatMap fun v => ((split ',' v).map trim).filter fun tok => !tok.isEmpty

/-- The weight that is read; what is no number from zero to one is unacceptable. -/
def readQ (q : Text) : Float32 :=
  match parseF32 (trim q) with
  | some f => if 0.0 ≤ f ∧ f ≤ 1.0 then f else 0.0
  | none => 0.0

/-- An element is read as an encoding and its weight. -/
def offer (tok : Text) : Text × Float32 :=
  match splitOnceAt ";q=".toList tok with
  | some (e, q) => (trim e, readQ q)
  | none => (tok, 1.0)

/-- The encodings that are offered. -/
def offered (values : List Text) : List (Text × Float32) := (elements values).map offer

section Choice

variable (brotliEnabled zstdEnabled : Bool)

/-- An encoding is enabled, by its name. -/
def supported (enc : Text) : Bool :=
  if enc = "br".toList then brotliEnabled
  else if enc = "zstd".toList then zstdEnabled
  else false

/-- One turn of the loop over the offers. -/
def choose (best : Text × Float32) (o : Text × Float32) : Text × Float32 :=
  if o.2 ≤ 0.0 then best
  else if !supported brotliEnabled zstdEnabled o.1 then best
  else if best.2 < o.2 ∨ o.2 == best.2 ∧ o.1 = "br".toList ∧ best.1 ≠ "br".toList then o
  else best

/-- `preferred_encoding`: the name of the encoding, and its weight. -/
def preferredEncoding (values : List Text) : Text × Float32 :=
  (offered values).foldl (choose brotliEnabled zstdEnabled) ([], 0.0)

end Choice

/-! ### What it should choose -/

/-- The value of a weight as a rational; what is none from zero to one is unacceptable. -/
def qvalue (q : Text) : ℚ :=
  match Decimal.parse (trim q) with
  | some d => if 0 ≤ d.toRat ∧ d.toRat ≤ 1 then d.toRat else 0
  | none => 0

/-- The text of a weight, if a parameter is one. -/
def weightText (param : Text) : Option Text :=
  (splitOnce '=' param).bind fun p => if toAsciiLowercase (trim p.1) = ['q'] then some p.2 else none

/-- The coding of an element in small letters, and its weight, which is one unless there is one. -/
def coding (tok : Text) : Text × ℚ :=
  match split ';' tok with
  | [] => ([], 1)
  | name :: params =>
      (toAsciiLowercase (trim name), ((params.findSome? weightText).map qvalue).getD 1)

/-- The weights that a header gives a coding. -/
def weights (values : List Text) (name : Text) : List ℚ :=
  (((elements values).map coding).filter fun c => c.1 == name).map Prod.snd

/-- The weight of a coding that is named: none if one of its weights is zero. -/
def combined (ws : List ℚ) : ℚ := if 0 ∈ ws then 0 else ws.foldl max 0

/-- The weight that a header gives an encoding: its own, or that of `*`. -/
def asked (values : List Text) (e : Encoding) : ℚ :=
  if weights values e.name = [] then combined (weights values ['*'])
  else combined (weights values e.name)

/-- **An encoding is negotiated**: one that is enabled, acceptable and of the greatest weight of
those, or none if there is no such. -/
def Negotiated (values : List Text) (enabled : Encoding → Bool) (result : Text) : Prop :=
  (result = [] ∧ ∀ e, enabled e = true → asked values e ≤ 0) ∨
    ∃ e, result = e.name ∧ enabled e = true ∧ 0 < asked values e ∧
      ∀ e', enabled e' = true → asked values e' ≤ asked values e

/-- The greater of a weight and that of an offer, if it is of the encoding. -/
def heavier (e : Encoding) (m : Float32) (o : Text × Float32) : Float32 :=
  if o.1 = e.name ∧ m < o.2 then o.2 else m

/-- The weight that is read of an encoding: the greatest of those behind its name. -/
def readWeight (values : List Text) (e : Encoding) : Float32 :=
  (offered values).foldl (heavier e) 0.0

/-- The weights that are read have the signs and the order of those that are asked for. -/
structure ReadsWeights (values : List Text) : Prop where
  sign e : 0.0 < readWeight values e ↔ 0 < asked values e
  brFirst : asked values .zstd < asked values .br →
    ¬ readWeight values .br < readWeight values .zstd
  zstdFirst : asked values .br < asked values .zstd →
    readWeight values .br < readWeight values .zstd

/-! ### The choice by ranks -/

section Ranks

variable {α : Type*} [LinearOrder α] [OrderBot α] (b z : Bool)

/-- The loop, where weights are compared by an order. -/
def chooseBy (best o : Text × α) : Text × α :=
  if o.2 = ⊥ then best
  else if !supported b z o.1 then best
  else if best.2 < o.2 ∨ o.2 = best.2 ∧ o.1 = "br".toList ∧ best.1 ≠ "br".toList then o
  else best

/-- The choice between two weights. -/
def pick (wb wz : α) : Text × α :=
  if b = true ∧ wb ≠ ⊥ ∧ (z = true → wz ≤ wb) then ("br".toList, wb)
  else if z = true ∧ wz ≠ ⊥ then ("zstd".toList, wz)
  else ([], ⊥)

/-- One turn of the loop keeps the choice between the greatest weights so far. -/
theorem chooseBy_pick (wb wz : α) (o : Text × α) :
    chooseBy b z (pick b z wb wz) o =
      pick b z (if o.1 = "br".toList then max wb o.2 else wb)
        (if o.1 = "zstd".toList then max wz o.2 else wz) := by
  obtain ⟨enc, w⟩ := o
  have hne : "zstd".toList ≠ "br".toList := by decide
  have hbot : ∀ v : α, v ≤ ⊥ ↔ v = ⊥ := fun v => le_bot_iff
  have hle : ∀ v : α, ⊥ ≤ v := fun v => bot_le
  by_cases hw : w = ⊥
  · subst hw
    simp [chooseBy]
  by_cases hbr : enc = "br".toList
  · subst hbr
    simp only [chooseBy, hw, if_false, if_true, hne.symm, supported]
    cases b <;> cases z <;> simp [pick] <;> grind
  by_cases hzstd : enc = "zstd".toList
  · subst hzstd
    simp only [chooseBy, hw, if_false, if_true, hne, supported]
    cases b <;> cases z <;> simp [pick] <;> grind
  -- other names are never supported
  · have hno : (!supported b z enc) = true := by rw [supported, if_neg hbr, if_neg hzstd]; rfl
    rw [if_neg hbr, if_neg hzstd, chooseBy, if_neg hw, if_pos hno]

end Ranks

/-! ### The choice by weights -/

/-- An offer with the rank of its weight. -/
def ranked (o : Text × Float32) : Text × WithBot (Lex (ℤ × ℕ)) := (o.1, rank o.2)

theorem weight_readQ (q : Text) : Weight (readQ q) := by
  unfold readQ
  split
  · split
    · next f _ hf => exact Rust.weight_of_mem hf.1 hf.2
    · exact Rust.weight_zero
  · exact Rust.weight_zero

/-- Every offer has a weight. -/
theorem weight_offered {values : List Text} {o : Text × Float32} (h : o ∈ offered values) :
    Weight o.2 := by
  obtain ⟨tok, -, rfl⟩ := List.mem_map.mp h
  unfold offer
  split
  · exact weight_readQ _
  · exact Rust.weight_one

section Loop

variable {b z : Bool}

/-- The loop compares weights by their ranks. -/
theorem ranked_choose {best o : Text × Float32} (hbest : Weight best.2) (ho : Weight o.2) :
    ranked (choose b z best o) = chooseBy b z (ranked best) (ranked o) := by
  have hzero : o.2 ≤ 0.0 ↔ (ranked o).2 = ⊥ := Rust.rank_le_zero ho
  have hlt : best.2 < o.2 ↔ (ranked best).2 < (ranked o).2 := Rust.rank_lt hbest ho
  have heq : (o.2 == best.2) = true ↔ (ranked o).2 = (ranked best).2 := Rust.rank_beq ho hbest
  unfold choose chooseBy
  simp only [hzero, hlt, heq, apply_ite ranked]
  rfl

theorem weight_choose {best o : Text × Float32} (hbest : Weight best.2) (ho : Weight o.2) :
    Weight (choose b z best o).2 := by
  unfold choose
  split
  · exact hbest
  · split
    · exact hbest
    · split
      · exact ho
      · exact hbest

theorem rank_heavier {e : Encoding} {m : Float32} {o : Text × Float32} (hm : Weight m)
    (ho : Weight o.2) : rank (heavier e m o) = if o.1 = e.name then max (rank m) (rank o.2)
      else rank m := by
  unfold heavier
  by_cases hname : o.1 = e.name
  · rw [if_pos hname]
    by_cases hlt : m < o.2
    · rw [if_pos ⟨hname, hlt⟩, max_eq_right ((Rust.rank_lt hm ho).mp hlt).le]
    · rw [if_neg fun h => hlt h.2, max_eq_left (not_lt.mp ((Rust.rank_lt hm ho).not.mp hlt))]
  · rw [if_neg hname, if_neg fun h => hname h.1]

theorem weight_heavier {e : Encoding} {m : Float32} {o : Text × Float32} (hm : Weight m)
    (ho : Weight o.2) : Weight (heavier e m o) := by
  unfold heavier
  split
  · exact ho
  · exact hm

/-- **The loop chooses between the weights that are read of the two encodings.** -/
theorem ranked_foldl_choose {os : List (Text × Float32)} (hos : ∀ o ∈ os, Weight o.2)
    {best : Text × Float32} {mb mz : Float32} (hbest : Weight best.2) (hmb : Weight mb)
    (hmz : Weight mz) (h : ranked best = pick b z (rank mb) (rank mz)) :
    ranked (os.foldl (choose b z) best) =
      pick b z (rank (os.foldl (heavier .br) mb)) (rank (os.foldl (heavier .zstd) mz)) := by
  induction os generalizing best mb mz with
  | nil => exact h
  | cons o os ih =>
      obtain ⟨ho, hos⟩ := List.forall_mem_cons.mp hos
      refine ih hos (weight_choose hbest ho) (weight_heavier hmb ho) (weight_heavier hmz ho) ?_
      rw [ranked_choose hbest ho, h, chooseBy_pick, rank_heavier hmb ho, rank_heavier hmz ho]
      rfl

end Loop

/-- What is chosen. -/
theorem preferredEncoding_fst (b z : Bool) (values : List Text) :
    (preferredEncoding b z values).1 =
      (pick b z (rank (readWeight values .br)) (rank (readWeight values .zstd))).1 := by
  have hstart : ranked ([], 0.0) = pick b z (rank 0.0) (rank 0.0) := by
    simp [ranked, pick]
  have hfold := @ranked_foldl_choose b z (offered values) (fun o ho => weight_offered ho)
    ([], 0.0) 0.0 0.0 Rust.weight_zero Rust.weight_zero Rust.weight_zero hstart
  rw [readWeight, readWeight, ← hfold]
  rfl

theorem weight_foldl_heavier {e : Encoding} {os : List (Text × Float32)}
    (hos : ∀ o ∈ os, Weight o.2) {m : Float32} (hm : Weight m) : Weight (os.foldl (heavier e) m) := by
  induction os generalizing m with
  | nil => exact hm
  | cons o os ih =>
      obtain ⟨ho, hos⟩ := List.forall_mem_cons.mp hos
      exact ih hos (weight_heavier hm ho)

theorem weight_readWeight (values : List Text) (e : Encoding) : Weight (readWeight values e) :=
  weight_foldl_heavier (fun _ ho => weight_offered ho) Rust.weight_zero

/-! ### When the choice is right -/

/-- The set of one encoding. -/
def only (e : Encoding) : Encoding → Bool := fun e' => decide (e' = e)

/-- A set of encodings, as `preferred_encoding` is given it. -/
def preferred (enabled : Encoding → Bool) (values : List Text) : Text :=
  (preferredEncoding (enabled .br) (enabled .zstd) values).1

theorem name_ne_nil (e : Encoding) : e.name ≠ [] := by cases e <;> decide

theorem name_inj {e e' : Encoding} (h : e.name = e'.name) : e = e' := by
  revert h
  cases e <;> cases e' <;> decide

/-- The encoding that is chosen, by the weights that are read. -/
theorem preferred_eq (enabled : Encoding → Bool) (values : List Text) :
    preferred enabled values =
      if enabled .br = true ∧ 0.0 < readWeight values .br ∧ (enabled .zstd = true →
          ¬ readWeight values .br < readWeight values .zstd) then Encoding.br.name
      else if enabled .zstd = true ∧ 0.0 < readWeight values .zstd then Encoding.zstd.name
      else [] := by
  have hpos : ∀ e, 0.0 < readWeight values e ↔ rank (readWeight values e) ≠ ⊥ := fun e => by
    rw [Rust.rank_lt Rust.weight_zero (weight_readWeight values e), Rust.rank_zero, bot_lt_iff_ne_bot]
  rw [preferred, preferredEncoding_fst, pick]
  simp only [hpos, Rust.rank_lt (weight_readWeight values .br) (weight_readWeight values .zstd),
    not_lt]
  split
  · rfl
  · split <;> rfl

theorem combined_nonneg (ws : List ℚ) : 0 ≤ combined ws := by
  have hfold : ∀ (ws : List ℚ) (m : ℚ), 0 ≤ m → 0 ≤ ws.foldl max m := by
    intro ws
    induction ws with
    | nil => exact fun _ hm => hm
    | cons w ws ih => exact fun m hm => ih _ (hm.trans (le_max_left m w))
  unfold combined
  split
  · exact le_refl 0
  · exact hfold ws 0 (le_refl 0)

theorem asked_nonneg (values : List Text) (e : Encoding) : 0 ≤ asked values e := by
  unfold asked
  split <;> exact combined_nonneg _

/-- A weight that is greater than another is positive. -/
theorem readWeight_pos_of_lt {values : List Text} {e e' : Encoding}
    (h : readWeight values e < readWeight values e') : 0.0 < readWeight values e' := by
  rw [Rust.rank_lt (weight_readWeight values e) (weight_readWeight values e')] at h
  rw [Rust.rank_lt Rust.weight_zero (weight_readWeight values e'), Rust.rank_zero]
  exact bot_le.trans_lt h

/-- A weight that is not less than a positive one is positive. -/
theorem readWeight_pos_of_not_lt {values : List Text} {e e' : Encoding}
    (h : ¬ readWeight values e < readWeight values e') (hpos : 0.0 < readWeight values e') :
    0.0 < readWeight values e := by
  rw [Rust.rank_lt (weight_readWeight values e) (weight_readWeight values e'), not_lt] at h
  rw [Rust.rank_lt Rust.weight_zero (weight_readWeight values e')] at hpos
  rw [Rust.rank_lt Rust.weight_zero (weight_readWeight values e)]
  exact hpos.trans_le h

/-- A name that is negotiated is that of an encoding of the greatest weight. -/
theorem Negotiated.of_name {values : List Text} {enabled : Encoding → Bool} {e : Encoding}
    (h : Negotiated values enabled e.name) :
    0 < asked values e ∧ ∀ e', enabled e' = true → asked values e' ≤ asked values e := by
  rcases h with ⟨hnil, -⟩ | ⟨e', hname, -, hpos, hmax⟩
  · exact absurd hnil (name_ne_nil e)
  · obtain rfl := name_inj hname
    exact ⟨hpos, hmax⟩

/-- Nothing is negotiated if no encoding is acceptable. -/
theorem Negotiated.of_nil {values : List Text} {enabled : Encoding → Bool}
    (h : Negotiated values enabled []) : ∀ e, enabled e = true → asked values e ≤ 0 := by
  rcases h with ⟨-, hnone⟩ | ⟨e, hname, -⟩
  · exact hnone
  · exact absurd hname.symm (name_ne_nil e)

/-- With one encoding enabled it is chosen if its weight is read as positive. -/
theorem preferred_only (e : Encoding) (values : List Text) :
    preferred (only e) values = if 0.0 < readWeight values e then e.name else [] := by
  rw [preferred_eq]
  cases e <;> simp [only]

/-- **When the negotiation is right**: for every set of enabled encodings, exactly when the weights
that are read have the signs and the order of those that are asked for. -/
theorem negotiated_iff (values : List Text) :
    (∀ enabled, Negotiated values enabled (preferred enabled values)) ↔ ReadsWeights values := by
  constructor
  · intro h
    have hsign : ∀ e, 0.0 < readWeight values e ↔ 0 < asked values e := by
      intro e
      have honly := h (only e)
      rw [preferred_only] at honly
      by_cases hpos : 0.0 < readWeight values e
      · rw [if_pos hpos] at honly
        exact iff_of_true hpos honly.of_name.1
      · rw [if_neg hpos] at honly
        exact iff_of_false hpos (not_lt.mpr (honly.of_nil e (decide_eq_true rfl)))
    have hboth := h fun _ => true
    rw [preferred_eq] at hboth
    refine ⟨hsign, fun hasked hlt => ?_, fun hasked => ?_⟩
    · rw [if_neg fun hbr => hbr.2.2 rfl hlt, if_pos ⟨rfl, readWeight_pos_of_lt hlt⟩] at hboth
      exact absurd hasked (not_lt.mpr (hboth.of_name.2 .br rfl))
    · by_contra hlt
      have hzstd : 0.0 < readWeight values .zstd :=
        (hsign .zstd).mpr ((asked_nonneg values .br).trans_lt hasked)
      rw [if_pos ⟨rfl, readWeight_pos_of_not_lt hlt hzstd, fun _ => hlt⟩] at hboth
      exact absurd hasked (not_lt.mpr (hboth.of_name.2 .zstd rfl))
  · intro h enabled
    rw [preferred_eq]
    by_cases hbr : enabled .br = true ∧ 0.0 < readWeight values .br ∧
        (enabled .zstd = true → ¬ readWeight values .br < readWeight values .zstd)
    · rw [if_pos hbr]
      refine .inr ⟨.br, rfl, hbr.1, (h.sign .br).mp hbr.2.1, fun e he => ?_⟩
      cases e with
      | br => exact le_refl _
      | zstd => exact not_lt.mp fun hasked => hbr.2.2 he (h.zstdFirst hasked)
    rw [if_neg hbr]
    by_cases hzstd : enabled .zstd = true ∧ 0.0 < readWeight values .zstd
    · rw [if_pos hzstd]
      refine .inr ⟨.zstd, rfl, hzstd.1, (h.sign .zstd).mp hzstd.2, fun e he => ?_⟩
      cases e with
      | zstd => exact le_refl _
      | br =>
          refine not_lt.mp fun hasked => hbr ⟨he, ?_, fun _ => h.brFirst hasked⟩
          exact (h.sign .br).mpr ((asked_nonneg values .zstd).trans_lt hasked)
    · rw [if_neg hzstd]
      refine .inl ⟨rfl, fun e he => not_lt.mp fun hpos => ?_⟩
      cases e with
      | zstd => exact hzstd ⟨he, (h.sign .zstd).mpr hpos⟩
      | br => exact hbr ⟨he, (h.sign .br).mpr hpos, fun hz hlt =>
          hzstd ⟨hz, readWeight_pos_of_lt hlt⟩⟩

/-- Nothing is chosen although the encoding is asked for. -/
theorem not_negotiated_of_nil {values : List Text} {e : Encoding}
    (hnone : preferred (only e) values = []) (hasked : 0 < asked values e) :
    ¬ Negotiated values (only e) (preferred (only e) values) := by
  rw [hnone]
  exact fun h => absurd hasked (not_lt.mpr (h.of_nil e (decide_eq_true rfl)))

/-- **Weights that are not read**: behind a blank, and that of the wildcard. -/
theorem unread_weights :
    ¬ Negotiated ["br; q=0.9".toList] (only .br) (preferred (only .br) ["br; q=0.9".toList]) ∧
      ¬ Negotiated ["*".toList] (only .zstd) (preferred (only .zstd) ["*".toList]) :=
  ⟨not_negotiated_of_nil (by decide +kernel) (by decide +kernel),
    not_negotiated_of_nil (by decide +kernel) (by decide +kernel)⟩

end CorexManager.Compression
