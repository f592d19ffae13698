import CorexManager.Rust.Replacement

/-!
# Group references of a replacement string

The `$1` of a rule's replacement string is written as the `${1}` of a template of the `regex`
crate; nothing else of the string is.

* `convertBackrefs` — the template.
* `inserted` — what the string asks for: the groups at its numbers, and itself elsewhere.
* `Unambiguous` — no other dollar sign of the string means anything to the crate.
* `expand_convertBackrefs_iff` — exactly then every match is replaced by what is asked for.
-/

namespace CorexManager.RespTransform

open Data (Text readNat)
open Rust

/-- A text with every `$` and the number after it replaced, of which some characters still belong
to the last number. -/
def replaceNumbersFrom (f : Text → Text) : (skip : Nat) → Text → Text
  | _, [] => []
  | skip + 1, _ :: t => replaceNumbersFrom f skip t
  | 0, ch :: t =>
      let num := t.takeWhile Char.isDigit
      if ch = '$' ∧ num ≠ [] then f num ++ replaceNumbersFrom f num.length t
      else ch :: replaceNumbersFrom f 0 t

def replaceNumbers (f : Text → Text) (s : Text) : Text := replaceNumbersFrom f 0 s

/-- A number in braces. -/
def braced (num : Text) : Text := '$' :: '{' :: (num ++ ['}'])

/-- `convert_backrefs`. -/
def convertBackrefs (s : Text) : Text := replaceNumbers braced s

/-- The text that a replacement string asks for. -/
def inserted (c : Captures) (s : Text) : Text :=
  replaceNumbers (fun num => c.group ((readNat num).getD 0)) s

/-- A dollar sign is followed by a number. -/
def NumberFollows (t : Text) : Prop := t.takeWhile Char.isDigit ≠ []

instance (t : Text) : Decidable (NumberFollows t) := inferInstanceAs (Decidable (_ ≠ _))

/-- A dollar sign before this text is copied: what follows is neither a dollar sign nor a name,
nor a brace after which there is a closing brace or another reference to a number. -/
def Copied (t : Text) : Prop :=
  t.head? ≠ some '$' ∧ t.takeWhile isCapLetter = [] ∧
    (t.head? = some '{' → '}' ∉ t ∧ ∀ u, '$' :: u <:+ t → ¬ NumberFollows u)

/-- **No other dollar sign means anything**: each begins a number or is copied. -/
def Unambiguous (s : Text) : Prop := ∀ t, '$' :: t <:+ s → NumberFollows t ∨ Copied t

/-- A property of what follows the dollar signs of a text. -/
theorem dollars_iff {P : Text → Prop} (s : Text) :
    (∀ t, '$' :: t <:+ s → P t) ↔ ∀ u ∈ s.tails, u.head? = some '$' → P u.tail := by
  constructor
  · intro h u hu hhead
    obtain ⟨t, rfl⟩ := List.head?_eq_some_iff.mp hhead
    exact h t ((List.mem_tails _ _).mp hu)
  · exact fun h t ht => h _ ((List.mem_tails _ _).mpr ht) rfl

instance (t : Text) : Decidable (Copied t) :=
  haveI : Decidable (∀ u, '$' :: u <:+ t → ¬ NumberFollows u) :=
    decidable_of_iff _ (dollars_iff t).symm
  inferInstanceAs (Decidable (_ ∧ _))

instance : DecidablePred Unambiguous := fun s => decidable_of_iff _ (dollars_iff s).symm

/-! ### References to numbers -/

section Numbers

variable {f : Text → Text} {ch : Char} {s t num : Text}

theorem replaceNumbersFrom_drop (n : Nat) (t : Text) :
    replaceNumbersFrom f n t = replaceNumbers f (t.drop n) := by
  induction t generalizing n with
  | nil =>
      rw [List.drop_nil]
      cases n <;> rfl
  | cons ch t ih =>
      cases n with
      | zero => rfl
      | succ n => exact ih n

@[simp] theorem replaceNumbers_nil : replaceNumbers f [] = [] := rfl

theorem replaceNumbers_cons (h : ch ≠ '$') :
    replaceNumbers f (ch :: t) = ch :: replaceNumbers f t := by
  rw [replaceNumbers, replaceNumbersFrom]
  exact if_neg fun hboth => h hboth.1

/-- A dollar sign that is not followed by a number. -/
theorem replaceNumbers_dollar (h : ¬ NumberFollows t) :
    replaceNumbers f ('$' :: t) = '$' :: replaceNumbers f t := by
  rw [replaceNumbers, replaceNumbersFrom]
  exact if_neg fun hboth => h hboth.2

/-- A dollar sign that is. -/
theorem replaceNumbers_number (hne : num ≠ []) (hnum : ∀ d ∈ num, d.isDigit = true)
    (ht : ¬ NumberFollows t) :
    replaceNumbers f ('$' :: (num ++ t)) = f num ++ replaceNumbers f t := by
  have htake : (num ++ t).takeWhile Char.isDigit = num := by
    rw [List.takeWhile_append_of_pos hnum, not_not.mp ht, List.append_nil]
  rw [replaceNumbers, replaceNumbersFrom, htake, if_pos ⟨rfl, hne⟩, replaceNumbersFrom_drop, List.drop_left]

/-- Without dollar signs there is nothing to replace. -/
theorem replaceNumbers_append (h : '$' ∉ s) (t : Text) :
    replaceNumbers f (s ++ t) = s ++ replaceNumbers f t := by
  induction s with
  | nil => rfl
  | cons ch s ih =>
      obtain ⟨hch, hs⟩ := not_or.mp (mt List.mem_cons.mpr h)
      rw [List.cons_append, replaceNumbers_cons (Ne.symm hch), ih hs]
      rfl

/-- The number that follows a dollar sign, and the rest. -/
theorem NumberFollows.split (h : NumberFollows s) : ∃ num t, num ≠ [] ∧
    (∀ d ∈ num, d.isDigit = true) ∧ ¬ NumberFollows t ∧ s = num ++ t := by
  refine ⟨_, _, h, fun d hd => List.mem_takeWhile_imp hd, not_not.mpr ?_,
    (List.takeWhile_append_dropWhile (p := Char.isDigit)).symm⟩
  exact List.takeWhile_eq_nil_iff.mpr fun hl => List.dropWhile_get_zero_not _ _ hl

/-- Induction over a replacement string: a dollar sign is taken with the number after it. -/
theorem numbersInduction {P : Text → Prop} (nil : P [])
    (cons : ∀ ch t, ch ≠ '$' → P t → P (ch :: t))
    (number : ∀ num t, num ≠ [] → (∀ d ∈ num, d.isDigit = true) → ¬ NumberFollows t → P t →
      P ('$' :: (num ++ t)))
    (dollar : ∀ t, ¬ NumberFollows t → P t → P ('$' :: t)) (s : Text) : P s := by
  induction hn : s.length using Nat.strong_induction_on generalizing s with
  | _ n ih =>
      subst hn
      cases s with
      | nil => exact nil
      | cons ch s =>
          by_cases hch : ch = '$'
          · subst hch
            by_cases hs : NumberFollows s
            · obtain ⟨num, t, hne, hnum, ht, rfl⟩ := hs.split
              refine number num t hne hnum ht (ih _ ?_ t rfl)
              simp only [List.length_cons, List.length_append]
              omega
            · exact dollar s hs (ih _ (Nat.lt_succ_self _) s rfl)
          · exact cons ch s hch (ih _ (Nat.lt_succ_self _) s rfl)

/-- What is replaced begins as it did, when a dollar sign is put where there was one. -/
theorem head?_convertBackrefs (s : Text) : (convertBackrefs s).head? = s.head? := by
  induction s using numbersInduction with
  | nil => rfl
  | cons ch t hch _ => rw [convertBackrefs, replaceNumbers_cons hch]; rfl
  | number num t hne hnum ht _ => rw [convertBackrefs, replaceNumbers_number hne hnum ht]; rfl
  | dollar t ht _ => rw [convertBackrefs, replaceNumbers_dollar ht]; rfl

/-- A text in which no dollar sign is followed by a number stays as it is. -/
theorem replaceNumbers_self (h : ∀ u, '$' :: u <:+ s → ¬ NumberFollows u) :
    replaceNumbers f s = s := by
  induction s using numbersInduction with
  | nil => rfl
  | cons ch t hch ih =>
      rw [replaceNumbers_cons hch, ih fun u hu => h u (hu.trans (List.suffix_cons ch t))]
  | number num t hne hnum ht _ =>
      have hnumber : NumberFollows (num ++ t) := by
        rw [NumberFollows, List.takeWhile_append_of_pos hnum]
        simp [hne]
      exact absurd hnumber (h (num ++ t) (List.suffix_refl _))
  | dollar t ht ih =>
      rw [replaceNumbers_dollar ht, ih fun u hu => h u (hu.trans (List.suffix_cons '$' t))]

/-- The first closing brace of a template, which the string has too or which closes a number. -/
theorem closing_brace (c : Captures) (h : '}' ∈ s ∨ ∃ u, '$' :: u <:+ s ∧ NumberFollows u) :
    ∃ name m w, '}' ∉ name ∧ convertBackrefs s = name ++ '}' :: convertBackrefs w ∧
      inserted c s = m ++ inserted c w ∧ w.length ≤ s.length := by
  induction s using numbersInduction with
  | nil => simp at h
  | cons ch t hch ih =>
      have hconvert : convertBackrefs (ch :: t) = ch :: convertBackrefs t := replaceNumbers_cons hch
      have hinserted : inserted c (ch :: t) = ch :: inserted c t := replaceNumbers_cons hch
      by_cases hbrace : ch = '}'
      · subst hbrace
        exact ⟨[], ['}'], t, List.not_mem_nil, hconvert, hinserted, Nat.le_succ _⟩
      · have hrest : '}' ∈ t ∨ ∃ u, '$' :: u <:+ t ∧ NumberFollows u := by
          refine h.imp (fun hmem => ?_) fun ⟨u, hu, hnumber⟩ => ⟨u, ?_, hnumber⟩
          · exact (List.mem_cons.mp hmem).resolve_left (Ne.symm hbrace)
          · exact (List.suffix_cons_iff.mp hu).resolve_left fun heq => hch (List.cons.inj heq).1.symm
        obtain ⟨name, m, w, hname, hc, hi, hle⟩ := ih hrest
        refine ⟨ch :: name, ch :: m, w, ?_, ?_, ?_, Nat.le_succ_of_le hle⟩
        · exact fun hmem => (List.mem_cons.mp hmem).elim (fun heq => hbrace heq.symm) hname
        · rw [hconvert, hc]
          rfl
        · rw [hinserted, hi]
          rfl
  | number num t hne hnum ht _ =>
      refine ⟨'$' :: '{' :: num, c.group ((readNat num).getD 0), t, ?_, ?_,
        replaceNumbers_number hne hnum ht, ?_⟩
      · intro hmem
        rcases List.mem_cons.mp hmem with hdollar | hmem
        · exact absurd hdollar (by decide)
        · rcases List.mem_cons.mp hmem with hopen | hmem
          · exact absurd hopen (by decide)
          · exact absurd (hnum _ hmem) (by decide)
      · rw [convertBackrefs, replaceNumbers_number hne hnum ht, braced]
        simp [convertBackrefs]
      · simp only [List.length_cons, List.length_append]
        omega
  | dollar t ht ih =>
      have hrest : '}' ∈ t ∨ ∃ u, '$' :: u <:+ t ∧ NumberFollows u := by
        refine h.imp (fun hmem => ?_) fun ⟨u, hu, hnumber⟩ => ⟨u, ?_, hnumber⟩
        · exact (List.mem_cons.mp hmem).resolve_left (by decide)
        · refine (List.suffix_cons_iff.mp hu).resolve_left fun heq => ?_
          exact ht ((List.cons.inj heq).2 ▸ hnumber)
      obtain ⟨name, m, w, hname, hc, hi, hle⟩ := ih hrest
      refine ⟨'$' :: name, '$' :: m, w, ?_, ?_, ?_, Nat.le_succ_of_le hle⟩
      · exact fun hmem => (List.mem_cons.mp hmem).elim (by decide) hname
      · rw [convertBackrefs, replaceNumbers_dollar ht]
        exact congrArg ('$' :: ·) hc
      · rw [inserted, replaceNumbers_dollar ht]
        exact congrArg ('$' :: ·) hi

end Numbers

/-! ### The pieces of a string -/

section Pieces

variable {c : Captures} {ch : Char} {s t num : Text}

theorem unambiguous_cons (h : ch ≠ '$') : Unambiguous (ch :: t) ↔ Unambiguous t := by
  refine ⟨fun hs u hu => hs u (hu.trans (List.suffix_cons ch t)), fun ht u hu => ht u ?_⟩
  exact (List.suffix_cons_iff.mp hu).resolve_left fun heq => h (List.cons.inj heq).1.symm

theorem unambiguous_dollar (h : Copied t) : Unambiguous ('$' :: t) ↔ Unambiguous t := by
  refine ⟨fun hs u hu => hs u (hu.trans (List.suffix_cons '$' t)), fun ht u hu => ?_⟩
  rcases List.suffix_cons_iff.mp hu with heq | hu
  · rw [(List.cons.inj heq).2]
    exact .inr h
  · exact ht u hu

theorem unambiguous_number (hne : num ≠ []) (hnum : ∀ d ∈ num, d.isDigit = true) :
    Unambiguous ('$' :: (num ++ t)) ↔ Unambiguous t := by
  have hsuffix : t <:+ '$' :: (num ++ t) := (List.suffix_append num t).trans (List.suffix_cons '$' _)
  refine ⟨fun hs u hu => hs u (hu.trans hsuffix), fun ht u hu => ?_⟩
  rcases List.suffix_cons_iff.mp hu with heq | hu
  · rw [(List.cons.inj heq).2, NumberFollows, List.takeWhile_append_of_pos hnum]
    exact .inl (by simp [hne])
  · refine ht u ?_
    -- The digits have no dollar sign.
    rcases List.suffix_or_suffix_of_suffix hu (List.suffix_append num t) with h | ⟨v, hv⟩
    · exact h
    · cases v with
      | nil => exact ⟨[], hv.symm⟩
      | cons d v =>
          obtain rfl : d = '$' := (List.cons.inj hv).1
          obtain ⟨x, hx⟩ := hu
          rw [← hv, ← List.append_assoc] at hx
          have hmem : '$' ∈ num := by
            rw [← List.append_cancel_right hx]
            simp
          exact absurd (hnum '$' hmem) (by decide)

variable (c s) in
/-- The first piece of a replacement string: what the crate puts for it, what it asks for, and
the rest of the string. -/
inductive Piece : (put asked rest : Text) → Prop
  | kept {put rest : Text} : (Unambiguous s ↔ Unambiguous rest) →
      (put.length ≤ 1 ∨ ∃ n, put = c.group n) → Piece put put rest
  | taken {put asked rest : Text} : ¬ Unambiguous s → asked.head? = some '$' → 1 < asked.length →
      (put = ['$'] ∨ ∃ name, put = c.reference name) → Piece put asked rest
  | escaped (num : Text) (n : Nat) {rest : Text} : ¬ Unambiguous s → '$' ∉ num →
      Piece (braced num) ('$' :: c.group n) rest

/-- A number after a doubled dollar sign is no reference for the crate. -/
theorem expand_doubled_number (h : '$' ∉ num) (t : Text) :
    c.expand ('$' :: (braced num ++ t)) = braced num ++ c.expand t := by
  have hplain : '$' ∉ '{' :: (num ++ ['}']) := by simp [h]
  rw [braced, List.cons_append, Captures.expand_doubled, Captures.expand_append hplain]
  rfl

/-- Whether a text begins with a character of a class. -/
theorem takeWhile_eq_nil_congr {p : Char → Bool} (h : s.head? = t.head?) :
    s.takeWhile p = [] ↔ t.takeWhile p = [] := by
  cases s with
  | nil =>
      cases t with
      | nil => rfl
      | cons ch t => cases h
  | cons ch s =>
      cases t with
      | nil => cases h
      | cons d t =>
          obtain rfl := Option.some.inj h
          cases hp : p ch <;> simp [hp]

/-- A dollar sign that is copied begins no name of the template either. -/
theorem Copied.expand (h : Copied t) (c : Captures) :
    c.expand ('$' :: convertBackrefs t) = '$' :: c.expand (convertBackrefs t) := by
  have hhead := head?_convertBackrefs t
  refine Captures.expand_copied (hhead ▸ h.1) ?_
  by_cases hbrace : t.head? = some '{'
  · obtain ⟨u, rfl⟩ := List.head?_eq_some_iff.mp hbrace
    obtain ⟨hclosed, hnumbers⟩ := h.2.2 hbrace
    have hself : convertBackrefs u = u :=
      replaceNumbers_self fun v hv => hnumbers v (hv.trans (List.suffix_cons '{' u))
    rw [convertBackrefs, replaceNumbers_cons (by decide), ← convertBackrefs, hself]
    exact capRef_open fun hmem => hclosed (List.mem_cons_of_mem _ hmem)
  · exact capRef_eq_none ((takeWhile_eq_nil_congr hhead).mpr h.2.1) (hhead ▸ hbrace)

variable (c s) in
/-- A string has a first piece. -/
def HasPiece : Prop := ∃ put asked rest, Piece c s put asked rest ∧ rest.length < s.length ∧
  c.expand (convertBackrefs s) = put ++ c.expand (convertBackrefs rest) ∧
  inserted c s = asked ++ inserted c rest

/-- Two dollar signs are one for the crate, whatever follows. -/
theorem hasPiece_doubled (hs : ¬ Unambiguous ('$' :: '$' :: t)) : HasPiece c ('$' :: '$' :: t) := by
  have hnot : ¬ NumberFollows ('$' :: t) := not_not.mpr (List.takeWhile_cons_of_neg (by decide))
  rw [HasPiece, convertBackrefs, inserted, replaceNumbers_dollar hnot, replaceNumbers_dollar hnot]
  by_cases ht : NumberFollows t
  · obtain ⟨num, t, hne, hnum, hrest, rfl⟩ := ht.split
    have hplain : '$' ∉ num := fun hmem => absurd (hnum _ hmem) (by decide)
    rw [replaceNumbers_number hne hnum hrest, replaceNumbers_number hne hnum hrest]
    refine ⟨_, _, t, .escaped _ _ hs hplain, ?_, expand_doubled_number hplain _, rfl⟩
    simp only [List.length_cons, List.length_append]
    omega
  · rw [replaceNumbers_dollar ht, replaceNumbers_dollar ht]
    refine ⟨['$'], ['$', '$'], t, .taken hs rfl (Nat.lt_succ_self 1) (.inl rfl), ?_,
      Captures.expand_doubled, rfl⟩
    exact Nat.lt_succ_of_lt (Nat.lt_succ_self _)

/-- Letters after a dollar sign are a name for the crate. -/
theorem hasPiece_letters (hs : ¬ Unambiguous ('$' :: t)) (ht : ¬ NumberFollows t)
    (hdollar : t.head? ≠ some '$') (hname : t.takeWhile isCapLetter ≠ []) :
    HasPiece c ('$' :: t) := by
  have hsplit := List.takeWhile_append_dropWhile (p := isCapLetter) (l := t)
  generalize hn : t.takeWhile isCapLetter = name at hname hsplit
  generalize hw : t.dropWhile isCapLetter = w at hsplit
  have hplain : '$' ∉ name := by
    intro hmem
    rw [← hn] at hmem
    exact absurd (List.mem_takeWhile_imp hmem) (by decide)
  have hall : ∀ f, replaceNumbers f t = name ++ replaceNumbers f w := fun f => by
    rw [← hsplit, replaceNumbers_append hplain]
  have hletters : (convertBackrefs t).takeWhile isCapLetter = name := by
    have hend : w.takeWhile isCapLetter = [] := hw ▸
      List.takeWhile_eq_nil_iff.mpr fun hl => List.dropWhile_get_zero_not _ _ hl
    have hmem : ∀ ch ∈ name, isCapLetter ch = true := fun ch hch => by
      rw [← hn] at hch
      exact List.mem_takeWhile_imp hch
    rw [convertBackrefs, hall, List.takeWhile_append_of_pos hmem, ← convertBackrefs,
      (takeWhile_eq_nil_congr (head?_convertBackrefs w)).mpr hend, List.append_nil]
  have href : capRef (convertBackrefs t) = some (name, name.length) := by
    rw [capRef_letters (by rw [hletters]; exact hname), hletters]
  have hshort : w.length < ('$' :: t).length := by
    rw [← hsplit, List.length_cons, List.length_append]
    omega
  refine ⟨c.reference name, '$' :: name, w, .taken hs rfl ?_ (.inr ⟨name, rfl⟩), hshort, ?_, ?_⟩
  · exact Nat.succ_lt_succ (List.length_pos_of_ne_nil hname)
  · have hexpand := Captures.expand_name (c := c)
      ((head?_convertBackrefs t).symm ▸ hdollar : (convertBackrefs t).head? ≠ some '$') href
    rw [convertBackrefs, replaceNumbers_dollar ht, ← convertBackrefs, hexpand]
    congr 2
    rw [convertBackrefs, hall, List.drop_left]
    rfl
  · rw [inserted, replaceNumbers_dollar ht, hall]
    rfl

/-- A brace after a dollar sign begins a name for the crate if there is a closing brace later in the
template. -/
theorem hasPiece_braces (hs : ¬ Unambiguous ('$' :: '{' :: t))
    (hclosed : '}' ∈ t ∨ ∃ u, '$' :: u <:+ t ∧ NumberFollows u) : HasPiece c ('$' :: '{' :: t) := by
  have hnot : ¬ NumberFollows ('{' :: t) := not_not.mpr (List.takeWhile_cons_of_neg (by decide))
  obtain ⟨name, m, w, hname, hconvert, hinserted, hle⟩ := closing_brace c hclosed
  refine ⟨c.reference name, '$' :: '{' :: m, w, .taken hs rfl ?_ (.inr ⟨name, rfl⟩), ?_, ?_, ?_⟩
  · simp
  · exact Nat.lt_succ_of_le (Nat.le_succ_of_le hle)
  · rw [convertBackrefs, replaceNumbers_dollar hnot, replaceNumbers_cons (by decide),
      ← convertBackrefs, hconvert, Captures.expand_braces hname]
  · rw [inserted, replaceNumbers_dollar hnot, replaceNumbers_cons (by decide), ← inserted, hinserted]
    rfl

/-- What a dollar sign that is not followed by a number comes to. -/
theorem hasPiece_dollar (ht : ¬ NumberFollows t) : HasPiece c ('$' :: t) := by
  by_cases hcopied : Copied t
  · refine ⟨['$'], ['$'], t, .kept (unambiguous_dollar hcopied) (.inl (Nat.le_refl _)),
      Nat.lt_succ_self _, ?_, replaceNumbers_dollar ht⟩
    rw [convertBackrefs, replaceNumbers_dollar ht]
    exact hcopied.expand c
  have hs : ¬ Unambiguous ('$' :: t) := fun hs => (hs t (List.suffix_refl _)).elim ht hcopied
  by_cases hdollar : t.head? = some '$'
  · obtain ⟨w, rfl⟩ := List.head?_eq_some_iff.mp hdollar
    exact hasPiece_doubled hs
  by_cases hname : t.takeWhile isCapLetter = []
  · -- Only a brace is left.
    have hbrace : t.head? = some '{' ∧
        ¬ ('}' ∉ t ∧ ∀ u, '$' :: u <:+ t → ¬ NumberFollows u) := by
      by_contra hnot
      exact hcopied ⟨hdollar, hname, fun h => not_not.mp fun h' => hnot ⟨h, h'⟩⟩
    obtain ⟨hopen, hclosed⟩ := hbrace
    obtain ⟨u, rfl⟩ := List.head?_eq_some_iff.mp hopen
    refine hasPiece_braces hs ?_
    by_contra hnone
    rw [not_or, not_exists] at hnone
    refine hclosed ⟨fun hmem => hnone.1 ((List.mem_cons.mp hmem).resolve_left (by decide)),
      fun v hv hnumber => hnone.2 v ⟨?_, hnumber⟩⟩
    exact (List.suffix_cons_iff.mp hv).resolve_left fun heq => absurd (List.cons.inj heq).1 (by decide)
  · exact hasPiece_letters hs ht hdollar hname

/-- A dollar sign and a number are a reference to the group. -/
theorem hasPiece_number (hne : num ≠ []) (hnum : ∀ d ∈ num, d.isDigit = true)
    (ht : ¬ NumberFollows t) : HasPiece c ('$' :: (num ++ t)) := by
  have hbrace : '}' ∉ num := fun hmem => absurd (hnum _ hmem) (by decide)
  have htemplate : convertBackrefs ('$' :: (num ++ t)) =
      '$' :: '{' :: (num ++ '}' :: convertBackrefs t) := by
    rw [convertBackrefs, replaceNumbers_number hne hnum ht, braced]
    simp [convertBackrefs]
  refine ⟨_, _, t, .kept (unambiguous_number hne hnum) (.inr ⟨_, rfl⟩), ?_, ?_,
    replaceNumbers_number hne hnum ht⟩
  · simp only [List.length_cons, List.length_append]
    omega
  · rw [htemplate, Captures.expand_braces hbrace,
      Captures.reference_number hne (List.all_eq_true.mpr hnum)]

/-- Every string but the empty one has a first piece. -/
theorem hasPiece (c : Captures) (hs : s ≠ []) : HasPiece c s := by
  obtain ⟨ch, t, rfl⟩ := List.exists_cons_of_ne_nil hs
  by_cases hch : ch = '$'
  · subst hch
    by_cases ht : NumberFollows t
    · obtain ⟨num, t, hne, hnum, hrest, rfl⟩ := ht.split
      exact hasPiece_number hne hnum hrest
    · exact hasPiece_dollar ht
  · refine ⟨[ch], [ch], t, .kept (unambiguous_cons hch) (.inl (Nat.le_refl _)), Nat.lt_succ_self _,
      ?_, replaceNumbers_cons hch⟩
    rw [convertBackrefs, replaceNumbers_cons hch]
    exact Captures.expand_cons hch

end Pieces

/-! ### When the template asks for what the string does -/

section Matches

variable {s : Text}

/-- The empty match of a pattern without groups. -/
def emptyMatch : Captures := ⟨[some []], [], by decide, nofun⟩

theorem emptyMatch_group (n : Nat) : emptyMatch.group n = [] := by
  cases n <;> rfl

theorem emptyMatch_reference (name : Text) : emptyMatch.reference name = [] := by
  rw [Captures.reference]
  split
  · exact emptyMatch_group _
  · rfl

/-- In the empty match a piece that is taken for something else is shorter than what was asked
for. -/
theorem put_shorter {put : Text} (h : put = ['$'] ∨ ∃ name, put = emptyMatch.reference name) :
    put.length ≤ 1 := by
  rcases h with rfl | ⟨name, rfl⟩
  · exact Nat.le_refl _
  · rw [emptyMatch_reference]
    exact Nat.zero_le _

/-- What is left of a text after a piece that is not longer than what comes before the rest. -/
theorem exists_rest {a z e x y : Text} (hz : a.length < (z ++ e).length)
    (h : a ++ x = (z ++ e) ++ y) : ∃ z', z' ≠ [] ∧ x = z' ++ y := by
  refine ⟨(z ++ e).drop a.length, ?_, ?_⟩
  · intro hnil
    rw [List.drop_eq_nil_iff] at hnil
    omega
  · have hdrop := congrArg (List.drop a.length) h
    rw [List.drop_left, List.drop_append_of_le_length (Nat.le_of_lt hz)] at hdrop
    exact hdrop

/-- **Nothing is gained**: what the crate puts never ends in what was asked for, with something
before it. -/
theorem expand_ne_append (s : Text) : ∀ z, z ≠ [] →
    emptyMatch.expand (convertBackrefs s) ≠ z ++ inserted emptyMatch s := by
  induction hn : s.length using Nat.strong_induction_on generalizing s with
  | _ n ih =>
      subst hn
      intro z hz heq
      by_cases hs : s = []
      · subst hs
        exact hz (List.append_eq_nil_iff.mp heq.symm).1
      obtain ⟨put, asked, rest, hpiece, hlt, hexpand, hinserted⟩ := hasPiece emptyMatch hs
      rw [hexpand, hinserted, ← List.append_assoc] at heq
      have hpos := List.length_pos_of_ne_nil hz
      have hlong : ¬ put.length < (z ++ asked).length := fun hshort => by
        obtain ⟨z', hz', hx⟩ := exists_rest hshort heq
        exact ih _ hlt rest rfl z' hz' hx
      rw [List.length_append] at hlong
      cases hpiece with
      | kept => omega
      | taken _ _ hasked hput =>
          have hput := put_shorter hput
          omega
      | escaped num _ _ hplain =>
          -- What was asked for begins with a dollar sign, inside of the braces.
          obtain ⟨k, hk⟩ := Nat.exists_eq_succ_of_ne_zero (Nat.pos_iff_ne_zero.mp hpos)
          have hat := congrArg (fun t => t[z.length]?) heq
          rw [emptyMatch_group, List.append_assoc] at hat
          rw [List.getElem?_append_right (Nat.le_refl _), Nat.sub_self] at hat
          rw [emptyMatch_group, List.length_singleton] at hlong
          rw [List.getElem?_append_left (by omega), hk, braced, List.getElem?_cons_succ] at hat
          have hmem : '$' ∈ '{' :: (num ++ ['}']) := List.mem_of_getElem? hat
          simp [hplain] at hmem

/-- **Nothing without dollar signs is gained either**: it never makes up for what is left out. -/
theorem append_expand_ne (s : Text) : ∀ p, p ≠ [] → '$' ∉ p →
    p ++ emptyMatch.expand (convertBackrefs s) ≠ inserted emptyMatch s := by
  induction hn : s.length using Nat.strong_induction_on generalizing s with
  | _ n ih =>
      subst hn
      intro p hp hplain heq
      by_cases hs : s = []
      · subst hs
        exact hp (List.append_eq_nil_iff.mp heq).1
      obtain ⟨put, asked, rest, hpiece, hlt, hexpand, hinserted⟩ := hasPiece emptyMatch hs
      rw [hexpand, hinserted] at heq
      have hdollar : asked.head? = some '$' → False := fun hhead => by
        obtain ⟨x, p, rfl⟩ := List.exists_cons_of_ne_nil hp
        obtain ⟨asked, rfl⟩ := List.head?_eq_some_iff.mp hhead
        exact hplain ((List.cons.inj heq).1 ▸ List.mem_cons_self)
      cases hpiece with
      | kept _ hput =>
          have hshort : put.length ≤ 1 := by
            rcases hput with hput | ⟨k, rfl⟩
            · exact hput
            · rw [emptyMatch_group]
              exact Nat.zero_le _
          cases put with
          | nil => exact ih _ hlt rest rfl p hp hplain heq
          | cons ch put =>
              obtain rfl : put = [] := List.eq_nil_of_length_eq_zero (by simpa using hshort)
              obtain ⟨x, p, rfl⟩ := List.exists_cons_of_ne_nil hp
              obtain ⟨rfl, heq⟩ := List.cons.inj heq
              refine ih _ hlt rest rfl (p ++ [x]) (by simp) ?_ ((List.append_assoc ..).trans heq)
              simpa [or_comm] using hplain
      | taken _ hhead => exact hdollar hhead
      | escaped => exact hdollar rfl

/-- A dollar sign that means something else changes what the empty match is replaced by. -/
theorem expand_emptyMatch (h : ¬ Unambiguous s) :
    emptyMatch.expand (convertBackrefs s) ≠ inserted emptyMatch s := by
  induction hn : s.length using Nat.strong_induction_on generalizing s with
  | _ n ih =>
      subst hn
      intro heq
      by_cases hs : s = []
      · subst hs
        exact h fun t ht => absurd (List.eq_nil_of_suffix_nil ht) (List.cons_ne_nil _ _)
      obtain ⟨put, asked, rest, hpiece, hlt, hexpand, hinserted⟩ := hasPiece emptyMatch hs
      rw [hexpand, hinserted] at heq
      cases hpiece with
      | kept hrest => exact ih _ hlt (mt hrest.mpr h) rfl (List.append_cancel_left heq)
      | taken _ _ hasked hput =>
          have hput := put_shorter hput
          obtain ⟨z, hz, hx⟩ := exists_rest (z := []) (e := asked) (by simpa using by omega) heq
          exact expand_ne_append rest z hz hx
      | escaped num _ _ hplain =>
          rw [emptyMatch_group, braced, List.cons_append] at heq
          exact append_expand_ne rest ('{' :: (num ++ ['}'])) (by simp) (by simp [hplain])
            (List.cons.inj heq).2

/-- If no other dollar sign means anything, every match is replaced by what is asked for. -/
theorem expand_of_unambiguous (c : Captures) (h : Unambiguous s) :
    c.expand (convertBackrefs s) = inserted c s := by
  induction hn : s.length using Nat.strong_induction_on generalizing s with
  | _ n ih =>
      subst hn
      by_cases hs : s = []
      · subst hs
        rfl
      obtain ⟨put, asked, rest, hpiece, hlt, hexpand, hinserted⟩ := hasPiece c hs
      rw [hexpand, hinserted]
      cases hpiece with
      | kept hrest => rw [ih _ hlt (hrest.mp h) rfl]
      | taken hnot => exact absurd h hnot
      | escaped _ _ hnot => exact absurd h hnot

/-- **Replacement strings.**  With the template made of a replacement string every match is
replaced by that string, its numbers expanded to their groups and everything else as it is, if
and only if each of its dollar signs begins a number or is copied. -/
theorem expand_convertBackrefs_iff (s : Text) :
    (∀ c : Captures, c.expand (convertBackrefs s) = inserted c s) ↔ Unambiguous s :=
  ⟨fun h => by_contra fun hnot => expand_emptyMatch hnot (h emptyMatch),
    fun h c => expand_of_unambiguous c h⟩

example : Unambiguous "$1 for $ 5, $".toList ∧ ¬ Unambiguous "$name".toList ∧
    ¬ Unambiguous "${1}".toList := by decide

/-- A doubled dollar sign is halved. -/
theorem doubled_halved : ∃ c : Captures,
    c.expand (convertBackrefs "US$$".toList) ≠ inserted c "US$$".toList := by
  refine ⟨emptyMatch, ?_⟩
  decide +kernel

end Matches

end CorexManager.RespTransform
