import Mathlib.Data.List.TakeWhile
import Mathlib.Tactic.Common

/-!
# Reading a growing text line by line

A reader that skips blank lines gives the trimmed lines of what it reads, the last one too when no
line end follows it.  A text that is read in two parts gives the lines of the whole exactly if the
cut is not inside a line.

* `records` — the trimmed lines of a text that are not blank.
* `records_append_iff` — where a text may be cut.
* `records_append_eq_left`, `records_append_eq_right` — what may be left out at an end.
-/

namespace Data.Tailing

variable {α : Type*} (newline blank : α → Bool)

/-- Blanks only. -/
def Blank (t : List α) : Prop := ∀ c ∈ t, blank c = true

instance : DecidablePred (Blank blank) := fun t => List.decidableBAll (blank · = true) t

/-- A line without the blanks around it. -/
def trimmed (l : List α) : List α := ((l.dropWhile blank).reverse.dropWhile blank).reverse

/-- What a line gives: nothing when it is blank. -/
def record [DecidableEq α] (l : List α) : List (List α) :=
  if trimmed blank l = [] then [] else [trimmed blank l]

/-- The trimmed lines of a text that are not blank. -/
def records [DecidableEq α] (t : List α) : List (List α) :=
  (t.splitOnP newline).flatMap (record blank)

/-- What stands behind the last line end. -/
def lastLine (t : List α) : List α := (t.reverse.takeWhile (!newline ·)).reverse

/-- What stands before the first line end. -/
def firstLine (t : List α) : List α := t.takeWhile (!newline ·)

variable {newline blank} {a b t l x y : List α}

theorem Blank.append (ha : Blank blank a) (hb : Blank blank b) : Blank blank (a ++ b) :=
  fun c hc => (List.mem_append.mp hc).elim (ha c) (hb c)

/-! ### A line -/

theorem dropWhile_eq_nil (h : Blank blank l) : l.dropWhile blank = [] :=
  List.dropWhile_eq_nil_iff.mpr h

theorem dropWhile_append_of_blank (h : Blank blank x) (y : List α) :
    (x ++ y).dropWhile blank = y.dropWhile blank := by
  rw [List.dropWhile_append, dropWhile_eq_nil h]
  rfl

theorem trimmed_append_left (h : Blank blank x) (y : List α) :
    trimmed blank (x ++ y) = trimmed blank y := by
  unfold trimmed
  rw [dropWhile_append_of_blank h]

theorem trimmed_append_right (x : List α) (h : Blank blank y) :
    trimmed blank (x ++ y) = trimmed blank x := by
  have hrev : Blank blank y.reverse := fun c hc => h c (List.mem_reverse.mp hc)
  unfold trimmed
  rw [List.dropWhile_append]
  split
  · next hx =>
      rw [List.isEmpty_iff.mp hx, dropWhile_eq_nil h]
  · rw [List.reverse_append, dropWhile_append_of_blank hrev]

theorem trimmed_eq_nil_iff : trimmed blank l = [] ↔ Blank blank l := by
  refine ⟨fun h => ?_, fun h => by unfold trimmed; rw [dropWhile_eq_nil h]; rfl⟩
  unfold trimmed at h
  rw [List.reverse_eq_nil_iff, List.dropWhile_eq_nil_iff] at h
  have hdrop : Blank blank (l.dropWhile blank) := fun c hc => h c (List.mem_reverse.mpr hc)
  -- the rest of a text behind its blanks does not begin with one
  cases hrest : l.dropWhile blank with
  | nil => exact List.dropWhile_eq_nil_iff.mp hrest
  | cons c rest =>
      have hc := List.head_dropWhile_not blank (l := l) (by simp [hrest])
      simp only [hrest, List.head_cons] at hc
      exact absurd (hdrop c (by simp [hrest])) (by simp [hc])

/-- The trimmed line keeps what is not blank. -/
theorem filter_trimmed (l : List α) :
    (trimmed blank l).filter (!blank ·) = l.filter (!blank ·) := by
  have hdrop : ∀ l : List α, (l.dropWhile blank).filter (!blank ·) = l.filter (!blank ·) := by
    intro l
    induction l with
    | nil => rfl
    | cons c l ih =>
        cases hc : blank c with
        | true => simp [hc, ih]
        | false => simp [hc]
  unfold trimmed
  rw [List.filter_reverse, hdrop, List.filter_reverse, List.reverse_reverse, hdrop]

theorem blank_of_filter (h : t.filter (!blank ·) = []) : Blank blank t :=
  fun c hc => by simpa using List.filter_eq_nil_iff.mp h c hc

theorem filter_of_blank (h : Blank blank t) : t.filter (!blank ·) = [] :=
  List.filter_eq_nil_iff.mpr fun c hc => by simp [h c hc]

/-- Without its line ends a text has the same characters that are not blank. -/
theorem filter_splitOnP (hblank : ∀ c, newline c = true → blank c = true) (t : List α) :
    (t.splitOnP newline).flatten.filter (!blank ·) = t.filter (!blank ·) := by
  induction t with
  | nil => rfl
  | cons c t ih =>
      rw [List.splitOnP_cons_eq_if_modifyHead]
      cases hc : newline c with
      | true => simpa [hblank c hc] using ih
      | false =>
          cases hsplit : t.splitOnP newline with
          | nil => exact absurd hsplit (List.splitOnP_ne_nil newline t)
          | cons l ls =>
              rw [hsplit] at ih
              simp only [Bool.false_eq_true, if_false, List.modifyHead_cons, List.flatten_cons,
                List.cons_append, List.filter_cons]
              rw [← List.flatten_cons, ih]

theorem firstLine_no_newline (newline : α → Bool) (t : List α) :
    ∀ c ∈ firstLine newline t, newline c = false :=
  fun c hc => by simpa using List.mem_takeWhile_imp hc

theorem lastLine_no_newline (newline : α → Bool) (t : List α) :
    ∀ c ∈ lastLine newline t, newline c = false :=
  fun c hc => by simpa using List.mem_takeWhile_imp (List.mem_reverse.mp hc)

variable [DecidableEq α]

theorem record_of_blank (h : Blank blank l) : record blank l = [] :=
  if_pos (trimmed_eq_nil_iff.mpr h)

theorem record_of_not_blank (h : ¬ Blank blank l) : record blank l = [trimmed blank l] :=
  if_neg fun hl => h (trimmed_eq_nil_iff.mp hl)

/-- A line may be cut at its blanks only. -/
theorem record_append_iff :
    record blank (x ++ y) = record blank x ++ record blank y ↔ Blank blank x ∨ Blank blank y := by
  constructor
  · intro h
    by_contra hne
    obtain ⟨hx, hy⟩ := not_or.mp hne
    have hxy : ¬ Blank blank (x ++ y) := fun h => hx fun c hc => h c (List.mem_append_left y hc)
    rw [record_of_not_blank hx, record_of_not_blank hy, record_of_not_blank hxy] at h
    have hlength := congrArg List.length h
    simp at hlength
  · rintro (hx | hy)
    · rw [record_of_blank hx]
      unfold record
      rw [trimmed_append_left hx]
      rfl
    · rw [record_of_blank hy, List.append_nil]
      unfold record
      rw [trimmed_append_right x hy]

/-! ### Cuts of a text -/

theorem records_line (h : ∀ c ∈ l, newline c = false) :
    records newline blank l = record blank l := by
  unfold records
  rw [List.splitOnP_eq_singleton h, List.flatMap_singleton]

theorem records_append_cons {c : α} (hc : newline c = true) (a b : List α) :
    records newline blank (a ++ c :: b) = records newline blank a ++ records newline blank b := by
  unfold records
  rw [List.splitOnP_append_cons a b hc, List.flatMap_append]

/-- The lines behind the first one are read whatever stands before it. -/
theorem exists_rest (newline blank : α → Bool) (b : List α) :
    ∃ rest, ∀ x : List α, (∀ c ∈ x, newline c = false) →
      records newline blank (x ++ b) = record blank (x ++ firstLine newline b) ++ rest := by
  have hsplit := List.takeWhile_append_dropWhile (p := (!newline ·)) (l := b)
  have hclean : ∀ x : List α, (∀ c ∈ x, newline c = false) →
      ∀ c ∈ x ++ firstLine newline b, newline c = false := fun x hx c hc =>
    (List.mem_append.mp hc).elim (hx c) (firstLine_no_newline newline b c)
  cases hrest : b.dropWhile (!newline ·) with
  | nil =>
      rw [hrest, List.append_nil] at hsplit
      refine ⟨[], fun x hx => ?_⟩
      rw [List.append_nil, ← records_line (hclean x hx)]
      exact congrArg (fun u => records newline blank (x ++ u)) hsplit.symm
  | cons c rest =>
      have hc : newline c = true := by
        have hhead := List.head_dropWhile_not (!newline ·) (l := b) (by simp [hrest])
        simpa [hrest] using hhead
      rw [hrest] at hsplit
      refine ⟨records newline blank rest, fun x hx => ?_⟩
      rw [← records_line (hclean x hx), ← records_append_cons hc,
        List.append_assoc]
      exact congrArg (fun u => records newline blank (x ++ u)) hsplit.symm

/-- The lines before the last one are read whatever stands behind it. -/
theorem exists_done (newline blank : α → Bool) (a : List α) : ∃ done, ∀ b : List α,
    records newline blank (a ++ b) = done ++ records newline blank (lastLine newline a ++ b) := by
  have hsplit := List.takeWhile_append_dropWhile (p := (!newline ·)) (l := a.reverse)
  cases hrest : a.reverse.dropWhile (!newline ·) with
  | nil =>
      rw [hrest, List.append_nil] at hsplit
      have hall : lastLine newline a = a := by rw [lastLine, hsplit, List.reverse_reverse]
      exact ⟨[], fun b => by rw [hall, List.nil_append]⟩
  | cons c rest =>
      have hc : newline c = true := by
        have hhead := List.head_dropWhile_not (!newline ·) (l := a.reverse) (by simp [hrest])
        simpa [hrest] using hhead
      have ha : a = rest.reverse ++ c :: lastLine newline a := by
        rw [hrest] at hsplit
        have := congrArg List.reverse hsplit
        simpa [lastLine] using this.symm
      refine ⟨records newline blank rest.reverse, fun b => ?_⟩
      conv_lhs => rw [ha]
      rw [List.append_assoc, List.cons_append, records_append_cons hc]

/-- **Where a text may be cut**: the lines of the parts are the lines of the whole exactly if the
cut is not between two parts of one line. -/
theorem records_append_iff :
    records newline blank (a ++ b) = records newline blank a ++ records newline blank b ↔
      Blank blank (lastLine newline a) ∨ Blank blank (firstLine newline b) := by
  obtain ⟨done, hdone⟩ := exists_done newline blank a
  obtain ⟨rest, hrest⟩ := exists_rest newline blank b
  have hlast := lastLine_no_newline newline a
  have ha : records newline blank a = done ++ record blank (lastLine newline a) := by
    have := hdone []
    rwa [List.append_nil, List.append_nil, records_line hlast] at this
  have hb : records newline blank b = record blank (firstLine newline b) ++ rest :=
    hrest [] fun c hc => by cases hc
  rw [hdone, hrest _ hlast, ha, hb, ← record_append_iff]
  simp only [List.append_assoc, List.append_cancel_left_eq]
  rw [← List.append_assoc, List.append_cancel_right_eq]

/-! ### What no line is lost without -/

theorem filter_record (l : List α) : (record blank l).flatten.filter (!blank ·) =
    l.filter (!blank ·) := by
  by_cases h : Blank blank l
  · rw [record_of_blank h]
    exact (filter_of_blank h).symm
  · rw [record_of_not_blank h, List.flatten_singleton, filter_trimmed]

variable (hblank : ∀ c, newline c = true → blank c = true)
include hblank

/-- The lines of a text have all of it that is not blank. -/
theorem filter_records (t : List α) :
    (records newline blank t).flatten.filter (!blank ·) = t.filter (!blank ·) := by
  rw [← filter_splitOnP hblank t]
  unfold records
  induction t.splitOnP newline with
  | nil => rfl
  | cons l ls ih =>
      rw [List.flatMap_cons, List.flatten_append, List.filter_append, List.flatten_cons,
        List.filter_append, filter_record, ih]

/-- Blanks give no lines, and nothing else does. -/
theorem records_eq_nil_iff : records newline blank t = [] ↔ Blank blank t := by
  constructor
  · intro h
    have hfilter := filter_records hblank t
    rw [h] at hfilter
    exact blank_of_filter hfilter.symm
  · intro h
    have hrecords : ∀ l ∈ records newline blank t, l.filter (!blank ·) = [] := by
      have hfilter := (filter_records hblank t).trans (filter_of_blank h)
      rw [List.filter_flatten] at hfilter
      intro l hl
      exact List.flatten_eq_nil_iff.mp hfilter _ (List.mem_map_of_mem hl)
    cases hcases : records newline blank t with
    | nil => rfl
    | cons l ls =>
        -- every line of the list is trimmed and not empty
        have hl : l ∈ records newline blank t := by simp [hcases]
        obtain ⟨line, -, hmem⟩ := List.mem_flatMap.mp hl
        by_cases hline : Blank blank line
        · rw [record_of_blank hline] at hmem
          cases hmem
        · rw [record_of_not_blank hline, List.mem_singleton] at hmem
          have hnone := hrecords l hl
          rw [hmem, filter_trimmed] at hnone
          exact absurd (blank_of_filter hnone) hline

/-- What may be left out at the end. -/
theorem records_append_eq_left :
    records newline blank (a ++ b) = records newline blank a ↔ Blank blank b := by
  constructor
  · intro h
    have hfilter := congrArg (fun ls => ls.flatten.filter (!blank ·)) h
    simp only [filter_records hblank, List.filter_append] at hfilter
    exact blank_of_filter (List.append_right_eq_self.mp hfilter)
  · intro h
    have hfirst : Blank blank (firstLine newline b) := fun c hc =>
      h c ((List.takeWhile_sublist _).mem hc)
    rw [records_append_iff.mpr (.inr hfirst), (records_eq_nil_iff hblank).mpr h, List.append_nil]

/-- What may be left out at the beginning. -/
theorem records_append_eq_right :
    records newline blank (a ++ b) = records newline blank b ↔ Blank blank a := by
  constructor
  · intro h
    have hfilter := congrArg (fun ls => ls.flatten.filter (!blank ·)) h
    simp only [filter_records hblank, List.filter_append] at hfilter
    exact blank_of_filter (List.append_left_eq_self.mp hfilter)
  · intro h
    have hlast : Blank blank (lastLine newline a) := fun c hc =>
      h c (List.mem_reverse.mp ((List.takeWhile_sublist _).mem (List.mem_reverse.mp hc)))
    rw [records_append_iff.mpr (.inl hlast), (records_eq_nil_iff hblank).mpr h, List.nil_append]

end Data.Tailing
