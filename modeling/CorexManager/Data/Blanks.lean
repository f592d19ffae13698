import CorexManager.Data.Text

/-!
# Texts up to their blanks

Two texts with the same words differ in their runs of blanks only.  A text with every run replaced by
one blank (`squeezeFrom`) is a normal form of this relation that can be read from the left, with a
flag for a blank before the text.

* `words` — the words of a text.
* `words_eq_iff` — the words are the same exactly if the squeezed texts are.
* `squeezeFrom_append`, `takeWhile_squeezeFrom` — the squeezed text is read as the text is.
-/

namespace Data.Blanks

variable (blank : Char → Bool)

/-- The words of a text. -/
def words (t : Text) : List Text := (t.splitOnP blank).filter (· ≠ [])

/-- Every run of blanks is one; a run at the beginning is none behind a blank. -/
def squeezeFrom : (behindBlank : Bool) → Text → Text
  | _, [] => []
  | b, c :: t =>
      if blank c then (if b then squeezeFrom true t else ' ' :: squeezeFrom true t)
      else c :: squeezeFrom false t

/-- A text is behind a blank, or ends with one. -/
def endsBlank (b : Bool) (t : Text) : Bool := (t.getLast?.map blank).getD b

variable {blank} {b : Bool} {c : Char} {t u : Text}

theorem squeezeFrom_blank (h : blank c = true) :
    squeezeFrom blank b (c :: t) = (if b then [] else [' ']) ++ squeezeFrom blank true t := by
  rw [squeezeFrom, if_pos h]
  cases b <;> rfl

theorem squeezeFrom_cons (h : blank c = false) :
    squeezeFrom blank b (c :: t) = c :: squeezeFrom blank false t := by
  rw [squeezeFrom, h]
  rfl

/-- A text is squeezed from the left. -/
theorem squeezeFrom_append (t u : Text) :
    squeezeFrom blank b (t ++ u) = squeezeFrom blank b t ++ squeezeFrom blank (endsBlank blank b t) u := by
  induction t generalizing b with
  | nil => rfl
  | cons c t ih =>
      have hlast : endsBlank blank b (c :: t) = endsBlank blank (blank c) t := by
        cases t with
        | nil => rfl
        | cons d t => rw [endsBlank, endsBlank, List.getLast?_cons_cons, List.getLast?_cons]; rfl
      rw [List.cons_append, hlast]
      cases hc : blank c with
      | true => rw [squeezeFrom_blank hc, squeezeFrom_blank hc, ih, List.append_assoc]
      | false => rw [squeezeFrom_cons hc, squeezeFrom_cons hc, ih, List.cons_append]

/-- A stretch without blanks stays. -/
theorem squeezeFrom_word (hne : t ≠ []) (h : ∀ c ∈ t, blank c = false) (u : Text) :
    squeezeFrom blank b (t ++ u) = t ++ squeezeFrom blank false u := by
  induction t generalizing b with
  | nil => exact absurd rfl hne
  | cons c t ih =>
      have ht := fun d hd => h d (List.mem_cons_of_mem c hd)
      rw [List.cons_append, squeezeFrom_cons (h c List.mem_cons_self)]
      by_cases hnil : t = []
      · rw [hnil]
        rfl
      · rw [ih hnil ht, List.cons_append]

theorem endsBlank_append_singleton (t : Text) (c : Char) :
    endsBlank blank b (t ++ [c]) = blank c := by
  rw [endsBlank, List.getLast?_concat]
  rfl

/-- Blanks behind a blank are gone. -/
theorem squeezeFrom_blanks (h : ∀ c ∈ t, blank c = true) (u : Text) :
    squeezeFrom blank true (t ++ u) = squeezeFrom blank true u := by
  induction t with
  | nil => rfl
  | cons c t ih =>
      rw [List.cons_append, squeezeFrom_blank (h c List.mem_cons_self)]
      exact ih fun d hd => h d (List.mem_cons_of_mem c hd)

/-- A squeezed text stays as it is. -/
theorem squeezeFrom_squeezeFrom (hspace : blank ' ' = true) (t : Text) :
    squeezeFrom blank b (squeezeFrom blank false t) = squeezeFrom blank b t ∧
      squeezeFrom blank true (squeezeFrom blank true t) = squeezeFrom blank true t := by
  induction t generalizing b with
  | nil => exact ⟨rfl, rfl⟩
  | cons c t ih =>
      cases hc : blank c with
      | true =>
          have hblank : squeezeFrom blank b (' ' :: squeezeFrom blank true t) =
              squeezeFrom blank b (c :: t) := by
            rw [squeezeFrom_blank hspace, squeezeFrom_blank hc, (@ih true).2]
          exact ⟨by rw [squeezeFrom_blank hc]; exact hblank, by
            rw [squeezeFrom_blank hc]
            exact (@ih true).2⟩
      | false =>
          rw [squeezeFrom_cons hc, squeezeFrom_cons hc, squeezeFrom_cons hc, squeezeFrom_cons hc,
            (@ih false).1]
          exact ⟨rfl, by rw [squeezeFrom_cons hc, (@ih false).1]⟩

/-- The last character stays a blank, or none. -/
theorem endsBlank_squeezeFrom (hspace : blank ' ' = true) (t : Text) :
    endsBlank blank b (squeezeFrom blank false t) = endsBlank blank b t ∧
      endsBlank blank true (squeezeFrom blank true t) = endsBlank blank true t := by
  have hcons : ∀ (b : Bool) (c : Char) (t : Text),
      endsBlank blank b (c :: t) = endsBlank blank (blank c) t := by
    intro b c t
    cases t with
    | nil => rfl
    | cons d t => rw [endsBlank, endsBlank, List.getLast?_cons_cons, List.getLast?_cons]; rfl
  induction t generalizing b with
  | nil => exact ⟨rfl, rfl⟩
  | cons c t ih =>
      rw [hcons, hcons]
      cases hc : blank c with
      | true =>
          rw [squeezeFrom_blank hc, squeezeFrom_blank hc]
          refine ⟨?_, (@ih true).2⟩
          show endsBlank blank b (' ' :: squeezeFrom blank true t) = _
          rw [hcons, hspace, (@ih true).2]
      | false =>
          rw [squeezeFrom_cons hc, squeezeFrom_cons hc, hcons, hcons, hc, (@ih false).1]
          exact ⟨rfl, rfl⟩

/-- Writing every blank as the same one changes nothing. -/
theorem squeezeFrom_map (hspace : blank ' ' = true) (t : Text) :
    squeezeFrom blank b (t.map fun c => if blank c then ' ' else c) = squeezeFrom blank b t := by
  induction t generalizing b with
  | nil => rfl
  | cons c t ih =>
      rw [List.map_cons]
      cases hc : blank c with
      | true => rw [if_pos rfl, squeezeFrom_blank hspace, squeezeFrom_blank hc, ih]
      | false => rw [if_neg Bool.false_ne_true, squeezeFrom_cons hc, squeezeFrom_cons hc, ih]

/-! ### Reading a squeezed text -/

section Read

variable {p : Char → Bool} (hspace : blank ' ' = true) (hp : ∀ c, blank c = true → p c = false)
include hspace hp

theorem takeWhile_squeezeFrom (t : Text) :
    (squeezeFrom blank false t).takeWhile p = t.takeWhile p := by
  induction t with
  | nil => rfl
  | cons c t ih =>
      cases hc : blank c with
      | true =>
          rw [squeezeFrom_blank hc, List.takeWhile_cons, hp c hc]
          show (' ' :: squeezeFrom blank true t).takeWhile p = _
          rw [List.takeWhile_cons, hp ' ' hspace]
          rfl
      | false => rw [squeezeFrom_cons hc, List.takeWhile_cons, List.takeWhile_cons, ih]

theorem dropWhile_squeezeFrom (t : Text) :
    (squeezeFrom blank false t).dropWhile p = squeezeFrom blank false (t.dropWhile p) := by
  induction t with
  | nil => rfl
  | cons c t ih =>
      cases hc : blank c with
      | true =>
          have hdrop : (c :: t).dropWhile p = c :: t := by rw [List.dropWhile_cons, hp c hc]; rfl
          rw [hdrop, squeezeFrom_blank hc]
          show (' ' :: squeezeFrom blank true t).dropWhile p = _
          rw [List.dropWhile_cons, hp ' ' hspace]
          rfl
      | false =>
          rw [squeezeFrom_cons hc, List.dropWhile_cons, List.dropWhile_cons]
          split_ifs with h
          · exact ih
          · rw [squeezeFrom_cons hc]

end Read

/-! ### Words -/

/-- Every word with a blank behind it. -/
def spread (ws : List Text) : Text := ws.flatMap (· ++ [' '])

theorem spread_cons (w : Text) (ws : List Text) : spread (w :: ws) = w ++ ' ' :: spread ws := by
  rw [spread, List.flatMap_cons, List.append_assoc]
  rfl

private theorem squeezeFrom_splitOnP (hspace : blank ' ' = true) (t : Text) :
    ∃ first rest, t.splitOnP blank = first :: rest ∧
      squeezeFrom blank false (t ++ [' ']) = first ++ ' ' :: spread (rest.filter (· ≠ [])) ∧
      squeezeFrom blank true (t ++ [' ']) = spread ((first :: rest).filter (· ≠ [])) := by
  induction t with
  | nil =>
      refine ⟨[], [], List.splitOnP_nil, ?_, ?_⟩
      · rw [List.nil_append, squeezeFrom_blank hspace]
        rfl
      · rw [List.nil_append, squeezeFrom_blank hspace]
        rfl
  | cons c t ih =>
      obtain ⟨first, rest, hsplit, hfalse, htrue⟩ := ih
      rw [List.cons_append, List.splitOnP_cons_eq_if_modifyHead, hsplit]
      cases hc : blank c with
      | true =>
          refine ⟨[], first :: rest, rfl, ?_, ?_⟩
          · rw [squeezeFrom_blank hc, htrue]
            rfl
          · rw [squeezeFrom_blank hc, htrue]
            rfl
      | false =>
          refine ⟨c :: first, rest, rfl, ?_, ?_⟩
          · rw [squeezeFrom_cons hc, hfalse]
            rfl
          · rw [squeezeFrom_cons hc, hfalse, List.filter_cons_of_pos (by simp), spread_cons]
            rfl

/-- The squeezed text is its words. -/
theorem squeezeFrom_words (hspace : blank ' ' = true) (t : Text) :
    squeezeFrom blank true (t ++ [' ']) = spread (words blank t) := by
  obtain ⟨first, rest, hsplit, -, htrue⟩ := squeezeFrom_splitOnP hspace t
  rw [htrue, words, hsplit]

theorem mem_words_blank {t w : Text} (h : w ∈ words blank t) : ∀ c ∈ w, blank c = false := by
  have hpart : w ∈ t.splitOnP blank := (List.mem_filter.mp h).1
  clear h
  induction t generalizing w with
  | nil =>
      rw [List.splitOnP_nil, List.mem_singleton] at hpart
      rw [hpart]
      exact fun c hc => absurd hc List.not_mem_nil
  | cons d t ih =>
      rw [List.splitOnP_cons_eq_if_modifyHead] at hpart
      cases hsplit : t.splitOnP blank with
      | nil => exact absurd hsplit (List.splitOnP_ne_nil _ _)
      | cons first rest =>
          rw [hsplit] at hpart ih
          split_ifs at hpart with hd
          · rcases List.mem_cons.mp hpart with rfl | hpart
            · exact fun c hc => absurd hc List.not_mem_nil
            · exact ih hpart
          · rcases List.mem_cons.mp hpart with rfl | hpart
            · intro c hc
              rcases List.mem_cons.mp hc with rfl | hc
              · exact Bool.eq_false_iff.mpr hd
              · exact ih List.mem_cons_self c hc
            · exact ih (List.mem_cons_of_mem _ hpart)

/-- What stands before the first blank. -/
theorem takeWhile_before {w : Text} (h : ' ' ∉ w) (t : Text) :
    (w ++ ' ' :: t).takeWhile (· ≠ ' ') = w := by
  have hall : ∀ c ∈ w, decide (c ≠ ' ') = true := by
    intro c hc
    rw [decide_eq_true_eq]
    rintro rfl
    exact h hc
  rw [List.takeWhile_append_of_pos hall]
  simp

theorem spread_inj {ws vs : List Text} (hws : ∀ w ∈ ws, ' ' ∉ w) (hvs : ∀ v ∈ vs, ' ' ∉ v)
    (h : spread ws = spread vs) : ws = vs := by
  induction ws generalizing vs with
  | nil =>
      cases vs with
      | nil => rfl
      | cons v vs =>
          rw [spread_cons] at h
          exact absurd (congrArg List.length h) (by simp [spread])
  | cons w ws ih =>
      cases vs with
      | nil =>
          rw [spread_cons] at h
          exact absurd (congrArg List.length h) (by simp [spread])
      | cons v vs =>
          rw [spread_cons, spread_cons] at h
          have hw := takeWhile_before (hws w List.mem_cons_self) (spread ws)
          rw [h, takeWhile_before (hvs v List.mem_cons_self)] at hw
          subst hw
          have hrest := (List.cons.inj (List.append_cancel_left h)).2
          rw [ih (fun x hx => hws x (List.mem_cons_of_mem _ hx))
            (fun x hx => hvs x (List.mem_cons_of_mem _ hx)) hrest]

/-- **Texts have the same words** exactly if they are the same when squeezed. -/
theorem words_eq_iff (hspace : blank ' ' = true) (t u : Text) :
    words blank t = words blank u ↔
      squeezeFrom blank true (t ++ [' ']) = squeezeFrom blank true (u ++ [' ']) := by
  have hfree : ∀ v : Text, ∀ w ∈ words blank v, ' ' ∉ w := by
    intro v w hw hmem
    have hblank := mem_words_blank hw ' ' hmem
    rw [hspace] at hblank
    cases hblank
  rw [squeezeFrom_words hspace, squeezeFrom_words hspace]
  exact ⟨fun h => by rw [h], spread_inj (hfree t) (hfree u)⟩

end Data.Blanks
