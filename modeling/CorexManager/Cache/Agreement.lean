import CorexManager.Cache.Conditions

/-!
# Varnish and HAProxy on the same rule

A rule's two conditions look at a request in two ways: the one for Varnish searches the whole
target, the one for HAProxy its path, or the parameters of its query string.  They part where
the target has in one place what the rule looks for in another (`Deviates`):

* a path pattern with a question mark, or a file name or an extension that ends the query
  string or stands there before a question mark;
* a path pattern with blanks, whose words HAProxy takes for alternatives;
* a query string without any `=`;
* the text of a parameter that is part of the path or begins a longer parameter, or that only
  follows a semicolon;
* a value that is empty, has blanks, or looks like a flag.

`agree_iff` says that these are all.
-/

namespace CorexManager.Cache

open Data
open HAProxy
open Python (UnicodeTables)

/-- A rule as it is stored: its pattern comes from `normalize_pattern`. -/
structure StoredRule (U : UnicodeTables) (V : UpperTable) extends CacheRule where
  normalized : ∃ raw, normalizePattern U V matchType raw = .ok pattern

/-- **The conditions agree**: on the request, both are true or both are false. -/
def Agree (U : UnicodeTables) (E : Engine) (t : Txn) (method : Text) (u : Url) (r : CacheRule) :
    Prop :=
  (r.vclCondition U).onRequest method u = some (r.applies E (t.carrying method u))

/-! ### Where they part -/

/-- A path pattern that goes on into the query string, or one with blanks, a word of which the
path begins with. -/
def PathDeviates (p : Text) (u : Url) : Prop :=
  (∃ q rest, u.query = some q ∧ p = u.path ++ '?' :: rest ∧ rest <+: q) ∨
    (∃ c ∈ p, blank c = true) ∧ ∃ w ∈ blankWords p, w <+: u.path

/-- The end of a file name in the query string and not at the end of the path. -/
def SegmentDeviates (icase : Bool) (p : Text) (u : Url) : Prop :=
  (∃ q, u.query = some q ∧ EndsSegment icase p q) ∧
    ¬ ∃ a q, u.path = a ++ q ∧ Pcre.Alike icase q p

/-- The name of a parameter that only the path has, after an ampersand, or only a parameter
after a semicolon. -/
def NameDeviates (n : Text) (u : Url) : Prop :=
  ('&' :: (n ++ ['=']) <:+: u.path ∧ u.valuesOf n = []) ∨
    (∃ v, (';', n ++ '=' :: v) ∈ params u.tail) ∧ ¬ Occurs (n ++ ['=']) u

/-- A value with blanks that HAProxy's reading of it matches; a value HAProxy compares with
nothing, where it occurs; a plain value that occurs and is not the whole of any parameter's
value; or a plain value that only a parameter after a semicolon has. -/
def ValueDeviates (E : Engine) (n v : Text) (u : Url) : Prop :=
  if v.any blank then ∃ x ∈ u.valuesOf n, valueMatches E n v x = true
  else if v = [] ∨ v.head? = some '-' then Occurs (n ++ '=' :: v) u
  else (Occurs (n ++ '=' :: v) u ∧ v ∉ u.valuesOf n) ∨
    ((';', n ++ '=' :: v) ∈ params u.tail ∧ ¬ Occurs (n ++ '=' :: v) u)

/-- What parts the conditions of a query rule. -/
def QueryDeviates (E : Engine) (p : Text) (u : Url) : Prop :=
  if p = ['*'] then ∃ q, u.query = some q ∧ '=' ∉ q
  else if '=' ∈ p then ValueDeviates E (splitParam p).1 (splitParam p).2 u
  else NameDeviates p u

/-- **What parts the conditions** of a rule on a target. -/
def Deviates (E : Engine) (r : CacheRule) (u : Url) : Prop :=
  match r.matchType with
  | .path => PathDeviates r.pattern u
  | .filename => SegmentDeviates false ('/' :: r.pattern) u
  | .extension => SegmentDeviates true ('.' :: r.pattern) u
  | .queryString => QueryDeviates E r.pattern u
  | .method | .contentType | .statusCode => False

section Proofs

variable {U : UnicodeTables} {V : UpperTable} {E : Engine} {t : Txn} {method : Text} {u : Url}
  {r : CacheRule}

/-- What the conditions ask, and when they agree. -/
private theorem agree_iff_of {A B : Prop}
    (hvcl : ∃ b, (r.vclCondition U).onRequest method u = some b ∧ (b = true ↔ A))
    (happlies : r.applies E (t.carrying method u) = true ↔ B) :
    Agree U E t method u r ↔ (A ↔ B) := by
  obtain ⟨b, hb, hA⟩ := hvcl
  rw [Agree, hb, Option.some.injEq, ← hA, ← happlies, Bool.eq_iff_iff]

/-! ### Places in a target -/

/-- What has no question mark behind its first character stands in the path or behind it. -/
private theorem place {x w b : Text} (hmark : '?' ∉ w.drop 1)
    (h : u.text = x ++ (w ++ b)) :
    (∃ b', u.path = x ++ (w ++ b') ∧ b = b' ++ u.tail) ∨
      ∃ x', x = u.path ++ x' ∧ u.tail = x' ++ (w ++ b) := by
  rw [Url.text_eq] at h
  rcases List.append_eq_append_iff.mp h with ⟨s, hx, htail⟩ | ⟨s, hpath, hrest⟩
  · exact .inr ⟨s, hx, htail⟩
  · rcases List.append_eq_append_iff.mp hrest with ⟨k, hs, hb⟩ | ⟨k, hwk, htail⟩
    · exact .inl ⟨k, by rw [hpath, hs], hb⟩
    · cases k with
      | nil =>
          rw [List.append_nil] at hwk
          exact .inl ⟨[], by rw [hpath, hwk, List.append_nil], htail.symm⟩
      | cons c k =>
          -- the question mark of the target is in the word, so it begins it
          have hc : c = '?' := by
            have hhead := congrArg List.head? htail
            unfold Url.tail at hhead
            cases hquery : u.query <;> rw [hquery] at hhead
            · cases hhead
            · exact (Option.some.inj hhead).symm
          cases s with
          | nil =>
              rw [List.append_nil] at hpath
              exact .inr ⟨[], by rw [hpath, List.append_nil], by rw [htail, hwk]; rfl⟩
          | cons d s =>
              refine absurd ?_ hmark
              rw [hwk, hc]
              simp

/-- The query string behind its question mark. -/
private theorem tail_cons {c : Char} {q : Text} (h : u.tail = c :: q) :
    c = '?' ∧ u.query = some q := by
  unfold Url.tail at h
  cases hquery : u.query with
  | none =>
      rw [hquery] at h
      cases h
  | some q' =>
      rw [hquery] at h
      obtain ⟨rfl, rfl⟩ := List.cons.inj h
      exact ⟨rfl, rfl⟩

private theorem tail_of_query {q : Text} (h : u.query = some q) : u.tail = '?' :: q := by
  rw [Url.tail, h]

/-! ### Paths, file names, extensions -/

private theorem blank_not_before {p : Text} (hblank : ∃ c ∈ p, blank c = true) :
    ¬ p <+: u.text := by
  intro h
  obtain ⟨c, hc, hb⟩ := hblank
  have hvisible := (u.visible_text c (h.subset hc)).1
  rw [hb] at hvisible
  cases hvisible

/-- The target of a request begins with a word: the path does, or the word goes on behind it. -/
private theorem prefix_text {p : Text} : p <+: u.text ↔ p <+: u.path ∨
    ∃ q rest, u.query = some q ∧ p = u.path ++ '?' :: rest ∧ rest <+: q := by
  rw [Url.text_eq]
  constructor
  · rintro ⟨b, hb⟩
    rcases List.append_eq_append_iff.mp hb with ⟨s, hpath, -⟩ | ⟨s, hp, htail⟩
    · exact .inl ⟨s, hpath.symm⟩
    · cases s with
      | nil =>
          rw [List.append_nil] at hp
          exact .inl (hp ▸ List.prefix_refl _)
      | cons c s =>
          obtain ⟨rfl, hquery⟩ := tail_cons htail
          exact .inr ⟨s ++ b, s, hquery, hp, List.prefix_append _ _⟩
  · rintro (h | ⟨q, rest, hquery, rfl, ⟨b, rfl⟩⟩)
    · exact h.trans (List.prefix_append _ _)
    · exact ⟨b, by rw [tail_of_query hquery]; simp⟩

private theorem path_agree (h : r.matchType = .path) (hsafe : Safe r.pattern) {rest : Text}
    (hp : r.pattern = '/' :: rest) :
    Agree U E t method u r ↔ ¬ PathDeviates r.pattern u := by
  rw [agree_iff_of (vcl_path U method u h) (applies_path h hsafe hp), PathDeviates]
  by_cases hblank : ∃ c ∈ r.pattern, blank c = true
  · have hreach : ¬ ∃ q rest, u.query = some q ∧ r.pattern = u.path ++ '?' :: rest ∧ rest <+: q :=
      fun hreach => blank_not_before hblank (prefix_text.mpr (.inr hreach))
    simp only [blank_not_before hblank, hreach, hblank, false_or, true_and, false_iff]
  · have hword : blankWords r.pattern = [r.pattern] := by
      refine blankWords_bare (by rw [hp]; exact List.cons_ne_nil _ _) fun c hc => ?_
      cases hb : blank c with
      | false => rfl
      | true => exact absurd ⟨c, hc, hb⟩ hblank
    simp only [hword, List.mem_singleton, exists_eq_left, hblank, false_and, or_false, prefix_text]
    constructor
    · rintro hiff ⟨q, s, hquery, hpath, hs⟩
      obtain ⟨b, hb⟩ := hiff.mp (.inr ⟨q, s, hquery, hpath, hs⟩)
      -- the path would have to be longer than itself
      have hlen := congrArg List.length hb
      rw [hpath] at hlen
      simp only [List.length_append, List.length_cons] at hlen
      omega
    · exact fun hnot => or_iff_left hnot

/-- A word ends the path, or a part of the query string. -/
private theorem endsSegment_text {icase : Bool} {p : Text} (hne : p ≠ [])
    (hmark : ∀ q, Pcre.Alike icase q p → '?' ∉ q) :
    EndsSegment icase p u.text ↔ (∃ a q, u.path = a ++ q ∧ Pcre.Alike icase q p) ∨
      ∃ query, u.query = some query ∧ EndsSegment icase p query := by
  constructor
  · rintro ⟨a, q, rest, htext, halike, hrest⟩
    have hq : q ≠ [] := by
      rintro rfl
      exact hne (List.map_eq_nil_iff.mp halike.symm)
    have hdrop : '?' ∉ q.drop 1 := fun hmem => hmark q halike (List.mem_of_mem_drop hmem)
    rcases place hdrop htext with ⟨b, hpath, hb⟩ | ⟨x, -, htail⟩
    · left
      have hnone : b = [] := by
        cases b with
        | nil => rfl
        | cons c b =>
            rcases hrest with hrest | hrest
            · rw [hb] at hrest
              cases hrest
            · rw [hb] at hrest
              obtain rfl : c = '?' := Option.some.inj hrest
              exact absurd (by rw [hpath]; simp) u.noMark
      rw [hnone, List.append_nil] at hpath
      exact ⟨a, q, hpath, halike⟩
    · right
      cases x with
      | nil =>
          cases q with
          | nil => exact absurd rfl hq
          | cons c q =>
              obtain ⟨rfl, -⟩ := tail_cons htail
              exact absurd List.mem_cons_self (hmark _ halike)
      | cons c x =>
          obtain ⟨-, hquery⟩ := tail_cons htail
          exact ⟨_, hquery, x, q, rest, rfl, halike, hrest⟩
  · rintro (⟨a, q, hpath, halike⟩ | ⟨query, hquery, a, q, rest, rfl, halike, hrest⟩)
    · refine ⟨a, q, u.tail, by rw [Url.text_eq, hpath, List.append_assoc], halike, ?_⟩
      unfold Url.tail
      cases u.query with
      | none => exact .inl rfl
      | some q => exact .inr rfl
    · refine ⟨u.path ++ '?' :: a, q, rest, ?_, halike, hrest⟩
      rw [Url.text_eq, tail_of_query hquery]
      simp

private theorem segment_agree {icase : Bool} {p : Text} (hne : p ≠ [])
    (hmark : ∀ q, Pcre.Alike icase q p → '?' ∉ q)
    (hvcl : ∃ b, (r.vclCondition U).onRequest method u = some b ∧
      (b = true ↔ EndsSegment icase p u.text))
    (happlies : r.applies E (t.carrying method u) = true ↔
      ∃ a q, u.path = a ++ q ∧ Pcre.Alike icase q p) :
    Agree U E t method u r ↔ ¬ SegmentDeviates icase p u := by
  rw [agree_iff_of hvcl happlies, endsSegment_text hne hmark, or_iff_left_iff_imp,
    SegmentDeviates, not_and_not_right]

/-! ### Parameters -/

/-- A parameter after a question mark or an ampersand occurs. -/
private theorem occurs_of_param {d : Char} {p w : Text} (hd : d ∈ ['?', '&'])
    (hmem : (d, p) ∈ params u.tail) (hw : w <+: p) : Occurs w u := by
  obtain ⟨a, b, htail, -, rfl⟩ := mem_params.mp hmem
  obtain ⟨s, hs⟩ := hw.trans (List.takeWhile_prefix _)
  refine ⟨d, hd, u.path ++ a, s, ?_⟩
  rw [Url.text_eq, htail, ← hs]
  simp

/-- Every parameter follows a question mark, an ampersand or a semicolon. -/
private theorem delimiter_cases {d : Char} {p : Text} (hmem : (d, p) ∈ params u.tail) :
    d ∈ ['?', '&'] ∨ d = ';' := by
  obtain ⟨a, b, -, hd, -⟩ := mem_params.mp hmem
  simp only [isDelimiter, Bool.or_eq_true, beq_iff_eq] at hd
  rcases hd with (rfl | rfl) | rfl
  · exact .inl (by decide)
  · exact .inr rfl
  · exact .inl (by decide)

/-- Without delimiters in it, what occurs does so in the path, or begins a parameter. -/
private theorem occurs_cases {w : Text} (hw : ∀ c ∈ w, isDelimiter c = false) (h : Occurs w u) :
    '&' :: w <:+: u.path ∨ ∃ d p, (d, p) ∈ params u.tail ∧ w <+: p := by
  obtain ⟨d, hd, a, b, htext⟩ := h
  have hmark : '?' ∉ (d :: w).drop 1 := fun hmem => absurd (hw _ hmem) (by decide)
  rcases place hmark (b := b) (x := a) (by rw [← htext, List.append_assoc]) with
    ⟨s, hpath, -⟩ | ⟨x, -, htail⟩
  · have hinside : d :: w <:+: u.path := ⟨a, s, by rw [hpath, List.append_assoc]⟩
    have hne : d ≠ '?' := by
      rintro rfl
      exact u.noMark (hinside.subset List.mem_cons_self)
    obtain rfl : d = '&' := by simpa [hne] using hd
    exact .inl hinside
  · have hdelim : isDelimiter d = true := by
      rcases List.mem_cons.mp hd with rfl | hd
      · rfl
      · rw [List.mem_singleton.mp hd]
        rfl
    refine .inr ⟨d, _, mem_params.mpr ⟨x, w ++ b, htail, hdelim, rfl⟩, ?_⟩
    rw [List.takeWhile_append_of_pos fun c hc => by rw [hw c hc]; rfl]
    exact List.prefix_append _ _

/-- There is a value where a parameter begins with the name and an equals sign. -/
private theorem valuesOf_ne_nil {n : Text} : u.valuesOf n ≠ [] ↔
    ∃ d p, (d, p) ∈ params u.tail ∧ n ++ ['='] <+: p := by
  constructor
  · intro hne
    obtain ⟨v, hv⟩ := List.exists_mem_of_ne_nil _ hne
    obtain ⟨d, hmem⟩ := Url.mem_valuesOf.mp hv
    exact ⟨d, _, hmem, v, by simp⟩
  · rintro ⟨d, p, hmem, v, rfl⟩
    exact List.ne_nil_of_mem (Url.mem_valuesOf.mpr ⟨d, by simpa using hmem⟩)

/-- Two statements, and what makes one of them true without the other. -/
private theorem iff_iff_of {O W P S : Prop} (hP : P → O) (hS : S → W) (hO : O → P ∨ W)
    (hW : W → O ∨ S) : (O ↔ W) ↔ ¬ ((P ∧ ¬ W) ∨ S ∧ ¬ O) := by
  constructor
  · rintro hiff (⟨p, hw⟩ | ⟨s, ho⟩)
    · exact hw (hiff.mp (hP p))
    · exact ho (hiff.mpr (hS s))
  · refine fun hnot => ⟨fun o => ?_, fun w => ?_⟩
    · by_contra hw
      exact hnot (.inl ⟨(hO o).resolve_right hw, hw⟩)
    · by_contra ho
      exact hnot (.inr ⟨(hW w).resolve_left ho, ho⟩)

/-- The name of a parameter is not the star. -/
private theorem name_ne_star {n : Text} (hne : n ≠ []) (hn : ∀ c ∈ n, paramChar c = true)
    (rest : Text) : n ++ rest ≠ ['*'] := by
  intro heq
  cases n with
  | nil => exact hne rfl
  | cons c n =>
      obtain rfl := (List.cons.inj heq).1
      exact absurd (hn '*' List.mem_cons_self) (by decide)

private theorem name_noEq {n : Text} (hn : ∀ c ∈ n, paramChar c = true) : '=' ∉ n :=
  fun hmem => (paramChar_plain (hn _ hmem)).2.2 rfl

/-- Nothing separates the characters of a name. -/
private theorem name_noDelimiter {n : Text} (hn : ∀ c ∈ n, paramChar c = true) :
    ∀ c ∈ n ++ ['='], isDelimiter c = false := by
  intro c hc
  rcases List.mem_append.mp hc with hc | hc
  · have hparam := hn c hc
    cases hdelim : isDelimiter c with
    | false => rfl
    | true =>
        simp only [isDelimiter, Bool.or_eq_true, beq_iff_eq] at hdelim
        rcases hdelim with (rfl | rfl) | rfl <;> exact absurd hparam (by decide)
  · rw [List.mem_singleton.mp hc]
    rfl

section Query

variable {n v : Text} (h : r.matchType = .queryString) (hne : n ≠ [])
  (hn : ∀ c ∈ n, paramChar c = true)
include h hne hn

private theorem name_agree (hp : r.pattern = n) :
    Agree U E t method u r ↔ ¬ NameDeviates n u := by
  have hstar : r.pattern ≠ ['*'] := by
    rw [hp, ← List.append_nil n]
    exact name_ne_star hne hn []
  rw [agree_iff_of (vcl_param U method u h hstar (name_noEq hn) hp)
    (applies_param h hstar hne hn hp), NameDeviates, ← not_ne_iff]
  refine iff_iff_of ?_ ?_ ?_ ?_
  · rintro ⟨a, b, hpath⟩
    refine ⟨'&', by decide, a, b ++ u.tail, ?_⟩
    rw [Url.text_eq, ← hpath]
    simp
  · rintro ⟨v, hv⟩
    exact valuesOf_ne_nil.mpr ⟨';', _, hv, v, by simp⟩
  · intro ho
    exact (occurs_cases (name_noDelimiter hn) ho).imp_right valuesOf_ne_nil.mpr
  · intro hw
    obtain ⟨d, p, hmem, hpre⟩ := valuesOf_ne_nil.mp hw
    rcases delimiter_cases hmem with hd | rfl
    · exact .inl (occurs_of_param hd hmem hpre)
    · obtain ⟨v, rfl⟩ := hpre
      exact .inr ⟨v, by simpa using hmem⟩

private theorem value_agree (hsafe : Safe r.pattern) (hp : r.pattern = n ++ '=' :: v) :
    Agree U E t method u r ↔ ¬ ValueDeviates E n v u := by
  have hstar : r.pattern ≠ ['*'] := by
    rw [hp]
    exact name_ne_star hne hn _
  rw [agree_iff_of (vcl_value U method u h hstar (name_noEq hn) hp)
    (applies_value h hstar hne hn hsafe hp), ValueDeviates, hp]
  cases hblank : v.any blank with
  | true =>
      -- no target has a blank
      have hnever : ¬ Occurs (n ++ '=' :: v) u := by
        rintro ⟨d, -, hinside⟩
        obtain ⟨c, hc, hb⟩ := List.any_eq_true.mp hblank
        have hvisible := (u.visible_text c (hinside.subset (by simp [hc]))).1
        rw [hb] at hvisible
        cases hvisible
      rw [if_pos rfl, iff_false_left hnever]
  | false =>
      have hplain : ∀ c ∈ v, blank c = false := by
        simpa using hblank
      rw [if_neg Bool.false_ne_true]
      by_cases hdash : v = [] ∨ v.head? = some '-'
      · have hnever : ¬ ∃ x ∈ u.valuesOf n, valueMatches E n v x = true := by
          rintro ⟨x, -, hx⟩
          rw [valueMatches_flag E n hplain hdash x] at hx
          cases hx
        rw [if_pos hdash]
        exact iff_false_right hnever
      · obtain ⟨hv, hfirst⟩ := not_or.mp hdash
        have hwhole : (∃ x ∈ u.valuesOf n, valueMatches E n v x = true) ↔ v ∈ u.valuesOf n := by
          simp only [valueMatches_plain E n hv hplain hfirst, exists_eq_right]
        rw [if_neg hdash, hwhole]
        refine iff_iff_of id ?_ .inl ?_
        · exact fun hmem => Url.mem_valuesOf.mpr ⟨';', hmem⟩
        · intro hmem
          obtain ⟨d, hd⟩ := Url.mem_valuesOf.mp hmem
          rcases delimiter_cases hd with hmark | rfl
          · exact .inl (occurs_of_param hmark hd (List.prefix_refl _))
          · exact .inr hd

private theorem query_agree (hsafe : Safe r.pattern) (hp : r.pattern = n ∨ ∃ v, r.pattern = n ++ '=' :: v) :
    Agree U E t method u r ↔ ¬ QueryDeviates E r.pattern u := by
  rw [QueryDeviates]
  rcases hp with hp | ⟨v, hp⟩
  · have hstar : r.pattern ≠ ['*'] := by
      rw [hp, ← List.append_nil n]
      exact name_ne_star hne hn []
    rw [if_neg hstar, if_neg (by rw [hp]; exact name_noEq hn), hp]
    exact name_agree h hne hn hp
  · have hstar : r.pattern ≠ ['*'] := by
      rw [hp]
      exact name_ne_star hne hn _
    rw [if_neg hstar, if_pos (by rw [hp]; simp), hp, splitParam_eq (name_noEq hn)]
    exact value_agree h hne hn hsafe hp

end Query

private theorem any_agree (h : r.matchType = .queryString) (hstar : r.pattern = ['*']) :
    Agree U E t method u r ↔ ¬ QueryDeviates E r.pattern u := by
  have hmark : '?' ∈ u.text ↔ ∃ q, u.query = some q := by
    rw [Url.text_eq, List.mem_append, or_iff_right u.noMark, Url.tail]
    cases u.query <;> simp
  rw [agree_iff_of (vcl_any U method u h hstar) (applies_any h hstar), QueryDeviates,
    if_pos hstar, hmark]
  cases u.query <;> simp

private theorem filename_agree (h : r.matchType = .filename) (hsafe : Safe r.pattern)
    (hname : ∀ c ∈ r.pattern, filenameChar U c = true) :
    Agree U E t method u r ↔ ¬ SegmentDeviates false ('/' :: r.pattern) u := by
  have hblank : ∀ c ∈ r.pattern, blank c = false := by
    intro c hc
    have hchar := hname c hc
    cases hb : blank c with
    | false => rfl
    | true =>
        have hc : c = ' ' ∨ c = '\t' := by simpa [blank] using hb
        rcases hc with rfl | rfl <;>
          · rw [filenameChar, UnicodeTables.space, if_pos (by decide)] at hchar
            exact absurd hchar (by decide)
  have hbare : ∀ c ∈ r.pattern, bare c = true := fun c hc =>
    (hsafe.bare_or_blank c hc).resolve_right (by rw [hblank c hc]; exact Bool.false_ne_true)
  have hmark : ∀ q, Pcre.Alike false q ('/' :: r.pattern) → '?' ∉ q := by
    intro q halike hmem
    rw [Pcre.alike_false.mp halike] at hmem
    rcases List.mem_cons.mp hmem with heq | hmem
    · exact absurd heq (by decide)
    · have hchar := hname _ hmem
      simp [filenameChar] at hchar
  refine segment_agree (List.cons_ne_nil _ _) hmark (vcl_filename U method u h)
    ((applies_filename h hbare hblank).trans ?_)
  constructor
  · rintro ⟨a, ha⟩
    exact ⟨a, _, ha.symm, Pcre.alike_false.mpr rfl⟩
  · rintro ⟨a, q, hpath, halike⟩
    rw [Pcre.alike_false.mp halike] at hpath
    exact ⟨a, hpath.symm⟩

private theorem extension_agree (h : r.matchType = .extension)
    (hletters : ∀ c ∈ r.pattern, c.isAlphanum = true) :
    Agree U E t method u r ↔ ¬ SegmentDeviates true ('.' :: r.pattern) u := by
  have hmark : ∀ q, Pcre.Alike true q ('.' :: r.pattern) → '?' ∉ q := by
    intro q halike hmem
    have hlower : '?' ∈ ('.' :: r.pattern).map (Pcre.fold true) := by
      rw [← show q.map (Pcre.fold true) = _ from halike]
      exact List.mem_map.mpr ⟨'?', hmem, by decide⟩
    obtain ⟨c, hc, hfold⟩ := List.mem_map.mp hlower
    rcases List.mem_cons.mp hc with rfl | hc
    · exact absurd hfold (by decide)
    · exact ascii_forall (P := fun c => c.isAlphanum = true → Pcre.fold true c ≠ '?') (by decide)
        c (isAlphanum_ascii (hletters c hc)) (hletters c hc) hfold
  exact segment_agree (List.cons_ne_nil _ _) hmark (vcl_extension U method u h)
    (applies_extension h hletters)

private theorem agree_iff_of_normalized (h : r.matchType.requestPhase = true) {raw : Text}
    (hraw : normalizePattern U V r.matchType raw = .ok r.pattern) :
    Agree U E t method u r ↔ ¬ Deviates E r u := by
  unfold Deviates
  cases hkind : r.matchType with
  | path =>
      rw [hkind] at hraw
      obtain ⟨hsafe, rest, hp⟩ := normalizePattern_path hraw
      exact path_agree hkind hsafe hp
  | filename =>
      rw [hkind] at hraw
      obtain ⟨hsafe, hname⟩ := normalizePattern_filename hraw
      exact filename_agree hkind hsafe hname
  | extension =>
      rw [hkind] at hraw
      exact extension_agree hkind (normalizePattern_extension hraw)
  | method =>
      rw [hkind] at hraw
      obtain ⟨hne, hletters⟩ := normalizePattern_method hraw
      have hsame : Agree U E t method u r := by
        rw [Agree, vcl_method U method u hkind, applies_method hkind hne hletters]
      exact iff_of_true hsame not_false
  | queryString =>
      rw [hkind] at hraw
      obtain ⟨hsafe, hstar | ⟨n, hne, hn, hp⟩⟩ := normalizePattern_query hraw
      · exact any_agree hkind hstar
      · exact query_agree hkind hne hn hsafe hp
  | contentType =>
      rw [hkind] at h
      cases h
  | statusCode =>
      rw [hkind] at h
      cases h

end Proofs

/-- **Where the conditions agree.**  For every rule that looks at the request and every request,
the condition for Varnish and the one for HAProxy are both true or both false exactly when
nothing parts them. -/
theorem agree_iff (U : UnicodeTables) (V : UpperTable) (r : StoredRule U V)
    (h : r.matchType.requestPhase = true) (E : Engine) (t : Txn) (method : Text) (u : Url) :
    Agree U E t method u r.toCacheRule ↔ ¬ Deviates E r.toCacheRule u :=
  agree_iff_of_normalized h r.normalized.choose_spec

/-- No character outside ASCII has a capital. -/
def noUppercase : UpperTable := ⟨fun _ => [], fun _ => List.not_mem_nil⟩

/-- Images are cached. -/
def pngRule : StoredRule .ascii noUppercase where
  id := 1
  priority := 0
  enabled := true
  matchType := .extension
  pattern := "png".toList
  action := .cache
  tier := .disk
  normalized := ⟨"*.PNG".toList, rfl⟩

/-- A transaction without headers. -/
def bareTxn : Txn := ⟨[], [], fun _ => none, none, fun _ _ => [], fun _ => []⟩

/-- `/logo.png`. -/
def logoUrl : Url := ⟨"/logo.png".toList, none, by decide, by decide⟩

/-- `/proxy?of=logo.png`. -/
def proxyUrl : Url := ⟨"/proxy".toList, some "of=logo.png".toList, by decide, by decide⟩

theorem agree_logo :
    Agree .ascii .simple bareTxn "GET".toList logoUrl pngRule.toCacheRule :=
  (agree_iff .ascii noUppercase pngRule rfl .simple bareTxn "GET".toList logoUrl).mpr
    fun hdeviates => nomatch hdeviates.1.choose_spec.1

/-- **A file name in the query string**: Varnish takes the request for one of an image, HAProxy
does not. -/
theorem part_proxy : ¬ ∀ (U : UnicodeTables) (V : UpperTable) (r : StoredRule U V),
    r.matchType.requestPhase = true → ∀ (E : Engine) (t : Txn) (method : Text) (u : Url),
      Agree U E t method u r.toCacheRule := by
  intro h
  have hagree := h .ascii noUppercase pngRule rfl .simple bareTxn "GET".toList proxyUrl
  have hvcl : (pngRule.vclCondition .ascii).onRequest "GET".toList proxyUrl = some true := rfl
  have hhaproxy : pngRule.applies .simple (bareTxn.carrying "GET".toList proxyUrl) = false := rfl
  rw [Agree, hvcl, hhaproxy] at hagree
  cases hagree

end CorexManager.Cache
