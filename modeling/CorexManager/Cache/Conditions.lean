import CorexManager.Cache.Directives
import CorexManager.HAProxy.Url
import CorexManager.Pcre.Regex

/-!
# What the conditions of a rule ask

A rule has two conditions: one for Varnish, a regular expression over the whole target of the
request (`CacheRule.vclCondition`), and one for HAProxy, an ACL over its path, its method or
the parameters of its query string.  For every kind of rule this file says what each of them
asks of a request, in the words of the request (`vcl_path`, `applies_path`, …), given what
`normalize_pattern` lets through.
-/

namespace CorexManager.Cache

open Data
open HAProxy
open Python (UnicodeTables chopLineEnd chopLineEnd_eq)

/-! ### The condition for Varnish -/

/-- A test of the status of the response. -/
inductive StatusTest where
  /-- `beresp.status == code`. -/
  | code (code : Text)
  /-- `beresp.status >= d00 && beresp.status < (d+1)00`. -/
  | hundred (d : Char)
  deriving DecidableEq, Repr

/-- A VCL condition. -/
inductive VclCondition where
  /-- `req.url ~ "regex"`. -/
  | url (regex : Text)
  /-- `req.method == "name"`. -/
  | method (name : Text)
  /-- `beresp.http.Content-Type ~ "regex"`. -/
  | contentType (regex : Text)
  /-- Tests joined by `||`. -/
  | status (tests : List StatusTest)
  deriving DecidableEq, Repr

/-- The test for a code of a list. -/
def statusTest (U : UnicodeTables) (code : Text) : StatusTest :=
  if code ≠ [] ∧ code.all U.digit then .code code else .hundred (code.headD ' ')

/-- `vcl_condition`. -/
def CacheRule.vclCondition (U : UnicodeTables) (r : CacheRule) : VclCondition :=
  match r.matchType with
  | .path => .url ('^' :: Pcre.escape r.pattern)
  | .filename => .url ('/' :: (Pcre.escape r.pattern ++ "(\\?.*)?$".toList))
  | .extension =>
      .url ("(?i)".toList ++ ("\\.".toList ++ (Pcre.escape r.pattern ++ "(\\?.*)?$".toList)))
  | .method => .method r.pattern
  | .queryString =>
      if r.pattern = ['*'] then .url "\\?".toList
      else if '=' ∈ r.pattern then
        let (param, value) := splitParam r.pattern
        .url ("[?&]".toList ++ (Pcre.escape param ++ '=' :: Pcre.escape value))
      else .url ("[?&]".toList ++ (Pcre.escape r.pattern ++ ['=']))
  | .contentType =>
      if ['/', '*'].isSuffixOf r.pattern then
        .contentType ('^' :: (Pcre.escape (r.pattern.take (r.pattern.length - 2)) ++ ['/']))
      else .contentType ('^' :: Pcre.escape r.pattern)
  | .statusCode =>
      if ',' ∈ r.pattern then .status ((r.pattern.splitOn ',').map (statusTest U))
      else if ['x', 'x'].isSuffixOf r.pattern then .status [.hundred (r.pattern.headD ' ')]
      else .status [.code r.pattern]

/-- The truth of a condition on the request; one on the response has none there. -/
def VclCondition.onRequest (method : Text) (u : Url) : VclCondition → Option Bool
  | .url regex => Pcre.matchText regex u.text
  | .method name => some (method == name)
  | .contentType _ | .status _ => none

/-! ### What `normalize_pattern` lets through -/

section Patterns

variable {U : UnicodeTables} {V : UpperTable} {raw p : Text}

/-- The characters that are not words of their own in a configuration line. -/
def Safe (p : Text) : Prop := ∀ c ∈ p, unsafeChar c = false

theorem Safe.ne_lineEnd (h : Safe p) : '\n' ∉ p := fun hmem => absurd (h _ hmem) (by decide)

theorem Safe.sublist {q : Text} (h : Safe p) (hq : q.Sublist p) : Safe q :=
  fun c hc => h c (hq.subset hc)

/-- A safe character is part of a word, or separates words. -/
theorem Safe.bare_or_blank (h : Safe p) : ∀ c ∈ p, bare c = true ∨ blank c = true := by
  intro c hc
  have hsafe := h c hc
  simp only [unsafeChar, Bool.or_eq_false_iff, beq_eq_false_iff_ne, ne_eq] at hsafe
  obtain ⟨⟨⟨⟨⟨⟨⟨⟨⟨hcr, hlf⟩, hdq⟩, hsq⟩, -⟩, hbs⟩, -⟩, hhash⟩, -⟩, -⟩ := hsafe
  by_cases hblank : blank c = true
  · exact .inr hblank
  · refine .inl ?_
    simp only [blank, Bool.or_eq_true, beq_iff_eq, not_or] at hblank
    simp [bare, hcr, hlf, hdq, hsq, hbs, hhash, hblank]

/-- A letter or digit is safe, and a part of a word. -/
theorem alphanum_safe {c : Char} (h : c.isAlphanum = true) :
    unsafeChar c = false ∧ blank c = false := by
  have hne : ∀ d : Char, d.isAlphanum = false → c ≠ d := by
    rintro d hd rfl
    rw [h] at hd
    cases hd
  constructor
  · simp only [unsafeChar, Bool.or_eq_false_iff, beq_eq_false_iff_ne]
    refine ⟨⟨⟨⟨⟨⟨⟨⟨⟨?_, ?_⟩, ?_⟩, ?_⟩, ?_⟩, ?_⟩, ?_⟩, ?_⟩, ?_⟩, ?_⟩ <;> exact hne _ (by decide)
  · simp only [blank, Bool.or_eq_false_iff, beq_eq_false_iff_ne]
    exact ⟨hne _ (by decide), hne _ (by decide)⟩

theorem onlyOf_iff {q : Char → Bool} (hline : '\n' ∉ p) :
    onlyOf q p = true ↔ p ≠ [] ∧ ∀ c ∈ p, q c = true := by
  rw [onlyOf, chopLineEnd_eq hline, Bool.and_eq_true, bne_iff_ne, List.all_eq_true]

/-- What every pattern has passed before its kind matters. -/
private theorem normalizePattern_ok {matchType : MatchType}
    (h : normalizePattern U V matchType raw = .ok p) :
    Safe (U.strip raw) ∧ normalizeValue U V (U.strip raw) matchType = .ok p := by
  unfold normalizePattern at h
  dsimp only at h
  split at h
  · cases h
  · split at h
    · cases h
    · next hsafe =>
        refine ⟨fun c hc => ?_, h⟩
        cases hchar : unsafeChar c with
        | false => rfl
        | true => exact absurd (List.any_eq_true.mpr ⟨c, hc, hchar⟩) hsafe

/-- An accepted value is the one that was tested. -/
private theorem ok_of_ite {q : Prop} [Decidable q] {value error : Text}
    (h : (if q then .ok value else .error error : Except Text Text) = .ok p) : q ∧ value = p := by
  split at h
  · next hq => exact ⟨hq, Except.ok.inj h⟩
  · cases h

/-- A value that is not refused is accepted. -/
private theorem ok_of_not_ite {q : Prop} [Decidable q] {error : Text} {rest : Except Text Text}
    (h : (if q then .error error else rest : Except Text Text) = .ok p) : ¬ q ∧ rest = .ok p := by
  split at h
  · cases h
  · next hq => exact ⟨hq, h⟩

/-- **A path** begins with a slash. -/
theorem normalizePattern_path (h : normalizePattern U V .path raw = .ok p) :
    Safe p ∧ ∃ t, p = '/' :: t := by
  obtain ⟨hsafe, hvalue⟩ := normalizePattern_ok h
  have hsub : (if (U.strip raw).getLast? = some '*' then (U.strip raw).dropLast
      else U.strip raw).Sublist (U.strip raw) := by
    split
    · exact List.dropLast_sublist _
    · exact List.Sublist.refl _
  obtain ⟨hslash, hrest⟩ := ok_of_not_ite hvalue
  obtain ⟨-, hok⟩ := ok_of_not_ite hrest
  obtain rfl := Except.ok.inj hok
  obtain ⟨t, ht⟩ := List.head?_eq_some_iff.mp (not_not.mp hslash)
  exact ⟨hsafe.sublist hsub, t, ht⟩

/-- **A file name** is one segment without blanks, wildcards and question marks. -/
theorem normalizePattern_filename (h : normalizePattern U V .filename raw = .ok p) :
    Safe p ∧ ∀ c ∈ p, filenameChar U c = true := by
  obtain ⟨hsafe, hvalue⟩ := normalizePattern_ok h
  obtain ⟨hname, rfl⟩ := ok_of_ite hvalue
  have hsafe := hsafe.sublist (List.dropWhile_sublist (· == '/'))
  exact ⟨hsafe, ((onlyOf_iff hsafe.ne_lineEnd).mp hname).2⟩

/-- **An extension** has letters and digits only. -/
theorem normalizePattern_extension (h : normalizePattern U V .extension raw = .ok p) :
    ∀ c ∈ p, c.isAlphanum = true := by
  obtain ⟨hsafe, hvalue⟩ := normalizePattern_ok h
  obtain ⟨hname, rfl⟩ := ok_of_ite hvalue
  have hsub : ((if ['*', '.'].isPrefixOf (U.strip raw) then (U.strip raw).drop 2
      else U.strip raw).dropWhile (· == '.')).Sublist (U.strip raw) := by
    refine (List.dropWhile_sublist _).trans ?_
    split
    · exact List.drop_sublist _ _
    · exact List.Sublist.refl _
  have hletters := ((onlyOf_iff (hsafe.sublist hsub).ne_lineEnd).mp hname).2
  have hascii : ∀ c ∈ (if ['*', '.'].isPrefixOf (U.strip raw) then (U.strip raw).drop 2
      else U.strip raw).dropWhile (· == '.'), decide (c.toNat < 128) = true :=
    fun c hc => decide_eq_true (isAlphanum_ascii (hletters c hc))
  intro c hc
  rw [UnicodeTables.lower, if_pos (List.all_eq_true.mpr hascii)] at hc
  obtain ⟨d, hd, rfl⟩ := List.mem_map.mp hc
  exact ascii_forall (P := fun d => d.isAlphanum = true → d.toLower.isAlphanum = true) (by decide)
    d (isAlphanum_ascii (hletters d hd)) (hletters d hd)

/-- Capital letters are on the line they came from. -/
private theorem upper_noLineEnd {t : Text} (h : '\n' ∉ t) : '\n' ∉ V.text t := by
  intro hmem
  obtain ⟨c, hc, hupper⟩ := List.mem_flatMap.mp hmem
  split at hupper
  · next hascii =>
      have hline : '\n' = c.toUpper := List.mem_singleton.mp hupper
      have hsame : c = '\n' := ascii_forall (P := fun c => '\n' = c.toUpper → c = '\n') (by decide)
        c hascii hline
      exact h (hsame ▸ hc)
  · exact V.noLineEnd c hupper

/-- **A method** is one word of letters. -/
theorem normalizePattern_method (h : normalizePattern U V .method raw = .ok p) :
    p ≠ [] ∧ ∀ c ∈ p, c.isAlphanum = true := by
  obtain ⟨hsafe, hvalue⟩ := normalizePattern_ok h
  obtain ⟨hname, rfl⟩ := ok_of_ite hvalue
  obtain ⟨hne, hletters⟩ := (onlyOf_iff (upper_noLineEnd hsafe.ne_lineEnd)).mp hname
  refine ⟨hne, fun c hc => ?_⟩
  rw [Char.isAlphanum, Char.isAlpha, hletters c hc, Bool.true_or, Bool.true_or]

/-- **A query pattern** is `*`, the name of a parameter, or a name and a value. -/
theorem normalizePattern_query (h : normalizePattern U V .queryString raw = .ok p) :
    Safe p ∧ (p = ['*'] ∨ ∃ n, n ≠ [] ∧ (∀ c ∈ n, paramChar c = true) ∧
      (p = n ∨ ∃ v, p = n ++ '=' :: v)) := by
  obtain ⟨hsafe, hvalue⟩ := normalizePattern_ok h
  simp only [normalizeValue] at hvalue
  split at hvalue
  · next hstar =>
      obtain rfl := Except.ok.inj hvalue
      exact ⟨hsafe, .inl hstar⟩
  · obtain ⟨hparam, rfl⟩ := ok_of_ite hvalue
    refine ⟨hsafe, .inr ⟨(U.strip raw).takeWhile paramChar, ?_⟩⟩
    rw [queryParam, chopLineEnd_eq hsafe.ne_lineEnd] at hparam
    simp only [Bool.and_eq_true, Bool.or_eq_true, bne_iff_ne, beq_iff_eq] at hparam
    obtain ⟨hne, hrest⟩ := hparam
    refine ⟨hne, fun c hc => List.mem_takeWhile_imp hc, ?_⟩
    have hsplit : (U.strip raw).takeWhile paramChar ++ (U.strip raw).dropWhile paramChar =
        U.strip raw := List.takeWhile_append_dropWhile
    rcases hrest with hrest | ⟨heq, -⟩
    · left
      rw [hrest, List.append_nil] at hsplit
      exact hsplit.symm
    · obtain ⟨v, hv⟩ := List.head?_eq_some_iff.mp heq
      right
      rw [hv] at hsplit
      exact ⟨v, hsplit.symm⟩

end Patterns

/-! ### What Varnish is asked -/

section Varnish

variable (U : UnicodeTables) {r : CacheRule} (method : Text) (u : Url)

theorem vcl_path (h : r.matchType = .path) :
    ∃ b, (r.vclCondition U).onRequest method u = some b ∧ (b = true ↔ r.pattern <+: u.text) := by
  rw [CacheRule.vclCondition, h]
  exact Pcre.matchText_start r.pattern u.text

/-- A word before the query string or the end of the target. -/
def EndsSegment (icase : Bool) (p t : Text) : Prop :=
  ∃ a q rest, t = a ++ (q ++ rest) ∧ Pcre.Alike icase q p ∧ (rest = [] ∨ rest.head? = some '?')

theorem vcl_filename (h : r.matchType = .filename) :
    ∃ b, (r.vclCondition U).onRequest method u = some b ∧
      (b = true ↔ EndsSegment false ('/' :: r.pattern) u.text) := by
  have hline : '\n' ∉ u.text := fun hmem => (u.visible_text _ hmem).2 rfl
  have hescape : '/' :: (Pcre.escape r.pattern ++ "(\\?.*)?$".toList) =
      (if false then "(?i)".toList else []) ++
        (Pcre.escape ('/' :: r.pattern) ++ "(\\?.*)?$".toList) := by
    rw [Pcre.escape_cons (by decide), if_neg Bool.false_ne_true]
    rfl
  rw [CacheRule.vclCondition, h]
  dsimp only
  rw [hescape]
  exact Pcre.matchText_file false ('/' :: r.pattern) hline

theorem vcl_extension (h : r.matchType = .extension) :
    ∃ b, (r.vclCondition U).onRequest method u = some b ∧
      (b = true ↔ EndsSegment true ('.' :: r.pattern) u.text) := by
  have hline : '\n' ∉ u.text := fun hmem => (u.visible_text _ hmem).2 rfl
  rw [CacheRule.vclCondition, h]
  exact Pcre.matchText_file true ('.' :: r.pattern) hline

theorem vcl_method (h : r.matchType = .method) :
    (r.vclCondition U).onRequest method u = some (method == r.pattern) := by
  rw [CacheRule.vclCondition, h]
  rfl

theorem vcl_any (h : r.matchType = .queryString) (hstar : r.pattern = ['*']) :
    ∃ b, (r.vclCondition U).onRequest method u = some b ∧ (b = true ↔ '?' ∈ u.text) := by
  rw [CacheRule.vclCondition, h]
  dsimp only
  rw [if_pos hstar]
  exact Pcre.matchText_mark u.text

/-- A text right after a question mark or an ampersand, anywhere in the target. -/
def Occurs (p : Text) (u : Url) : Prop := ∃ d ∈ ['?', '&'], d :: p <:+: u.text

private theorem mark_class : ∀ d ∈ ['?', '&'], d ∉ [']', '\\', '[', '^', '-'] := by decide

theorem vcl_param {n : Text} (h : r.matchType = .queryString) (hstar : r.pattern ≠ ['*'])
    (hn : '=' ∉ n) (hp : r.pattern = n) :
    ∃ b, (r.vclCondition U).onRequest method u = some b ∧ (b = true ↔ Occurs (n ++ ['=']) u) := by
  have hescape : "[?&]".toList ++ (Pcre.escape r.pattern ++ ['=']) =
      ['[', '?', '&', ']'] ++ Pcre.escape (n ++ ['=']) := by
    rw [Pcre.escape_append, hp]
    rfl
  rw [CacheRule.vclCondition, h]
  dsimp only
  rw [if_neg hstar, if_neg (hp ▸ hn), hescape]
  exact Pcre.matchText_after mark_class (n ++ ['=']) u.text

/-- The parts of a pattern with a value. -/
theorem splitParam_eq {n v : Text} (hn : '=' ∉ n) : splitParam (n ++ '=' :: v) = (n, v) := by
  have hall : ∀ c ∈ n, (c != '=') = true := by
    intro c hc
    rw [bne_iff_ne]
    rintro rfl
    exact hn hc
  rw [splitParam, List.takeWhile_append_of_pos hall, List.dropWhile_append_of_pos hall]
  simp

theorem vcl_value {n v : Text} (h : r.matchType = .queryString) (hstar : r.pattern ≠ ['*'])
    (hn : '=' ∉ n) (hp : r.pattern = n ++ '=' :: v) :
    ∃ b, (r.vclCondition U).onRequest method u = some b ∧ (b = true ↔ Occurs r.pattern u) := by
  have hescape : "[?&]".toList ++ (Pcre.escape n ++ '=' :: Pcre.escape v) =
      ['[', '?', '&', ']'] ++ Pcre.escape r.pattern := by
    rw [hp, Pcre.escape_append, Pcre.escape_cons (by decide)]
    rfl
  rw [CacheRule.vclCondition, h]
  dsimp only
  rw [if_neg hstar, if_pos (by rw [hp]; simp)]
  rw [show splitParam r.pattern = (n, v) by rw [hp, splitParam_eq hn], hescape]
  exact Pcre.matchText_after mark_class r.pattern u.text

end Varnish

/-! ### What HAProxy is asked -/

section Haproxy

variable {E : Engine} {t : Txn} {r : CacheRule} {method : Text} {u : Url}

/-- A condition says what the ACL its words spell says. -/
theorem applies_eq {c : Text} {ws : List Text} (hc : r.haproxyAclCriterion = some c)
    (hwords : words E.expand c = some ws) :
    r.applies E t = (parseAcl ws).any fun a => a.eval E t.samples := by
  rw [CacheRule.applies, hc, Option.any_some, hwords, Option.bind_some]

/-- The words of a condition: those it begins with, and those of the pattern. -/
private theorem criterion_words {w p : Text} (hne : w ≠ []) (hw : ∀ c ∈ w, bare c = true)
    (hp : ∀ c ∈ p, bare c = true ∨ blank c = true) :
    words E.expand (w ++ ' ' :: p) = some (w :: blankWords p) := by
  have hread : Reads w [w] := (piece_bare hne hw).reads
  rw [hread.words_blank, words_eq_blankWords hp]
  rfl

/-- The first word of a text begins with its first character. -/
private theorem blankWords_head {c : Char} (hc : blank c = false) (p : Text) :
    ∃ w ws, blankWords (c :: p) = (c :: w) :: ws := by
  have hfrom : ∀ (p u : Text), ∃ w ws, blankWordsFrom (some u) p = (u ++ w) :: ws := by
    intro p
    induction p with
    | nil => exact fun u => ⟨[], [], by rw [List.append_nil]; rfl⟩
    | cons d p ih =>
        intro u
        rw [blankWordsFrom]
        split
        · exact ⟨[], _, by rw [List.append_nil]; rfl⟩
        · obtain ⟨w, ws, hws⟩ := ih (u ++ [d])
          exact ⟨d :: w, ws, by rw [Option.getD_some, hws]; simp⟩
  obtain ⟨w, ws, hws⟩ := hfrom p [c]
  refine ⟨w, ws, ?_⟩
  rw [blankWords, blankWordsFrom, hc, if_neg Bool.false_ne_true]
  exact hws

theorem applies_path (h : r.matchType = .path) (hsafe : Safe r.pattern) {rest : Text}
    (hp : r.pattern = '/' :: rest) :
    r.applies E (t.carrying method u) = true ↔ ∃ w ∈ blankWords r.pattern, w <+: u.path := by
  have hc : r.haproxyAclCriterion = some ("path_beg".toList ++ ' ' :: r.pattern) := by
    rw [CacheRule.haproxyAclCriterion, h]
    rfl
  obtain ⟨w, ws, hws⟩ := blankWords_head (c := '/') rfl rest
  have hparse : parseAcl ("path_beg".toList :: blankWords r.pattern) =
      some { fetch := "path".toList, method := some .beg, patterns := blankWords r.pattern } := by
    rw [hp, hws]
    rfl
  rw [applies_eq hc (criterion_words (by decide) (by decide) hsafe.bare_or_blank), hparse,
    Option.any_some]
  simp only [Acl.eval, samples_path, List.any_cons, List.any_nil, Bool.or_false,
    Option.getD_some, matchSample, Sample.text, foldCase, List.flatMap_nil, List.nil_append,
    Bool.false_eq_true, if_false, List.any_eq_true, List.isPrefixOf_iff_prefix]

theorem applies_filename (h : r.matchType = .filename) (hbare : ∀ c ∈ r.pattern, bare c = true)
    (hblank : ∀ c ∈ r.pattern, blank c = false) :
    r.applies E (t.carrying method u) = true ↔ '/' :: r.pattern <:+ u.path := by
  have hc : r.haproxyAclCriterion = some ("path_end".toList ++ ' ' :: ('/' :: r.pattern)) := by
    rw [CacheRule.haproxyAclCriterion, h]
    rfl
  have hword : blankWords ('/' :: r.pattern) = ['/' :: r.pattern] :=
    blankWords_bare (List.cons_ne_nil _ _) (List.forall_mem_cons.mpr ⟨rfl, hblank⟩)
  have hparse : parseAcl ["path_end".toList, '/' :: r.pattern] =
      some { fetch := "path".toList, method := some .end, patterns := ['/' :: r.pattern] } := rfl
  rw [applies_eq hc (criterion_words (by decide) (by decide)
      (List.forall_mem_cons.mpr ⟨.inl rfl, fun c hc => .inl (hbare c hc)⟩)), hword, hparse,
    Option.any_some]
  simp only [Acl.eval, samples_path, List.any_cons, List.any_nil, Bool.or_false,
    Option.getD_some, matchSample, Sample.text, foldCase, List.flatMap_nil, List.nil_append,
    Bool.false_eq_true, if_false, List.isSuffixOf_iff_suffix]

/-- A text ends with a word, in lower case or not. -/
private theorem suffix_map_iff {p s : Text} : p.map Char.toLower <:+ s.map Char.toLower ↔
    ∃ a q, s = a ++ q ∧ Pcre.Alike true q p := by
  constructor
  · rintro ⟨a, ha⟩
    obtain ⟨b, q, rfl, -, hq⟩ := List.map_eq_append_iff.mp ha.symm
    exact ⟨b, q, rfl, hq⟩
  · rintro ⟨a, q, rfl, halike⟩
    have hq : q.map Char.toLower = p.map Char.toLower := halike
    rw [List.map_append, hq]
    exact List.suffix_append _ _

theorem applies_extension (h : r.matchType = .extension)
    (hletters : ∀ c ∈ r.pattern, c.isAlphanum = true) :
    r.applies E (t.carrying method u) = true ↔
      ∃ a q, u.path = a ++ q ∧ Pcre.Alike true q ('.' :: r.pattern) := by
  have hc : r.haproxyAclCriterion = some ("path_end".toList ++ ' ' :: ("-i".toList ++ ' ' ::
      ('.' :: r.pattern))) := by
    rw [CacheRule.haproxyAclCriterion, h]
    rfl
  have hsafe : Safe r.pattern := fun c hc => (alphanum_safe (hletters c hc)).1
  have hblank : ∀ c ∈ r.pattern, blank c = false := fun c hc => (alphanum_safe (hletters c hc)).2
  have hwords : words E.expand ("path_end".toList ++ ' ' :: ("-i".toList ++ ' ' ::
      ('.' :: r.pattern))) = some ["path_end".toList, "-i".toList, '.' :: r.pattern] := by
    have hread : Reads "path_end".toList ["path_end".toList] :=
      (piece_bare (by decide) (by decide)).reads
    rw [hread.words_blank, criterion_words (by decide) (by decide)
      (List.forall_mem_cons.mpr ⟨.inl rfl, hsafe.bare_or_blank⟩),
      blankWords_bare (List.cons_ne_nil _ _) (List.forall_mem_cons.mpr ⟨rfl, hblank⟩)]
    rfl
  have hparse : parseAcl ["path_end".toList, "-i".toList, '.' :: r.pattern] = some
      { fetch := "path".toList, method := some .end, icase := true,
        patterns := ['.' :: r.pattern] } := rfl
  rw [applies_eq hc hwords, hparse, Option.any_some, ← suffix_map_iff]
  simp only [Acl.eval, samples_path, List.any_cons, List.any_nil, Bool.or_false,
    Option.getD_some, matchSample, Sample.text, foldCase, List.flatMap_nil, List.nil_append,
    if_true, List.isSuffixOf_iff_suffix]

theorem applies_method (h : r.matchType = .method) (hne : r.pattern ≠ [])
    (hletters : ∀ c ∈ r.pattern, c.isAlphanum = true) :
    r.applies E (t.carrying method u) = (method == r.pattern) := by
  have hc : r.haproxyAclCriterion = some ("method".toList ++ ' ' :: r.pattern) := by
    rw [CacheRule.haproxyAclCriterion, h]
    rfl
  have hsafe : Safe r.pattern := fun c hc => (alphanum_safe (hletters c hc)).1
  have hblank : ∀ c ∈ r.pattern, blank c = false := fun c hc => (alphanum_safe (hletters c hc)).2
  have hflag : ∀ w ∈ [r.pattern].head?, notFlag w = true := by
    intro w hw
    obtain rfl := Option.some.inj hw
    cases hpattern : r.pattern with
    | nil => exact absurd hpattern hne
    | cons c p =>
        refine bne_iff_ne.mpr fun hdash => ?_
        obtain rfl := Option.some.inj hdash
        exact absurd (hletters '-' (by rw [hpattern]; simp)) (by decide)
  have hparse : parseAcl ["method".toList, r.pattern] =
      some { fetch := "method".toList, patterns := [r.pattern] } :=
    parseAcl_default (by decide) hflag
  rw [applies_eq hc (criterion_words (by decide) (by decide) hsafe.bare_or_blank),
    blankWords_bare hne hblank, hparse, Option.any_some]
  simp only [Acl.eval, samples_method, List.any_cons, List.any_nil, Bool.or_false,
    Option.getD_none, Sample.method, matchSample, Sample.text, foldCase, List.flatMap_nil,
    List.nil_append, Bool.false_eq_true, if_false]
  exact Bool.beq_comm

theorem applies_any (h : r.matchType = .queryString) (hstar : r.pattern = ['*']) :
    r.applies E (t.carrying method u) = true ↔ '=' ∈ u.query.getD [] := by
  have hc : r.haproxyAclCriterion = some ("url_param()".toList ++ ' ' :: "-m found".toList) := by
    rw [CacheRule.haproxyAclCriterion, h]
    dsimp only
    rw [if_pos hstar]
    rfl
  have hwords : words E.expand ("url_param()".toList ++ ' ' :: "-m found".toList) =
      some ["url_param()".toList, "-m".toList, Method.found.name] := by
    rw [criterion_words (by decide) (by decide) (by decide)]
    rfl
  have hparse : parseAcl ["url_param()".toList, "-m".toList, Method.found.name] = some
      { fetch := "url_param()".toList, method := some .found } := rfl
  rw [applies_eq hc hwords, hparse, Option.any_some, ← unnamedValues_ne_nil]
  simp only [Acl.eval, samples_unnamed, Option.getD_some, matchSample, List.any_map]
  cases unnamedValues false (u.query.getD []) with
  | nil => simp
  | cons v vs => simp

/-- The fetch of a parameter. -/
def urlp (n : Text) : Text := "urlp".toList ++ '(' :: (n ++ [')'])

/-- The characters of a parameter's name are read as they are. -/
theorem paramChar_plain {c : Char} (h : paramChar c = true) :
    bare c = true ∧ (c ≠ ',' ∧ c ≠ '(' ∧ c ≠ ')') ∧ c ≠ '=' := by
  have hne : ∀ d : Char, paramChar d = false → c ≠ d := by
    rintro d hd rfl
    rw [h] at hd
    cases hd
  refine ⟨?_, ⟨hne _ (by decide), hne _ (by decide), hne _ (by decide)⟩, hne _ (by decide)⟩
  simp only [bare, Bool.not_eq_true', Bool.or_eq_false_iff, beq_eq_false_iff_ne]
  refine ⟨⟨⟨⟨⟨⟨⟨?_, ?_⟩, ?_⟩, ?_⟩, ?_⟩, ?_⟩, ?_⟩, ?_⟩ <;> exact hne _ (by decide)

/-- The fetch of a parameter is one word, and no name with a method. -/
private theorem urlp_text {n : Text} (hn : ∀ c ∈ n, paramChar c = true) :
    (∀ c ∈ urlp n, bare c = true) ∧ derivedFetch (urlp n) = (urlp n, none) := by
  constructor
  · intro c hc
    have hclosed : ∀ c ∈ "urlp".toList ++ ['('], bare c = true := by decide
    rcases List.mem_append.mp hc with hc | hc
    · exact hclosed c (List.mem_append_left _ hc)
    · rcases List.mem_cons.mp hc with rfl | hc
      · decide
      · rcases List.mem_append.mp hc with hc | hc
        · exact (paramChar_plain (hn c hc)).1
        · rw [List.mem_singleton.mp hc]
          decide
  · exact derivedFetch_call (by decide) (by decide) (n ++ [')'])

/-- What HAProxy compares the values of a parameter with: the flags and the patterns it reads
off the words of the rule's value. -/
def valueAcl (n v : Text) : Option Acl :=
  parseFlags { fetch := urlp n, method := some .str } none (blankWords v)

/-- A value of the parameter is matched. -/
def valueMatches (E : Engine) (n v x : Text) : Bool :=
  (valueAcl n v).any fun a =>
    matchSample E (a.method.getD .str) a.icase (a.files.flatMap E.file ++ a.patterns) (.str x)

section Parameters

variable {n v : Text} (h : r.matchType = .queryString) (hstar : r.pattern ≠ ['*']) (hne : n ≠ [])
  (hn : ∀ c ∈ n, paramChar c = true)
include h hstar hne hn

theorem applies_param (hp : r.pattern = n) :
    r.applies E (t.carrying method u) = true ↔ u.valuesOf n ≠ [] := by
  have heq : '=' ∉ r.pattern := fun hmem => (paramChar_plain (hn _ (hp ▸ hmem))).2.2 rfl
  have hc : r.haproxyAclCriterion = some (urlp n ++ ' ' :: "-m found".toList) := by
    rw [CacheRule.haproxyAclCriterion, h]
    dsimp only
    rw [if_neg hstar, if_neg heq, hp, urlp]
    simp
  obtain ⟨hbare, hplain⟩ := urlp_text hn
  have hwords : words E.expand (urlp n ++ ' ' :: "-m found".toList) =
      some [urlp n, "-m".toList, Method.found.name] := by
    rw [criterion_words (by simp [urlp]) hbare (by decide)]
    rfl
  have hparse : parseAcl [urlp n, "-m".toList, Method.found.name] = some
      { fetch := urlp n, method := some .found } := parseAcl_method hplain (by simp)
  have hword : isWord n := fun c hc => (paramChar_plain (hn c hc)).2.1
  rw [applies_eq hc hwords, hparse, Option.any_some]
  simp only [Acl.eval, urlp, samples_urlp t method u hne hword, Option.getD_some, matchSample,
    List.any_map]
  cases u.valuesOf n with
  | nil => simp
  | cons x xs => simp

theorem applies_value (hsafe : Safe r.pattern) (hp : r.pattern = n ++ '=' :: v) :
    r.applies E (t.carrying method u) = true ↔ ∃ x ∈ u.valuesOf n, valueMatches E n v x = true := by
  have hnoeq : '=' ∉ n := fun hmem => (paramChar_plain (hn _ hmem)).2.2 rfl
  have hc : r.haproxyAclCriterion = some (urlp n ++ ' ' :: ("-m".toList ++ ' ' ::
      ("str".toList ++ ' ' :: v))) := by
    rw [CacheRule.haproxyAclCriterion, h]
    dsimp only
    rw [if_neg hstar, if_pos (by rw [hp]; simp), hp, splitParam_eq hnoeq, urlp]
    simp
  obtain ⟨hbare, hplain⟩ := urlp_text hn
  have hvalue : ∀ c ∈ v, bare c = true ∨ blank c = true := fun c hc =>
    hsafe.bare_or_blank c (by rw [hp]; simp [hc])
  have hreadFlag : Reads "-m".toList ["-m".toList] := (piece_bare (by decide) (by decide)).reads
  have hreadFetch : Reads (urlp n) [urlp n] := (piece_bare (by simp [urlp]) hbare).reads
  have hwords : words E.expand (urlp n ++ ' ' :: ("-m".toList ++ ' ' ::
      ("str".toList ++ ' ' :: v))) =
      some (urlp n :: "-m".toList :: "str".toList :: blankWords v) := by
    rw [hreadFetch.words_blank, hreadFlag.words_blank,
      criterion_words (by decide) (by decide) hvalue]
    rfl
  have hparse : parseAcl (urlp n :: "-m".toList :: "str".toList :: blankWords v) = valueAcl n v := by
    rw [parseAcl, hplain]
    rfl
  have hword : isWord n := fun c hc => (paramChar_plain (hn c hc)).2.1
  rw [applies_eq hc hwords, hparse]
  simp only [valueMatches]
  cases hacl : valueAcl n v with
  | none => simp
  | some a =>
      have hfetch : a.fetch = urlp n := parseFlags_fetch hacl
      rw [Option.any_some, Acl.eval, hfetch, urlp, samples_urlp t method u hne hword, List.any_map,
        List.any_eq_true]
      rfl

end Parameters

/-- A plain value is compared as it is. -/
theorem valueMatches_plain (E : Engine) (n : Text) {v : Text} (hne : v ≠ [])
    (hblank : ∀ c ∈ v, blank c = false) (hdash : v.head? ≠ some '-') (x : Text) :
    valueMatches E n v x = true ↔ x = v := by
  have hacl : valueAcl n v = some { fetch := urlp n, method := some .str, patterns := [v] } := by
    rw [valueAcl, blankWords_bare hne hblank, parseFlags, if_pos hdash]
  have hmatch : valueMatches E n v x = (v == x || false) := by
    rw [valueMatches, hacl]
    rfl
  rw [hmatch, Bool.or_false, beq_iff_eq, eq_comm]

/-- An empty value, and one that is taken for a flag, is compared with nothing. -/
theorem valueMatches_flag (E : Engine) (n : Text) {v : Text} (hblank : ∀ c ∈ v, blank c = false)
    (hdash : v = [] ∨ v.head? = some '-') (x : Text) : valueMatches E n v x = false := by
  rcases hdash with rfl | hdash
  · rfl
  · have hne : v ≠ [] := by
      rintro rfl
      cases hdash
    have hfirst : ¬ v.head? ≠ some '-' := not_not.mpr hdash
    rw [valueMatches, valueAcl, blankWords_bare hne hblank, parseFlags, if_neg hfirst]
    split_ifs <;> rfl

end Haproxy

end CorexManager.Cache
