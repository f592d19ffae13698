import CorexManager.HAProxy.Transaction

/-!
# Request targets

The target of a request (`Url`), the parameters of its query string (`params`), and what the
fetches `path`, `method`, `urlp` and `url_param` sample of it (`urlFetch`).

A parameter begins after the first question mark, after `&`, after `;` and after every other
question mark; nothing is decoded.  Without a name, `url_param` goes from one `=` of the query
string to the next.
-/

namespace HAProxy

open Data

/-- The target of a request, in origin form.  No request line has blanks or line ends in it. -/
structure Url where
  path : Text
  query : Option Text
  noMark : '?' ∉ path
  visible : ∀ c ∈ path ++ query.getD [], blank c = false ∧ c ≠ '\n'

namespace Url

/-- The target as it is written. -/
def text (u : Url) : Text :=
  match u.query with
  | none => u.path
  | some q => u.path ++ '?' :: q

/-- The query string with its question mark. -/
def tail (u : Url) : Text :=
  match u.query with
  | none => []
  | some q => '?' :: q

theorem text_eq (u : Url) : u.text = u.path ++ u.tail := by
  unfold text tail
  cases u.query with
  | none => exact (List.append_nil _).symm
  | some q => rfl

theorem visible_text (u : Url) : ∀ c ∈ u.text, blank c = false ∧ c ≠ '\n' := by
  intro c hc
  rw [text_eq] at hc
  have hvisible := u.visible c
  unfold tail at hc
  cases hquery : u.query with
  | none =>
      rw [hquery] at hc hvisible
      exact hvisible (by simpa using hc)
  | some q =>
      rw [hquery] at hc hvisible
      simp only [List.mem_append, List.mem_cons] at hc
      rcases hc with hc | rfl | hc
      · exact hvisible (List.mem_append_left _ hc)
      · decide
      · exact hvisible (List.mem_append_right _ hc)

end Url

/-! ### Parameters -/

/-- What separates parameters. -/
def isDelimiter (c : Char) : Bool := c == '&' || c == ';' || c == '?'

/-- The parameters of a query string written with its question mark, each with what it
follows. -/
def params : Text → List (Char × Text)
  | [] => []
  | c :: t =>
      if isDelimiter c then (c, t.takeWhile fun d => !isDelimiter d) :: params t else params t

/-- **A parameter** stands between delimiters. -/
theorem mem_params {s : Text} {d : Char} {p : Text} : (d, p) ∈ params s ↔
    ∃ a b, s = a ++ d :: b ∧ isDelimiter d = true ∧ p = b.takeWhile fun c => !isDelimiter c := by
  induction s with
  | nil =>
      constructor
      · exact fun h => nomatch h
      · rintro ⟨a, b, h, -⟩
        exact absurd h (by simp)
  | cons c t ih =>
      have hlater : (∃ a b, c :: t = a ++ d :: b ∧ isDelimiter d = true ∧
            p = b.takeWhile fun c => !isDelimiter c) ↔
          (c = d ∧ isDelimiter d = true ∧ p = t.takeWhile fun c => !isDelimiter c) ∨
          ∃ a b, t = a ++ d :: b ∧ isDelimiter d = true ∧
            p = b.takeWhile fun c => !isDelimiter c := by
        constructor
        · rintro ⟨a, b, h, hd, hp⟩
          cases a with
          | nil =>
              obtain ⟨rfl, rfl⟩ := List.cons.inj h
              exact .inl ⟨rfl, hd, hp⟩
          | cons x a =>
              obtain ⟨rfl, rfl⟩ := List.cons.inj h
              exact .inr ⟨a, b, rfl, hd, hp⟩
        · rintro (⟨rfl, hd, hp⟩ | ⟨a, b, rfl, hd, hp⟩)
          · exact ⟨[], t, rfl, hd, hp⟩
          · exact ⟨c :: a, b, rfl, hd, hp⟩
      rw [params, hlater]
      split
      · next hc =>
          rw [List.mem_cons, ih, Prod.mk.injEq]
          refine or_congr_left ⟨fun h => ⟨h.1.symm, h.1 ▸ hc, h.2⟩, fun h => ⟨h.1.symm, h.2.2⟩⟩
      · next hc =>
          rw [ih]
          refine (or_iff_right ?_).symm
          rintro ⟨rfl, hd, -⟩
          exact hc hd

/-- The value of a parameter of a name. -/
def valueOf (name : Text) (p : Text) : Option Text :=
  if (name ++ ['=']).isPrefixOf p then some (p.drop (name.length + 1)) else none

theorem valueOf_eq_some {name p v : Text} : valueOf name p = some v ↔ p = name ++ '=' :: v := by
  rw [valueOf]
  constructor
  · intro h
    split at h
    · next hpre =>
        obtain ⟨rest, rfl⟩ := List.isPrefixOf_iff_prefix.mp hpre
        obtain rfl := Option.some.inj h
        simp
    · cases h
  · rintro rfl
    have hpre : (name ++ ['=']).isPrefixOf (name ++ '=' :: v) = true :=
      List.isPrefixOf_iff_prefix.mpr ⟨v, by simp⟩
    rw [if_pos hpre]
    simp

/-- The values without a name. -/
def unnamedValues : (inside : Bool) → Text → List Text
  | _, [] => []
  | true, c :: t => unnamedValues (!isDelimiter c) t
  | false, c :: t =>
      if c = '=' then (t.takeWhile fun d => !isDelimiter d) :: unnamedValues true t
      else unnamedValues false t

/-- There is a value where there is an equals sign. -/
theorem unnamedValues_ne_nil {t : Text} : unnamedValues false t ≠ [] ↔ '=' ∈ t := by
  induction t with
  | nil => simp [unnamedValues]
  | cons c t ih =>
      rw [unnamedValues, List.mem_cons]
      split
      · next hc => exact ⟨fun _ => .inl hc.symm, fun _ => List.cons_ne_nil _ _⟩
      · next hc =>
          rw [ih]
          exact (or_iff_right (Ne.symm hc)).symm

/-! ### Fetches -/

namespace Url

/-- The values of the parameters of a name. -/
def valuesOf (u : Url) (name : Text) : List Text :=
  (params u.tail).filterMap fun p => valueOf name p.2

theorem mem_valuesOf {u : Url} {name v : Text} :
    v ∈ u.valuesOf name ↔ ∃ d, (d, name ++ '=' :: v) ∈ params u.tail := by
  rw [valuesOf, List.mem_filterMap]
  constructor
  · rintro ⟨⟨d, p⟩, hmem, hvalue⟩
    obtain rfl := valueOf_eq_some.mp hvalue
    exact ⟨d, hmem⟩
  · rintro ⟨d, hmem⟩
    exact ⟨_, hmem, valueOf_eq_some.mpr rfl⟩

end Url

/-- What a fetch samples of a request. -/
def urlFetch (method : Text) (u : Url) (word : Text) : Option (List Sample) :=
  let name := word.takeWhile (· != '(')
  let arg := ((word.dropWhile (· != '(')).drop 1).dropLast
  if word = "path".toList then some [.str u.path]
  else if word = "method".toList then some [.str method]
  else if word = name ++ '(' :: (arg ++ [')']) ∧ (name = "urlp".toList ∨ name = "url_param".toList)
    then
      some ((if arg = [] then unnamedValues false (u.query.getD []) else u.valuesOf arg).map .str)
  else none

/-- The transaction of a request with a method and a target. -/
def Txn.carrying (t : Txn) (method : Text) (u : Url) : Txn :=
  { t with other := fun word => (urlFetch method u word).getD (t.other word) }

section Samples

variable (t : Txn) (method : Text) (u : Url)

theorem samples_path : (t.carrying method u).samples "path".toList = [.str u.path] := rfl

theorem samples_method : (t.carrying method u).samples "method".toList = [.str method] := rfl

theorem samples_unnamed :
    (t.carrying method u).samples "url_param()".toList =
      (unnamedValues false (u.query.getD [])).map .str := rfl

/-- The values of a parameter. -/
theorem samples_urlp {name : Text} (hne : name ≠ []) (hname : isWord name) :
    (t.carrying method u).samples ("urlp".toList ++ '(' :: (name ++ [')'])) =
      (u.valuesOf name).map .str := by
  have hcall : Fetch.call "urlp".toList name = .other ("urlp".toList ++ '(' :: (name ++ [')'])) := by
    rfl
  rw [Txn.samples_call _ (by decide) hname, hcall]
  have hword : ("urlp".toList ++ '(' :: (name ++ [')'])).takeWhile (· != '(') = "urlp".toList := rfl
  have harg : ((("urlp".toList ++ '(' :: (name ++ [')'])).dropWhile (· != '(')).drop 1).dropLast =
      name := List.dropLast_concat
  have hfetch : urlFetch method u ("urlp".toList ++ '(' :: (name ++ [')'])) =
      some ((u.valuesOf name).map .str) := by
    unfold urlFetch
    rw [hword, harg, if_neg (by simp), if_neg (by simp), if_pos ⟨rfl, .inl rfl⟩, if_neg hne]
  show (urlFetch method u _).getD _ = _
  rw [hfetch, Option.getD_some]

end Samples

end HAProxy
