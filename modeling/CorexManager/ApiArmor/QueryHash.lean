import CorexManager.ApiArmor.FormBody
import CorexManager.Data.Blanks
import CorexManager.GraphQL.Lexer

/-!
# The hash of a query

`compute_query_hash` of `graphql/src/lib.rs` hashes a normalized text: the words of the query, with
one blank between them, in small letters.  This is no normal form of the tokens.  Letter case and the
blanks in strings are lost, a comment may end elsewhere, and what else may stand between two tokens is
kept.

* `hashedText` — the text that is hashed.
* `CaseApart`, `MarksAgree`, `GapsAgree` — two documents differ in none of these.
* `tokens_of_words` — the words of a document, its strings and its comments are its tokens.
* `hashedText_iff` — the texts are the same exactly if the tokens are.
-/

namespace CorexManager.ApiArmor

open Data
open Data.Blanks (squeezeFrom squeezeFrom_blank squeezeFrom_cons squeezeFrom_append endsBlank)
open GraphQL (Element Lexes Source tokens element lead lead_of lineEnd nameChar numberRun ignorable)
open Rust (isWhitespace asBytes)

/-! ### The code -/

/-- `str::split_whitespace`. -/
def splitWhitespace (t : Text) : List Text := Blanks.words isWhitespace t

/-- The text `compute_query_hash` hashes. -/
def normalizeQuery (U : Rust.UnicodeTables) (query : Text) : Text :=
  let spaced := query.map fun c => if isWhitespace c then ' ' else c
  U.toLowercase ([' '].intercalate (splitWhitespace spaced))

/-- `{:02x}`. -/
def hexDigits (b : UInt8) : Text :=
  let ds := Nat.toDigits 16 b.toNat
  if ds.length = 1 then '0' :: ds else ds

/-- `compute_query_hash`. -/
def computeQueryHash (U : Rust.UnicodeTables) (sha256 : List UInt8 → List UInt8) (query : Text) :
    Text :=
  ((sha256 (asBytes (normalizeQuery U query))).take 8).flatMap hexDigits

/-- What is hashed of a query: `analyze` trims it first. -/
def hashedText (U : Rust.UnicodeTables) (query : Text) : Text := normalizeQuery U (Rust.trim query)

/-! ### Documents that differ in blanks only -/

/-- Documents with the same words up to letter case have the same words. -/
def CaseApart (U : Rust.UnicodeTables) (p q : Source) : Prop :=
  U.toLowercase ([' '].intercalate (splitWhitespace p.text)) =
    U.toLowercase ([' '].intercalate (splitWhitespace q.text)) →
  splitWhitespace p.text = splitWhitespace q.text

/-- The strings and the comments, the latter up to their blanks. -/
def marks : List Element → List Element
  | [] => []
  | .string t :: es => .string t :: marks es
  | .comment body :: es => .comment (squeezeFrom isWhitespace false (body ++ [' '])) :: marks es
  | _ :: es => marks es

/-- Documents with the same words have the same strings, and the same comments up to blanks. -/
def MarksAgree (p q : Source) : Prop :=
  splitWhitespace p.text = splitWhitespace q.text → marks p.elements = marks q.elements

/-- What stands before, between and behind the tokens. -/
def gaps : List Element → List Text
  | [] => [[]]
  | e :: es =>
      if e.isToken then [] :: gaps es
      else
        match gaps es with
        | [] => [e.text]
        | g :: gs => (e.text ++ g) :: gs

/-- The elements between blanks, so that the document has one at its ends. -/
def padded (es : List Element) : List Element := .ignored ' ' :: (es ++ [.ignored ' '])

/-- Documents with the same tokens have the same gaps, up to blanks. -/
def GapsAgree (p q : Source) : Prop :=
  tokens p.elements = tokens q.elements →
    (gaps (padded p.elements)).map (squeezeFrom isWhitespace false) =
      (gaps (padded q.elements)).map (squeezeFrom isWhitespace false)

/-! ### What is hashed are the words -/

theorem isWhitespace_space : isWhitespace ' ' = true := rfl

/-- The trimmed text has the same words. -/
theorem words_trim (t : Text) : splitWhitespace (Rust.trim t) = splitWhitespace t := by
  obtain ⟨before, after, hsplit, hblank⟩ := trim_split t
  refine (Blanks.words_eq_iff isWhitespace_space _ _).mpr ?_
  have hafter : ∀ b, squeezeFrom isWhitespace b (after ++ [' ']) = squeezeFrom isWhitespace b [' '] := by
    intro b
    cases after with
    | nil => rfl
    | cons c after =>
        have hc := hblank c (List.mem_append_right _ List.mem_cons_self)
        have hrest := fun d hd => hblank d (List.mem_append_right _ (List.mem_cons_of_mem c hd))
        rw [List.cons_append, squeezeFrom_blank hc, squeezeFrom_blank isWhitespace_space,
          Blanks.squeezeFrom_blanks hrest]
        rfl
  conv_rhs => rw [hsplit, List.append_assoc, List.append_assoc]
  rw [Blanks.squeezeFrom_blanks fun c hc => hblank c (List.mem_append_left _ hc), squeezeFrom_append,
    squeezeFrom_append, hafter]

theorem words_map (t : Text) :
    splitWhitespace (t.map fun c => if isWhitespace c then ' ' else c) = splitWhitespace t := by
  refine (Blanks.words_eq_iff isWhitespace_space _ _).mpr ?_
  rw [squeezeFrom_append, squeezeFrom_append, Blanks.squeezeFrom_map isWhitespace_space]
  congr 2
  have hends := fun t => (@Blanks.endsBlank_squeezeFrom isWhitespace true isWhitespace_space t).2
  rw [← hends, Blanks.squeezeFrom_map isWhitespace_space, hends]

theorem hashedText_eq (U : Rust.UnicodeTables) (t : Text) :
    hashedText U t = U.toLowercase ([' '].intercalate (splitWhitespace t)) := by
  unfold hashedText normalizeQuery
  dsimp only
  rw [words_map, words_trim]

/-! ### Reading two documents with the same words -/

/-- Two texts are the same up to blanks, behind a blank or not. -/
def Sync (b : Bool) (x y : Text) : Prop :=
  squeezeFrom isWhitespace b (x ++ [' ']) = squeezeFrom isWhitespace b (y ++ [' '])

section Sync

variable {b : Bool} {c : Char} {x y : Text} {es fs : List Element}

/-- A blank at the beginning of one text is skipped, with one of the other text. -/
theorem Sync.skip (hc : isWhitespace c = true) (h : Sync b (c :: x) y) :
    Sync true x y ∨ ∃ d z, y = d :: z ∧ isWhitespace d = true ∧ Sync true x z := by
  unfold Sync at h
  rw [List.cons_append, squeezeFrom_blank hc] at h
  cases b with
  | true => exact .inl h
  | false =>
      cases y with
      | nil =>
          left
          rw [List.nil_append, squeezeFrom_blank isWhitespace_space] at h
          exact List.append_cancel_left h
      | cons d z =>
          rw [List.cons_append] at h
          cases hd : isWhitespace d with
          | true =>
              rw [squeezeFrom_blank hd] at h
              exact .inr ⟨d, z, rfl, hd, List.append_cancel_left h⟩
          | false =>
              rw [squeezeFrom_cons hd] at h
              have heq : ' ' = d := (List.cons.inj h).1
              rw [← heq] at hd
              cases hd

/-- The text begins with a blank, or ends here. -/
def startsBlank (t : Text) : Bool := (t.head?.map isWhitespace).getD true

theorem startsBlank_iff (t : Text) :
    startsBlank t = true ↔ (squeezeFrom isWhitespace false (t ++ [' '])).head? = some ' ' := by
  cases t with
  | nil => exact iff_of_true rfl rfl
  | cons c t =>
      rw [List.cons_append]
      cases hc : isWhitespace c with
      | true => exact iff_of_true hc (by rw [squeezeFrom_blank hc]; rfl)
      | false =>
          refine iff_of_false (fun h => ?_) fun h => ?_
          · exact absurd (hc.symm.trans h) Bool.false_ne_true
          · rw [squeezeFrom_cons hc] at h
            have heq : c = ' ' := Option.some.inj h
            rw [heq] at hc
            cases hc

/-- Two texts begin with a blank alike. -/
theorem Sync.starts (h : Sync false x y) : startsBlank x = startsBlank y := by
  rw [Bool.eq_iff_iff, startsBlank_iff, startsBlank_iff, h]

/-- Two texts that begin with no blank begin alike. -/
theorem Sync.cons (hc : isWhitespace c = false) (hy : ∀ d ∈ y.head?, isWhitespace d = false)
    (h : Sync b (c :: x) y) : ∃ z, y = c :: z ∧ Sync false x z := by
  unfold Sync at h
  rw [List.cons_append, squeezeFrom_cons hc] at h
  cases y with
  | nil =>
      rw [List.nil_append, squeezeFrom_blank isWhitespace_space] at h
      cases b with
      | true => cases h
      | false =>
          have heq : c = ' ' := (List.cons.inj h).1
          rw [heq] at hc
          cases hc
  | cons d z =>
      rw [List.cons_append, squeezeFrom_cons (hy d rfl)] at h
      obtain ⟨hcd, hrest⟩ := List.cons.inj h
      exact ⟨z, by rw [hcd], hrest⟩

theorem Sync.cancel {w : Text} (hlast : ∀ b, endsBlank isWhitespace b w = false)
    (h : Sync false (w ++ x) (w ++ y)) : Sync false x y := by
  unfold Sync at h
  rw [List.append_assoc, List.append_assoc, squeezeFrom_append, squeezeFrom_append w, hlast] at h
  exact List.append_cancel_left h

/-- Behind what no blank is in, the texts are the same up to blanks. -/
theorem Sync.takeWhile {p : Char → Bool} (hp : ∀ c, isWhitespace c = true → p c = false)
    (h : Sync false x y) :
    x.takeWhile p = y.takeWhile p ∧ Sync false (x.dropWhile p) (y.dropWhile p) := by
  have htake : ∀ t : Text, (t ++ [' ']).takeWhile p = t.takeWhile p := by
    intro t
    induction t with
    | nil => rw [List.nil_append, List.takeWhile_cons, hp ' ' isWhitespace_space]; rfl
    | cons c t ih => rw [List.cons_append, List.takeWhile_cons, List.takeWhile_cons, ih]
  have hdrop : ∀ t : Text, (t ++ [' ']).dropWhile p = t.dropWhile p ++ [' '] := by
    intro t
    induction t with
    | nil => rw [List.nil_append, List.dropWhile_cons, hp ' ' isWhitespace_space]; rfl
    | cons c t ih =>
        rw [List.cons_append, List.dropWhile_cons, List.dropWhile_cons, ih]
        split_ifs <;> rfl
  unfold Sync at h
  have hread := fun t => Blanks.takeWhile_squeezeFrom isWhitespace_space hp (t ++ [' '])
  have hrest := fun t => Blanks.dropWhile_squeezeFrom isWhitespace_space hp (t ++ [' '])
  refine ⟨?_, ?_⟩
  · rw [← htake x, ← hread x, h, hread y, htake y]
  · unfold Sync
    rw [← hdrop x, ← hrest x, h, hrest y, hdrop y]

/-- A character of a run is no blank. -/
private theorem run_not_blank {b : Bool} (h : isWhitespace c = true) :
    (nameChar c || c == '.' || (b && (c == '+' || c == '-'))) = false := by
  have hmem := mem_blanks h
  have hname : nameChar c = false := by
    unfold nameChar
    simp only [blanks, List.mem_cons, List.not_mem_nil, or_false] at hmem
    rw [Bool.or_eq_false_iff]
    constructor
    · rw [Bool.eq_false_iff]
      intro halpha
      simp only [Char.isAlphanum, Char.isAlpha, Char.isUpper, Char.isLower, Char.isDigit,
        Bool.or_eq_true, Bool.and_eq_true, decide_eq_true_eq, UInt32.le_iff_toNat_le,
        ge_iff_le] at halpha
      have hval : c.val.toNat = c.toNat := rfl
      have hA : 'A'.val.toNat = 65 := rfl
      have hZ : 'Z'.val.toNat = 90 := rfl
      have ha : 'a'.val.toNat = 97 := rfl
      have hz : 'z'.val.toNat = 122 := rfl
      have h0 : '0'.val.toNat = 48 := rfl
      have h9 : '9'.val.toNat = 57 := rfl
      omega
    · rw [beq_eq_false_iff_ne]
      rintro rfl
      exact absurd h (by decide)
  have hdot : (c == '.') = false := by
    rw [beq_eq_false_iff_ne]
    rintro rfl
    exact absurd h (by decide)
  have hplus : (c == '+') = false := by
    rw [beq_eq_false_iff_ne]
    rintro rfl
    exact absurd h (by decide)
  have hminus : (c == '-') = false := by
    rw [beq_eq_false_iff_ne]
    rintro rfl
    exact absurd h (by decide)
  rw [hname, hdot, hplus, hminus]
  cases b <;> rfl

theorem nameChar_not_blank (c : Char) (h : isWhitespace c = true) : nameChar c = false := by
  have hrun := @run_not_blank c false h
  simp only [Bool.or_eq_false_iff] at hrun
  exact hrun.1.1

/-- Numbers are read alike. -/
theorem Sync.numberRun {e : Bool} (h : Sync false x y) :
    numberRun e x = numberRun e y ∧
      Sync false (x.drop (numberRun e x).length) (y.drop (numberRun e y).length) := by
  have hblank : ∀ {e : Bool} {t : Text}, startsBlank t = true → GraphQL.numberRun e t = [] := by
    intro e t ht
    cases t with
    | nil => cases e <;> rfl
    | cons c t =>
        rw [GraphQL.numberRun, run_not_blank ht]
        rfl
  induction x generalizing e y with
  | nil =>
      rw [hblank (t := []) rfl, hblank (h.starts ▸ rfl)]
      exact ⟨rfl, h⟩
  | cons c x ih =>
      cases hc : isWhitespace c with
      | true =>
          rw [hblank (t := c :: x) hc, hblank (h.starts ▸ hc)]
          exact ⟨rfl, h⟩
      | false =>
          have hy : ∀ d ∈ y.head?, isWhitespace d = false := by
            intro d hd
            have hstarts : startsBlank y = false := h.starts ▸ hc
            rw [startsBlank, hd] at hstarts
            exact hstarts
          obtain ⟨z, rfl, hz⟩ := h.cons hc hy
          rw [GraphQL.numberRun, GraphQL.numberRun]
          split_ifs
          · obtain ⟨hrun, hdrop⟩ := ih (e := c == 'e' || c == 'E') hz
            refine ⟨by rw [hrun], ?_⟩
            rw [List.length_cons, List.length_cons, List.drop_succ_cons, List.drop_succ_cons]
            exact hdrop
          · exact ⟨rfl, h⟩

/-- A blank of a document is an element of its own. -/
theorem lexes_blank (hc : isWhitespace c = true) (h : Lexes (c :: x) es) :
    ∃ fs, es = .ignored c :: fs ∧ Lexes x fs := by
  cases h with
  | cons h hrest =>
      change element c x (lead c) = _ at h
      cases hlead : lead c with
      | ignored =>
          rw [hlead] at h
          obtain ⟨rfl, rfl⟩ := Prod.mk.inj (Option.some.inj h)
          exact ⟨_, rfl, hrest⟩
      | comment =>
          rw [lead_of hlead] at hc
          cases hc
      | punctuator =>
          have hnot := (by decide : ∀ c ∈ GraphQL.punctuators, isWhitespace c = false) c
            (lead_of hlead)
          rw [hnot] at hc
          cases hc
      | dot =>
          rw [lead_of hlead] at hc
          cases hc
      | name =>
          have hname := nameChar_not_blank c hc
          have hstart : GraphQL.nameStart c = true := lead_of hlead
          unfold GraphQL.nameStart at hstart
          unfold nameChar Char.isAlphanum at hname
          rw [Bool.or_eq_false_iff, Bool.or_eq_false_iff] at hname
          rw [hname.1.1, hname.2] at hstart
          cases hstart
      | number =>
          have hdigit := nameChar_not_blank c hc
          unfold nameChar Char.isAlphanum at hdigit
          rw [Bool.or_eq_false_iff, Bool.or_eq_false_iff] at hdigit
          rcases lead_of hlead with rfl | hd
          · cases hc
          · rw [hdigit.1.2] at hd
            cases hd
      | quote =>
          rw [lead_of hlead] at hc
          cases hc
      | other =>
          rw [hlead] at h
          cases h

/-- The texts behind two comments that are the same up to blanks are so, too. -/
theorem Sync.comment (h : Sync false x y)
    (hbody : squeezeFrom isWhitespace false (x.takeWhile (!lineEnd ·) ++ [' ']) =
      squeezeFrom isWhitespace false (y.takeWhile (!lineEnd ·) ++ [' '])) :
    Sync true (x.dropWhile (!lineEnd ·)) (y.dropWhile (!lineEnd ·)) := by
  -- what follows a comment begins with a line end, or is the end
  have hsplit : ∀ t : Text, squeezeFrom isWhitespace false (t ++ [' ']) =
      squeezeFrom isWhitespace false (t.takeWhile (!lineEnd ·) ++ [' ']) ++
        squeezeFrom isWhitespace true (t.dropWhile (!lineEnd ·) ++ [' ']) := by
    intro t
    have hends : ∃ c u, isWhitespace c = true ∧ t.dropWhile (!lineEnd ·) ++ [' '] = c :: u := by
      cases hrest : t.dropWhile (!lineEnd ·) with
      | nil => exact ⟨' ', [], rfl, rfl⟩
      | cons c u =>
          have hc := List.head?_dropWhile_not (!lineEnd ·) t
          rw [hrest] at hc
          have hline : lineEnd c = true := by simpa using hc
          refine ⟨c, u ++ [' '], ?_, rfl⟩
          unfold lineEnd at hline
          rcases Bool.or_eq_true_iff.mp hline with hn | hr
          · rw [beq_iff_eq.mp hn]
            rfl
          · rw [beq_iff_eq.mp hr]
            rfl
    obtain ⟨c, u, hc, hu⟩ := hends
    have hwhole : t ++ [' '] = t.takeWhile (!lineEnd ·) ++ (c :: u) := by
      rw [← hu, ← List.append_assoc, List.takeWhile_append_dropWhile]
    have hnil : squeezeFrom isWhitespace true [] = [] := rfl
    rw [hwhole, hu, squeezeFrom_append, squeezeFrom_append, squeezeFrom_blank hc,
      squeezeFrom_blank isWhitespace_space, squeezeFrom_blank hc, hnil, List.append_nil, if_pos rfl,
      List.nil_append, List.append_assoc]
  unfold Sync at h ⊢
  rw [hsplit x, hsplit y, hbody] at h
  exact List.append_cancel_left h

/-- Two elements that begin alike, the texts behind the first character being the same up to blanks,
are the same if they are marked the same. -/
theorem sync_element {r s : Text} {e f : Element} (h : Sync false x y)
    (he : GraphQL.next (c :: x) = some (e, r)) (hf : GraphQL.next (c :: y) = some (f, s))
    (hmarks : marks (e :: es) = marks (f :: fs)) :
    ∃ b, Sync b r s ∧ marks es = marks fs ∧
      (tokens es = tokens fs → tokens (e :: es) = tokens (f :: fs)) := by
  change element c x (lead c) = _ at he
  change element c y (lead c) = _ at hf
  have hcons : ∀ {e : Element} {es fs : List Element}, tokens es = tokens fs →
      tokens (e :: es) = tokens (e :: fs) := by
    intro e es fs heq
    unfold tokens at heq ⊢
    rw [List.filter_cons, List.filter_cons, heq]
  cases hlead : lead c with
  | ignored =>
      rw [hlead] at he hf
      obtain ⟨rfl, rfl⟩ := Prod.mk.inj (Option.some.inj he)
      obtain ⟨rfl, rfl⟩ := Prod.mk.inj (Option.some.inj hf)
      exact ⟨false, h, hmarks, hcons⟩
  | comment =>
      rw [hlead] at he hf
      obtain ⟨rfl, rfl⟩ := Prod.mk.inj (Option.some.inj he)
      obtain ⟨rfl, rfl⟩ := Prod.mk.inj (Option.some.inj hf)
      obtain ⟨hbody, hrest⟩ := List.cons.inj hmarks
      exact ⟨true, h.comment (Element.comment.inj hbody), hrest, id⟩
  | punctuator =>
      rw [hlead] at he hf
      obtain ⟨rfl, rfl⟩ := Prod.mk.inj (Option.some.inj he)
      obtain ⟨rfl, rfl⟩ := Prod.mk.inj (Option.some.inj hf)
      exact ⟨false, h, hmarks, hcons⟩
  | dot =>
      rw [hlead, element] at he hf
      split_ifs at he hf with hx hy
      obtain ⟨rfl, rfl⟩ := Prod.mk.inj (Option.some.inj he)
      obtain ⟨rfl, rfl⟩ := Prod.mk.inj (Option.some.inj hf)
      obtain ⟨u, rfl⟩ := hx
      obtain ⟨v, rfl⟩ := hy
      have hend : ∀ b, endsBlank isWhitespace b ['.', '.'] = false := fun b => rfl
      exact ⟨false, h.cancel hend, hmarks, hcons⟩
  | name =>
      rw [hlead] at he hf
      obtain ⟨rfl, rfl⟩ := Prod.mk.inj (Option.some.inj he)
      obtain ⟨rfl, rfl⟩ := Prod.mk.inj (Option.some.inj hf)
      obtain ⟨htake, hdrop⟩ := h.takeWhile nameChar_not_blank
      refine ⟨false, hdrop, hmarks, ?_⟩
      rw [htake]
      exact hcons
  | number =>
      rw [hlead, element] at he hf
      split_ifs at he hf
      obtain ⟨rfl, rfl⟩ := Prod.mk.inj (Option.some.inj he)
      obtain ⟨rfl, rfl⟩ := Prod.mk.inj (Option.some.inj hf)
      obtain ⟨hrun, hdrop⟩ := h.numberRun (e := false)
      refine ⟨false, hdrop, hmarks, ?_⟩
      rw [hrun]
      exact hcons
  | quote =>
      rw [hlead] at he hf
      obtain ⟨⟨u, r'⟩, hu, heq⟩ := Option.map_eq_some_iff.mp he
      obtain ⟨rfl, rfl⟩ := Prod.mk.inj heq
      obtain ⟨⟨v, s'⟩, hv, heq'⟩ := Option.map_eq_some_iff.mp hf
      obtain ⟨rfl, rfl⟩ := Prod.mk.inj heq'
      obtain ⟨hstring, hrest⟩ := List.cons.inj hmarks
      obtain rfl : u = v := (List.cons.inj (Element.string.inj hstring)).2
      obtain ⟨rfl, hlast⟩ := GraphQL.stringTail_eq_some hu
      obtain ⟨rfl, -⟩ := GraphQL.stringTail_eq_some hv
      have hend : ∀ b, endsBlank isWhitespace b u = false := by
        intro b
        rw [endsBlank, hlast]
        rfl
      exact ⟨false, h.cancel hend, hrest, hcons⟩
  | other =>
      rw [hlead] at he
      cases he

/-- **The same words, strings and comments** are the same tokens. -/
theorem tokens_of_sync (n : Nat) (hn : x.length + y.length ≤ n) (hx : Lexes x es) (hy : Lexes y fs)
    (h : Sync b x y) (hmarks : marks es = marks fs) : tokens es = tokens fs := by
  induction n generalizing x y es fs b with
  | zero =>
      obtain rfl : x = [] := List.length_eq_zero_iff.mp (by omega)
      obtain rfl : y = [] := List.length_eq_zero_iff.mp (by omega)
      cases hx with
      | nil =>
          cases hy with
          | nil => rfl
          | cons hnext => cases hnext
      | cons hnext => cases hnext
  | succ n ih =>
      by_cases hxb : ∃ c z, x = c :: z ∧ isWhitespace c = true
      · -- a blank on the left is skipped
        obtain ⟨c, z, rfl, hc⟩ := hxb
        obtain ⟨es', rfl, hz⟩ := lexes_blank hc hx
        rw [List.length_cons] at hn
        rcases h.skip hc with hs | ⟨d, w, rfl, hd, hs⟩
        · show tokens es' = tokens fs
          exact ih (by omega) hz hy hs hmarks
        · obtain ⟨fs', rfl, hw⟩ := lexes_blank hd hy
          rw [List.length_cons] at hn
          show tokens es' = tokens fs'
          exact ih (by omega) hz hw hs hmarks
      · by_cases hyb : ∃ d w, y = d :: w ∧ isWhitespace d = true
        · -- so is a blank on the right, behind a blank
          obtain ⟨d, w, rfl, hd⟩ := hyb
          obtain ⟨fs', rfl, hw⟩ := lexes_blank hd hy
          rw [List.length_cons] at hn
          rcases Sync.skip hd (Eq.symm h) with hs | ⟨c, z, rfl, hc, -⟩
          · show tokens es = tokens fs'
            exact ih (by omega) hx hw (Eq.symm hs) hmarks
          · exact absurd ⟨c, z, rfl, hc⟩ hxb
        · -- the texts begin with the same character
          have hxhead : ∀ c ∈ x.head?, isWhitespace c = false := by
            intro c hc
            obtain ⟨z, rfl⟩ := List.head?_eq_some_iff.mp hc
            exact Bool.eq_false_iff.mpr fun hblank => hxb ⟨c, z, rfl, hblank⟩
          have hyhead : ∀ d ∈ y.head?, isWhitespace d = false := by
            intro d hd
            obtain ⟨w, rfl⟩ := List.head?_eq_some_iff.mp hd
            exact Bool.eq_false_iff.mpr fun hblank => hyb ⟨d, w, rfl, hblank⟩
          cases hx with
          | nil =>
              cases y with
              | nil =>
                  cases hy with
                  | nil => rfl
                  | cons hnext => cases hnext
              | cons d w =>
                  obtain ⟨z, hz, -⟩ := Sync.cons (hyhead d rfl) hxhead (Eq.symm h)
                  cases hz
          | cons hnext hrest =>
              cases x with
              | nil => cases hnext
              | cons c x =>
                  obtain ⟨y, rfl, hs⟩ := Sync.cons (hxhead c rfl) hyhead h
                  cases hy with
                  | cons hnext' hrest' =>
                      obtain ⟨b', hs', hm, htokens⟩ := sync_element hs hnext hnext' hmarks
                      have hlt := GraphQL.next_length hnext
                      have hlt' := GraphQL.next_length hnext'
                      exact htokens (ih (by omega) hrest hrest' hs' hm)

end Sync

/-- The words of a document, its strings and its comments are its tokens. -/
theorem tokens_of_words {p q : Source} (h : splitWhitespace p.text = splitWhitespace q.text)
    (hmarks : marks p.elements = marks q.elements) : tokens p.elements = tokens q.elements :=
  tokens_of_sync _ (Nat.le_refl _) p.lexes q.lexes
    ((Blanks.words_eq_iff isWhitespace_space _ _).mp h) hmarks

/-! ### Writing a document with its gaps -/

/-- The tokens, with what stands between them. -/
def weave : List Text → List Element → Text
  | [], _ => []
  | g :: _, [] => g
  | g :: gs, t :: ts => g ++ (t.text ++ weave gs ts)

theorem gaps_ne_nil (es : List Element) : gaps es ≠ [] := by
  cases es with
  | nil => exact List.cons_ne_nil _ _
  | cons e es =>
      rw [gaps]
      split_ifs
      · exact List.cons_ne_nil _ _
      · split <;> exact List.cons_ne_nil _ _

/-- A document is its tokens and its gaps. -/
theorem weave_gaps (es : List Element) : weave (gaps es) (tokens es) = es.flatMap Element.text := by
  induction es with
  | nil => rfl
  | cons e es ih =>
      rw [gaps, List.flatMap_cons, tokens]
      by_cases he : e.isToken = true
      · rw [if_pos he, List.filter_cons_of_pos he, weave, List.nil_append]
        exact congrArg (e.text ++ ·) ih
      · rw [if_neg he, List.filter_cons_of_neg he]
        cases hgaps : gaps es with
        | nil => exact absurd hgaps (gaps_ne_nil es)
        | cons g gs =>
            rw [hgaps] at ih
            show weave ((e.text ++ g) :: gs) (tokens es) = _
            rw [← ih]
            cases tokens es with
            | nil => rfl
            | cons t ts => rw [weave, weave, List.append_assoc]

/-- Gaps that are the same up to blanks make documents that are the same up to blanks. -/
theorem squeezeFrom_weave {gs hs : List Text} (ts : List Element) (b : Bool)
    (h : gs.map (squeezeFrom isWhitespace false) = hs.map (squeezeFrom isWhitespace false)) :
    squeezeFrom isWhitespace b (weave gs ts) = squeezeFrom isWhitespace b (weave hs ts) := by
  induction gs generalizing hs ts b with
  | nil =>
      rw [List.map_nil, eq_comm, List.map_eq_nil_iff] at h
      rw [h]
  | cons g gs ih =>
      cases hs with
      | nil => cases h
      | cons k hs =>
          rw [List.map_cons, List.map_cons] at h
          obtain ⟨hfirst, hrest⟩ := List.cons.inj h
          have hsqueeze : squeezeFrom isWhitespace b g = squeezeFrom isWhitespace b k := by
            rw [← (Blanks.squeezeFrom_squeezeFrom isWhitespace_space g).1, hfirst,
              (Blanks.squeezeFrom_squeezeFrom isWhitespace_space k).1]
          have hends : endsBlank isWhitespace b g = endsBlank isWhitespace b k := by
            rw [← (Blanks.endsBlank_squeezeFrom isWhitespace_space g).1, hfirst,
              (Blanks.endsBlank_squeezeFrom isWhitespace_space k).1]
          cases ts with
          | nil => exact hsqueeze
          | cons t ts =>
              rw [weave, weave, squeezeFrom_append, squeezeFrom_append k, hsqueeze, hends,
                squeezeFrom_append t.text, squeezeFrom_append t.text, ih ts _ hrest]

/-- The tokens of a document and its gaps, up to blanks, are its words. -/
theorem words_of_gaps {p q : Source} (htokens : tokens p.elements = tokens q.elements)
    (h : (gaps (padded p.elements)).map (squeezeFrom isWhitespace false) =
      (gaps (padded q.elements)).map (squeezeFrom isWhitespace false)) :
    splitWhitespace p.text = splitWhitespace q.text := by
  have htext : ∀ r : Source, weave (gaps (padded r.elements)) (tokens r.elements) =
      ' ' :: (r.text ++ [' ']) := by
    intro r
    have hpadded : tokens (padded r.elements) = tokens r.elements := by
      show (Element.ignored ' ' :: (r.elements ++ [.ignored ' '])).filter Element.isToken = _
      rw [List.filter_cons_of_neg (by decide), List.filter_append]
      exact List.append_nil _
    rw [← hpadded, weave_gaps, padded, List.flatMap_cons, List.flatMap_append, ← r.lexes.text_eq]
    rfl
  have hweave := squeezeFrom_weave (tokens p.elements) false h
  rw [htext p, htokens, htext q, squeezeFrom_blank isWhitespace_space,
    squeezeFrom_blank isWhitespace_space] at hweave
  exact (Blanks.words_eq_iff isWhitespace_space _ _).mpr (List.append_cancel_left hweave)

/-- **Hashes of queries**: of two documents that differ in letter case in no word alone, in blanks in
no string, and in commas, comments and separation between no tokens alone, the same text is hashed
exactly if they have the same tokens. -/
theorem hashedText_iff (U : Rust.UnicodeTables) (p q : Source) (hcase : CaseApart U p q)
    (hmarks : MarksAgree p q) (hgaps : GapsAgree p q) :
    hashedText U p.text = hashedText U q.text ↔ tokens p.elements = tokens q.elements := by
  rw [hashedText_eq, hashedText_eq]
  constructor
  · intro h
    have hwords := hcase h
    exact tokens_of_words hwords (hmarks hwords)
  · intro h
    rw [words_of_gaps h (hgaps h)]

/-! ### Queries of one field -/

/-- The elements of a query of one field, with a blank before its name and one behind it. -/
def fieldElements (before after : List Element) (name : Text) : List Element :=
  .punctuator ['{'] :: (before ++ .name name :: (after ++ [.punctuator ['}']]))

theorem spaced_lexes : Lexes "\x7b a \x7d".toList
    (fieldElements [.ignored ' '] [.ignored ' '] ['a']) :=
  .cons rfl (.cons rfl (.cons rfl (.cons rfl (.cons rfl .nil))))

theorem wide_lexes : Lexes "\x7b\t a\n\x7d".toList
    (fieldElements [.ignored '\t', .ignored ' '] [.ignored '\n'] ['a']) :=
  .cons rfl (.cons rfl (.cons rfl (.cons rfl (.cons rfl (.cons rfl .nil)))))

theorem capital_lexes : Lexes "\x7b A \x7d".toList
    (fieldElements [.ignored ' '] [.ignored ' '] ['A']) :=
  .cons rfl (.cons rfl (.cons rfl (.cons rfl (.cons rfl .nil))))

theorem dense_lexes : Lexes "\x7ba\x7d".toList (fieldElements [] [] ['a']) :=
  .cons rfl (.cons rfl (.cons rfl .nil))

def spacedQuery : Source := ⟨_, _, spaced_lexes⟩

def wideQuery : Source := ⟨_, _, wide_lexes⟩

def capitalQuery : Source := ⟨_, _, capital_lexes⟩

def denseQuery : Source := ⟨_, _, dense_lexes⟩

/-- The blanks do not matter where there are some. -/
theorem hashedText_wide :
    CaseApart .ascii spacedQuery wideQuery ∧ MarksAgree spacedQuery wideQuery ∧
      GapsAgree spacedQuery wideQuery ∧
      (hashedText .ascii spacedQuery.text = hashedText .ascii wideQuery.text ↔
        tokens spacedQuery.elements = tokens wideQuery.elements) := by
  have hcase : CaseApart .ascii spacedQuery wideQuery := fun _ => by decide
  have hmarks : MarksAgree spacedQuery wideQuery := fun _ => rfl
  have hgaps : GapsAgree spacedQuery wideQuery := fun _ => by decide
  exact ⟨hcase, hmarks, hgaps, hashedText_iff .ascii spacedQuery wideQuery hcase hmarks hgaps⟩

/-- **Hashes that do not fit**: queries of different fields have the same hash, and a query written
with other blanks has another. -/
theorem hashedText_collides :
    (hashedText .ascii spacedQuery.text = hashedText .ascii capitalQuery.text ∧
      tokens spacedQuery.elements ≠ tokens capitalQuery.elements) ∧
    hashedText .ascii spacedQuery.text ≠ hashedText .ascii denseQuery.text ∧
      tokens spacedQuery.elements = tokens denseQuery.elements := by
  refine ⟨⟨by decide, by decide⟩, by decide, by decide⟩

end CorexManager.ApiArmor
