import CorexManager.Data.Text

/-!
# Configuration lines as words

HAProxy reads every line of its configuration as a list of words.  This file is
the reader: one step per character, so that the reading of a concatenation is
the reading of its second half from the state the first half leaves behind.

* `Scan.step` — one character.  Words end at an unquoted blank, `#` opens a
  comment, a backslash escapes the next character, strong quotes protect
  everything, weak quotes protect everything but the backslash and `$`, which
  refers to an environment variable there.
* `words` — the words of a line, or `none` when the line is no line at all (an
  unmatched quote, a malformed escape or variable, an embedded line end).
* `Piece` and `Reads` — the two compositional judgements the proofs use: a
  piece is a stretch of text that extends the word being read, and `Reads t ws`
  says that `t`, begun between two words, reads as `ws`.

The value of an environment variable is a parameter, `expand`.
-/

namespace HAProxy

open Data

/-- What the reader is inside of. -/
inductive Mode where
  /-- Between words, or in an unquoted stretch of one. -/
  | plain
  /-- Inside `'…'`. -/
  | strong
  /-- Inside `"…"`. -/
  | weak
  /-- After a backslash; the flag says whether it stood inside `"…"`. -/
  | escape (inWeak : Bool)
  /-- After `\x` and the digits read so far. -/
  | hex (inWeak : Bool) (digits : Text)
  /-- After a `$` inside `"…"`. -/
  | dollar
  /-- Inside the name of an environment variable. -/
  | envName (braced : Bool) (name : Text)
  /-- After an unquoted `#`. -/
  | comment
  /-- The text is not a line of configuration. -/
  | bad
  deriving DecidableEq, Repr

/-- The reader: the finished words, the word being read (an empty pair of quotes
already opens one), and the mode. -/
structure Scan where
  words : List Text
  cur : Option Text
  mode : Mode
  deriving DecidableEq, Repr

namespace Scan

/-- Before the first character of a line. -/
def start : Scan := ⟨[], none, .plain⟩

/-- Extend the word being read and go on in mode `m`. -/
def push (s : Scan) (t : Text) (m : Mode) : Scan :=
  { s with cur := some (s.cur.getD [] ++ t), mode := m }

/-- An unquoted blank: close the word being read, if there is one. -/
def endWord (s : Scan) : Scan :=
  match s.cur with
  | none => s
  | some w => { s with words := s.words ++ [w], cur := none }

/-- The mode an escape sequence returns to. -/
def outer (inWeak : Bool) : Mode := if inWeak then .weak else .plain

/-- The value of a hexadecimal digit. -/
def hexValue (c : Char) : Option Nat :=
  if '0' ≤ c ∧ c ≤ '9' then some (c.toNat - '0'.toNat)
  else if 'a' ≤ c ∧ c ≤ 'f' then some (c.toNat - 'a'.toNat + 10)
  else if 'A' ≤ c ∧ c ≤ 'F' then some (c.toNat - 'A'.toNat + 10)
  else none

/-- One character inside weak quotes. -/
def weakStep (s : Scan) (c : Char) : Scan :=
  if c = '"' then { s with mode := .plain }
  else if c = '\\' then { s with mode := .escape true }
  else if c = '$' then { s with mode := .dollar }
  else s.push [c] .weak

/-- One character after a backslash.  Sequences that are not escapes stay. -/
def escapeStep (s : Scan) (inWeak : Bool) (c : Char) : Scan :=
  if c = 'n' then s.push ['\n'] (outer inWeak)
  else if c = 'r' then s.push ['\r'] (outer inWeak)
  else if c = 't' then s.push ['\t'] (outer inWeak)
  else if c = 'x' then { s with mode := .hex inWeak [] }
  else if c = ' ' ∨ c = '\\' ∨ c = '#' ∨ c = '\'' ∨ c = '"' ∨ c = '$' then
    s.push [c] (outer inWeak)
  else s.push ['\\', c] (outer inWeak)

/-- One character after `\x`: two hexadecimal digits name a character. -/
def hexStep (s : Scan) (inWeak : Bool) (digits : Text) (c : Char) : Scan :=
  match hexValue c, digits with
  | none, _ => { s with mode := .bad }
  | some _, [] => { s with mode := .hex inWeak [c] }
  | some low, high :: _ =>
      s.push [Char.ofNat ((hexValue high).getD 0 * 16 + low)] (outer inWeak)

/-- One character of the name of an environment variable. -/
def envNameStep (expand : Text → Text) (s : Scan) (braced : Bool) (name : Text)
    (c : Char) : Scan :=
  if braced then
    if c = '}' then s.push (expand name) .weak
    else { s with mode := .envName true (name ++ [c]) }
  else if c.isAlphanum ∨ c = '_' then
    { s with mode := .envName false (name ++ [c]) }
  else (s.push (expand name) .weak).weakStep c

/-- One character of a line. -/
def step (expand : Text → Text) (s : Scan) (c : Char) : Scan :=
  if c = '\n' ∨ c = '\r' then { s with mode := .bad }
  else match s.mode with
    | .plain =>
        if c = ' ' ∨ c = '\t' then s.endWord
        else if c = '"' then s.push [] .weak
        else if c = '\'' then s.push [] .strong
        else if c = '\\' then { s with mode := .escape false }
        else if c = '#' then { s with mode := .comment }
        else s.push [c] .plain
    | .strong => if c = '\'' then { s with mode := .plain } else s.push [c] .strong
    | .weak => s.weakStep c
    | .escape inWeak => s.escapeStep inWeak c
    | .hex inWeak digits => s.hexStep inWeak digits c
    | .dollar =>
        if c = '{' then { s with mode := .envName true [] }
        else if c.isAlpha ∨ c = '_' then { s with mode := .envName false [c] }
        else { s with mode := .bad }
    | .envName braced name => s.envNameStep expand braced name c
    | .comment => s
    | .bad => s

/-- What has been read when the line ends here. -/
def finish (s : Scan) : Option (List Text) :=
  match s.mode with
  | .plain | .comment => some (s.words ++ s.cur.toList)
  | .escape false => some (s.words ++ [s.cur.getD [] ++ ['\\']])
  | _ => none

/-- The same reader with `ws` read before. -/
def after (ws : List Text) (s : Scan) : Scan := { s with words := ws ++ s.words }

end Scan

/-- Read `t` from the state `s`. -/
def scan (expand : Text → Text) (s : Scan) (t : Text) : Scan :=
  t.foldl (Scan.step expand) s

/-- The words of a line. -/
def words (expand : Text → Text) (t : Text) : Option (List Text) :=
  (scan expand Scan.start t).finish

variable {expand : Text → Text}

@[simp] theorem scan_nil (s : Scan) : scan expand s [] = s := rfl

@[simp] theorem scan_cons (s : Scan) (c : Char) (t : Text) :
    scan expand s (c :: t) = scan expand (s.step expand c) t := rfl

theorem scan_append (s : Scan) (a b : Text) :
    scan expand s (a ++ b) = scan expand (scan expand s a) b :=
  List.foldl_append

/-! ### Words read before do not matter -/

namespace Scan

theorem after_push (ws : List Text) (s : Scan) (t : Text) (m : Mode) :
    (s.push t m).after ws = (s.after ws).push t m := rfl

theorem after_endWord (ws : List Text) (s : Scan) :
    s.endWord.after ws = (s.after ws).endWord := by
  obtain ⟨words, cur, mode⟩ := s
  cases cur with
  | none => rfl
  | some w => simp [endWord, after]

theorem after_weakStep (ws : List Text) (s : Scan) (c : Char) :
    (s.weakStep c).after ws = (s.after ws).weakStep c := by
  unfold weakStep
  split_ifs <;> rfl

theorem after_step (ws : List Text) (s : Scan) (c : Char) :
    (s.step expand c).after ws = (s.after ws).step expand c := by
  unfold step
  split
  · rfl
  · obtain ⟨words, cur, mode⟩ := s
    cases mode with
    | plain =>
        simp only [after]
        split_ifs
        · exact after_endWord ws _
        all_goals rfl
    | strong => simp only [after]; split_ifs <;> rfl
    | weak => exact after_weakStep ws _ c
    | escape inWeak => simp only [after, escapeStep]; split_ifs <;> rfl
    | hex inWeak digits =>
        simp only [after, hexStep]
        cases hexValue c <;> cases digits <;> rfl
    | dollar => simp only [after]; split_ifs <;> rfl
    | envName braced name =>
        simp only [after, envNameStep]
        split_ifs
        · rfl
        · rfl
        · rfl
        · exact after_weakStep ws _ c
    | comment => rfl
    | bad => rfl

end Scan

/-- The frame rule of the reader. -/
theorem scan_after (ws : List Text) (s : Scan) (t : Text) :
    scan expand (s.after ws) t = (scan expand s t).after ws := by
  induction t generalizing s with
  | nil => rfl
  | cons c t ih => rw [scan_cons, scan_cons, ← Scan.after_step, ih]

/-! ### Pieces of words -/

/-- `p`, met in an unquoted stretch, extends the word being read by `w`. -/
def Piece (p w : Text) : Prop :=
  ∀ (expand : Text → Text) (ws : List Text) (cur : Option Text),
    scan expand ⟨ws, cur, .plain⟩ p = ⟨ws, some (cur.getD [] ++ w), .plain⟩

theorem Piece.append {p q w v : Text} (hp : Piece p w) (hq : Piece q v) :
    Piece (p ++ q) (w ++ v) := by
  intro expand ws cur
  rw [scan_append, hp, hq, Option.getD_some, List.append_assoc]

/-- The characters an unquoted word may be spelt with as it stands. -/
def bare (c : Char) : Bool :=
  !(c == ' ' || c == '\t' || c == '\n' || c == '\r' || c == '"' || c == '\'' ||
    c == '\\' || c == '#')

theorem step_bare {c : Char} (h : bare c = true) (ws : List Text) (cur : Option Text) :
    Scan.step expand ⟨ws, cur, .plain⟩ c = ⟨ws, some (cur.getD [] ++ [c]), .plain⟩ := by
  simp only [bare, Bool.not_eq_true', Bool.or_eq_false_iff, beq_eq_false_iff_ne, ne_eq] at h
  obtain ⟨⟨⟨⟨⟨⟨⟨hsp, htab⟩, hlf⟩, hcr⟩, hdq⟩, hsq⟩, hbs⟩, hsh⟩ := h
  simp [Scan.step, Scan.push, hsp, htab, hlf, hcr, hdq, hsq, hbs, hsh]

/-- A bare character is a piece, and so is every nonempty run of them. -/
theorem piece_bare {t : Text} (hne : t ≠ []) (h : ∀ c ∈ t, bare c = true) :
    Piece t t := by
  induction t with
  | nil => exact absurd rfl hne
  | cons c t ih =>
      intro expand ws cur
      rw [scan_cons, step_bare (h c (by simp))]
      rcases t with _ | ⟨d, t⟩
      · rfl
      · rw [ih (by simp) (fun x hx => h x (List.mem_cons_of_mem _ hx)) expand ws]
        simp

/-- The mode after a stretch of bare characters and weak quotes. -/
def quoteMode (inWeak : Bool) (t : Text) : Bool := t.foldl (fun q c => xor q (c == '"')) inWeak

/-- The characters that mean themselves inside and outside weak quotes. -/
def bareOrDollar (c : Char) : Bool := bare c && c != '$'

private theorem scan_quotes (expand : Text → Text) {t : Text} (h : ∀ c ∈ t, c = '"' ∨ bareOrDollar c = true)
    (inWeak : Bool) (ws : List Text) (w : Text) :
    scan expand ⟨ws, some w, Scan.outer inWeak⟩ t
      = ⟨ws, some (w ++ t.filter (· != '"')), Scan.outer (quoteMode inWeak t)⟩ := by
  induction t generalizing inWeak w with
  | nil => simp [quoteMode]
  | cons c t ih =>
      have htail := ih fun x hx => h x (List.mem_cons_of_mem _ hx)
      rcases h c (by simp) with rfl | hc
      · have hstep : Scan.step expand ⟨ws, some w, Scan.outer inWeak⟩ '"'
            = ⟨ws, some w, Scan.outer !inWeak⟩ := by
          cases inWeak <;> simp [Scan.step, Scan.weakStep, Scan.push, Scan.outer]
        rw [scan_cons, hstep, htail]
        simp [quoteMode]
      · have hne : c ≠ '"' := by
          rintro rfl
          simp [bareOrDollar, bare] at hc
        have hstep : Scan.step expand ⟨ws, some w, Scan.outer inWeak⟩ c
            = ⟨ws, some (w ++ [c]), Scan.outer inWeak⟩ := by
          simp only [bareOrDollar, Bool.and_eq_true, bne_iff_ne, ne_eq] at hc
          cases inWeak with
          | false => simpa [Scan.outer] using step_bare hc.1 ws (some w)
          | true =>
              have hbare := hc.1
              simp only [bare, Bool.not_eq_true', Bool.or_eq_false_iff,
                beq_eq_false_iff_ne, ne_eq] at hbare
              obtain ⟨⟨⟨⟨⟨⟨⟨-, -⟩, hlf⟩, hcr⟩, hdq⟩, -⟩, hbs⟩, -⟩ := hbare
              simp [Scan.step, Scan.weakStep, Scan.push, Scan.outer, hlf, hcr, hdq, hbs, hc.2]
        rw [scan_cons, hstep, htail]
        have hquote : (c == '"') = false := by simpa using hne
        simp [quoteMode, hne, hquote]

/-- Weak quotes inside a word are taken away, when they pair up. -/
theorem piece_quotes {t : Text} (hne : t ≠ [])
    (h : ∀ c ∈ t, c = '"' ∨ bareOrDollar c = true) (hpair : quoteMode false t = false) :
    Piece t (t.filter (· != '"')) := by
  intro expand ws cur
  have hscan := scan_quotes expand h false ws (cur.getD [])
  rw [hpair] at hscan
  cases t with
  | nil => exact absurd rfl hne
  | cons c t =>
      have hfirst : Scan.step expand ⟨ws, cur, .plain⟩ c
          = Scan.step expand ⟨ws, some (cur.getD []), .plain⟩ c := by
        rcases h c (by simp) with rfl | hc
        · simp [Scan.step, Scan.push]
        · simp only [bareOrDollar, Bool.and_eq_true] at hc
          rw [step_bare hc.1, step_bare hc.1, Option.getD_some]
      rw [scan_cons, hfirst, ← scan_cons]
      simpa [Scan.outer] using hscan

/-- Write `t` so that weak quotes give it back: escape backslashes and quotes. -/
def weakEscape (t : Text) : Text :=
  t.flatMap fun c => if c = '\\' ∨ c = '"' then ['\\', c] else [c]

/-- The characters weak quotes cannot protect. -/
def quotable (c : Char) : Bool := !(c == '$' || c == '\n' || c == '\r')

theorem scan_weakEscape {t : Text} (h : ∀ c ∈ t, quotable c = true) (ws : List Text)
    (w : Text) :
    scan expand ⟨ws, some w, .weak⟩ (weakEscape t) = ⟨ws, some (w ++ t), .weak⟩ := by
  induction t generalizing w with
  | nil => simp [weakEscape]
  | cons c t ih =>
      have hc : quotable c = true := h c (by simp)
      simp only [quotable, Bool.not_eq_true', Bool.or_eq_false_iff, beq_eq_false_iff_ne,
        ne_eq] at hc
      obtain ⟨⟨hdollar, hlf⟩, hcr⟩ := hc
      have htail := fun w' => ih (fun x hx => h x (List.mem_cons_of_mem _ hx)) w'
      have hsplit : weakEscape (c :: t)
          = (if c = '\\' ∨ c = '"' then ['\\', c] else [c]) ++ weakEscape t := rfl
      rw [hsplit, scan_append]
      by_cases hesc : c = '\\' ∨ c = '"'
      · have hstep : scan expand ⟨ws, some w, .weak⟩ ['\\', c]
            = ⟨ws, some (w ++ [c]), .weak⟩ := by
          rcases hesc with rfl | rfl <;> rfl
        rw [if_pos hesc, hstep, htail]
        simp
      · rw [not_or] at hesc
        have hstep : scan expand ⟨ws, some w, .weak⟩ [c]
            = ⟨ws, some (w ++ [c]), .weak⟩ := by
          simp [Scan.step, Scan.weakStep, Scan.push, hlf, hcr, hesc, hdollar]
        rw [if_neg (not_or.mpr hesc), hstep, htail]
        simp

/-- **Weak quoting is faithful** on text without `$` and line ends. -/
theorem piece_quoted {t : Text} (h : ∀ c ∈ t, quotable c = true) :
    Piece ('"' :: (weakEscape t ++ ['"'])) t := by
  intro expand ws cur
  have hopen : Scan.step expand ⟨ws, cur, .plain⟩ '"'
      = ⟨ws, some (cur.getD []), .weak⟩ := by
    simp [Scan.step, Scan.push]
  rw [scan_cons, hopen, scan_append, scan_weakEscape h]
  rfl

/-! ### Words -/

/-- `t`, begun between two words, reads as the words `ws`; the last of them is
still open, so what follows `t` must begin with a blank. -/
def Reads (t : Text) (ws : List Text) : Prop :=
  ∀ expand : Text → Text, ∃ (front : List Text) (last : Text),
    ws = front ++ [last] ∧ scan expand Scan.start t = ⟨front, some last, .plain⟩

theorem Piece.reads {p w : Text} (h : Piece p w) : Reads p [w] := fun expand =>
  ⟨[], w, rfl, h expand [] none⟩

/-- A blank after a reading closes the last word. -/
theorem Reads.scan_blank {t : Text} {ws : List Text} (h : Reads t ws) :
    scan expand Scan.start (t ++ [' ']) = Scan.start.after ws := by
  obtain ⟨front, last, rfl, hscan⟩ := h expand
  rw [scan_append, hscan]
  simp [Scan.step, Scan.endWord, Scan.after, Scan.start]

/-- **Readings compose over a blank.** -/
theorem Reads.append {a b : Text} {ws vs : List Text} (ha : Reads a ws) (hb : Reads b vs) :
    Reads (a ++ ' ' :: b) (ws ++ vs) := by
  intro expand
  obtain ⟨front, last, rfl, hscan⟩ := hb expand
  refine ⟨ws ++ front, last, by simp, ?_⟩
  have hsplit : a ++ ' ' :: b = (a ++ [' ']) ++ b := by simp
  rw [hsplit, scan_append, ha.scan_blank, scan_after, hscan]
  rfl

theorem Reads.words_eq {t : Text} {ws : List Text} (h : Reads t ws) :
    words expand t = some ws := by
  obtain ⟨front, last, rfl, hscan⟩ := h expand
  simp [words, hscan, Scan.finish]

theorem Scan.finish_after (ws : List Text) (s : Scan) :
    (s.after ws).finish = s.finish.map (ws ++ ·) := by
  obtain ⟨words, cur, mode⟩ := s
  cases mode with
  | escape inWeak => cases inWeak <;> simp [finish, after]
  | _ => simp [finish, after]

/-- The words of a line are those of its beginning and those of the rest. -/
theorem Reads.words_blank {a : Text} {ws : List Text} (h : Reads a ws) (b : Text) :
    words expand (a ++ ' ' :: b) = (words expand b).map (ws ++ ·) := by
  have hsplit : a ++ ' ' :: b = a ++ [' '] ++ b := by simp
  rw [words, hsplit, scan_append, h.scan_blank, scan_after, Scan.finish_after]
  rfl

/-! ### Lines without quotes -/

/-- An unquoted blank. -/
def blank (c : Char) : Bool := c == ' ' || c == '\t'

/-- The words of a text, `cur` being the word it continues. -/
def blankWordsFrom : (cur : Option Text) → Text → List Text
  | cur, [] => cur.toList
  | cur, c :: t =>
      if blank c then cur.toList ++ blankWordsFrom none t
      else blankWordsFrom (some (cur.getD [] ++ [c])) t

/-- The words of a text, which blanks separate. -/
def blankWords (t : Text) : List Text := blankWordsFrom none t

private theorem scan_blankWords {t : Text} (h : ∀ c ∈ t, bare c = true ∨ blank c = true)
    (ws : List Text) (cur : Option Text) :
    (scan expand ⟨ws, cur, .plain⟩ t).finish = some (ws ++ blankWordsFrom cur t) := by
  induction t generalizing ws cur with
  | nil => rfl
  | cons c t ih =>
      have htail := ih fun x hx => h x (List.mem_cons_of_mem _ hx)
      rw [scan_cons, blankWordsFrom]
      cases hblank : blank c with
      | true =>
          have hstep : Scan.step expand ⟨ws, cur, .plain⟩ c = ⟨ws ++ cur.toList, none, .plain⟩ := by
            have hc : c = ' ' ∨ c = '\t' := by simpa [blank] using hblank
            rcases hc with rfl | rfl <;> cases cur <;> simp [Scan.step, Scan.endWord]
          rw [hstep, htail, if_pos rfl, List.append_assoc]
      | false =>
          have hbare : bare c = true := (h c List.mem_cons_self).resolve_right (by simp [hblank])
          rw [step_bare hbare, htail, if_neg Bool.false_ne_true]

/-- **Without quotes, blanks separate the words.** -/
theorem words_eq_blankWords {t : Text} (h : ∀ c ∈ t, bare c = true ∨ blank c = true) :
    words expand t = some (blankWords t) := scan_blankWords h [] none

theorem blankWordsFrom_bare {t : Text} (h : ∀ c ∈ t, blank c = false) (w : Text) :
    blankWordsFrom (some w) t = [w ++ t] := by
  induction t generalizing w with
  | nil => simp [blankWordsFrom]
  | cons c t ih =>
      rw [blankWordsFrom, h c List.mem_cons_self, if_neg Bool.false_ne_true,
        ih fun x hx => h x (List.mem_cons_of_mem _ hx)]
      simp

/-- A text without blanks is one word. -/
theorem blankWords_bare {t : Text} (hne : t ≠ []) (h : ∀ c ∈ t, blank c = false) :
    blankWords t = [t] := by
  cases t with
  | nil => exact absurd rfl hne
  | cons c t =>
      rw [blankWords, blankWordsFrom, h c List.mem_cons_self, if_neg Bool.false_ne_true,
        blankWordsFrom_bare fun x hx => h x (List.mem_cons_of_mem _ hx)]
      rfl

/-- The words of a text begun with a word. -/
theorem blankWords_word {w t : Text} (hne : w ≠ []) (h : ∀ c ∈ w, blank c = false) :
    blankWords (w ++ ' ' :: t) = w :: blankWords t := by
  have hfrom : ∀ u : Text, blankWordsFrom (some u) (' ' :: t) = u :: blankWords t := fun _ => rfl
  have hword : ∀ (w u : Text), (∀ c ∈ w, blank c = false) →
      blankWordsFrom (some u) (w ++ ' ' :: t) = (u ++ w) :: blankWords t := by
    intro w
    induction w with
    | nil =>
        intro u _
        rw [List.nil_append, hfrom, List.append_nil]
    | cons c w ih =>
        intro u hw
        rw [List.cons_append, blankWordsFrom, hw c List.mem_cons_self,
          if_neg Bool.false_ne_true, ih _ fun x hx => hw x (List.mem_cons_of_mem _ hx)]
        simp
  cases w with
  | nil => exact absurd rfl hne
  | cons c w =>
      rw [List.cons_append, blankWords, blankWordsFrom, h c List.mem_cons_self,
        if_neg Bool.false_ne_true, hword w _ fun x hx => h x (List.mem_cons_of_mem _ hx)]
      rfl

/-! ### Integers -/

theorem intText_bare (n : Int) : ∀ c ∈ intText n, bare c = true := by
  have hdigit : ∀ c : Char, c.isDigit = true → bare c = true := by
    intro c hc
    simp only [bare, Bool.not_eq_true', Bool.or_eq_false_iff, beq_eq_false_iff_ne, ne_eq]
    refine ⟨⟨⟨⟨⟨⟨⟨?_, ?_⟩, ?_⟩, ?_⟩, ?_⟩, ?_⟩, ?_⟩, ?_⟩ <;>
      · rintro rfl
        exact absurd hc (by decide)
  intro c hc
  cases n with
  | ofNat n => exact hdigit c (natText_isDigit n c hc)
  | negSucc n =>
      rcases List.mem_cons.mp hc with rfl | hc
      · decide
      · exact hdigit c (natText_isDigit (n + 1) c hc)

theorem intText_ne_nil (n : Int) : intText n ≠ [] := by
  cases n with
  | ofNat n => exact natText_ne_nil n
  | negSucc n => simp [intText]

theorem reads_int (n : Int) : Reads (intText n) [intText n] :=
  (piece_bare (intText_ne_nil n) (intText_bare n)).reads

/-! ### Joins -/

/-- Join with single blanks, as `" ".join` does. -/
def blankJoin : List Text → Text
  | [] => []
  | [t] => t
  | t :: ts => t ++ ' ' :: blankJoin ts

@[simp] theorem blankJoin_nil : blankJoin [] = [] := rfl

@[simp] theorem blankJoin_singleton (t : Text) : blankJoin [t] = t := rfl

@[simp] theorem blankJoin_cons_cons (t u : Text) (ts : List Text) :
    blankJoin (t :: u :: ts) = t ++ ' ' :: blankJoin (u :: ts) := rfl

/-- A blank-separated list of readings reads as their concatenation. -/
theorem Reads.blankJoin {α : Type*} {text : α → Text} {reading : α → List Text}
    {xs : List α} (hne : xs ≠ []) (h : ∀ x ∈ xs, Reads (text x) (reading x)) :
    Reads (blankJoin (xs.map text)) (xs.flatMap reading) := by
  induction xs with
  | nil => exact absurd rfl hne
  | cons x xs ih =>
      rcases xs with _ | ⟨y, ys⟩
      · simpa using h x (by simp)
      · have hx := h x (by simp)
        have hxs := ih (by simp) (fun z hz => h z (List.mem_cons_of_mem _ hz))
        simpa using hx.append hxs

end HAProxy
