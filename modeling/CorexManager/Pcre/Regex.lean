import CorexManager.Data.Text

/-!
# Regular expressions

The part of PCRE that generated configurations use: characters and escapes, `.`, `^`, `$`,
classes without ranges, groups, `?` after a character or a group, `*` after a character, and
`(?i)` at the beginning.

* `read` — the expression a text spells; a text that uses anything else has none.
* `search` — whether an expression matches somewhere in a subject.
* `scan_escape` — an escaped word is read as its characters (`Regex.word`).

The remaining lemmas say what the usual shapes find: a word at the beginning
(`search_start`), after one of some characters (`search_after`), and before a query string or
the end (`search_file`).
-/

namespace Pcre

open Data

/-- What matches one character. -/
inductive Atom where
  | char (c : Char)
  /-- `.`. -/
  | any
  /-- `[…]`. -/
  | oneOf (cs : List Char)
  deriving DecidableEq, Repr

/-- A regular expression. -/
inductive Regex where
  | empty
  /-- `^`. -/
  | start
  /-- `$`. -/
  | stop
  | one (a : Atom)
  /-- `a*`. -/
  | many (a : Atom)
  /-- `r?`. -/
  | opt (r : Regex)
  | cat (r s : Regex)
  deriving DecidableEq, Repr

/-- An expression and then the characters of a word. -/
def Regex.word (r : Regex) (p : Text) : Regex := p.foldl (fun r c => .cat r (.one (.char c))) r

@[simp] theorem Regex.word_nil (r : Regex) : r.word [] = r := rfl

@[simp] theorem Regex.word_cons (r : Regex) (c : Char) (p : Text) :
    r.word (c :: p) = Regex.word (.cat r (.one (.char c))) p := rfl

theorem Regex.word_append (r : Regex) (p q : Text) : r.word (p ++ q) = (r.word p).word q :=
  List.foldl_append

/-! ### Reading -/

/-- What the reader is inside of. -/
inductive Mode where
  | plain
  | escape
  | cls (cs : List Char)
  deriving DecidableEq, Repr

/-- The reader: what stands before the open groups, what has been read of the innermost one,
and the item a quantifier would apply to. -/
structure Scan where
  stack : List Regex
  cur : Regex
  last : Option Regex
  mode : Mode
  deriving DecidableEq, Repr

namespace Scan

/-- At the beginning. -/
def start : Scan := ⟨[], .empty, none, .plain⟩

/-- Everything read of the innermost group. -/
def all (s : Scan) : Regex :=
  match s.last with
  | none => s.cur
  | some r => .cat s.cur r

/-- One more item. -/
def item (s : Scan) (r : Regex) : Scan := ⟨s.stack, s.all, some r, .plain⟩

@[simp] theorem item_all (s : Scan) (r : Regex) : (s.item r).all = .cat s.all r := rfl

/-- One character. -/
def step (s : Scan) (c : Char) : Option Scan :=
  match s.mode with
  | .escape => if c.isAlphanum then none else some (s.item (.one (.char c)))
  | .cls cs =>
      if c = ']' then some (s.item (.one (.oneOf cs)))
      else if c = '\\' ∨ c = '[' ∨ c = '^' ∨ c = '-' then none
      else some { s with mode := .cls (cs ++ [c]) }
  | .plain =>
      if c = '\\' then some { s with mode := .escape }
      else if c = '(' then some ⟨s.all :: s.stack, .empty, none, .plain⟩
      else if c = ')' then
        match s.stack with
        | [] => none
        | r :: rs => some ⟨rs, r, some s.all, .plain⟩
      else if c = '[' then some { s with mode := .cls [] }
      else if c = '?' then
        match s.last with
        | some (.one a) => some { s with last := some (.opt (.one a)) }
        | some (.cat r q) => some { s with last := some (.opt (.cat r q)) }
        | _ => none
      else if c = '*' then
        match s.last with
        | some (.one a) => some { s with last := some (.many a) }
        | _ => none
      else if c = '.' then some (s.item (.one .any))
      else if c = '^' then some (s.item .start)
      else if c = '$' then some (s.item .stop)
      else if c = '|' ∨ c = '+' ∨ c = '\x7b' ∨ c = '\x7d' ∨ c = ']' then none
      else some (s.item (.one (.char c)))

/-- What has been read when the text ends here. -/
def finish (s : Scan) : Option Regex :=
  match s.mode, s.stack with
  | .plain, [] => some s.all
  | _, _ => none

end Scan

/-- Read a text from a state. -/
def scan (s : Scan) (t : Text) : Option Scan := t.foldlM Scan.step s

@[simp] theorem scan_nil (s : Scan) : scan s [] = some s := rfl

theorem scan_append (s : Scan) (a b : Text) : scan s (a ++ b) = (scan s a).bind (scan · b) :=
  List.foldlM_append

/-- The expression a text spells, and whether it ignores case. -/
def read (t : Text) : Option (Bool × Regex) :=
  if "(?i)".toList.isPrefixOf t then
    ((scan .start (t.drop 4)).bind Scan.finish).map (true, ·)
  else ((scan .start t).bind Scan.finish).map (false, ·)

/-- The characters `re.escape` of Python escapes. -/
def escaped : List Char :=
  ['(', ')', '[', ']', '\x7b', '\x7d', '?', '*', '+', '-', '|', '^', '$', '\\', '.', '&', '~', '#',
    ' ', '\t', '\n', '\r', '\x0b', '\x0c']

/-- `re.escape` of Python. -/
def escape (p : Text) : Text := p.flatMap fun c => if c ∈ escaped then ['\\', c] else [c]

/-- An escaped character stands for itself, and so does one that needs no escape. -/
private theorem scan_escape_char (s : Scan) (hs : s.mode = .plain) (c : Char) :
    scan s (if c ∈ escaped then ['\\', c] else [c]) = some (s.item (.one (.char c))) := by
  obtain ⟨stack, cur, last, mode⟩ := s
  obtain rfl : mode = .plain := hs
  have hletter : ∀ d ∈ escaped, d.isAlphanum = false := by decide
  split
  · next hmem =>
      have hstep : Scan.step ⟨stack, cur, last, .escape⟩ c =
          some (Scan.item ⟨stack, cur, last, .escape⟩ (.one (.char c))) := by
        simp only [Scan.step, hletter c hmem, Bool.false_eq_true, if_false]
      simp only [scan, List.foldlM_cons, List.foldlM_nil, Option.bind_eq_bind]
      rw [show Scan.step ⟨stack, cur, last, .plain⟩ '\\' = some ⟨stack, cur, last, .escape⟩ from rfl,
        Option.bind_some, hstep]
      rfl
  · next hplain =>
      simp only [escaped, List.mem_cons, not_or] at hplain
      simp only [scan, List.foldlM_cons, List.foldlM_nil, Scan.step, hplain, if_false, or_self,
        Option.bind_eq_bind, Option.bind_some]
      rfl

/-- **An escaped word is read as its characters.** -/
theorem scan_escape (s : Scan) (hs : s.mode = .plain) (p : Text) :
    ∃ s', scan s (escape p) = some s' ∧ s'.stack = s.stack ∧ s'.mode = .plain ∧
      s'.all = s.all.word p := by
  induction p generalizing s with
  | nil => exact ⟨s, rfl, rfl, hs, rfl⟩
  | cons c p ih =>
      obtain ⟨s', hscan, hstack, hmode, hall⟩ := ih (s.item (.one (.char c))) rfl
      refine ⟨s', ?_, hstack, hmode, hall⟩
      have hsplit : escape (c :: p) = (if c ∈ escaped then ['\\', c] else [c]) ++ escape p := rfl
      rw [hsplit, scan_append, scan_escape_char s hs, Option.bind_some, hscan]

/-! ### Matching -/

/-- A character, with or without its case. -/
def fold (icase : Bool) (c : Char) : Char := if icase then c.toLower else c

/-- The character an atom admits. -/
def Atom.admits (icase : Bool) : Atom → Char → Bool
  | .char d, c => fold icase d == fold icase c
  | .any, c => c != '\n'
  | .oneOf ds, c => ds.any fun d => fold icase d == fold icase c

/-- A position: whether it is the beginning of the subject, and what follows it. -/
abbrev Position := Bool × Text

/-- The positions a run of characters ends at. -/
def run (admits : Char → Bool) : Bool → Text → List Position
  | b, [] => [(b, [])]
  | b, c :: t => (b, c :: t) :: if admits c then run admits false t else []

/-- The positions an expression ends at. -/
def ends (icase : Bool) : Regex → Position → List Position
  | .empty, s => [s]
  | .start, s => if s.1 then [s] else []
  | .stop, s => if s.2 = [] ∨ s.2 = ['\n'] then [s] else []
  | .one a, s =>
      match s.2 with
      | [] => []
      | c :: t => if a.admits icase c then [(false, t)] else []
  | .many a, s => run (a.admits icase) s.1 s.2
  | .opt r, s => ends icase r s ++ [s]
  | .cat r q, s => (ends icase r s).flatMap (ends icase q)

/-- The positions of a subject. -/
def positions : Bool → Text → List Position
  | b, [] => [(b, [])]
  | b, c :: t => (b, c :: t) :: positions false t

/-- The expression matches somewhere. -/
def search (icase : Bool) (r : Regex) (t : Text) : Bool :=
  (positions true t).any fun s => !(ends icase r s).isEmpty

/-- The text of an expression matches somewhere in a subject. -/
def matchText (text t : Text) : Option Bool := (read text).map fun r => search r.1 r.2 t

variable {icase : Bool} {r : Regex} {p t : Text} {s e : Position}

theorem ends_start : ends icase .start s = if s.1 then [s] else [] := rfl

theorem ends_stop :
    ends icase .stop s = if s.2 = [] ∨ s.2 = ['\n'] then [s] else [] := rfl

theorem ends_one_cons {a : Atom} {b : Bool} {c : Char} :
    ends icase (.one a) (b, c :: t) = if a.admits icase c then [(false, t)] else [] := rfl

theorem ends_opt : ends icase (.opt r) s = ends icase r s ++ [s] := rfl

theorem mem_positions {b : Bool} :
    s ∈ positions b t ↔ ∃ a, t = a ++ s.2 ∧ s.1 = (b && a.isEmpty) := by
  induction t generalizing b with
  | nil =>
      rw [positions, List.mem_singleton]
      constructor
      · rintro rfl
        exact ⟨[], rfl, (Bool.and_true b).symm⟩
      · rintro ⟨a, ha, hb⟩
        obtain ⟨rfl, hrest⟩ := List.append_eq_nil_iff.mp ha.symm
        rw [List.isEmpty_nil, Bool.and_true] at hb
        exact Prod.ext hb hrest
  | cons c t ih =>
      rw [positions, List.mem_cons, ih]
      constructor
      · rintro (rfl | ⟨a, rfl, hb⟩)
        · exact ⟨[], rfl, (Bool.and_true b).symm⟩
        · exact ⟨c :: a, rfl, by simpa using hb⟩
      · rintro ⟨a, ha, hb⟩
        cases a with
        | nil =>
            rw [List.isEmpty_nil, Bool.and_true] at hb
            exact .inl (Prod.ext hb ha.symm)
        | cons d a =>
            obtain ⟨rfl, rfl⟩ := List.cons.inj ha
            exact .inr ⟨a, rfl, by simpa using hb⟩

theorem search_iff : search icase r t = true ↔
    ∃ s ∈ positions true t, ∃ e, e ∈ ends icase r s := by
  rw [search, List.any_eq_true]
  refine exists_congr fun s => and_congr_right fun _ => ?_
  rw [Bool.not_eq_true', List.isEmpty_eq_false_iff_exists_mem]

theorem mem_ends_cat {q : Regex} : e ∈ ends icase (.cat r q) s ↔
    ∃ m ∈ ends icase r s, e ∈ ends icase q m := List.mem_flatMap

theorem mem_ends_opt : e ∈ ends icase (.opt r) s ↔ e ∈ ends icase r s ∨ e = s := by
  rw [ends_opt, List.mem_append, List.mem_singleton]

/-- One character. -/
theorem mem_ends_one {a : Atom} : e ∈ ends icase (.one a) s ↔
    ∃ c, s.2 = c :: e.2 ∧ a.admits icase c = true ∧ e.1 = false := by
  obtain ⟨b, t⟩ := s
  cases t with
  | nil => exact ⟨fun h => (nomatch h), fun ⟨_, h, _⟩ => (nomatch h)⟩
  | cons c t =>
      rw [ends_one_cons]
      constructor
      · intro h
        split at h
        · next hadmits =>
            rw [List.mem_singleton] at h
            rw [h]
            exact ⟨c, rfl, hadmits, rfl⟩
        · cases h
      · rintro ⟨d, htext, hadmits, hb⟩
        obtain ⟨rfl, htail⟩ := List.cons.inj htext
        rw [if_pos hadmits, List.mem_singleton]
        exact Prod.ext hb htail.symm

/-- The beginning and the end. -/
theorem mem_ends_start : e ∈ ends icase .start s ↔ e = s ∧ s.1 = true := by
  rw [ends_start]
  split
  · next h => rw [List.mem_singleton, and_iff_left h]
  · next h => exact ⟨fun hmem => (nomatch hmem), fun hmem => absurd hmem.2 h⟩

theorem mem_ends_stop : e ∈ ends icase .stop s ↔ e = s ∧ (s.2 = [] ∨ s.2 = ['\n']) := by
  rw [ends_stop]
  split
  · next h => rw [List.mem_singleton, and_iff_left h]
  · next h => exact ⟨fun hmem => (nomatch hmem), fun hmem => absurd hmem.2 h⟩

/-- **A word** is found character by character. -/
theorem mem_ends_word : e ∈ ends icase (r.word p) s ↔
    ∃ m ∈ ends icase r s, ∃ q, m.2 = q ++ e.2 ∧ q.map (fold icase) = p.map (fold icase) ∧
      e.1 = (m.1 && p.isEmpty) := by
  induction p generalizing r with
  | nil =>
      rw [Regex.word_nil]
      constructor
      · exact fun h => ⟨e, h, [], rfl, rfl, (Bool.and_true _).symm⟩
      · rintro ⟨m, hm, q, htext, hfold, hb⟩
        obtain rfl := List.map_eq_nil_iff.mp hfold
        rw [List.isEmpty_nil, Bool.and_true] at hb
        rwa [Prod.ext hb htext.symm]
  | cons c p ih =>
      rw [Regex.word_cons, ih]
      constructor
      · rintro ⟨m, hm, q, htext, hfold, hb⟩
        obtain ⟨m', hm', hone⟩ := mem_ends_cat.mp hm
        obtain ⟨d, hd, hadmits, hfalse⟩ := mem_ends_one.mp hone
        refine ⟨m', hm', d :: q, by rw [hd, htext]; rfl, ?_, ?_⟩
        · rw [List.map_cons, List.map_cons, hfold, ← beq_iff_eq.mp hadmits]
        · rw [hb, hfalse, Bool.false_and, List.isEmpty_cons, Bool.and_false]
      · rintro ⟨m, hm, q, htext, hfold, hb⟩
        cases q with
        | nil => cases hfold
        | cons d q =>
            obtain ⟨hhead, htail⟩ := List.cons.inj hfold
            refine ⟨(false, q ++ e.2), ?_, q, rfl, htail, ?_⟩
            · exact mem_ends_cat.mpr ⟨m, hm, mem_ends_one.mpr ⟨d, htext, beq_iff_eq.mpr hhead.symm, rfl⟩⟩
            · rw [hb, List.isEmpty_cons, Bool.and_false, Bool.false_and]

/-- The word without its case. -/
def Alike (icase : Bool) (q p : Text) : Prop := q.map (fold icase) = p.map (fold icase)

theorem alike_false {q : Text} : Alike false q p ↔ q = p := by
  have hid : fold false = id := rfl
  rw [Alike, hid, List.map_id, List.map_id]

/-! ### Shapes -/

/-- **A word at the beginning.** -/
theorem search_start : search icase (Regex.word (.cat .empty .start) p) t = true ↔
    ∃ q rest, t = q ++ rest ∧ Alike icase q p := by
  rw [search_iff]
  constructor
  · rintro ⟨s, hs, e, he⟩
    obtain ⟨m, hm, q, htext, hfold, -⟩ := mem_ends_word.mp he
    obtain ⟨m', hm', hstart⟩ := mem_ends_cat.mp hm
    obtain ⟨rfl, hfirst⟩ := mem_ends_start.mp hstart
    obtain rfl := List.mem_singleton.mp hm'
    obtain ⟨a, ha, hb⟩ := mem_positions.mp hs
    rw [hfirst, Bool.true_and] at hb
    obtain rfl := List.isEmpty_iff.mp hb.symm
    exact ⟨q, e.2, by rw [ha, htext]; rfl, hfold⟩
  · rintro ⟨q, rest, rfl, hfold⟩
    refine ⟨(true, q ++ rest), mem_positions.mpr ⟨[], rfl, rfl⟩, (true && p.isEmpty, rest), ?_⟩
    refine mem_ends_word.mpr ⟨(true, q ++ rest), ?_, q, rfl, hfold, rfl⟩
    exact mem_ends_cat.mpr ⟨_, List.mem_singleton_self _, mem_ends_start.mpr ⟨rfl, rfl⟩⟩

/-- A word anywhere. -/
theorem search_word : search icase (Regex.word .empty p) t = true ↔
    ∃ a q rest, t = a ++ (q ++ rest) ∧ Alike icase q p := by
  rw [search_iff]
  constructor
  · rintro ⟨s, hs, e, he⟩
    obtain ⟨m, hm, q, htext, hfold, -⟩ := mem_ends_word.mp he
    obtain rfl := List.mem_singleton.mp hm
    obtain ⟨a, ha, -⟩ := mem_positions.mp hs
    exact ⟨a, q, e.2, by rw [ha, htext], hfold⟩
  · rintro ⟨a, q, rest, rfl, hfold⟩
    exact ⟨(true && a.isEmpty, q ++ rest), mem_positions.mpr ⟨a, rfl, rfl⟩,
      (true && a.isEmpty && p.isEmpty, rest),
      mem_ends_word.mpr ⟨_, List.mem_singleton_self _, q, rfl, hfold, rfl⟩⟩

/-- **A word after one of some characters.** -/
theorem search_after {ds : List Char} :
    search icase (Regex.word (.cat .empty (.one (.oneOf ds))) p) t = true ↔
      ∃ a d q rest, t = a ++ d :: (q ++ rest) ∧ (Atom.oneOf ds).admits icase d = true ∧
        Alike icase q p := by
  rw [search_iff]
  constructor
  · rintro ⟨s, hs, e, he⟩
    obtain ⟨m, hm, q, htext, hfold, -⟩ := mem_ends_word.mp he
    obtain ⟨m', hm', hone⟩ := mem_ends_cat.mp hm
    obtain rfl := List.mem_singleton.mp hm'
    obtain ⟨d, hd, hadmits, -⟩ := mem_ends_one.mp hone
    obtain ⟨a, ha, -⟩ := mem_positions.mp hs
    exact ⟨a, d, q, e.2, by rw [ha, hd, htext], hadmits, hfold⟩
  · rintro ⟨a, d, q, rest, rfl, hadmits, hfold⟩
    refine ⟨(true && a.isEmpty, d :: (q ++ rest)), mem_positions.mpr ⟨a, rfl, rfl⟩,
      (false && p.isEmpty, rest), ?_⟩
    refine mem_ends_word.mpr ⟨(false, q ++ rest), ?_, q, rfl, hfold, rfl⟩
    exact mem_ends_cat.mpr ⟨_, List.mem_singleton_self _, mem_ends_one.mpr ⟨d, rfl, hadmits, rfl⟩⟩

/-- A run of any characters reaches the end of a line. -/
private theorem mem_run_any {b : Bool} (h : '\n' ∉ t) : ∃ b', (b', []) ∈ run (Atom.any.admits icase) b t := by
  induction t generalizing b with
  | nil => exact ⟨b, List.mem_singleton_self _⟩
  | cons c t ih =>
      obtain ⟨hc, ht⟩ := not_or.mp (List.mem_cons.not.mp h)
      obtain ⟨b', hb'⟩ := ih (b := false) ht
      have hadmits : Atom.any.admits icase c = true := bne_iff_ne.mpr (Ne.symm hc)
      refine ⟨b', ?_⟩
      rw [run, if_pos hadmits]
      exact List.mem_cons_of_mem _ hb'

/-- A question mark has no case. -/
private theorem admits_mark {c : Char} (h : (Atom.char '?').admits icase c = true) : c = '?' := by
  have hfold : fold icase '?' = fold icase c := beq_iff_eq.mp h
  cases icase with
  | false => exact hfold.symm
  | true =>
      have hlower : c.toLower = '?' := hfold.symm
      rw [Char.toLower] at hlower
      split at hlower
      · next hupper =>
          obtain ⟨hlow, hhigh⟩ := hupper
          have hval : c.val + ('a'.val - 'A'.val) = '?'.val := congrArg Char.val hlower
          have hle : c.val.toNat ≤ 'Z'.val.toNat := UInt32.le_iff_toNat_le.mp hhigh
          have hge : 'A'.val.toNat ≤ c.val.toNat := UInt32.le_iff_toNat_le.mp hlow
          have hnat := congrArg UInt32.toNat hval
          rw [UInt32.toNat_add] at hnat
          have hshift : ('a'.val - 'A'.val).toNat = 32 := rfl
          have hmark : '?'.val.toNat = 63 := rfl
          have hfirst : 'A'.val.toNat = 65 := rfl
          have hlast : 'Z'.val.toNat = 90 := rfl
          omega
      · exact hlower

/-- `(\?.*)?$`. -/
def Regex.queryOrEnd (r : Regex) : Regex :=
  .cat (.cat r (.opt (.cat (.cat .empty (.one (.char '?'))) (.many .any)))) .stop

/-- **A word before a query string or the end.** -/
theorem search_file (ht : '\n' ∉ t) :
    search icase (Regex.word .empty p).queryOrEnd t = true ↔
      ∃ a q rest, t = a ++ (q ++ rest) ∧ Alike icase q p ∧ (rest = [] ∨ rest.head? = some '?') := by
  rw [search_iff]
  constructor
  · rintro ⟨s, hs, e, he⟩
    obtain ⟨m, hm, hstop⟩ := mem_ends_cat.mp he
    obtain ⟨w, hw, hopt⟩ := mem_ends_cat.mp hm
    obtain ⟨m', hm', q, htext, hfold, -⟩ := mem_ends_word.mp hw
    obtain rfl := List.mem_singleton.mp hm'
    obtain ⟨a, ha, -⟩ := mem_positions.mp hs
    refine ⟨a, q, w.2, by rw [ha, htext], hfold, ?_⟩
    rcases mem_ends_opt.mp hopt with hquery | rfl
    · obtain ⟨m₁, hm₁, -⟩ := mem_ends_cat.mp hquery
      obtain ⟨m₂, hm₂, hone⟩ := mem_ends_cat.mp hm₁
      obtain rfl := List.mem_singleton.mp hm₂
      obtain ⟨c, hc, hadmits, -⟩ := mem_ends_one.mp hone
      rw [admits_mark hadmits] at hc
      exact .inr (by rw [hc]; rfl)
    · rcases (mem_ends_stop.mp hstop).2 with hnil | hline
      · exact .inl hnil
      · refine absurd ?_ ht
        rw [ha, htext, hline]
        simp
  · rintro ⟨a, q, rest, rfl, hfold, hrest⟩
    refine ⟨(true && a.isEmpty, q ++ rest), mem_positions.mpr ⟨a, rfl, rfl⟩, ?_⟩
    have hword : (true && a.isEmpty && p.isEmpty, rest) ∈ ends icase (Regex.word .empty p)
        (true && a.isEmpty, q ++ rest) :=
      mem_ends_word.mpr ⟨_, List.mem_singleton_self _, q, rfl, hfold, rfl⟩
    rcases hrest with rfl | hquery
    · exact ⟨_, mem_ends_cat.mpr ⟨_, mem_ends_cat.mpr ⟨_, hword, mem_ends_opt.mpr (.inr rfl)⟩,
        mem_ends_stop.mpr ⟨rfl, .inl rfl⟩⟩⟩
    · obtain ⟨query, rfl⟩ := List.head?_eq_some_iff.mp hquery
      have hline : '\n' ∉ query := fun hmem => ht (by simp [hmem])
      have hrun : ∃ b, (b, []) ∈ run (Atom.any.admits icase) false query := mem_run_any hline
      obtain ⟨b, hrun⟩ := hrun
      have hmark : (false, query) ∈ ends icase (.cat .empty (.one (.char '?')))
          (true && a.isEmpty && p.isEmpty, '?' :: query) :=
        mem_ends_cat.mpr ⟨_, List.mem_singleton_self _, mem_ends_one.mpr ⟨'?', rfl, by simp [Atom.admits], rfl⟩⟩
      exact ⟨_, mem_ends_cat.mpr ⟨_, mem_ends_cat.mpr ⟨_, hword,
        mem_ends_opt.mpr (.inl (mem_ends_cat.mpr ⟨_, hmark, hrun⟩))⟩, mem_ends_stop.mpr ⟨rfl, .inl rfl⟩⟩⟩

/-! ### What texts find -/

theorem escape_append (p q : Text) : escape (p ++ q) = escape p ++ escape q :=
  List.flatMap_append

theorem escape_cons {c : Char} (h : c ∉ escaped) (p : Text) : escape (c :: p) = c :: escape p := by
  show (if c ∈ escaped then ['\\', c] else [c]) ++ escape p = _
  rw [if_neg h]
  rfl

private theorem finish_plain {s : Scan} (hmode : s.mode = .plain) (hstack : s.stack = []) :
    s.finish = some s.all := by
  rw [Scan.finish, hmode, hstack]

/-- An escaped word opens no group. -/
private theorem escape_icase (p q : Text) (hq : "(?i)".toList.isPrefixOf q = false) :
    "(?i)".toList.isPrefixOf (escape p ++ q) = false := by
  cases p with
  | nil => exact hq
  | cons c p =>
      show "(?i)".toList.isPrefixOf
        (((if c ∈ escaped then ['\\', c] else [c]) ++ escape p) ++ q) = false
      split
      · rfl
      · next hc =>
          have hne : c ≠ '(' := by
            rintro rfl
            exact hc (by decide)
          show ('(' == c && _) = false
          rw [beq_false_of_ne (Ne.symm hne), Bool.false_and]

/-- `^word`. -/
theorem matchText_start (p t : Text) : ∃ b, matchText ('^' :: escape p) t = some b ∧
    (b = true ↔ p <+: t) := by
  obtain ⟨s, hscan, hstack, hmode, hall⟩ := scan_escape (Scan.start.item .start) rfl p
  have hread : read ('^' :: escape p) = some (false, Regex.word (.cat .empty .start) p) := by
    have hstep : scan .start ('^' :: escape p) = some s := hscan
    have hflag : "(?i)".toList.isPrefixOf ('^' :: escape p) = false := rfl
    rw [read, if_neg (by rw [hflag]; exact Bool.false_ne_true), hstep, Option.bind_some,
      finish_plain hmode hstack, hall]
    rfl
  refine ⟨search false (Regex.word (.cat .empty .start) p) t, by rw [matchText, hread]; rfl, ?_⟩
  rw [search_start]
  constructor
  · rintro ⟨q, rest, rfl, halike⟩
    rw [alike_false.mp halike]
    exact List.prefix_append _ _
  · rintro ⟨rest, rfl⟩
    exact ⟨p, rest, rfl, alike_false.mpr rfl⟩

/-- `\?`. -/
theorem matchText_mark (t : Text) : ∃ b, matchText ['\\', '?'] t = some b ∧
    (b = true ↔ '?' ∈ t) := by
  have hread : read ['\\', '?'] = some (false, Regex.word .empty ['?']) := by decide
  refine ⟨search false (Regex.word .empty ['?']) t, by rw [matchText, hread]; rfl, ?_⟩
  rw [search_word]
  constructor
  · rintro ⟨a, q, rest, rfl, halike⟩
    rw [alike_false.mp halike]
    simp
  · intro h
    obtain ⟨a, b, rfl⟩ := List.append_of_mem h
    exact ⟨a, ['?'], b, rfl, rfl⟩

/-- `[ds]word`, the characters of the class being two. -/
theorem matchText_after {d₁ d₂ : Char} (hclass : ∀ d ∈ [d₁, d₂], d ∉ [']', '\\', '[', '^', '-'])
    (p t : Text) : ∃ b, matchText (['[', d₁, d₂, ']'] ++ escape p) t = some b ∧
      (b = true ↔ ∃ d ∈ [d₁, d₂], d :: p <:+: t) := by
  obtain ⟨s, hscan, hstack, hmode, hall⟩ :=
    scan_escape (Scan.start.item (.one (.oneOf [d₁, d₂]))) rfl p
  have hread : read (['[', d₁, d₂, ']'] ++ escape p) =
      some (false, Regex.word (.cat .empty (.one (.oneOf [d₁, d₂]))) p) := by
    have h₁ := hclass d₁ (by simp)
    have h₂ := hclass d₂ (by simp)
    simp only [List.mem_cons, not_or] at h₁ h₂
    have hstep : scan .start (['[', d₁, d₂, ']'] ++ escape p) = some s := by
      have hopen : scan .start ['[', d₁, d₂, ']'] =
          some (Scan.start.item (.one (.oneOf [d₁, d₂]))) := by
        simp [scan, Scan.step, Scan.start, Scan.item, Scan.all, h₁, h₂]
      rw [scan_append, hopen, Option.bind_some, hscan]
    have hflag : "(?i)".toList.isPrefixOf (['[', d₁, d₂, ']'] ++ escape p) = false := rfl
    rw [read, if_neg (by rw [hflag]; exact Bool.false_ne_true), hstep, Option.bind_some,
      finish_plain hmode hstack, hall]
    rfl
  refine ⟨_, by rw [matchText, hread]; rfl, ?_⟩
  rw [search_after]
  constructor
  · rintro ⟨a, d, q, rest, rfl, hadmits, halike⟩
    obtain ⟨d', hd', hfold⟩ := List.any_eq_true.mp hadmits
    obtain rfl : d' = d := beq_iff_eq.mp hfold
    rw [alike_false.mp halike]
    exact ⟨d', hd', a, rest, by simp⟩
  · rintro ⟨d, hd, a, rest, rfl⟩
    exact ⟨a, d, p, rest, by simp, List.any_eq_true.mpr ⟨d, hd, beq_self_eq_true _⟩, rfl⟩

/-- `word(\?.*)?$`, with or without case. -/
theorem matchText_file (icase : Bool) (p : Text) (ht : '\n' ∉ t) :
    ∃ b, matchText ((if icase then "(?i)".toList else []) ++
        (escape p ++ "(\\?.*)?$".toList)) t = some b ∧
      (b = true ↔ ∃ a q rest, t = a ++ (q ++ rest) ∧ Alike icase q p ∧
        (rest = [] ∨ rest.head? = some '?')) := by
  obtain ⟨s, hscan, hstack, hmode, hall⟩ := scan_escape .start rfl p
  have htail : (scan .start (escape p ++ "(\\?.*)?$".toList)).bind Scan.finish =
      some (Regex.word .empty p).queryOrEnd := by
    obtain ⟨stack, cur, last, mode⟩ := s
    obtain rfl : mode = .plain := hmode
    obtain rfl : stack = [] := hstack
    have hclose : scan ⟨[], cur, last, .plain⟩ "(\\?.*)?$".toList =
        some ⟨[], .cat (Scan.all ⟨[], cur, last, .plain⟩)
          (.opt (.cat (.cat .empty (.one (.char '?'))) (.many .any))), some .stop, .plain⟩ := rfl
    rw [scan_append, hscan, Option.bind_some, hclose, Option.bind_some, hall]
    rfl
  have hread : read ((if icase then "(?i)".toList else []) ++
      (escape p ++ "(\\?.*)?$".toList)) = some (icase, (Regex.word .empty p).queryOrEnd) := by
    cases icase with
    | true =>
        have hflag : "(?i)".toList.isPrefixOf
            ("(?i)".toList ++ (escape p ++ "(\\?.*)?$".toList)) = true := rfl
        have hdrop : ("(?i)".toList ++ (escape p ++ "(\\?.*)?$".toList)).drop 4 =
            escape p ++ "(\\?.*)?$".toList := rfl
        rw [if_pos rfl, read, if_pos hflag, hdrop, htail, Option.map_some]
    | false =>
        have hflag := escape_icase p "(\\?.*)?$".toList rfl
        rw [if_neg Bool.false_ne_true, List.nil_append, read,
          if_neg (by rw [hflag]; exact Bool.false_ne_true), htail, Option.map_some]
  exact ⟨_, by rw [matchText, hread]; rfl, search_file ht⟩

end Pcre
