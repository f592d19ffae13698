import CorexManager.HAProxy.Words
import Mathlib.Data.List.TakeWhile

/-!
# Samples and ACLs

An ACL is one fetch, its flags, and then patterns, any one of which may match:
it holds when some sample of the fetch matches some pattern.  This file reads an
ACL off its words (`parseAcl`) and evaluates it (`Acl.eval`).

What HAProxy takes from outside the configuration is the `Engine`: the regular
expression engine, the network tree, the integer reading of a string, the
pattern files and the environment.  What a request, its variables and its
counters provide is a function from fetch expressions to samples.
-/

namespace HAProxy

open Data

/-- A sample, by type. -/
inductive Sample where
  | str (t : Text)
  | int (n : Int)
  | bool (b : Bool)
  | addr (t : Text)
  deriving DecidableEq, Repr

/-- Everything a match consults besides the sample and the patterns. -/
structure Engine where
  /-- Case-insensitive?, pattern, subject. -/
  reg : Bool → Text → Text → Bool
  /-- An address, and an address or network. -/
  net : Text → Text → Bool
  /-- A string sample used as an integer. -/
  intOf : Text → Option Int
  /-- The patterns of a `-f` file. -/
  file : Text → List Text
  /-- The value of an environment variable. -/
  expand : Text → Text

namespace Sample

/-- A sample used as a string. -/
def text : Sample → Text
  | .str t => t
  | .int n => intText n
  | .bool b => if b then ['1'] else ['0']
  | .addr t => t

/-- A sample used as an integer. -/
def int? (E : Engine) : Sample → Option Int
  | .str t => E.intOf t
  | .int n => some n
  | .bool b => some (if b then 1 else 0)
  | .addr _ => none

/-- A sample used as a boolean. -/
def truthy : Sample → Bool
  | .bool b => b
  | .int n => n != 0
  | _ => false

end Sample

/-- The matching methods of `-m`. -/
inductive Method where
  | found | bool | int | ip | len | str | beg | sub | dir | dom | end | reg
  deriving DecidableEq, Repr

namespace Method

/-- The name `-m` takes. -/
def name : Method → Text
  | .found => "found".toList
  | .bool => "bool".toList
  | .int => "int".toList
  | .ip => "ip".toList
  | .len => "len".toList
  | .str => "str".toList
  | .beg => "beg".toList
  | .sub => "sub".toList
  | .dir => "dir".toList
  | .dom => "dom".toList
  | .end => "end".toList
  | .reg => "reg".toList

/-- All of them. -/
def all : List Method :=
  [.found, .bool, .int, .ip, .len, .str, .beg, .sub, .dir, .dom, .end, .reg]

/-- Read the argument of `-m`. -/
def read (w : Text) : Option Method := all.find? fun m => m.name == w

@[simp] theorem read_name (m : Method) : read m.name = some m := by
  cases m <;> decide

end Method

/-- The method a sample is matched with when the ACL names none. -/
def Sample.method : Sample → Method
  | .str _ => .str
  | .int _ => .int
  | .bool _ => .bool
  | .addr _ => .ip

/-- The comparison words of an integer match. -/
inductive IntOp where
  | eq | gt | ge | lt | le
  deriving DecidableEq, Repr

namespace IntOp

/-- Read a comparison word. -/
def read (w : Text) : Option IntOp :=
  if w = "eq".toList then some .eq
  else if w = "gt".toList then some .gt
  else if w = "ge".toList then some .ge
  else if w = "lt".toList then some .lt
  else if w = "le".toList then some .le
  else none

/-- The comparison of a sample `n` with a pattern `k`. -/
def holds : IntOp → Int → Int → Bool
  | .eq, n, k => n == k
  | .gt, n, k => k < n
  | .ge, n, k => k ≤ n
  | .lt, n, k => n < k
  | .le, n, k => n ≤ k

end IntOp

/-- Match an integer against integer patterns; a comparison word governs the
patterns after it. -/
def intMatch : IntOp → List Text → Int → Bool
  | _, [], _ => false
  | op, w :: ws, n =>
      match IntOp.read w with
      | some op' => intMatch op' ws n
      | none => (readInt w).any (op.holds n) || intMatch op ws n

/-- An integer is not a comparison word. -/
theorem IntOp.read_intText (n : Int) : IntOp.read (intText n) = none := by
  have hread := readInt_intText n
  unfold IntOp.read
  split_ifs with h₁ h₂ h₃ h₄ h₅
  · rw [h₁] at hread; cases hread
  · rw [h₂] at hread; cases hread
  · rw [h₃] at hread; cases hread
  · rw [h₄] at hread; cases hread
  · rw [h₅] at hread; cases hread
  · rfl

/-- Integer patterns under one comparison word. -/
theorem intMatch_map_intText (op : IntOp) (ks : List Int) (n : Int) :
    intMatch op (ks.map intText) n = ks.any (op.holds n) := by
  induction ks with
  | nil => rfl
  | cons k ks ih =>
      rw [List.map_cons, intMatch, IntOp.read_intText, readInt_intText, ih, List.any_cons]
      rfl

/-- `p` stands in `s` between delimiters (or ends); `edge` says whether a
delimiter, or the beginning, is just before `s`. -/
def delimitedFrom (ds : List Char) (p : Text) : Bool → Text → Bool
  | edge, [] => edge && p.isEmpty
  | edge, c :: s =>
      (edge && p.isPrefixOf (c :: s) &&
        ((c :: s).drop p.length).head?.all ds.contains) ||
      delimitedFrom ds p (ds.contains c) s

/-- Lower-case both sides when the ACL says `-i`. -/
def foldCase (icase : Bool) (t : Text) : Text := if icase then t.map Char.toLower else t

/-- Match one sample. -/
def matchSample (E : Engine) (m : Method) (icase : Bool) (pats : List Text)
    (s : Sample) : Bool :=
  let subject := foldCase icase s.text
  match m with
  | .found => true
  | .bool => s.truthy
  | .int => (s.int? E).any (intMatch .eq pats)
  | .ip => pats.any (E.net s.text)
  | .len => intMatch .eq pats s.text.length
  | .str => pats.any fun p => foldCase icase p == subject
  | .beg => pats.any fun p => (foldCase icase p).isPrefixOf subject
  | .end => pats.any fun p => (foldCase icase p).isSuffixOf subject
  | .sub => pats.any fun p => decide (foldCase icase p <:+: subject)
  | .dir => pats.any fun p => delimitedFrom ['/', '?'] (foldCase icase p) true subject
  | .dom => pats.any fun p =>
      delimitedFrom ['/', '?', '.', ':'] (foldCase icase p) true subject
  | .reg => pats.any fun p => E.reg icase p s.text

/-- An ACL: one fetch, its flags, its patterns. -/
structure Acl where
  fetch : Text
  method : Option Method := none
  icase : Bool := false
  files : List Text := []
  patterns : List Text := []
  deriving DecidableEq, Repr

/-- **The meaning of an ACL**: some sample of the fetch matches some pattern. -/
def Acl.eval (E : Engine) (samples : Text → List Sample) (a : Acl) : Bool :=
  (samples a.fetch).any fun s =>
    matchSample E (a.method.getD s.method) a.icase (a.files.flatMap E.file ++ a.patterns) s

/-- The fetches whose name may carry the matching method as a suffix. -/
def derivedFetches : List Text :=
  ["path", "url", "base", "query", "hdr", "req.hdr", "req.fhdr", "cook", "req.cook",
    "url_param", "urlp"].map String.toList

/-- The methods that are suffixes; `hdr_ip` and `hdr_cnt` are fetches of their own. -/
def Method.suffixes : List Method := [.len, .beg, .sub, .dir, .dom, .end, .reg]

/-- `path_beg` is `path -m beg`, and likewise for the other derived names. -/
def derivedFetch (w : Text) : Text × Option Method :=
  let name := w.takeWhile (· != '(')
  let args := w.dropWhile (· != '(')
  match Method.suffixes.find? fun m => derivedFetches.any fun f => f ++ '_' :: m.name == name with
  | some m => (name.take (name.length - (m.name.length + 1)) ++ args, some m)
  | none => (w, none)

/-- The flags that take an argument. -/
inductive FlagArg where
  | method | file
  deriving DecidableEq, Repr

/-- Read the flags; the first word that is not one begins the patterns.
`pending` is the flag whose argument comes next. -/
def parseFlags (a : Acl) : Option FlagArg → List Text → Option Acl
  | none, [] => some a
  | some _, [] => none
  | some .method, w :: ws =>
      (Method.read w).bind fun m => parseFlags { a with method := some m } none ws
  | some .file, w :: ws => parseFlags { a with files := a.files ++ [w] } none ws
  | none, w :: ws =>
      if w.head? ≠ some '-' then some { a with patterns := w :: ws }
      else if w = "--".toList then some { a with patterns := ws }
      else if w = "-i".toList then parseFlags { a with icase := true } none ws
      else if w = "-n".toList ∨ w = "-M".toList then parseFlags a none ws
      else if w = "-m".toList then parseFlags a (some .method) ws
      else if w = "-f".toList then parseFlags a (some .file) ws
      else none

/-- Read the words of an ACL. -/
def parseAcl : List Text → Option Acl
  | [] => none
  | w :: ws =>
      let (fetch, method) := derivedFetch w
      parseFlags { fetch := fetch, method := method } none ws

/-- The flags leave the fetch alone. -/
theorem parseFlags_fetch {a b : Acl} {pending : Option FlagArg} {ws : List Text}
    (h : parseFlags a pending ws = some b) : b.fetch = a.fetch := by
  fun_induction parseFlags a pending ws with
  | case1 a =>
      cases h
      rfl
  | case2 => cases h
  | case3 a w ws ih =>
      obtain ⟨m, -, hrest⟩ := Option.bind_eq_some_iff.mp h
      exact ih m hrest
  | case4 a w ws ih => exact ih h
  | case5 =>
      cases h
      rfl
  | case6 =>
      cases h
      rfl
  | case7 => next ih => exact ih h
  | case8 => next ih => exact ih h
  | case9 => next ih => exact ih h
  | case10 => next ih => exact ih h
  | case11 => cases h

/-- The fetch of an ACL is named by its first word. -/
theorem parseAcl_fetch {w : Text} {ws : List Text} {a : Acl} (h : parseAcl (w :: ws) = some a) :
    a.fetch = (derivedFetch w).1 := by
  unfold parseAcl at h
  exact parseFlags_fetch h

/-- The word `w` cannot be taken for a flag. -/
def notFlag (w : Text) : Bool := w.head? != some '-'

/-- Only a name with a method as its suffix is a derived fetch. -/
theorem derivedFetch_call {name : Text} (hname : '(' ∉ name)
    (hplain : derivedFetch name = (name, none)) (args : Text) :
    derivedFetch (name ++ '(' :: args) = (name ++ '(' :: args, none) := by
  have hall : ∀ c ∈ name, (c != '(') = true := by
    intro c hc
    simp only [bne_iff_ne, ne_eq]
    rintro rfl
    exact hname hc
  have htake : (name ++ '(' :: args).takeWhile (· != '(') = name := by
    rw [List.takeWhile_append_of_pos hall]
    simp
  have hself : name.takeWhile (· != '(') = name := List.takeWhile_eq_self_iff.mpr hall
  simp only [derivedFetch, hself, htake] at hplain ⊢
  split at hplain
  · simp at hplain
  · rfl

/-- The common shape: a fetch, `-m` and a method, and patterns. -/
theorem parseAcl_method {fetch : Text} {m : Method} {pats : List Text}
    (hfetch : derivedFetch fetch = (fetch, none))
    (hpats : ∀ w ∈ pats.head?, notFlag w = true) :
    parseAcl (fetch :: "-m".toList :: m.name :: pats)
      = some { fetch := fetch, method := some m, patterns := pats } := by
  have hflag : parseFlags { fetch := fetch } none ("-m".toList :: m.name :: pats)
      = parseFlags { fetch := fetch, method := some m } none pats := by
    simp [parseFlags]
  simp only [parseAcl, hfetch, hflag]
  cases pats with
  | nil => rfl
  | cons w ws =>
      have hw : w.head? ≠ some '-' := by
        have := hpats w (by simp)
        simpa [notFlag] using this
      simp [parseFlags, hw]

/-- A fetch alone, or with patterns matched by the method of its samples. -/
theorem parseAcl_default {fetch : Text} {pats : List Text}
    (hfetch : derivedFetch fetch = (fetch, none))
    (hpats : ∀ w ∈ pats.head?, notFlag w = true) :
    parseAcl (fetch :: pats) = some { fetch := fetch, patterns := pats } := by
  simp only [parseAcl, hfetch]
  cases pats with
  | nil => rfl
  | cons w ws =>
      have hw : w.head? ≠ some '-' := by
        have := hpats w (by simp)
        simpa [notFlag] using this
      simp [parseFlags, hw]

/-- A fetch and a pattern file, matched by the method of its samples. -/
theorem parseAcl_file {fetch : Text} (path : Text)
    (hfetch : derivedFetch fetch = (fetch, none)) :
    parseAcl [fetch, "-f".toList, path] = some { fetch := fetch, files := [path] } := by
  simp [parseAcl, hfetch, parseFlags]

/-- A fetch, `-m` and a method, and a pattern file. -/
theorem parseAcl_method_file {fetch : Text} (m : Method) (path : Text)
    (hfetch : derivedFetch fetch = (fetch, none)) :
    parseAcl [fetch, "-m".toList, m.name, "-f".toList, path]
      = some { fetch := fetch, method := some m, files := [path] } := by
  simp [parseAcl, hfetch, parseFlags]

end HAProxy
