import CorexManager.ApiArmor.QueryHash
import CorexManager.GraphQL.Syntax

/-!
# The analysis of a query

`analyze` of `graphql/src/lib.rs` reads a query character by character and counts braces and names.
It does not know comments, the escapes of a string, or the quotes of a block string, and does not
count the fields that are called like a keyword.

* `analyze`, `Scan.step` — the code; the loops of `analyze_body` are the modes of one reader.
* `neutral` — a text that this reader passes without losing count.
* `Readable` — the comments, the strings and the fields of a document are harmless.
* `analysis_covers` — then neither the depth nor the number of fields is too small.
* `analysis_bypassed` — an escaped quote hides the rest of a document.
-/

namespace CorexManager.ApiArmor

open Data
open GraphQL (Element Lexes Source Nesting Document Field Selections tokens mark lead lead_of
  lineEnd nameChar nameStart ignorable punctuators)

/-! ### The code -/

/-- The arithmetic of `i32`, in a release build. -/
def wrap (n : Int) : Int := n.bmod 4294967296

/-- Which loop of `analyze_body` reads the next character. -/
inductive Mode where
  | code
  | string
  /-- The arguments in parentheses. -/
  | arguments (parenDepth : Int) (inString : Bool)
  | identifier (ident : Text)
  /-- The first of some dots, or the second. -/
  | dots (second : Bool)
  deriving DecidableEq

/-- The variables of `analyze_body`. -/
structure Scan where
  depth : Int
  maxDepth : Int
  complexity : Int
  fieldCount : Int
  aliasCount : Int
  fragmentCount : Int
  prevWasColon : Bool
  mode : Mode
  deriving DecidableEq

def keywords : List Text :=
  ["query".toList, "mutation".toList, "subscription".toList, "fragment".toList, "on".toList,
    "true".toList, "false".toList, "null".toList]

/-- Is the identifier counted as a field? -/
def counted (ident : Text) : Bool := !keywords.contains ident

namespace Scan

def start : Scan := ⟨0, 0, 0, 0, 0, 0, false, .code⟩

/-- Behind an identifier. -/
def endIdentifier (s : Scan) (ident : Text) : Scan :=
  if counted ident then
    { s with
      fieldCount := wrap (s.fieldCount + 1)
      aliasCount := if s.prevWasColon then wrap (s.aliasCount + 1) else s.aliasCount
      complexity := wrap (s.complexity + 1)
      prevWasColon := false
      mode := .code }
  else { s with prevWasColon := false, mode := .code }

/-- The character ahead is neither part of the identifier nor a further dot. -/
def settle (s : Scan) : Scan :=
  match s.mode with
  | .identifier ident => s.endIdentifier ident
  | .dots _ => { s with mode := .code }
  | _ => s

variable (U : Rust.UnicodeTables)

/-- The `match` of the outer loop. -/
def read (s : Scan) (c : Char) : Scan :=
  if c = '"' then { s with mode := .string }
  else if c = '\x7b' then
    let depth := wrap (s.depth + 1)
    { s with
      depth := depth
      maxDepth := if depth > s.maxDepth then depth else s.maxDepth
      complexity := wrap (s.complexity + depth)
      prevWasColon := false }
  else if c = '\x7d' then { s with depth := max (wrap (s.depth - 1)) 0, prevWasColon := false }
  else if c = '.' then { s with mode := .dots false, prevWasColon := false }
  else if c = ':' then { s with prevWasColon := true }
  else if c = '(' then { s with mode := .arguments 1 false, prevWasColon := false }
  else if U.isAlphabetic c ∨ c = '_' then { s with mode := .identifier [c] }
  else if c ∈ [' ', '\t', '\n', '\r', ','] then s
  else { s with prevWasColon := false }

/-- One character. -/
def step (s : Scan) (c : Char) : Scan :=
  match s.mode with
  | .code => s.read U c
  | .string => if c = '"' then { s with mode := .code } else s
  | .arguments parenDepth inString =>
      if c = '"' then { s with mode := .arguments parenDepth !inString }
      else if inString then s
      else if c = '(' then { s with mode := .arguments (wrap (parenDepth + 1)) false }
      else if c = ')' then
        if wrap (parenDepth - 1) = 0 then { s with mode := .code }
        else { s with mode := .arguments (wrap (parenDepth - 1)) false }
      else s
  | .identifier ident =>
      if U.isAlphanumeric c ∨ c = '_' then { s with mode := .identifier (ident ++ [c]) }
      else s.settle.read U c
  | .dots second =>
      if c = '.' then
        if second then { s with fragmentCount := wrap (s.fragmentCount + 1), mode := .code }
        else { s with mode := .dots true }
      else s.settle.read U c

def feed (s : Scan) (t : Text) : Scan := t.foldl (step U) s

end Scan

/-- `analyze_body`: the depth, the complexity, and the numbers of fields, aliases and fragments. -/
def analyzeBody (U : Rust.UnicodeTables) (body : Text) : Int × Int × Int × Int × Int :=
  let s := (Scan.start.feed U body).settle
  (max (wrap (s.maxDepth - 1)) 0, s.complexity, s.fieldCount, s.aliasCount, s.fragmentCount)

/-- `strip_operation_header`. -/
def stripOperationHeader (query : Text) : Text :=
  let trimmed := Rust.trim query
  if '\x7b' ∈ trimmed then trimmed.dropWhile (· != '\x7b') else trimmed

/-- `u8::is_ascii_whitespace`, of the last byte of a text. -/
def endsAsciiWhitespace (t : Text) : Bool :=
  t.getLast?.any fun c => [' ', '\t', '\n', '\r', '\x0c'].contains c

/-- What stands before the first occurrence of a text. -/
def textBefore (pattern : Text) : Text → Option Text
  | [] => if pattern = [] then some [] else none
  | c :: t =>
      if pattern.isPrefixOf (c :: t) then some [] else (textBefore pattern t).map (c :: ·)

/-- `extract_operation`. -/
def extractOperation (U : Rust.UnicodeTables) (query : Text) : Text :=
  let lower := U.toLowercase query
  let begins := fun op : Text =>
    let head := lower.dropWhile Rust.isWhitespace
    (op ++ [' ']).isPrefixOf head || op.isPrefixOf head
  let found := fun op : Text =>
    begins op &&
      (textBefore op lower).any fun before => before.isEmpty || endsAsciiWhitespace before
  (["query".toList, "mutation".toList, "subscription".toList].find? found).getD "query".toList

/-- `GraphqlAnalysis`. -/
structure GraphqlAnalysis where
  operation : Text
  depth : Int
  complexity : Int
  fieldCount : Int
  aliasCount : Int
  fragmentCount : Int
  queryHash : Text
  valid : Bool
  error : Text
  deriving DecidableEq

/-- `analyze`. -/
def analyze (U : Rust.UnicodeTables) (sha256 : List UInt8 → List UInt8) (query : Text) :
    GraphqlAnalysis :=
  let trimmed := Rust.trim query
  if trimmed.isEmpty then ⟨[], 0, 0, 0, 0, 0, [], false, "empty query".toList⟩
  else
    let (depth, complexity, fieldCount, aliasCount, fragmentCount) :=
      analyzeBody U (stripOperationHeader trimmed)
    { operation := extractOperation U trimmed
      depth := depth
      complexity := complexity
      fieldCount := fieldCount
      aliasCount := aliasCount
      fragmentCount := fragmentCount
      queryHash := computeQueryHash U sha256 trimmed
      valid := true
      error := [] }

example : (analyzeBody .ascii "\x7b user \x7b id name \x7d \x7d".toList).1 = 1 := by decide

/-! ### Texts that are passed -/

/-- What a text has opened: a quote, parentheses, and braces outside of these. -/
structure Opened where
  quoted : Bool
  parens : Nat
  braces : Nat
  deriving DecidableEq

/-- Nothing may be closed that the text has not opened. -/
def Opened.next (o : Opened) (c : Char) : Option Opened :=
  if c = '"' then some { o with quoted := !o.quoted }
  else if o.quoted then some o
  else if c = '(' then some { o with parens := o.parens + 1 }
  else if c = ')' then if 0 < o.parens then some { o with parens := o.parens - 1 } else none
  else if 0 < o.parens then some o
  else if c = '\x7b' then some { o with braces := o.braces + 1 }
  else if c = '\x7d' then if 0 < o.braces then some { o with braces := o.braces - 1 } else none
  else some o

/-- Quotes and parentheses are closed, and no brace too many. -/
def neutral (o : Opened) : Text → Bool
  | [] => !o.quoted && o.parens == 0
  | c :: t => (o.next c).any fun o => neutral o t

/-! ### Small counters -/

theorem wrap_eq {n : Int} (hlow : -2147483648 ≤ n) (h : n < 2147483648) : wrap n = n := by
  unfold wrap
  rw [Int.bmod_def]
  omega

namespace Scan

/-- One for the identifier that is read. -/
def pending (s : Scan) : Int :=
  match s.mode with
  | .identifier _ => 1
  | _ => 0

/-- The counters are at most `k`. -/
structure Within (k : Int) (s : Scan) : Prop where
  depth : 0 ≤ s.depth ∧ s.depth ≤ k
  maxDepth : 0 ≤ s.maxDepth ∧ s.maxDepth ≤ k
  fieldCount : 0 ≤ s.fieldCount ∧ s.fieldCount + s.pending ≤ k
  parens : ∀ n q, s.mode = .arguments n q → 0 < n ∧ n ≤ k

/-- The counters are the same. -/
structure Keeps (s r : Scan) : Prop where
  depth : r.depth = s.depth
  maxDepth : r.maxDepth = s.maxDepth
  fieldCount : r.fieldCount = s.fieldCount

variable {U : Rust.UnicodeTables} {s : Scan} {k : Int} {c : Char}

theorem settle_of_code (h : s.mode = .code) : s.settle = s := by
  rw [settle, h]

theorem endIdentifier_counted {ident : Text} (h : counted ident = true) :
    (s.endIdentifier ident).fieldCount = wrap (s.fieldCount + 1) := by
  rw [endIdentifier, if_pos h]

theorem endIdentifier_keyword {ident : Text} (h : ¬counted ident = true) :
    (s.endIdentifier ident).fieldCount = s.fieldCount := by
  rw [endIdentifier, if_neg h]

theorem endIdentifier_other (s : Scan) (ident : Text) :
    (s.endIdentifier ident).depth = s.depth ∧ (s.endIdentifier ident).maxDepth = s.maxDepth ∧
      (s.endIdentifier ident).mode = .code := by
  unfold endIdentifier
  split_ifs <;> exact ⟨rfl, rfl, rfl⟩

theorem settle_other (s : Scan) : s.settle.depth = s.depth ∧ s.settle.maxDepth = s.maxDepth := by
  unfold settle
  split
  · exact ⟨(s.endIdentifier_other _).1, (s.endIdentifier_other _).2.1⟩
  · exact ⟨rfl, rfl⟩
  · exact ⟨rfl, rfl⟩

/-- An identifier is counted where it ends. -/
theorem Within.settle_fieldCount (h : s.Within k) (hk : k < 2147483648) :
    s.fieldCount ≤ s.settle.fieldCount ∧ s.settle.fieldCount ≤ s.fieldCount + s.pending := by
  have hcount := h.fieldCount
  unfold settle pending at *
  cases hmode : s.mode with
  | identifier ident =>
      rw [hmode] at hcount
      dsimp only at hcount ⊢
      by_cases hident : counted ident = true
      · rw [endIdentifier_counted hident, wrap_eq (by omega) (by omega)]
        omega
      · rw [endIdentifier_keyword hident]
        omega
  | code => exact ⟨le_refl _, le_of_eq (Int.add_zero _).symm⟩
  | string => exact ⟨le_refl _, le_of_eq (Int.add_zero _).symm⟩
  | arguments n q => exact ⟨le_refl _, le_of_eq (Int.add_zero _).symm⟩
  | dots second => exact ⟨le_refl _, le_of_eq (Int.add_zero _).symm⟩

/-- The character ahead does not continue what is read. -/
theorem settle_mode (s : Scan) :
    s.settle.mode = .code ∨ s.settle = s ∧ (s.mode = .string ∨ ∃ n q, s.mode = .arguments n q) := by
  unfold settle
  cases hmode : s.mode with
  | identifier ident => exact .inl (s.endIdentifier_other ident).2.2
  | code => exact .inl hmode
  | string => exact .inr ⟨rfl, .inl rfl⟩
  | arguments n q => exact .inr ⟨rfl, .inr ⟨n, q, rfl⟩⟩
  | dots second => exact .inl rfl

theorem settle_settle (s : Scan) : s.settle.settle = s.settle := by
  rcases s.settle_mode with h | ⟨h, -⟩
  · exact settle_of_code h
  · rw [h, h]

theorem Within.settled (h : s.Within k) (hk : k < 2147483648) : s.settle.Within k := by
  obtain ⟨hdepth, hmax⟩ := s.settle_other
  obtain ⟨hlow, hhigh⟩ := h.settle_fieldCount hk
  have hcount := h.fieldCount
  refine ⟨hdepth ▸ h.depth, hmax ▸ h.maxDepth, ⟨hcount.1.trans hlow, ?_⟩, ?_⟩
  · rcases s.settle_mode with hmode | ⟨hsame, -⟩
    · have hzero : s.settle.pending = 0 := by rw [pending, hmode]
      omega
    · rw [hsame]
      exact hcount.2
  · intro n q hmode
    rcases s.settle_mode with hcode | ⟨hsame, -⟩
    · rw [hcode] at hmode
      cases hmode
    · exact h.parens n q (hsame ▸ hmode)

/-- The mode is no identifier. -/
theorem pending_eq_zero (h : ∀ ident, s.mode ≠ .identifier ident) : s.pending = 0 := by
  unfold pending
  cases hmode : s.mode with
  | identifier ident => exact absurd hmode (h ident)
  | _ => rfl

theorem Within.read (h : s.Within k) (hmode : s.mode = .code) (hk : k + 1 < 2147483648) (c : Char) :
    (s.read U c).Within (k + 1) := by
  have hdepth := h.depth
  have hmax := h.maxDepth
  have hcount := h.fieldCount
  have hpending : s.pending = 0 := by rw [pending, hmode]
  rw [hpending] at hcount
  have hup : wrap (s.depth + 1) = s.depth + 1 := wrap_eq (by omega) (by omega)
  have hdown : wrap (s.depth - 1) = s.depth - 1 := wrap_eq (by omega) (by omega)
  -- a reader of code or of a string, with other counters
  have hplain : ∀ r : Scan, (0 ≤ r.depth ∧ r.depth ≤ k + 1) →
      (0 ≤ r.maxDepth ∧ r.maxDepth ≤ k + 1) → r.fieldCount = s.fieldCount →
      (∀ n q, r.mode = .arguments n q → n = 1) → r.Within (k + 1) := by
    intro r hd hm hf hn
    refine ⟨hd, hm, ⟨hf ▸ hcount.1, ?_⟩, fun n q hq => ?_⟩
    · have hle : r.pending ≤ 1 := by
        unfold pending
        split <;> decide
      omega
    · rw [hn n q hq]
      omega
  have hcode : ∀ n q, s.mode = .arguments n q → n = 1 := by
    intro n q hq
    rw [hmode] at hq
    cases hq
  unfold Scan.read
  split_ifs
  · exact hplain _ (by dsimp only; omega) (by dsimp only; omega) rfl
      fun n q hq => Mode.noConfusion hq
  · exact hplain _ (by dsimp only; omega) (by dsimp only; omega) rfl hcode
  · exact hplain _ (by dsimp only; omega) (by dsimp only; omega) rfl hcode
  · exact hplain _ (by dsimp only; omega) (by dsimp only; omega) rfl
      fun n q hq => Mode.noConfusion hq
  · exact hplain _ (by dsimp only; omega) (by dsimp only; omega) rfl hcode
  · exact hplain _ (by dsimp only; omega) (by dsimp only; omega) rfl
      fun n q hq => (Mode.arguments.inj hq).1.symm
  · exact hplain _ (by dsimp only; omega) (by dsimp only; omega) rfl
      fun n q hq => Mode.noConfusion hq
  · exact hplain _ (by omega) (by omega) rfl hcode
  · exact hplain _ (by dsimp only; omega) (by dsimp only; omega) rfl hcode

/-- The counters are the same, and no identifier is read. -/
theorem Within.keeps {r : Scan} (h : s.Within k) (hr : Keeps s r)
    (hident : ∀ ident, r.mode ≠ .identifier ident)
    (hparens : ∀ n q, r.mode = .arguments n q → 0 < n ∧ n ≤ k + 1) : r.Within (k + 1) := by
  have hdepth := h.depth
  have hmax := h.maxDepth
  have hcount := h.fieldCount
  have hpending : 0 ≤ s.pending := by
    unfold pending
    split <;> decide
  refine ⟨?_, ?_, ?_, hparens⟩
  · rw [hr.depth]
    omega
  · rw [hr.maxDepth]
    omega
  · rw [hr.fieldCount, pending_eq_zero hident]
    omega

/-- **One character adds at most one to a counter.** -/
theorem Within.step (h : s.Within k) (hk : k + 1 < 2147483648) (c : Char) :
    (s.step U c).Within (k + 1) := by
  have hsettled := h.settled (by omega)
  have hcount := h.fieldCount
  have hsame : s.Within (k + 1) :=
    ⟨⟨h.depth.1, h.depth.2.trans (by omega)⟩, ⟨h.maxDepth.1, h.maxDepth.2.trans (by omega)⟩,
      ⟨hcount.1, hcount.2.trans (by omega)⟩,
      fun n q hq => ⟨(h.parens n q hq).1, (h.parens n q hq).2.trans (by omega)⟩⟩
  unfold Scan.step
  cases hmode : s.mode with
  | code => exact h.read hmode hk c
  | string =>
      dsimp only
      split_ifs
      · exact h.keeps ⟨rfl, rfl, rfl⟩ (fun _ hm => by cases hm) (fun _ _ hm => by cases hm)
      · exact hsame
  | arguments n q =>
      obtain ⟨hpos, hle⟩ := h.parens n q hmode
      have hup : wrap (n + 1) = n + 1 := wrap_eq (by omega) (by omega)
      have hdown : wrap (n - 1) = n - 1 := wrap_eq (by omega) (by omega)
      dsimp only
      rw [hup, hdown]
      have hmove : ∀ (x : Int) (b : Bool), 0 < x → x ≤ k + 1 →
          ({ s with mode := .arguments x b } : Scan).Within (k + 1) := fun x b hx hxk =>
        h.keeps ⟨rfl, rfl, rfl⟩ (fun _ hm => by cases hm) fun y d hm => by
          obtain ⟨rfl, -⟩ := Mode.arguments.inj hm
          exact ⟨hx, hxk⟩
      split_ifs
      · exact hmove n _ hpos (by omega)
      · exact hsame
      · exact hmove _ _ (by omega) (by omega)
      · exact h.keeps ⟨rfl, rfl, rfl⟩ (fun _ hm => by cases hm) (fun _ _ hm => by cases hm)
      · exact hmove _ _ (by omega) (by omega)
      · exact hsame
  | identifier ident =>
      have hread : s.settle.mode = .code := by
        rw [settle, hmode]
        exact (s.endIdentifier_other ident).2.2
      dsimp only
      split_ifs
      · have hone : s.pending = 1 := by rw [pending, hmode]
        rw [hone] at hcount
        exact ⟨hsame.depth, hsame.maxDepth, ⟨hcount.1, by dsimp only [pending]; omega⟩,
          fun _ _ hm => by cases hm⟩
      · exact hsettled.read hread hk c
  | dots second =>
      have hread : s.settle.mode = .code := by rw [settle, hmode]
      dsimp only
      split_ifs
      · exact h.keeps ⟨rfl, rfl, rfl⟩ (fun _ hm => by cases hm) (fun _ _ hm => by cases hm)
      · exact h.keeps ⟨rfl, rfl, rfl⟩ (fun _ hm => by cases hm) (fun _ _ hm => by cases hm)
      · exact hsettled.read hread hk c

theorem within_start : start.Within 0 :=
  ⟨⟨le_refl _, le_refl _⟩, ⟨le_refl _, le_refl _⟩, ⟨le_refl _, le_refl _⟩, fun _ _ h => by cases h⟩

/-- **The counters of a text are at most its length.** -/
theorem Within.feed (h : s.Within k) (t : Text) (hk : k + t.length < 2147483648) :
    (s.feed U t).Within (k + t.length) := by
  induction t generalizing s k with
  | nil => simpa [Scan.feed] using h
  | cons c t ih =>
      rw [List.length_cons, Int.natCast_succ, Int.add_comm _ 1, ← Int.add_assoc] at hk ⊢
      exact ih (h.step (by omega) c) hk

/-! ### What a character does -/

/-- The reader reads code, once what it reads is ended. -/
def Coding (s : Scan) : Prop := s.settle.mode = .code

theorem coding_of_code (h : s.mode = .code) : s.Coding := by
  rw [Coding, settle_of_code h]
  exact h

/-- A character that no identifier and no dots go on with. -/
def Breaks (U : Rust.UnicodeTables) (c : Char) : Prop :=
  U.isAlphanumeric c = false ∧ c ≠ '_' ∧ c ≠ '.'

/-- It does not matter whether what is read is ended before the text. -/
def Loose (U : Rust.UnicodeTables) (s : Scan) (t : Text) : Prop :=
  ∀ c, t.head? = some c → s.step U c = s.settle.step U c

theorem Breaks.step (hc : Breaks U c) : s.step U c = s.settle.step U c := by
  obtain ⟨halnum, hunder, hdot⟩ := hc
  cases hmode : s.mode with
  | identifier ident =>
      have hcode : s.settle.mode = .code := by
        rw [settle, hmode]
        exact (s.endIdentifier_other ident).2.2
      rw [Scan.step, hmode, Scan.step, hcode]
      exact if_neg (not_or.mpr ⟨by rw [halnum]; decide, hunder⟩)
  | dots second =>
      have hcode : s.settle.mode = .code := by rw [settle, hmode]
      rw [Scan.step, hmode, Scan.step, hcode]
      exact if_neg hdot
  | _ => rw [settle, hmode]

theorem Loose.feed {t : Text} (h : Loose U s t) (hne : t ≠ []) :
    s.feed U t = s.settle.feed U t := by
  cases t with
  | nil => exact absurd rfl hne
  | cons c t =>
      rw [Scan.feed, Scan.feed, List.foldl_cons, List.foldl_cons, h c rfl]

theorem Coding.step (hs : s.Coding) : s.settle.step U c = s.settle.read U c := by
  have hmode : s.settle.mode = .code := hs
  rw [Scan.step, hmode]

theorem read_quote : s.read U '"' = { s with mode := .string } := rfl

theorem read_open : s.read U '(' = { s with mode := .arguments 1 false, prevWasColon := false } :=
  rfl

theorem read_begin (hw : s.Within k) (hk : k + 1 < 2147483648) :
    (s.read U '\x7b').depth = s.depth + 1 ∧
      (s.read U '\x7b').maxDepth = max s.maxDepth (s.depth + 1) ∧
      (s.read U '\x7b').fieldCount = s.fieldCount ∧ (s.read U '\x7b').mode = s.mode := by
  have hdepth := hw.depth
  have hup : wrap (s.depth + 1) = s.depth + 1 := wrap_eq (by omega) (by omega)
  rw [read, if_neg (by decide), if_pos rfl]
  dsimp only
  rw [hup]
  refine ⟨rfl, ?_, rfl, rfl⟩
  split_ifs <;> omega

theorem read_end (hw : s.Within k) (hk : k + 1 < 2147483648) :
    (s.read U '\x7d').depth = max (s.depth - 1) 0 ∧ (s.read U '\x7d').maxDepth = s.maxDepth ∧
      (s.read U '\x7d').fieldCount = s.fieldCount ∧ (s.read U '\x7d').mode = s.mode := by
  have hdepth := hw.depth
  have hdown : wrap (s.depth - 1) = s.depth - 1 := wrap_eq (by omega) (by omega)
  rw [read, if_neg (by decide), if_neg (by decide), if_pos rfl]
  dsimp only
  rw [hdown]
  exact ⟨rfl, rfl, rfl, rfl⟩

/-- The characters the reader counts, or that change what it reads. -/
def special : List Char := ['"', '\x7b', '\x7d', '(', ')']

/-- Other characters count nothing. -/
theorem read_other (hmode : s.mode = .code) (hc : c ∉ special) :
    (s.read U c).Coding ∧ Keeps s (s.read U c) := by
  have hne : ∀ d ∈ special, ¬c = d := fun d hd h => hc (h ▸ hd)
  rw [read, if_neg (hne _ (by decide)), if_neg (hne _ (by decide)), if_neg (hne _ (by decide))]
  split_ifs with h₁ h₂ h₃ h₄ h₅
  · exact ⟨rfl, rfl, rfl, rfl⟩
  · exact ⟨coding_of_code hmode, rfl, rfl, rfl⟩
  · exact absurd h₃ (hne _ (by decide))
  · exact ⟨(endIdentifier_other _ _).2.2, rfl, rfl, rfl⟩
  · exact ⟨coding_of_code hmode, rfl, rfl, rfl⟩
  · exact ⟨coding_of_code hmode, rfl, rfl, rfl⟩

theorem breaks_special (hc : c ∈ special) : Breaks U c := by
  simp only [special, List.mem_cons, List.not_mem_nil, or_false] at hc
  rcases hc with rfl | rfl | rfl | rfl | rfl <;> exact ⟨rfl, by decide, by decide⟩

/-- No counter is smaller, and no more braces are open. -/
structure Rises (s r : Scan) : Prop where
  depth : r.depth = s.depth
  maxDepth : r.maxDepth = s.maxDepth
  fieldCount : s.fieldCount ≤ r.fieldCount

theorem Keeps.rises {r : Scan} (h : Keeps s r) : Rises s r :=
  ⟨h.depth, h.maxDepth, le_of_eq h.fieldCount.symm⟩

theorem Within.settle_rises (h : s.Within k) (hk : k < 2147483648) : Rises s s.settle :=
  ⟨s.settle_other.1, s.settle_other.2, (h.settle_fieldCount hk).1⟩

theorem Rises.trans {r q : Scan} (h : Rises s r) (hr : Rises r q) : Rises s q :=
  ⟨hr.depth.trans h.depth, hr.maxDepth.trans h.maxDepth, h.fieldCount.trans hr.fieldCount⟩

/-- Code without quotes, braces and parentheses may count fields. -/
theorem Coding.other (hs : s.Coding) (hw : s.Within k) (hk : k < 2147483648) (hc : c ∉ special) :
    (s.step U c).Coding ∧ Rises s (s.step U c) := by
  have hread : (s.settle.read U c).Coding ∧ Rises s (s.settle.read U c) := by
    obtain ⟨hcode, hkeeps⟩ := read_other (U := U) hs hc
    exact ⟨hcode, (hw.settle_rises hk).trans hkeeps.rises⟩
  unfold Scan.step
  cases hmode : s.mode with
  | code =>
      obtain ⟨hcode, hkeeps⟩ := read_other (U := U) hmode hc
      exact ⟨hcode, hkeeps.rises⟩
  | identifier ident =>
      dsimp only
      split_ifs
      · exact ⟨(endIdentifier_other _ _).2.2, rfl, rfl, le_refl _⟩
      · exact hread
  | dots second =>
      dsimp only
      split_ifs
      · exact ⟨rfl, rfl, rfl, le_refl _⟩
      · exact ⟨rfl, rfl, rfl, le_refl _⟩
      · exact hread
  | string =>
      rw [Coding, settle, hmode] at hs
      exact Mode.noConfusion (hmode.symm.trans hs)
  | arguments n q =>
      rw [Coding, settle, hmode] at hs
      exact Mode.noConfusion (hmode.symm.trans hs)

end Scan

/-! ### Neutral texts are passed -/

/-- What the reader reads where some parentheses and a quote are open. -/
def InMode (parens : Nat) (quoted : Bool) (s : Scan) : Prop :=
  if parens = 0 then if quoted then s.mode = .string else s.Coding
  else s.mode = .arguments parens quoted

/-- The reader has lost no count, in a text that has opened something. -/
structure Follows (m : Nesting) (o : Opened) (s : Scan) : Prop where
  mode : InMode (m.level + o.parens) o.quoted s
  depth : (m.depth : Int) + (if m.level = 0 then (o.braces : Int) else 0) ≤ s.depth
  deepest : (m.deepest : Int) ≤ s.maxDepth
  names : (m.names : Int) ≤ s.fieldCount

section Follows

variable {U : Rust.UnicodeTables} {m : Nesting} {o p : Opened} {s r : Scan} {c : Char} {k : Int}

theorem Follows.rises (h : Follows m o s) (hr : Scan.Rises s r)
    (hmode : InMode (m.level + p.parens) p.quoted r) (hbraces : m.level = 0 → p.braces ≤ o.braces) :
    Follows m p r := by
  refine ⟨hmode, ?_, hr.maxDepth ▸ h.deepest, h.names.trans hr.fieldCount⟩
  have hdepth := h.depth
  rw [hr.depth]
  by_cases hlevel : m.level = 0
  · have hle := hbraces hlevel
    rw [if_pos hlevel] at hdepth ⊢
    omega
  · rw [if_neg hlevel] at hdepth ⊢
    exact hdepth

/-- In parentheses only quotes and parentheses are read. -/
theorem Follows.arguments (h : Follows m o s) (hpos : m.level + o.parens ≠ 0) (hw : s.Within k)
    (hk : k + 1 < 2147483648) (hp : o.next c = some p) : Follows m p (s.step U c) := by
  have hmode : s.mode = .arguments (m.level + o.parens : Nat) o.quoted := by
    have hin := h.mode
    rwa [InMode, if_neg hpos] at hin
  obtain ⟨-, hle⟩ := hw.parens _ _ hmode
  have hup : wrap ((m.level + o.parens : Nat) + 1) = (m.level + o.parens : Nat) + 1 :=
    wrap_eq (by omega) (by omega)
  have hdown : wrap ((m.level + o.parens : Nat) - 1) = (m.level + o.parens : Nat) - 1 :=
    wrap_eq (by omega) (by omega)
  have hmove : ∀ (n : Nat) (b : Bool), n = m.level + p.parens → n ≠ 0 → p.quoted = b →
      (m.level = 0 → p.braces ≤ o.braces) → Follows m p { s with mode := .arguments n b } := by
    intro n b hn hne hb hbraces
    refine h.rises ⟨rfl, rfl, le_refl _⟩ ?_ hbraces
    rw [InMode, ← hn, if_neg hne, hb]
  have hstay : m.level + p.parens = m.level + o.parens → p.quoted = o.quoted →
      (m.level = 0 → p.braces ≤ o.braces) → Follows m p s := by
    intro hn hb hbraces
    have hsame := hmove (m.level + o.parens) o.quoted hn.symm hpos hb hbraces
    rwa [← hmode] at hsame
  unfold Opened.next at hp
  rw [Scan.step, hmode]
  dsimp only
  rw [hup, hdown]
  split_ifs at hp ⊢ with h₁ h₂ h₃ h₄ h₅ h₆ h₇ h₈ h₉ h₁₀ <;> obtain rfl := Option.some.inj hp
  · exact hmove _ _ rfl hpos rfl fun _ => le_refl _
  · exact hstay rfl rfl fun _ => le_refl _
  · have hup' := hmove (m.level + o.parens + 1) false rfl (Nat.succ_ne_zero _)
      (Bool.eq_false_iff.mpr h₂) fun _ => le_refl _
    rwa [Int.natCast_succ] at hup'
  · -- the last parenthesis of the text
    have hzero : m.level + (o.parens - 1) = 0 := by omega
    refine h.rises ⟨rfl, rfl, le_refl _⟩ ?_ fun _ => le_refl _
    dsimp only
    rw [InMode, if_pos hzero, if_neg h₂]
    exact Scan.coding_of_code rfl
  · have hdown' := hmove (m.level + o.parens - 1) false (by dsimp only; omega) (by omega)
      (Bool.eq_false_iff.mpr h₂) fun _ => le_refl _
    rwa [Int.natCast_sub (by omega)] at hdown'
  · exact hstay rfl rfl fun _ => le_refl _
  · exact hstay rfl rfl fun hlevel => absurd (by omega) hpos
  · exact hstay rfl rfl fun _ => Nat.sub_le _ _
  · exact hstay rfl rfl fun _ => le_refl _

/-- Outside of parentheses and quotes. -/
theorem Follows.code (h : Follows m o s) (hzero : m.level + o.parens = 0)
    (hquote : o.quoted = false) (hw : s.Within k) (hk : k + 1 < 2147483648) (hp : o.next c = some p) :
    Follows m p (s.step U c) := by
  have hs : s.Coding := by
    have hin := h.mode
    rwa [InMode, if_pos hzero, hquote, if_neg Bool.false_ne_true] at hin
  have hlevel : m.level = 0 := by omega
  have hparens : ¬0 < o.parens := by omega
  have hin : ∀ {q : Opened}, q.parens = o.parens → q.quoted = false → ∀ {r : Scan}, r.Coding →
      InMode (m.level + q.parens) q.quoted r := by
    intro q hqp hqq r hr
    rw [InMode, hqp, if_pos hzero, hqq, if_neg Bool.false_ne_true]
    exact hr
  by_cases hc : c ∈ Scan.special
  · have hsettled : Follows m o s.settle :=
      h.rises (hw.settle_rises (by omega)) (hin rfl hquote (Scan.coding_of_code hs))
        fun _ => le_refl _
    have hdepth := hsettled.depth
    have hdeepest := hsettled.deepest
    have hnames := hsettled.names
    have hwithin := hw.settled (by omega)
    rw [if_pos hlevel] at hdepth
    rw [(Scan.breaks_special hc).step, hs.step]
    simp only [Scan.special, List.mem_cons, List.not_mem_nil, or_false] at hc
    rcases hc with rfl | rfl | rfl | rfl | rfl
    · obtain rfl := Option.some.inj hp
      refine hsettled.rises ⟨rfl, rfl, le_refl _⟩ ?_ fun _ => le_refl _
      dsimp only
      rw [InMode, if_pos hzero, hquote]
      rfl
    · rw [Opened.next, if_neg (by decide), if_neg (by rw [hquote]; decide), if_neg (by decide),
        if_neg (by decide), if_neg hparens, if_pos rfl] at hp
      obtain rfl := Option.some.inj hp
      obtain ⟨h₁, h₂, h₃, h₄⟩ := Scan.read_begin (U := U) hwithin hk
      refine ⟨hin rfl hquote (Scan.coding_of_code (h₄.trans hs)), ?_, ?_, h₃ ▸ hnames⟩
      · rw [if_pos hlevel, h₁]
        dsimp only
        omega
      · rw [h₂]
        exact hdeepest.trans (le_max_left _ _)
    · rw [Opened.next, if_neg (by decide), if_neg (by rw [hquote]; decide), if_neg (by decide),
        if_neg (by decide), if_neg hparens, if_neg (by decide), if_pos rfl] at hp
      split_ifs at hp with hbraces
      obtain rfl := Option.some.inj hp
      obtain ⟨h₁, h₂, h₃, h₄⟩ := Scan.read_end (U := U) hwithin hk
      refine ⟨hin rfl hquote (Scan.coding_of_code (h₄.trans hs)), ?_, h₂ ▸ hdeepest, h₃ ▸ hnames⟩
      rw [if_pos hlevel, h₁]
      dsimp only
      omega
    · rw [Opened.next, if_neg (by decide), if_neg (by rw [hquote]; decide), if_pos rfl] at hp
      obtain rfl := Option.some.inj hp
      refine hsettled.rises ⟨rfl, rfl, le_refl _⟩ ?_ fun _ => le_refl _
      dsimp only
      rw [InMode, if_neg (by omega), hquote, show m.level + (o.parens + 1) = 1 by omega]
      rfl
    · rw [Opened.next, if_neg (by decide), if_neg (by rw [hquote]; decide), if_neg (by decide),
        if_pos rfl, if_neg hparens] at hp
      cases hp
  · have hne : ∀ d ∈ Scan.special, ¬c = d := fun d hd heq => hc (heq ▸ hd)
    rw [Opened.next, if_neg (hne _ (by decide)), if_neg (by rw [hquote]; decide),
      if_neg (hne _ (by decide)), if_neg (hne _ (by decide)), if_neg hparens,
      if_neg (hne _ (by decide)), if_neg (hne _ (by decide))] at hp
    obtain rfl := Option.some.inj hp
    obtain ⟨hcode, hrises⟩ := hs.other (U := U) hw (by omega) hc
    exact h.rises hrises (hin rfl hquote hcode) fun _ => le_refl _

/-- In a string outside of parentheses. -/
theorem Follows.string (h : Follows m o s) (hzero : m.level + o.parens = 0)
    (hquote : o.quoted = true) (hp : o.next c = some p) : Follows m p (s.step U c) := by
  have hmode : s.mode = .string := by
    have hin := h.mode
    rwa [InMode, if_pos hzero, hquote, if_pos rfl] at hin
  unfold Opened.next at hp
  rw [Scan.step, hmode]
  dsimp only
  by_cases hc : c = '"'
  · rw [if_pos hc] at hp ⊢
    obtain rfl := Option.some.inj hp
    refine h.rises ⟨rfl, rfl, le_refl _⟩ ?_ fun _ => le_refl _
    dsimp only
    rw [InMode, if_pos hzero, hquote]
    exact Scan.coding_of_code rfl
  · rw [if_neg hc, if_pos hquote] at hp
    obtain rfl := Option.some.inj hp
    rw [if_neg hc]
    exact h

/-- **No count is lost** with a character that closes nothing the text has not opened. -/
theorem Follows.step (h : Follows m o s) (hw : s.Within k) (hk : k + 1 < 2147483648)
    (hp : o.next c = some p) : Follows m p (s.step U c) := by
  by_cases hzero : m.level + o.parens = 0
  · cases hquote : o.quoted with
    | false => exact h.code hzero hquote hw hk hp
    | true => exact h.string hzero hquote hp
  · exact h.arguments hzero hw hk hp

theorem Follows.feed {t : Text} (h : Follows m o s) (hw : s.Within k)
    (hk : k + t.length < 2147483648) (hn : neutral o t = true) :
    ∃ b, Follows m ⟨false, 0, b⟩ (s.feed U t) := by
  induction t generalizing o s k with
  | nil =>
      obtain ⟨quoted, parens, braces⟩ := o
      rw [neutral, Bool.and_eq_true, Bool.not_eq_true', beq_iff_eq] at hn
      obtain ⟨rfl, rfl⟩ := hn
      exact ⟨braces, h⟩
  | cons c t ih =>
      rw [List.length_cons] at hk
      obtain ⟨p, hp, hrest⟩ := (Option.any_eq_true _ _).mp hn
      exact ih (h.step hw (by omega) hp) (hw.step (by omega) c) (by omega) hrest

theorem InMode.settle {n : Nat} {q : Bool} (h : InMode n q s) : InMode n q s.settle := by
  unfold InMode at h ⊢
  split_ifs at h ⊢
  · rw [Scan.settle, h]
    exact h
  · exact Scan.coding_of_code h
  · rw [Scan.settle, h]
    exact h

/-- The reader has lost no count between two elements. -/
def Agrees (m : Nesting) (s : Scan) : Prop := Follows m ⟨false, 0, 0⟩ s.settle

theorem Follows.agrees {b : Nat} (h : Follows m ⟨false, 0, b⟩ s) (hw : s.Within k)
    (hk : k < 2147483648) : Agrees m s :=
  h.rises (hw.settle_rises hk) h.mode.settle fun _ => Nat.zero_le b

/-- A neutral text is passed. -/
theorem Agrees.feed {t : Text} (h : Agrees m s) (hloose : s.Loose U t) (hw : s.Within k)
    (hk : k + t.length < 2147483648) (hn : neutral ⟨false, 0, 0⟩ t = true) :
    Agrees m (s.feed U t) := by
  cases t with
  | nil => exact h
  | cons c t =>
      have hwithin := hw.feed (U := U) (c :: t) hk
      rw [hloose.feed (List.cons_ne_nil c t)] at hwithin ⊢
      obtain ⟨b, hfollows⟩ := Follows.feed h (hw.settled (by omega)) hk hn
      exact hfollows.agrees hwithin hk

end Follows

/-! ### Elements are passed -/

/-- What is used of the tables of Unicode: white space and byte order marks are neither letters nor
digits. -/
structure BlanksApart (U : Rust.UnicodeTables) : Prop where
  whitespace : ∀ c, Rust.isWhitespace c = true → U.isAlphanumeric c = false
  orderMark : U.isAlphanumeric '\uFEFF' = false

/-- The comments and the strings that are neutral. -/
def harmless : Element → Bool
  | .comment body => neutral ⟨false, 0, 0⟩ ('#' :: body)
  | .string t => neutral ⟨false, 0, 0⟩ t
  | _ => true

section Elements

variable {U : Rust.UnicodeTables} {m : Nesting} {s : Scan} {c : Char} {k : Int} {t rest : Text}

theorem not_alphabetic (h : U.isAlphanumeric c = false) : U.isAlphabetic c = false := by
  unfold Rust.UnicodeTables.isAlphanumeric at h
  unfold Rust.UnicodeTables.isAlphabetic
  split_ifs at h ⊢
  · rw [Char.isAlphanum, Bool.or_eq_false_iff] at h
    exact h.1
  · exact (Bool.or_eq_false_iff.mp h).1

theorem isAlphanumeric_ascii (h : c.toNat < 128) : U.isAlphanumeric c = c.isAlphanum := if_pos h

theorem neutral_plain {b : Nat} (h : ∀ c ∈ t, c ∉ Scan.special) :
    neutral ⟨false, 0, b⟩ t = true := by
  induction t with
  | nil => rfl
  | cons c t ih =>
      obtain ⟨hc, ht⟩ := List.forall_mem_cons.mp h
      have hne : ∀ d ∈ Scan.special, ¬c = d := fun d hd heq => hc (heq ▸ hd)
      rw [neutral, Opened.next, if_neg (hne _ (by decide)), if_neg Bool.false_ne_true,
        if_neg (hne _ (by decide)), if_neg (hne _ (by decide)), if_neg (Nat.lt_irrefl 0),
        if_neg (hne _ (by decide)), if_neg (hne _ (by decide))]
      exact ih ht

theorem loose_settled (h : s.settle = s) (t : Text) : s.Loose U t := fun c _ => by rw [h]

/-- Behind such a character nothing is pending. -/
theorem Scan.Breaks.settled (hc : Scan.Breaks U c) (s : Scan) :
    (s.step U c).settle = s.step U c := by
  have hread : ∀ r : Scan, r.mode = .code → (r.read U c).settle = r.read U c := by
    intro r hr
    have halpha := not_alphabetic hc.1
    unfold Scan.read
    split_ifs with h₁ h₂ h₃ h₄ h₅ h₆ h₇ h₈
    · rfl
    · exact Scan.settle_of_code hr
    · exact Scan.settle_of_code hr
    · exact absurd h₄ hc.2.2
    · exact Scan.settle_of_code hr
    · rfl
    · rcases h₇ with h₇ | h₇
      · exact absurd (halpha.symm.trans h₇) Bool.false_ne_true
      · exact absurd h₇ hc.2.1
    · exact Scan.settle_of_code hr
    · exact Scan.settle_of_code hr
  rw [hc.step]
  rcases s.settle_mode with hcode | ⟨hsame, hmode | ⟨n, q, hmode⟩⟩
  · rw [Scan.step, hcode]
    exact hread _ hcode
  · rw [hsame, Scan.step, hmode]
    dsimp only
    split_ifs
    · rfl
    · exact hsame
  · rw [hsame, Scan.step, hmode]
    dsimp only
    split_ifs <;> first | rfl | exact hsame

theorem Scan.Breaks.loose (hc : Scan.Breaks U c) (s : Scan) (t : Text) : (s.step U c).Loose U t :=
  loose_settled (hc.settled s) t

theorem loose_of_head (h : ∀ c, t.head? = some c → Scan.Breaks U c) (s : Scan) : s.Loose U t :=
  fun c hc => (h c hc).step

theorem feed_concat (s : Scan) (t : Text) (c : Char) :
    s.feed U (t ++ [c]) = (s.feed U t).step U c := List.foldl_concat ..

theorem breaks_punctuator (h : c ∈ punctuators) : Scan.Breaks U c := by
  have hascii : ∀ d ∈ punctuators, d.toNat < 128 ∧ d.isAlphanum = false ∧ d ≠ '_' ∧ d ≠ '.' := by
    decide
  obtain ⟨hlt, halnum, hunder, hdot⟩ := hascii c h
  exact ⟨(isAlphanumeric_ascii hlt).trans halnum, hunder, hdot⟩

theorem BlanksApart.breaks (hU : BlanksApart U) (h : ignorable c = true) : Scan.Breaks U c := by
  unfold ignorable lineEnd at h
  simp only [Bool.or_eq_true, beq_iff_eq] at h
  rcases h with (((rfl | rfl) | rfl | rfl) | rfl) | rfl
  · exact ⟨rfl, by decide, by decide⟩
  · exact ⟨rfl, by decide, by decide⟩
  · exact ⟨rfl, by decide, by decide⟩
  · exact ⟨rfl, by decide, by decide⟩
  · exact ⟨rfl, by decide, by decide⟩
  · exact ⟨hU.orderMark, by decide, by decide⟩

theorem nameStart_nameChar (h : nameStart c = true) : nameChar c = true := by
  unfold nameStart at h
  unfold nameChar Char.isAlphanum
  rcases Bool.or_eq_true_iff.mp h with h | h
  · rw [h, Bool.true_or, Bool.true_or]
  · rw [h, Bool.or_true]

/-- What an element begins with goes on with no identifier. -/
theorem BlanksApart.head (hU : BlanksApart U) (hlead : lead c ≠ .other) (hc : nameChar c = false) :
    U.isAlphanumeric c = false ∧ c ≠ '_' := by
  have hunder : c ≠ '_' := by
    rintro rfl
    exact absurd hc (by decide)
  refine ⟨?_, hunder⟩
  have hof := lead_of (rfl : lead c = lead c)
  cases h : lead c with
  | ignored =>
      rw [h] at hof
      exact (hU.breaks hof).1
  | comment =>
      rw [h] at hof
      obtain rfl : c = '#' := hof
      rfl
  | punctuator =>
      rw [h] at hof
      exact (breaks_punctuator hof).1
  | dot =>
      rw [h] at hof
      obtain rfl : c = '.' := hof
      rfl
  | name =>
      rw [h] at hof
      exact absurd (hc.symm.trans (nameStart_nameChar hof)) Bool.false_ne_true
  | number =>
      rw [h] at hof
      rcases hof with rfl | hdigit
      · rfl
      · rw [nameChar, Char.isAlphanum, hdigit, Bool.or_true, Bool.true_or] at hc
        cases hc
  | quote =>
      rw [h] at hof
      obtain rfl : c = '"' := hof
      rfl
  | other => exact absurd h hlead

/-- What stands behind a name or a number. -/
theorem BlanksApart.ends (hU : BlanksApart U) {es : List Element} (hlexes : Lexes t es)
    (h : ∀ c, t.head? = some c → nameChar c = false) (hc : t.head? = some c) :
    U.isAlphanumeric c = false ∧ c ≠ '_' := by
  cases t with
  | nil => cases hc
  | cons d t =>
      obtain rfl : d = c := Option.some.inj hc
      exact hU.head hlexes.lead_ne (h d rfl)

theorem alphanumeric_nameChar (h : nameChar c = true) : U.isAlphanumeric c = true ∨ c = '_' := by
  rcases Bool.or_eq_true_iff.mp h with h | h
  · exact .inl ((isAlphanumeric_ascii (isAlphanum_ascii h)).trans h)
  · exact .inr (beq_iff_eq.mp h)

theorem nameChar_plain (h : nameChar c = true) : c ∉ Scan.special := by
  intro hc
  have hnone : ∀ d ∈ Scan.special, nameChar d = false := by decide
  exact absurd ((hnone c hc).symm.trans h) Bool.false_ne_true

/-- A name outside of parentheses is one identifier. -/
theorem feed_name {n : Text} (hmode : s.mode = .code) (hc : nameStart c = true)
    (hn : ∀ d ∈ n, nameChar d = true) :
    s.feed U (c :: n) = { s with mode := .identifier (c :: n) } := by
  have hrun : ∀ (ident n : Text), (∀ d ∈ n, nameChar d = true) →
      Scan.feed U { s with mode := .identifier ident } n =
        { s with mode := .identifier (ident ++ n) } := by
    intro ident n hn
    induction n generalizing ident with
    | nil =>
        rw [List.append_nil]
        rfl
    | cons d n ih =>
        obtain ⟨hd, hrest⟩ := List.forall_mem_cons.mp hn
        have hstep : Scan.step U { s with mode := .identifier ident } d =
            { s with mode := .identifier (ident ++ [d]) } := if_pos (alphanumeric_nameChar hd)
        rw [Scan.feed, List.foldl_cons, hstep]
        exact (ih (ident ++ [d]) hrest).trans (by rw [List.append_assoc]; rfl)
  have hplain := nameChar_plain (nameStart_nameChar hc)
  have hne : ∀ d ∈ Scan.special, ¬c = d := fun d hd heq => hplain (heq ▸ hd)
  have hdot : ¬c = '.' := by
    rintro rfl
    cases hc
  have hcolon : ¬c = ':' := by
    rintro rfl
    cases hc
  have halpha : U.isAlphabetic c = true ∨ c = '_' := by
    rcases Bool.or_eq_true_iff.mp hc with h | h
    · have hlt : c.toNat < 128 := isAlphanum_ascii (by rw [Char.isAlphanum, h, Bool.true_or])
      exact .inl ((if_pos hlt).trans h)
    · exact .inr (beq_iff_eq.mp h)
  have hread : s.step U c = { s with mode := .identifier [c] } := by
    rw [Scan.step, hmode]
    dsimp only
    rw [Scan.read, if_neg (hne _ (by decide)), if_neg (hne _ (by decide)),
      if_neg (hne _ (by decide)), if_neg hdot, if_neg hcolon, if_neg (hne _ (by decide)),
      if_pos halpha]
  rw [Scan.feed, List.foldl_cons, hread]
  exact hrun [c] n hn

theorem Agrees.code (h : Agrees m s) (hlevel : m.level = 0) : s.settle.mode = .code := by
  have hin : InMode m.level false s.settle := h.mode
  rw [InMode, if_pos hlevel, if_neg Bool.false_ne_true, Scan.Coding, s.settle_settle] at hin
  exact hin

theorem Agrees.inside (h : Agrees m s) (hlevel : m.level ≠ 0) :
    s.settle.mode = .arguments m.level false ∧ s.settle = s := by
  have hin : InMode m.level false s.settle := h.mode
  rw [InMode, if_neg hlevel] at hin
  refine ⟨hin, ?_⟩
  rcases s.settle_mode with hcode | ⟨hsame, -⟩
  · exact Mode.noConfusion (hin.symm.trans hcode)
  · exact hsame

/-- Agreement is about the counters and the parentheses. -/
theorem agrees_of {n : Nesting} {r : Scan} (hsettled : r.settle = r)
    (hmode : InMode n.level false r) (hdepth : (n.depth : Int) ≤ r.depth) (hdeepest : (n.deepest : Int) ≤ r.maxDepth)
    (hnames : (n.names : Int) ≤ r.fieldCount) : Agrees n r := by
  unfold Agrees
  rw [hsettled]
  refine ⟨hmode, ?_, hdeepest, hnames⟩
  dsimp only
  split_ifs <;> omega

theorem Agrees.counters (h : Agrees m s) : (m.depth : Int) ≤ s.settle.depth ∧
    (m.deepest : Int) ≤ s.settle.maxDepth ∧ (m.names : Int) ≤ s.settle.fieldCount := by
  have hdepth := h.depth
  refine ⟨?_, h.deepest, h.names⟩
  dsimp only at hdepth
  split_ifs at hdepth <;> omega

variable {fields : Text → Bool}

theorem Agrees.begin (h : Agrees m s) (hw : s.Within k) (hk : k + 1 < 2147483648) :
    Agrees (m.step fields (mark '\x7b')) (s.step U '\x7b') := by
  obtain ⟨hdepth, hdeepest, hnames⟩ := h.counters
  by_cases hlevel : m.level = 0
  · have hcode := h.code hlevel
    obtain ⟨h₁, h₂, h₃, h₄⟩ := Scan.read_begin (U := U) (hw.settled (by omega)) hk
    rw [(Scan.breaks_special (by decide)).step, Scan.Coding.step hcode, Nesting.step_begin hlevel]
    refine agrees_of (Scan.settle_of_code (h₄.trans hcode)) ?_ ?_ ?_ (h₃ ▸ hnames)
    · rw [InMode, if_pos hlevel]
      exact Scan.coding_of_code (h₄.trans hcode)
    · rw [h₁]
      dsimp only
      omega
    · rw [h₂]
      dsimp only
      omega
  · obtain ⟨hmode, hsame⟩ := h.inside hlevel
    have hstay : s.settle.step U '\x7b' = s.settle := by
      rw [Scan.step, hmode]
      rfl
    rw [Nesting.step_inside (Nat.pos_of_ne_zero hlevel) (by decide) (by decide),
      (Scan.breaks_special (by decide)).step, hstay, hsame]
    exact h

theorem Agrees.end (h : Agrees m s) (hw : s.Within k) (hk : k + 1 < 2147483648) :
    Agrees (m.step fields (mark '\x7d')) (s.step U '\x7d') := by
  obtain ⟨hdepth, hdeepest, hnames⟩ := h.counters
  by_cases hlevel : m.level = 0
  · have hcode := h.code hlevel
    obtain ⟨h₁, h₂, h₃, h₄⟩ := Scan.read_end (U := U) (hw.settled (by omega)) hk
    rw [(Scan.breaks_special (by decide)).step, Scan.Coding.step hcode, Nesting.step_end hlevel]
    refine agrees_of (Scan.settle_of_code (h₄.trans hcode)) ?_ ?_ (h₂ ▸ hdeepest) (h₃ ▸ hnames)
    · rw [InMode, if_pos hlevel]
      exact Scan.coding_of_code (h₄.trans hcode)
    · rw [h₁]
      dsimp only
      omega
  · obtain ⟨hmode, hsame⟩ := h.inside hlevel
    have hstay : s.settle.step U '\x7d' = s.settle := by
      rw [Scan.step, hmode]
      rfl
    rw [Nesting.step_inside (Nat.pos_of_ne_zero hlevel) (by decide) (by decide),
      (Scan.breaks_special (by decide)).step, hstay, hsame]
    exact h

theorem Agrees.open (h : Agrees m s) (hw : s.Within k) (hk : k + 1 < 2147483648) :
    Agrees (m.step fields (mark '(')) (s.step U '(') := by
  obtain ⟨hdepth, hdeepest, hnames⟩ := h.counters
  rw [(Scan.breaks_special (by decide)).step, Nesting.step_open]
  by_cases hlevel : m.level = 0
  · rw [Scan.Coding.step (h.code hlevel)]
    refine agrees_of rfl ?_ hdepth hdeepest hnames
    dsimp only
    rw [hlevel]
    exact (if_neg Nat.one_ne_zero).mpr rfl
  · obtain ⟨hmode, -⟩ := h.inside hlevel
    have hle := ((hw.settled (by omega)).parens _ _ hmode).2
    have hup : wrap ((m.level : Int) + 1) = (m.level : Int) + 1 := wrap_eq (by omega) (by omega)
    rw [Scan.step, hmode]
    dsimp only
    rw [if_neg (by decide), if_neg Bool.false_ne_true, if_pos rfl, hup]
    refine agrees_of rfl ?_ hdepth hdeepest hnames
    rw [InMode, if_neg (Nat.succ_ne_zero _)]
    rfl

theorem Agrees.close (h : Agrees m s) (hw : s.Within k) (hk : k + 1 < 2147483648) :
    Agrees (m.step fields (mark ')')) (s.step U ')') := by
  obtain ⟨hdepth, hdeepest, hnames⟩ := h.counters
  rw [(Scan.breaks_special (by decide)).step, Nesting.step_close]
  by_cases hlevel : m.level = 0
  · have hcode := h.code hlevel
    rw [Scan.Coding.step hcode]
    refine agrees_of (Scan.settle_of_code hcode) ?_ hdepth hdeepest hnames
    dsimp only
    rw [hlevel]
    exact Scan.coding_of_code hcode
  · obtain ⟨hmode, -⟩ := h.inside hlevel
    have hle := ((hw.settled (by omega)).parens _ _ hmode).2
    have hdown : wrap ((m.level : Int) - 1) = (m.level : Int) - 1 := wrap_eq (by omega) (by omega)
    rw [Scan.step, hmode]
    dsimp only
    rw [if_neg (by decide), if_neg Bool.false_ne_true, if_neg (by decide), if_pos rfl, hdown]
    split_ifs with hlast
    · refine agrees_of rfl ?_ hdepth hdeepest hnames
      dsimp only
      rw [InMode, if_pos (by omega)]
      exact Scan.coding_of_code rfl
    · refine agrees_of rfl ?_ hdepth hdeepest hnames
      dsimp only
      rw [InMode, if_neg (by omega), Int.natCast_sub (by omega)]
      rfl

/-- A name is counted, unless it is a keyword or stands in parentheses. -/
theorem Agrees.name (h : Agrees m s) {n : Text} (hloose : s.Loose U (c :: n)) (hw : s.Within k)
    (hk : k + (c :: n).length < 2147483648) (hc : nameStart c = true)
    (hn : ∀ d ∈ n, nameChar d = true) :
    Agrees (m.step counted (.name (c :: n))) (s.feed U (c :: n)) := by
  have hplain : ∀ d ∈ c :: n, d ∉ Scan.special := List.forall_mem_cons.mpr
    ⟨nameChar_plain (nameStart_nameChar hc), fun d hd => nameChar_plain (hn d hd)⟩
  by_cases hlevel : m.level = 0
  · obtain ⟨hdepth, hdeepest, hnames⟩ := h.counters
    have hcount := (hw.settled (by omega)).fieldCount
    have hzero : s.settle.pending = 0 := by rw [Scan.pending, h.code hlevel]
    rw [hzero] at hcount
    rw [List.length_cons] at hk
    have hup : wrap (s.settle.fieldCount + 1) = s.settle.fieldCount + 1 :=
      wrap_eq (by omega) (by omega)
    rw [hloose.feed (List.cons_ne_nil c n), feed_name (h.code hlevel) hc hn, Nesting.step]
    generalize hr : ({ s.settle with mode := .identifier (c :: n) } : Scan) = r
    have hsettle : r.settle = r.endIdentifier (c :: n) := by rw [← hr]; rfl
    have hfields : r.fieldCount = s.settle.fieldCount := by rw [← hr]
    obtain ⟨hd, hmax, hmode⟩ := r.endIdentifier_other (c :: n)
    have hrest : ∀ p : Nesting, p.level = 0 → p.depth = m.depth → p.deepest = m.deepest →
        (p.names : Int) ≤ (r.endIdentifier (c :: n)).fieldCount → Agrees p r := by
      intro p hp₁ hp₂ hp₃ hp₄
      unfold Agrees
      rw [hsettle]
      refine ⟨?_, ?_, ?_, hp₄⟩
      · rw [hp₁]
        exact Scan.coding_of_code hmode
      · rw [hd, hp₂, ← hr, if_pos hp₁]
        exact (Int.add_zero _).trans_le hdepth
      · rw [hmax, hp₃, ← hr]
        exact hdeepest
    by_cases hcounted : counted (c :: n) = true
    · rw [if_pos ⟨hlevel, hcounted⟩]
      refine hrest _ hlevel rfl rfl ?_
      rw [Scan.endIdentifier_counted hcounted, hfields, hup]
      dsimp only
      omega
    · rw [if_neg fun hboth => hcounted hboth.2]
      refine hrest m hlevel rfl rfl ?_
      rw [Scan.endIdentifier_keyword hcounted, hfields]
      exact hnames
  · have hstay : m.step counted (.name (c :: n)) = m := if_neg fun hboth => hlevel hboth.1
    rw [hstay]
    exact h.feed hloose hw hk (neutral_plain hplain)

/-- In parentheses a text without quotes and parentheses is skipped. -/
theorem feed_inside {n : Int} (hmode : s.mode = .arguments n false)
    (h : ∀ c ∈ t, c ∉ Scan.special) : s.feed U t = s := by
  induction t with
  | nil => rfl
  | cons c t ih =>
      obtain ⟨hc, ht⟩ := List.forall_mem_cons.mp h
      have hne : ∀ d ∈ Scan.special, ¬c = d := fun d hd heq => hc (heq ▸ hd)
      have hstep : s.step U c = s := by
        rw [Scan.step, hmode]
        dsimp only
        rw [if_neg (hne _ (by decide)), if_neg Bool.false_ne_true, if_neg (hne _ (by decide)),
          if_neg (hne _ (by decide))]
      rw [Scan.feed, List.foldl_cons, hstep]
      exact ih ht

/-- The three dots are read as one. -/
theorem loose_spread (h : Agrees m s) (hloose : s.Loose U "...".toList) (t : Text) :
    (s.feed U "...".toList).Loose U t := by
  rw [hloose.feed (by decide)]
  refine loose_settled ?_ t
  by_cases hlevel : m.level = 0
  · have hdots : s.settle.feed U "...".toList =
        { s.settle with
          fragmentCount := wrap (s.settle.fragmentCount + 1)
          prevWasColon := false
          mode := .code } := by
      have hcode := h.code hlevel
      generalize s.settle = r at hcode ⊢
      obtain ⟨depth, maxDepth, complexity, fieldCount, aliasCount, fragmentCount, colon, mode⟩ := r
      obtain rfl : mode = .code := hcode
      rfl
    rw [hdots]
    rfl
  · rw [feed_inside (h.inside hlevel).1 (by decide), s.settle_settle]

/-- An identifier ends where the name does. -/
theorem loose_name (h : Agrees m s) {n : Text} (hloose : s.Loose U (c :: n))
    (hc : nameStart c = true) (hn : ∀ d ∈ n, nameChar d = true)
    (hends : ∀ d, t.head? = some d → U.isAlphanumeric d = false ∧ d ≠ '_') :
    (s.feed U (c :: n)).Loose U t := by
  rw [hloose.feed (List.cons_ne_nil c n)]
  by_cases hlevel : m.level = 0
  · rw [feed_name (h.code hlevel) hc hn]
    intro d hd
    obtain ⟨halnum, hunder⟩ := hends d hd
    have hcode : Scan.Coding { s.settle with mode := .identifier (c :: n) } :=
      (Scan.endIdentifier_other _ _).2.2
    rw [hcode.step]
    exact if_neg (not_or.mpr ⟨by rw [halnum]; decide, hunder⟩)
  · have hplain : ∀ d ∈ c :: n, d ∉ Scan.special := List.forall_mem_cons.mpr
      ⟨nameChar_plain (nameStart_nameChar hc), fun d hd => nameChar_plain (hn d hd)⟩
    rw [feed_inside (h.inside hlevel).1 hplain]
    exact loose_settled s.settle_settle t

theorem plain_number {d : Char} (h : nameChar d = true ∨ d = '.' ∨ d = '+' ∨ d = '-') :
    d ∉ Scan.special := by
  rcases h with h | rfl | rfl | rfl
  · exact nameChar_plain h
  · decide
  · decide
  · decide

/-- **An element is passed**, and what follows it goes on with nothing. -/
theorem Agrees.element (hU : BlanksApart U) (h : Agrees m s) (hloose : s.Loose U t) {e : Element}
    {es : List Element} (hnext : GraphQL.next t = some (e, rest)) (hlexes : Lexes rest es)
    (hw : s.Within k) (hk : k + e.text.length < 2147483648) (he : harmless e = true) :
    Agrees (m.step counted e) (s.feed U e.text) ∧ (s.feed U e.text).Loose U rest := by
  have hends := fun d hd => GraphQL.next_ends (d := d) hnext hd
  obtain ⟨rfl, hshape⟩ := GraphQL.next_eq_some hnext
  have hfirst : s.Loose U e.text := by
    intro c hc
    refine hloose c ?_
    rw [List.head?_append, hc]
    rfl
  cases hshape with
  | @ignored c hc =>
      have hbreaks := hU.breaks hc
      have hplain : c ∉ Scan.special := fun hin => by
        have hnone : ∀ d ∈ Scan.special, ignorable d = false := by decide
        exact absurd ((hnone c hin).symm.trans hc) Bool.false_ne_true
      exact ⟨h.feed hfirst hw hk (neutral_plain (List.forall_mem_singleton.mpr hplain)),
        hbreaks.loose s rest⟩
  | @comment body hbody =>
      refine ⟨h.feed hfirst hw hk he, loose_of_head (fun c hc => ?_) _⟩
      exact hU.breaks (by
        unfold ignorable
        rw [(hends c hc : lineEnd c = true), Bool.or_true, Bool.true_or, Bool.true_or])
  | @punctuator c hc =>
      refine ⟨?_, (breaks_punctuator hc).loose s rest⟩
      rw [Element.text, List.length_singleton] at hk
      by_cases hspecial : c ∈ Scan.special
      · simp only [Scan.special, List.mem_cons, List.not_mem_nil, or_false] at hspecial
        rcases hspecial with rfl | rfl | rfl | rfl | rfl
        · exact absurd hc (by decide)
        · exact h.begin hw hk
        · exact h.end hw hk
        · exact h.open hw hk
        · exact h.close hw hk
      · have hother : m.step counted (mark c) = m := Nesting.step_other fun hin =>
          hspecial (List.mem_cons_of_mem _ (by
            simp only [List.mem_cons, List.not_mem_nil, or_false] at hin ⊢
            tauto))
        have hstep := h.feed hfirst hw hk (neutral_plain (List.forall_mem_singleton.mpr hspecial))
        rwa [← hother] at hstep
  | spread =>
      have hother : m.step counted GraphQL.ellipsis = m := GraphQL.step_ellipsis m
      have hstep := h.feed hfirst hw hk (neutral_plain (by decide))
      rw [← hother] at hstep
      exact ⟨hstep, loose_spread h hfirst rest⟩
  | @name c n hc hn =>
      exact ⟨h.name hfirst hw hk hc hn,
        loose_name h hfirst hc hn fun _ hd => hU.ends hlexes (fun d hd => hends d hd) hd⟩
  | @number c n hc hn =>
      have hplain : ∀ d ∈ c :: n, d ∉ Scan.special := by
        refine List.forall_mem_cons.mpr ⟨?_, fun d hd => plain_number (hn d hd)⟩
        rcases hc with rfl | hdigit
        · decide
        · exact nameChar_plain (by
            rw [nameChar, Char.isAlphanum, hdigit, Bool.or_true, Bool.true_or])
      refine ⟨h.feed hfirst hw hk (neutral_plain hplain), loose_of_head (fun d hd => ?_) _⟩
      obtain ⟨halnum, hunder⟩ := hU.ends hlexes (fun d hd => (hends d hd).1) hd
      exact ⟨halnum, hunder, (hends d hd).2⟩
  | @string t hlast =>
      obtain ⟨u, rfl⟩ := List.getLast?_eq_some_iff.mp hlast
      refine ⟨h.feed hfirst hw hk he, ?_⟩
      rw [Element.text, ← List.cons_append, feed_concat]
      exact (Scan.breaks_special (by decide)).loose _ rest

/-- **No count is lost in a text** whose comments and strings are neutral. -/
theorem Agrees.elements (hU : BlanksApart U) {es : List Element} (hlexes : Lexes t es)
    (h : Agrees m s) (hloose : s.Loose U t) (hw : s.Within k) (hk : k + t.length < 2147483648)
    (he : ∀ e ∈ es, harmless e = true) : Agrees (m.run counted es) (s.feed U t) := by
  induction hlexes generalizing m s k with
  | nil => exact h
  | @cons t rest e es hnext hrest ih =>
      obtain ⟨hfirst, hothers⟩ := List.forall_mem_cons.mp he
      obtain ⟨rfl, -⟩ := GraphQL.next_eq_some hnext
      rw [List.length_append, Int.natCast_add] at hk
      obtain ⟨hagrees, hnextLoose⟩ :=
        h.element hU hloose hnext hrest hw (by omega) hfirst
      have hfeed : s.feed U (e.text ++ rest) = (s.feed U e.text).feed U rest := List.foldl_append
      rw [hfeed]
      exact ih hagrees hnextLoose (hw.feed e.text (by omega)) (by omega) hothers

/-- White space at the end counts nothing. -/
theorem feed_blanks (hU : BlanksApart U) (h : ∀ c ∈ t, Rust.isWhitespace c = true) (s : Scan) :
    Scan.Keeps s.settle (s.feed U t).settle := by
  induction t generalizing s with
  | nil => exact ⟨rfl, rfl, rfl⟩
  | cons c t ih =>
      obtain ⟨hc, ht⟩ := List.forall_mem_cons.mp h
      have hbreaks : Scan.Breaks U c := by
        refine ⟨hU.whitespace c hc, ?_, ?_⟩
        · rintro rfl
          cases hc
        · rintro rfl
          cases hc
      have hplain : c ∉ Scan.special := fun hin => by
        have hnone : ∀ d ∈ Scan.special, Rust.isWhitespace d = false := by decide
        exact absurd ((hnone c hin).symm.trans hc) Bool.false_ne_true
      have hstep : Scan.Keeps s.settle (s.step U c).settle := by
        rw [hbreaks.settled, hbreaks.step]
        have hne : ∀ d ∈ Scan.special, ¬c = d := fun d hd heq => hplain (heq ▸ hd)
        rcases s.settle_mode with hcode | ⟨hsame, hmode | ⟨n, q, hmode⟩⟩
        · rw [Scan.Coding.step hcode]
          exact (Scan.read_other hcode hplain).2
        · rw [hsame, Scan.step, hmode]
          dsimp only
          rw [if_neg (hne _ (by decide))]
          exact ⟨rfl, rfl, rfl⟩
        · rw [hsame, Scan.step, hmode]
          dsimp only
          rw [if_neg (hne _ (by decide)), if_neg (hne _ (by decide)), if_neg (hne _ (by decide)),
            ite_self]
          exact ⟨rfl, rfl, rfl⟩
      have hrest := ih ht (s.step U c)
      exact ⟨hrest.depth.trans hstep.depth, hrest.maxDepth.trans hstep.maxDepth,
        hrest.fieldCount.trans hstep.fieldCount⟩

end Elements

/-! ### The analysis of a document -/

/-- The comments, the strings and the fields of a document are harmless: what is quoted or commented
is neutral, no brace stands in it before the first selection or object, and each field has a name or
an alias that is no keyword. -/
structure Readable (q : Source) (fs : List Field) : Prop where
  short : q.text.length < 2147483648
  harmless : ∀ e ∈ q.elements, harmless e = true
  header : ∀ e ∈ q.elements.takeWhile (· != mark '\x7b'), '\x7b' ∉ e.text
  named : ∀ f ∈ fs, f.Counted counted

section Analysis

variable {U : Rust.UnicodeTables} {q : Source} {d : Nat} {fs : List Field}

/-- A document has a brace. -/
theorem mem_of_document {ts : List Element} (h : Document ts d fs) : mark '\x7b' ∈ ts := by
  cases h with
  | last => exact List.mem_append_right _ List.mem_cons_self
  | cons => exact List.mem_append_right _ List.mem_cons_self

theorem not_mem_takeWhile {α : Type*} [BEq α] [LawfulBEq α] (a : α) (l : List α) :
    a ∉ l.takeWhile (· != a) := fun h =>
  absurd (List.mem_takeWhile_imp (p := fun x => x != a) h) (by rw [bne_self_eq_false]; decide)

/-- A list to the first occurrence of an element. -/
theorem split_first {α : Type*} [BEq α] [LawfulBEq α] {a : α} {l : List α} (h : a ∈ l) :
    ∃ r, l = l.takeWhile (· != a) ++ a :: r := by
  cases hdrop : l.dropWhile (· != a) with
  | nil =>
      have hall := List.dropWhile_eq_nil_iff.mp hdrop a h
      rw [bne_self_eq_false] at hall
      cases hall
  | cons b r =>
      obtain rfl : b = a := by
        have hnot := List.head?_dropWhile_not (fun x => x != a) l
        rw [hdrop] at hnot
        exact bne_eq_false_iff_eq.mp hnot
      exact ⟨r, by rw [← hdrop, List.takeWhile_append_dropWhile]⟩

theorem dropWhile_first {α : Type*} [BEq α] [LawfulBEq α] {a : α} {l : List α} (h : a ∉ l)
    (r : List α) : (l ++ a :: r).dropWhile (· != a) = a :: r := by
  have hall : ∀ b ∈ l, (b != a) = true := fun b hb =>
    bne_iff_ne.mpr fun heq => h (heq ▸ hb)
  rw [List.dropWhile_append_of_pos hall, List.dropWhile_cons_of_neg]
  rw [bne_self_eq_false]
  decide

/-- What is read of a document, with the white space behind it. -/
theorem body_split (hdoc : Document (tokens q.elements) d fs) (hq : Readable q fs) :
    ∃ before after blanks,
      tokens q.elements = before ++ mark '\x7b' :: tokens after ∧ mark '\x7b' ∉ before ∧
        (∀ e ∈ after, e ∈ q.elements) ∧
        Lexes (stripOperationHeader (Rust.trim q.text) ++ blanks) (mark '\x7b' :: after) ∧
        (∀ c ∈ blanks, Rust.isWhitespace c = true) ∧
        (stripOperationHeader (Rust.trim q.text) ++ blanks).length ≤ q.text.length := by
  have hmem : mark '\x7b' ∈ q.elements := (List.mem_filter.mp (mem_of_document hdoc)).1
  obtain ⟨after, helements⟩ := split_first hmem
  have hlexes := q.lexes
  rw [helements] at hlexes
  obtain ⟨u, htext, hu⟩ := hlexes.drop
  obtain ⟨u, rfl⟩ : ∃ v, u = '\x7b' :: v := by
    cases hu with
    | cons h _ => exact ⟨_, (GraphQL.next_eq_some h).1⟩
  have hheader : '\x7b' ∉
      (q.elements.takeWhile (· != mark '\x7b')).flatMap Element.text := fun hin => by
    obtain ⟨e, he, hc⟩ := List.mem_flatMap.mp hin
    exact hq.header e he hc
  obtain ⟨b₁, a₁, hfirst, hblank₁⟩ := trim_split q.text
  obtain ⟨b₂, a₂, hsecond, hblank₂⟩ := trim_split (Rust.trim q.text)
  have hnot : ∀ {x : Text}, (∀ c ∈ x, Rust.isWhitespace c = true) → '\x7b' ∉ x := fun hx hin =>
    absurd (hx _ hin) (by decide)
  have hbrace : '\x7b' ∈ Rust.trim (Rust.trim q.text) := by
    have hin : '\x7b' ∈ q.text := htext ▸ List.mem_append_right _ List.mem_cons_self
    rw [hfirst, hsecond] at hin
    simp only [List.mem_append] at hin
    rcases hin with (hin | (hin | hin) | hin) | hin
    · exact absurd (List.mem_append_left a₁ hin) (hnot hblank₁)
    · exact absurd (List.mem_append_left a₂ hin) (hnot hblank₂)
    · exact hin
    · exact absurd (List.mem_append_right b₂ hin) (hnot hblank₂)
    · exact absurd (List.mem_append_right b₁ hin) (hnot hblank₁)
  obtain ⟨body, hbody⟩ := split_first hbrace
  have hstrip : stripOperationHeader (Rust.trim q.text) = '\x7b' :: body := by
    unfold stripOperationHeader
    dsimp only
    rw [if_pos hbrace, hbody]
    exact dropWhile_first (not_mem_takeWhile _ _) body
  have hrest : '\x7b' :: u = '\x7b' :: (body ++ (a₂ ++ a₁)) := by
    have hleft := dropWhile_first hheader u
    have hbefore : '\x7b' ∉
        b₁ ++ (b₂ ++ (Rust.trim (Rust.trim q.text)).takeWhile (· != '\x7b')) := by
      simp only [List.mem_append, not_or]
      exact ⟨fun hin => hnot hblank₁ (List.mem_append_left a₁ hin),
        fun hin => hnot hblank₂ (List.mem_append_left a₂ hin), not_mem_takeWhile _ _⟩
    have hright := dropWhile_first hbefore (body ++ (a₂ ++ a₁))
    have hwhole : q.text = b₁ ++ (b₂ ++ (Rust.trim (Rust.trim q.text)).takeWhile (· != '\x7b')) ++
        '\x7b' :: (body ++ (a₂ ++ a₁)) := by
      conv_lhs => rw [hfirst, hsecond, hbody]
      simp only [List.append_assoc, List.cons_append]
    rw [← htext] at hleft
    rw [← hwhole] at hright
    exact hleft.symm.trans hright
  refine ⟨tokens (q.elements.takeWhile (· != mark '\x7b')), after, a₂ ++ a₁, ?_, ?_, ?_, ?_, ?_, ?_⟩
  · conv_lhs => rw [helements]
    rw [tokens, List.filter_append]
    rfl
  · exact fun hin => not_mem_takeWhile _ _ (List.mem_filter.mp hin).1
  · intro e he
    rw [helements]
    exact List.mem_append_right _ (List.mem_cons_of_mem _ he)
  · rw [hstrip, List.cons_append, ← hrest]
    exact hu
  · intro c hc
    rcases List.mem_append.mp hc with hc | hc
    · exact hblank₂ c (List.mem_append_right b₂ hc)
    · exact hblank₁ c (List.mem_append_right b₁ hc)
  · rw [hstrip, List.cons_append, ← hrest, htext, List.length_append]
    exact Nat.le_add_left _ _

/-- **The analysis covers the document**: neither the depth nor the number of fields it reports is
too small, if comments, strings and fields are harmless. -/
theorem analysis_covers (hU : BlanksApart U) (sha256 : List UInt8 → List UInt8)
    (hdoc : Document (tokens q.elements) d fs) (hq : Readable q fs) :
    (d : Int) ≤ (analyze U sha256 q.text).depth ∧
      (fs.length : Int) ≤ (analyze U sha256 q.text).fieldCount := by
  obtain ⟨before, after, blanks, hsplit, hfirst, hmem, hlexes, hblanks, hlength⟩ :=
    body_split hdoc hq
  obtain ⟨hdeepest, hnames⟩ := hdoc.counts hq.named hsplit hfirst
  have htokens : Nesting.run counted .start (mark '\x7b' :: tokens after) =
      Nesting.run counted .start (mark '\x7b' :: after) :=
    Nesting.run_tokens .start (mark '\x7b' :: after)
  rw [htokens] at hdeepest hnames
  have hshort := hq.short
  have hstart : Agrees .start Scan.start :=
    ⟨rfl, le_refl _, le_refl _, le_refl _⟩
  have hagrees := hstart.elements hU hlexes (loose_settled rfl _) Scan.within_start (by omega)
    (List.forall_mem_cons.mpr ⟨rfl, fun e he => hq.harmless e (hmem e he)⟩)
  obtain ⟨-, hmax, hcount⟩ := hagrees.counters
  have hfed := Scan.within_start.feed (U := U) (stripOperationHeader (Rust.trim q.text) ++ blanks)
    (by omega)
  have hbound := (hfed.settled (by omega)).maxDepth.2
  have hfeed : Scan.start.feed U (stripOperationHeader (Rust.trim q.text) ++ blanks) =
      (Scan.start.feed U (stripOperationHeader (Rust.trim q.text))).feed U blanks :=
    List.foldl_append
  have hkeeps := feed_blanks hU hblanks
    (Scan.start.feed U (stripOperationHeader (Rust.trim q.text)))
  rw [hfeed, hkeeps.maxDepth] at hmax hbound
  rw [hfeed, hkeeps.fieldCount] at hcount
  have hne : ¬(Rust.trim q.text).isEmpty = true := by
    intro hempty
    rw [List.isEmpty_iff.mp hempty] at hlexes
    cases hlexes with
    | cons hnext hrest =>
        have hin : '\x7b' ∈ blanks := by
          have hbegins : [] ++ blanks = _ := (GraphQL.next_eq_some hnext).1
          rw [List.nil_append] at hbegins
          rw [hbegins]
          exact List.mem_cons_self
        exact absurd (hblanks _ hin) (by decide)
  unfold analyze
  dsimp only
  rw [if_neg hne]
  dsimp only [analyzeBody]
  rw [wrap_eq (by omega) (by omega)]
  constructor <;> omega

end Analysis

/-! ### A query of two fields -/

/-- A query of two fields, one in the other, with a string as an argument. -/
def nestedElements (argument : Text) : List Element :=
  [mark '\x7b', .ignored ' ', .name ['a'], mark '(', .name ['b'], mark ':', .ignored ' ',
    .string argument, mark ')', .ignored ' ', mark '\x7b', .ignored ' ', .name ['c'], .ignored ' ',
    mark '\x7d', .ignored ' ', mark '\x7d']

def nestedFields : List Field := [⟨none, ['a']⟩, ⟨none, ['c']⟩]

theorem nested_document (argument : Text) :
    Document (tokens (nestedElements argument)) 1 nestedFields :=
  .last .shorthand (List.cons_ne_nil _ _)
    (.nested ⟨none, ['a']⟩
      (.arguments (List.cons_ne_nil _ _)
        (.members ['b'] (.string false argument) (.noMembers false)))
      (.noDirectives false) (List.cons_ne_nil _ _)
      (.field ⟨none, ['c']⟩ (.noArguments false) (.noDirectives false) .nil) .nil)

theorem plain_lexes :
    Lexes "\x7b a(b: \"x\") \x7b c \x7d \x7d".toList (nestedElements "\"x\"".toList) :=
  .cons rfl (.cons rfl (.cons rfl (.cons rfl (.cons rfl (.cons rfl (.cons rfl (.cons rfl (.cons rfl
    (.cons rfl (.cons rfl (.cons rfl (.cons rfl (.cons rfl (.cons rfl (.cons rfl
      (.cons rfl .nil))))))))))))))))

theorem quote_lexes :
    Lexes "\x7b a(b: \"\\\"\") \x7b c \x7d \x7d".toList (nestedElements "\"\\\"\"".toList) :=
  .cons rfl (.cons rfl (.cons rfl (.cons rfl (.cons rfl (.cons rfl (.cons rfl (.cons rfl (.cons rfl
    (.cons rfl (.cons rfl (.cons rfl (.cons rfl (.cons rfl (.cons rfl (.cons rfl
      (.cons rfl .nil))))))))))))))))

def plainQuery : Source := ⟨_, _, plain_lexes⟩

/-- The argument is an escaped quote. -/
def quoteQuery : Source := ⟨_, _, quote_lexes⟩

theorem blanksApart_ascii : BlanksApart .ascii := by
  refine ⟨fun c hc => ?_, rfl⟩
  unfold Rust.UnicodeTables.isAlphanumeric
  split_ifs with hlt
  · exact ascii_forall (P := fun c => Rust.isWhitespace c = true → c.isAlphanum = false)
      (by decide +kernel) c hlt hc
  · rfl

theorem analysis_covers_plain :
    BlanksApart .ascii ∧ Document (tokens plainQuery.elements) 1 nestedFields ∧
      Readable plainQuery nestedFields ∧
      1 ≤ (analyze .ascii (fun _ => []) plainQuery.text).depth ∧
      2 ≤ (analyze .ascii (fun _ => []) plainQuery.text).fieldCount := by
  have hreadable : Readable plainQuery nestedFields := by
    refine ⟨by decide, by decide, by decide, ?_⟩
    exact List.forall_mem_cons.mpr ⟨.inl rfl, List.forall_mem_singleton.mpr (.inl rfl)⟩
  exact ⟨blanksApart_ascii, nested_document _, hreadable,
    analysis_covers blanksApart_ascii _ (nested_document _) hreadable⟩

/-- **An escaped quote hides the rest of a document**: the reader takes it for the end of the string
and what follows for another string. -/
theorem analysis_bypassed :
    Document (tokens quoteQuery.elements) 1 nestedFields ∧
      ¬1 ≤ (analyze .ascii (fun _ => []) quoteQuery.text).depth ∧
      ¬2 ≤ (analyze .ascii (fun _ => []) quoteQuery.text).fieldCount :=
  ⟨nested_document _, by decide, by decide⟩

end CorexManager.ApiArmor
