import CorexManager.HAProxy.Acl
import Mathlib.Data.List.Forall2
import Mathlib.Data.Nat.Bits

/-!
# Conditions

What follows `if` in a directive.  ACL names and anonymous ACLs (`{ … }`) stand
side by side to be ANDed, `or` and `||` separate alternatives and bind less
tightly, and `!` negates the one ACL it is written before.

* `readCondition` — the alternatives a text spells, each a list of terms.
* `View.holds` — their truth, given what a rule can see.
* `Spells` — the compositional judgement on texts: `Spells t front last` says
  that `t` spells the alternatives `front ++ [last]`.  Writing a term after `t`
  extends `last` and nothing else (`Spells.append`); that one fact decides what
  a guard appended to a condition protects.
-/

namespace HAProxy

open Data

/-- What a term tests: a declared ACL by name, or an anonymous one. -/
inductive Test where
  | named (name : Text)
  | anon (acl : Acl)
  deriving DecidableEq, Repr

/-- A possibly negated test. -/
structure Term where
  neg : Bool
  test : Test
  deriving DecidableEq, Repr

/-- A condition: alternatives, each a conjunction. -/
abbrev Alternatives := List (List Term)

/-- The reader of a condition: the alternatives finished, the one being read, the
parity of the exclamation marks before the next term, and the words since an
opening brace. -/
structure CondScan where
  front : Alternatives
  cur : List Term
  neg : Bool
  brace : Option (List Text)
  deriving DecidableEq, Repr

/-- Strip exclamation marks: their parity, and the rest of the word. -/
def bangs : Text → Bool × Text
  | '!' :: w => let r := bangs w; (!r.1, r.2)
  | w => (false, w)

/-- The words that separate alternatives. -/
def isOr (w : Text) : Bool := w.map Char.toLower == "or".toList || w == "||".toList

namespace CondScan

/-- Before the first word of a condition. -/
def start : CondScan := ⟨[], [], false, none⟩

/-- A complete test. -/
def add (s : CondScan) (t : Test) : CondScan :=
  ⟨s.front, s.cur ++ [⟨s.neg, t⟩], false, none⟩

/-- One word. -/
def step (s : CondScan) (w : Text) : Option CondScan :=
  match s.brace with
  | some ws =>
      if w = ['}'] then (parseAcl ws).map fun a => s.add (.anon a)
      else some { s with brace := some (ws ++ [w]) }
  | none =>
      let (flip, w) := bangs w
      let neg := xor s.neg flip
      if w = [] then some { s with neg := neg }
      else if isOr w then some ⟨s.front ++ [s.cur], [], false, none⟩
      else if w = ['{'] then some { s with neg := neg, brace := some [] }
      else some ({ s with neg := neg }.add (.named w))

/-- The alternatives read when the condition ends here; an alternative without
terms is not one. -/
def finish (s : CondScan) : Option Alternatives :=
  match s.brace with
  | none => some ((s.front ++ [s.cur]).filter fun g => !g.isEmpty)
  | some _ => none

end CondScan

/-- Read the words of a condition; an empty word ends them. -/
def parseCondition (ws : List Text) : Option Alternatives :=
  ((ws.takeWhile fun w => !w.isEmpty).foldlM CondScan.step .start).bind CondScan.finish

/-- Read the text of a condition. -/
def readCondition (expand : Text → Text) (t : Text) : Option Alternatives :=
  (words expand t).bind parseCondition

/-- What a condition can see: samples, and the truth of the declared ACLs. -/
structure View where
  engine : Engine
  samples : Text → List Sample
  named : Text → Bool

namespace View

/-- The truth of one term. -/
def term (v : View) (t : Term) : Bool :=
  xor t.neg <| match t.test with
    | .named n => v.named n
    | .anon a => a.eval v.engine v.samples

/-- The truth of one alternative. -/
def group (v : View) (g : List Term) : Bool := g.all v.term

/-- The truth of a condition. -/
def eval (v : View) (alts : Alternatives) : Bool := alts.any v.group

/-- The truth of a text used as a condition; a text HAProxy refuses has none. -/
def holds (v : View) (t : Text) : Option Bool :=
  (readCondition v.engine.expand t).map v.eval

theorem group_append (v : View) (g h : List Term) :
    v.group (g ++ h) = (v.group g && v.group h) := List.all_append

theorem group_singleton (v : View) (t : Term) : v.group [t] = v.term t := by
  simp [group]

end View

/-- Named ACLs: several lines of one name are alternatives. -/
def declared (E : Engine) (samples : Text → List Sample) (acls : List (Text × Acl))
    (name : Text) : Bool :=
  acls.any fun a => a.1 == name && a.2.eval E samples

/-! ### Reading words as terms -/

/-- A leading exclamation mark is the parity it leaves in the state. -/
theorem CondScan.step_bang (front : Alternatives) (cur : List Term) (neg : Bool) (w : Text) :
    step ⟨front, cur, neg, none⟩ ('!' :: w) = step ⟨front, cur, !neg, none⟩ w := by
  have hbangs : bangs ('!' :: w) = (!(bangs w).1, (bangs w).2) := rfl
  simp only [step, hbangs, Bool.xor_not, Bool.not_xor]

/-- The words `ws` are the one term `t`, up to the exclamation marks before. -/
structure OneTerm (ws : List Text) (t : Term) : Prop where
  nonempty : ∀ w ∈ ws, w ≠ []
  run : ∀ front cur neg, ws.foldlM CondScan.step ⟨front, cur, neg, none⟩
    = some ⟨front, cur ++ [⟨xor neg t.neg, t.test⟩], false, none⟩

/-- The words `ws` add the terms `ts` to the alternative being read. -/
structure Terms (ws : List Text) (ts : List Term) : Prop where
  nonempty : ∀ w ∈ ws, w ≠ []
  run : ∀ front cur, ws.foldlM CondScan.step ⟨front, cur, false, none⟩
    = some ⟨front, cur ++ ts, false, none⟩

theorem OneTerm.terms {ws : List Text} {t : Term} (h : OneTerm ws t) : Terms ws [t] where
  nonempty := h.nonempty
  run front cur := by simpa using h.run front cur false

theorem Terms.append {ws vs : List Text} {ts us : List Term} (h : Terms ws ts)
    (k : Terms vs us) : Terms (ws ++ vs) (ts ++ us) where
  nonempty w hw := (List.mem_append.mp hw).elim (h.nonempty w) (k.nonempty w)
  run front cur := by
    rw [List.foldlM_append, h.run]
    simpa using k.run front (cur ++ ts)

/-- An exclamation mark glued to the first word negates the term. -/
theorem OneTerm.bang {w : Text} {ws : List Text} {t : Term} (h : OneTerm (w :: ws) t) :
    OneTerm (('!' :: w) :: ws) ⟨!t.neg, t.test⟩ where
  nonempty v hv := by
    rcases List.mem_cons.mp hv with rfl | hv
    · simp
    · exact h.nonempty v (List.mem_cons_of_mem _ hv)
  run front cur neg := by
    have hrun := h.run front cur (!neg)
    rw [List.foldlM_cons] at hrun ⊢
    rw [CondScan.step_bang, hrun]
    cases neg <;> simp

/-- The words inside braces are collected as they stand. -/
theorem foldlM_brace {inner : List Text} (h : ∀ w ∈ inner, w ≠ ['}'])
    (s : CondScan) (ws : List Text) :
    inner.foldlM CondScan.step { s with brace := some ws }
      = some { s with brace := some (ws ++ inner) } := by
  induction inner generalizing ws with
  | nil => simp
  | cons w inner ih =>
      have hw : w ≠ ['}'] := h w (by simp)
      have hstep : CondScan.step { s with brace := some ws } w
          = some { s with brace := some (ws ++ [w]) } := by
        simp only [CondScan.step, if_neg hw]
      rw [List.foldlM_cons, hstep]
      have htail := ih (fun x hx => h x (List.mem_cons_of_mem _ hx)) (ws ++ [w])
      simpa using htail

/-- An anonymous ACL is one term. -/
theorem OneTerm.anon {inner : List Text} {a : Acl} (hacl : parseAcl inner = some a)
    (hinner : ∀ w ∈ inner, w ≠ [] ∧ w ≠ ['}']) :
    OneTerm (['{'] :: (inner ++ [['}']])) ⟨false, .anon a⟩ where
  nonempty w hw := by
    rcases List.mem_cons.mp hw with rfl | hw
    · decide
    · rcases List.mem_append.mp hw with hw | hw
      · exact (hinner w hw).1
      · rw [List.mem_singleton.mp hw]; decide
  run front cur neg := by
    have hopen : CondScan.step ⟨front, cur, neg, none⟩ ['{']
        = some ⟨front, cur, neg, some []⟩ := by
      cases neg <;> rfl
    have hbody := foldlM_brace (fun w hw => (hinner w hw).2) ⟨front, cur, neg, none⟩ []
    have hclose : CondScan.step ⟨front, cur, neg, some inner⟩ ['}']
        = some ⟨front, cur ++ [⟨neg, .anon a⟩], false, none⟩ := by
      simp [CondScan.step, hacl, CondScan.add]
    rw [List.foldlM_cons, hopen]
    simp only [Option.bind_eq_bind, Option.bind_some]
    rw [List.foldlM_append, hbody]
    simpa using hclose

/-- The words that are not syntax: they name an ACL. -/
def isName (w : Text) : Bool :=
  w.head?.all (· != '!') && !w.isEmpty && !isOr w && w != ['{']

/-- A name is one term. -/
theorem OneTerm.named {w : Text} (h : isName w = true) : OneTerm [w] ⟨false, .named w⟩ := by
  simp only [isName, Bool.and_eq_true, Bool.not_eq_true', List.isEmpty_eq_false_iff,
    bne_iff_ne, ne_eq] at h
  obtain ⟨⟨⟨hbang, hne⟩, hor⟩, hbrace⟩ := h
  have hbangs : bangs w = (false, w) := by
    unfold bangs
    split
    · next w' => simp at hbang
    · rfl
  refine ⟨fun v hv => by rwa [List.mem_singleton.mp hv], fun front cur neg => ?_⟩
  have hstep : CondScan.step ⟨front, cur, neg, none⟩ w
      = some ⟨front, cur ++ [⟨neg, .named w⟩], false, none⟩ := by
    simp only [CondScan.step, hbangs, if_neg hne, hor, if_neg hbrace, CondScan.add]
    simp
  rw [List.foldlM_cons, hstep]
  simp

/-! ### Reading texts as conditions -/

/-- `t` spells the terms `ts`, side by side. -/
def SpellsTerms (t : Text) (ts : List Term) : Prop := ∃ ws, Reads t ws ∧ Terms ws ts

theorem SpellsTerms.append {t u : Text} {ts us : List Term} (h : SpellsTerms t ts)
    (k : SpellsTerms u us) : SpellsTerms (t ++ ' ' :: u) (ts ++ us) := by
  obtain ⟨ws, hread, hterms⟩ := h
  obtain ⟨vs, kread, kterms⟩ := k
  exact ⟨ws ++ vs, hread.append kread, hterms.append kterms⟩

theorem SpellsTerms.blankJoin {α : Type*} {text : α → Text} {terms : α → List Term}
    {xs : List α} (hne : xs ≠ []) (h : ∀ x ∈ xs, SpellsTerms (text x) (terms x)) :
    SpellsTerms (blankJoin (xs.map text)) (xs.flatMap terms) := by
  induction xs with
  | nil => exact absurd rfl hne
  | cons x xs ih =>
      rcases xs with _ | ⟨y, ys⟩
      · simpa using h x (by simp)
      · have hx := h x (by simp)
        have hxs := ih (by simp) (fun z hz => h z (List.mem_cons_of_mem _ hz))
        simpa using hx.append hxs

/-- A word that can be written between braces. -/
def Argument (w : Text) : Prop := w ≠ [] ∧ w ≠ ['}']

instance (w : Text) : Decidable (Argument w) :=
  inferInstanceAs (Decidable (w ≠ [] ∧ w ≠ ['}']))

theorem argument_int (n : Int) : Argument (intText n) := by
  refine ⟨intText_ne_nil n, fun heq => ?_⟩
  have hread := readInt_intText n
  rw [heq] at hread
  cases hread

/-- `t` is the text of the fetch `w`. -/
structure FetchText (t w : Text) : Prop where
  reads : Reads t [w]
  plain : derivedFetch w = (w, none)
  word : Argument w

/-- A fetch with arguments, written without blanks and quotes. -/
theorem FetchText.call {name args : Text} (hne : name ≠ []) (hname : '(' ∉ name)
    (hplain : derivedFetch name = (name, none)) (hbare : ∀ c ∈ name, bare c = true)
    (hargs : ∀ c ∈ args, bare c = true) :
    FetchText (name ++ '(' :: args) (name ++ '(' :: args) where
  reads := by
    refine (piece_bare (by simp) fun c hc => ?_).reads
    rcases List.mem_append.mp hc with hc | hc
    · exact hbare c hc
    · rcases List.mem_cons.mp hc with rfl | hc
      · decide
      · exact hargs c hc
  plain := derivedFetch_call hname hplain args
  word := by
    refine ⟨by simp, fun heq => ?_⟩
    have hlen := congrArg List.length heq
    have hpos := List.length_pos_iff.mpr hne
    simp only [List.length_append, List.length_cons, List.length_nil] at hlen
    omega

/-- The text `!…!{ inner }`, with `n` exclamation marks. -/
def anonText (n : Nat) (inner : Text) : Text :=
  List.replicate n '!' ++ (['{', ' '] ++ inner ++ [' ', '}'])

private theorem oneTerm_anonText (n : Nat) {ws : List Text} {a : Acl}
    (hacl : parseAcl ws = some a) (hws : ∀ w ∈ ws, Argument w) :
    OneTerm ((List.replicate n '!' ++ ['{']) :: (ws ++ [['}']])) ⟨n.bodd, .anon a⟩ := by
  induction n with
  | zero => exact OneTerm.anon hacl hws
  | succ n ih => simpa [List.replicate_succ] using ih.bang

/-- **The text of an anonymous ACL is one term**, negated by an odd number of
exclamation marks. -/
theorem spellsTerms_anonText (n : Nat) {inner : Text} {ws : List Text} {a : Acl}
    (hread : Reads inner ws) (hacl : parseAcl ws = some a)
    (hws : ∀ w ∈ ws, Argument w) :
    SpellsTerms (anonText n inner) [⟨n.bodd, .anon a⟩] := by
  have hopen : Reads (List.replicate n '!' ++ ['{']) [List.replicate n '!' ++ ['{']] := by
    refine (piece_bare (by simp) fun c hc => ?_).reads
    rcases List.mem_append.mp hc with hc | hc
    · rw [List.eq_of_mem_replicate hc]; decide
    · rw [List.mem_singleton.mp hc]; decide
  have hclose : Reads ['}'] [['}']] := (piece_bare (by decide) (by decide)).reads
  have hall := hopen.append (hread.append hclose)
  refine ⟨_, ?_, (oneTerm_anonText n hacl hws).terms⟩
  simpa [anonText] using hall

/-- **What a text tests**: `t` is one anonymous ACL with exclamation marks before it,
and its truth is `b`. -/
def Tests (v : View) (t : Text) (b : Bool) : Prop :=
  ∃ n inner ws a, t = anonText n inner ∧ Reads inner ws ∧ parseAcl ws = some a ∧
    (∀ w ∈ ws, Argument w) ∧ b = xor n.bodd (a.eval v.engine v.samples)

/-- An exclamation mark negates. -/
theorem Tests.bang {v : View} {t : Text} {b : Bool} (h : Tests v t b) :
    Tests v ('!' :: t) (!b) := by
  obtain ⟨n, inner, ws, a, rfl, hread, hacl, hws, rfl⟩ := h
  exact ⟨n + 1, inner, ws, a, rfl, hread, hacl, hws, by simp⟩

theorem Tests.spells {v : View} {t : Text} {b : Bool} (h : Tests v t b) :
    ∃ term, SpellsTerms t [term] ∧ v.term term = b := by
  obtain ⟨n, inner, ws, a, rfl, hread, hacl, hws, rfl⟩ := h
  exact ⟨_, spellsTerms_anonText n hread hacl hws, rfl⟩

/-! ### Tests on a fetch -/


section Shapes

variable {v : View} {t w : Text}

private theorem Tests.of_words {inner : Text} {ws : List Text} {a : Acl}
    (hread : Reads inner ws) (hacl : parseAcl ws = some a) (hws : ∀ x ∈ ws, Argument x) :
    Tests v (anonText 0 inner) (a.eval v.engine v.samples) :=
  ⟨0, inner, ws, a, rfl, hread, hacl, hws, by simp⟩

private theorem argument_flag : Argument "-m".toList ∧ Argument "-f".toList := by decide

private theorem argument_method (m : Method) : Argument m.name := by
  cases m <;> decide

theorem reads_methodName (m : Method) : Reads m.name [m.name] := by
  cases m <;> exact (piece_bare (by decide) (by decide)).reads

private theorem reads_flag_method : Reads "-m".toList ["-m".toList] :=
  (piece_bare (by decide) (by decide)).reads

private theorem reads_flag_file : Reads "-f".toList ["-f".toList] :=
  (piece_bare (by decide) (by decide)).reads

/-- `{ fetch }`. -/
theorem Tests.bare (hfetch : FetchText t w) :
    Tests v (anonText 0 t)
      ((v.samples w).any fun s => matchSample v.engine s.method false [] s) := by
  have hacl : parseAcl [w] = some { fetch := w } := parseAcl_default hfetch.plain (by simp)
  simpa [Acl.eval] using
    Tests.of_words (v := v) hfetch.reads hacl (by simpa using hfetch.word)

/-- `{ fetch patterns }`. -/
theorem Tests.default {args : Text} {pats : List Text} (hfetch : FetchText t w)
    (hargs : Reads args pats) (hfirst : ∀ p ∈ pats.head?, notFlag p = true)
    (hpats : ∀ p ∈ pats, Argument p) :
    Tests v (anonText 0 (t ++ ' ' :: args))
      ((v.samples w).any fun s => matchSample v.engine s.method false pats s) := by
  have hacl := parseAcl_default hfetch.plain hfirst
  have hws : ∀ x ∈ [w] ++ pats, Argument x := by
    intro x hx
    rcases List.mem_append.mp hx with hx | hx
    · rw [List.mem_singleton.mp hx]; exact hfetch.word
    · exact hpats x hx
  simpa [Acl.eval] using Tests.of_words (v := v) (hfetch.reads.append hargs) hacl hws

/-- `{ fetch -m method }`. -/
theorem Tests.method_alone (m : Method) (hfetch : FetchText t w) :
    Tests v (anonText 0 (t ++ ' ' :: ("-m".toList ++ ' ' :: m.name)))
      ((v.samples w).any (matchSample v.engine m false [])) := by
  have hacl : parseAcl [w, "-m".toList, m.name] = some { fetch := w, method := some m } :=
    parseAcl_method hfetch.plain (by simp)
  have hread := hfetch.reads.append (reads_flag_method.append (reads_methodName m))
  have hws : ∀ x ∈ [w] ++ (["-m".toList] ++ [m.name]), Argument x := by
    simpa using ⟨hfetch.word, argument_flag.1, argument_method m⟩
  simpa [Acl.eval] using Tests.of_words (v := v) hread hacl hws

/-- `{ fetch -m method patterns }`. -/
theorem Tests.method {args : Text} {pats : List Text} (m : Method) (hfetch : FetchText t w)
    (hargs : Reads args pats) (hfirst : ∀ p ∈ pats.head?, notFlag p = true)
    (hpats : ∀ p ∈ pats, Argument p) :
    Tests v (anonText 0 (t ++ ' ' :: ("-m".toList ++ ' ' :: (m.name ++ ' ' :: args))))
      ((v.samples w).any (matchSample v.engine m false pats)) := by
  have hacl := parseAcl_method (m := m) hfetch.plain hfirst
  have hread := hfetch.reads.append
    (reads_flag_method.append ((reads_methodName m).append hargs))
  have hws : ∀ x ∈ [w] ++ (["-m".toList] ++ ([m.name] ++ pats)), Argument x := by
    simpa using ⟨hfetch.word, argument_flag.1, argument_method m, hpats⟩
  simpa [Acl.eval] using Tests.of_words (v := v) hread hacl hws

/-- `{ fetch -f file }`. -/
theorem Tests.file {path : Text} (hfetch : FetchText t w) (hread : Reads path [path])
    (hpath : Argument path) :
    Tests v (anonText 0 (t ++ ' ' :: ("-f".toList ++ ' ' :: path)))
      ((v.samples w).any fun s =>
        matchSample v.engine s.method false (v.engine.file path) s) := by
  have hacl := parseAcl_file path hfetch.plain
  have hall := hfetch.reads.append (reads_flag_file.append hread)
  have hws : ∀ x ∈ [w] ++ (["-f".toList] ++ [path]), Argument x := by
    simpa using ⟨hfetch.word, argument_flag.2, hpath⟩
  simpa [Acl.eval] using Tests.of_words (v := v) hall hacl hws

/-- `{ fetch -m method -f file }`. -/
theorem Tests.method_file {path : Text} (m : Method) (hfetch : FetchText t w)
    (hread : Reads path [path]) (hpath : Argument path) :
    Tests v (anonText 0 (t ++ ' ' :: ("-m".toList ++ ' ' :: (m.name ++ ' ' ::
        ("-f".toList ++ ' ' :: path)))))
      ((v.samples w).any (matchSample v.engine m false (v.engine.file path))) := by
  have hacl := parseAcl_method_file m path hfetch.plain
  have hall := hfetch.reads.append (reads_flag_method.append
    ((reads_methodName m).append (reads_flag_file.append hread)))
  have hws : ∀ x ∈ [w] ++ (["-m".toList] ++ ([m.name] ++ (["-f".toList] ++ [path]))),
      Argument x := by
    simpa using ⟨hfetch.word, argument_flag.1, argument_method m, argument_flag.2, hpath⟩
  simpa [Acl.eval] using Tests.of_words (v := v) hall hacl hws

end Shapes

/-! ### Alternatives -/

/-- The state after the alternatives `front ++ [last]`, begun in the middle of the
alternative `cur`. -/
def CondScan.extend (before : Alternatives) (cur : List Term) :
    Alternatives → List Term → CondScan
  | [], last => ⟨before, cur ++ last, false, none⟩
  | first :: front, last => ⟨before ++ (cur ++ first) :: front, last, false, none⟩

/-- `t` spells the alternatives `front ++ [last]`. -/
def Spells (t : Text) (front : Alternatives) (last : List Term) : Prop :=
  ∃ ws, Reads t ws ∧ (∀ w ∈ ws, w ≠ []) ∧ ∀ before cur,
    ws.foldlM CondScan.step ⟨before, cur, false, none⟩
      = some (CondScan.extend before cur front last)

theorem SpellsTerms.spells {t : Text} {ts : List Term} (h : SpellsTerms t ts) :
    Spells t [] ts := by
  obtain ⟨ws, hread, hterms⟩ := h
  exact ⟨ws, hread, hterms.nonempty, hterms.run⟩

/-- **Juxtaposition binds tighter than `or`**: terms written after a condition
join its last alternative and no other. -/
theorem Spells.append {t u : Text} {front : Alternatives} {last ts : List Term}
    (h : Spells t front last) (k : SpellsTerms u ts) :
    Spells (t ++ ' ' :: u) front (last ++ ts) := by
  obtain ⟨ws, hread, hne, hrun⟩ := h
  obtain ⟨vs, kread, kterms⟩ := k
  refine ⟨ws ++ vs, hread.append kread, ?_, fun before cur => ?_⟩
  · intro w hw
    exact (List.mem_append.mp hw).elim (hne w) (kterms.nonempty w)
  · rw [List.foldlM_append, hrun]
    cases front with
    | nil => simpa [CondScan.extend] using kterms.run before (cur ++ last)
    | cons first front =>
        simpa [CondScan.extend] using kterms.run (before ++ (cur ++ first) :: front) last

/-- What terms written before a condition make of its alternatives. -/
def guardFirst (ts : List Term) : Alternatives → List Term → Alternatives × List Term
  | [], last => ([], ts ++ last)
  | first :: front, last => ((ts ++ first) :: front, last)

/-- Terms written before a condition join its first alternative and no other. -/
theorem SpellsTerms.append_spells {t u : Text} {front : Alternatives} {last ts : List Term}
    (k : SpellsTerms u ts) (h : Spells t front last) :
    Spells (u ++ ' ' :: t) (guardFirst ts front last).1 (guardFirst ts front last).2 := by
  obtain ⟨ws, hread, hne, hrun⟩ := h
  obtain ⟨vs, kread, kterms⟩ := k
  refine ⟨vs ++ ws, kread.append hread, ?_, fun before cur => ?_⟩
  · intro w hw
    exact (List.mem_append.mp hw).elim (kterms.nonempty w) (hne w)
  · rw [List.foldlM_append, kterms.run]
    cases front with
    | nil => simpa [CondScan.extend, guardFirst] using hrun before (cur ++ ts)
    | cons first front => simpa [CondScan.extend, guardFirst] using hrun before (cur ++ ts)

/-- A word that separates alternatives. -/
structure Separator (sep : Text) : Prop where
  reads : Reads sep [sep]
  nonempty : sep ≠ []
  step : ∀ front cur, CondScan.step ⟨front, cur, false, none⟩ sep
    = some ⟨front ++ [cur], [], false, none⟩

theorem separator_or : Separator "or".toList where
  reads := (piece_bare (by decide) (by decide)).reads
  nonempty := by decide
  step _ _ := rfl

theorem separator_pipes : Separator "||".toList where
  reads := (piece_bare (by decide) (by decide)).reads
  nonempty := by decide
  step _ _ := rfl

/-- Two conditions with a separator between them. -/
theorem SpellsTerms.or_spells {sep t u : Text} {ts last : List Term} {front : Alternatives}
    (h : SpellsTerms t ts) (hsep : Separator sep) (k : Spells u front last) :
    Spells (t ++ ' ' :: (sep ++ ' ' :: u)) (ts :: front) last := by
  obtain ⟨ws, hread, hterms⟩ := h
  obtain ⟨vs, kread, kne, krun⟩ := k
  refine ⟨ws ++ ([sep] ++ vs), hread.append (hsep.reads.append kread), ?_,
    fun before cur => ?_⟩
  · intro w hw
    simp only [List.mem_append, List.mem_singleton] at hw
    rcases hw with hw | rfl | hw
    · exact hterms.nonempty w hw
    · exact hsep.nonempty
    · exact kne w hw
  · rw [List.foldlM_append, hterms.run]
    simp only [List.singleton_append, Option.bind_eq_bind, Option.bind_some,
      List.foldlM_cons, hsep.step]
    rw [krun]
    cases front with
    | nil => simp [CondScan.extend]
    | cons first front => simp [CondScan.extend]

/-- Terms after a separator are an alternative of their own. -/
theorem Spells.or_terms {sep t u : Text} {front : Alternatives} {last ts : List Term}
    (h : Spells t front last) (hsep : Separator sep) (k : SpellsTerms u ts) :
    Spells (t ++ ' ' :: (sep ++ ' ' :: u)) (front ++ [last]) ts := by
  obtain ⟨ws, hread, hne, hrun⟩ := h
  obtain ⟨vs, kread, kterms⟩ := k
  refine ⟨ws ++ ([sep] ++ vs), hread.append (hsep.reads.append kread), ?_,
    fun before cur => ?_⟩
  · intro w hw
    simp only [List.mem_append, List.mem_singleton] at hw
    rcases hw with hw | rfl | hw
    · exact hne w hw
    · exact hsep.nonempty
    · exact kterms.nonempty w hw
  · rw [List.foldlM_append, hrun]
    cases front with
    | nil =>
        simp only [CondScan.extend, List.singleton_append, Option.bind_eq_bind,
          Option.bind_some, List.foldlM_cons, hsep.step, kterms.run]
        simp
    | cons first front =>
        simp only [CondScan.extend, List.singleton_append, Option.bind_eq_bind,
          Option.bind_some, List.foldlM_cons, hsep.step, kterms.run]
        simp

/-- The texts of the alternatives, separated by the word `sep`. -/
def orJoin (sep : Text) : List Text → Text
  | [] => []
  | [t] => t
  | t :: ts => t ++ ' ' :: (sep ++ ' ' :: orJoin sep ts)

theorem orJoin_cons_of_ne_nil {sep t : Text} {ts : List Text} (h : ts ≠ []) :
    orJoin sep (t :: ts) = t ++ ' ' :: (sep ++ ' ' :: orJoin sep ts) := by
  cases ts with
  | nil => exact absurd rfl h
  | cons u us => rfl

/-- **Alternatives are read back in order.** -/
theorem spells_orJoin {sep : Text} (hsep : Separator sep) {α : Type*} {text : α → Text}
    {terms : α → List Term} {xs : List α} {x : α}
    (h : ∀ y ∈ xs ++ [x], SpellsTerms (text y) (terms y)) :
    Spells (orJoin sep ((xs ++ [x]).map text)) (xs.map terms) (terms x) := by
  induction xs with
  | nil => exact (h x (by simp)).spells
  | cons y ys ih =>
      have hy := h y (by simp)
      have hys := ih fun z hz => h z (List.mem_cons_of_mem _ hz)
      rw [List.cons_append, List.map_cons, orJoin_cons_of_ne_nil (by simp)]
      exact hy.or_spells hsep hys

theorem Spells.read {t : Text} {front : Alternatives} {last : List Term}
    (h : Spells t front last) (expand : Text → Text) :
    readCondition expand t = some ((front ++ [last]).filter fun g => !g.isEmpty) := by
  obtain ⟨ws, hread, hne, hrun⟩ := h
  have htake : (ws.takeWhile fun w => !w.isEmpty) = ws :=
    List.takeWhile_eq_self_iff.mpr fun w hw => by simp [hne w hw]
  simp only [readCondition, hread.words_eq, Option.bind_some, parseCondition, htake]
  rw [CondScan.start, hrun [] []]
  cases front <;> rfl

/-- The truth of a spelt condition, when no alternative is empty. -/
theorem Spells.holds {t : Text} {front : Alternatives} {last : List Term}
    (h : Spells t front last) (hne : ∀ g ∈ front ++ [last], g ≠ []) (v : View) :
    v.holds t = some (v.eval (front ++ [last])) := by
  have hfilter : ((front ++ [last]).filter fun g => !g.isEmpty) = front ++ [last] :=
    List.filter_eq_self.mpr fun g hg => by simp [hne g hg]
  rw [View.holds, h.read, hfilter, Option.map_some]

/-! ### The truth of spelt conditions -/

/-- `t` spells a conjunction of terms, whose truth is `b`. -/
def SpeltGroup (v : View) (t : Text) (b : Bool) : Prop :=
  ∃ ts, SpellsTerms t ts ∧ ts ≠ [] ∧ v.group ts = b

/-- `t` spells alternatives, whose truths are `bs` in order. -/
def Spelt (v : View) (t : Text) (bs : List Bool) : Prop :=
  ∃ front last, Spells t front last ∧ (∀ g ∈ front ++ [last], g ≠ []) ∧
    (front ++ [last]).map v.group = bs

theorem Tests.speltGroup {v : View} {t : Text} {b : Bool} (h : Tests v t b) :
    SpeltGroup v t b := by
  obtain ⟨term, hterm, rfl⟩ := h.spells
  exact ⟨[term], hterm, by simp, v.group_singleton term⟩

/-- The name of an ACL. -/
theorem SpeltGroup.named (v : View) {w : Text} (hbare : ∀ c ∈ w, bare c = true)
    (hname : isName w = true) : SpeltGroup v w (v.named w) := by
  have hne : w ≠ [] := by
    rintro rfl
    cases hname
  refine ⟨[⟨false, .named w⟩], ⟨[w], (piece_bare hne hbare).reads,
    (OneTerm.named hname).terms⟩, by simp, ?_⟩
  rw [v.group_singleton]
  simp [View.term]

/-- The name of an ACL, negated. -/
theorem SpeltGroup.not_named (v : View) {w : Text} (hbare : ∀ c ∈ w, bare c = true)
    (hname : isName w = true) : SpeltGroup v ('!' :: w) (!v.named w) := by
  have hbang : ∀ c ∈ '!' :: w, bare c = true := by
    intro c hc
    rcases List.mem_cons.mp hc with rfl | hc
    · decide
    · exact hbare c hc
  refine ⟨[⟨true, .named w⟩], ⟨['!' :: w], (piece_bare (by simp) hbang).reads,
    (OneTerm.named hname).bang.terms⟩, by simp, ?_⟩
  rw [v.group_singleton]
  simp [View.term]

/-- Juxtaposition is conjunction. -/
theorem SpeltGroup.append {v : View} {t u : Text} {b c : Bool} (h : SpeltGroup v t b)
    (k : SpeltGroup v u c) : SpeltGroup v (t ++ ' ' :: u) (b && c) := by
  obtain ⟨ts, hts, hne, rfl⟩ := h
  obtain ⟨us, hus, -, rfl⟩ := k
  exact ⟨ts ++ us, hts.append hus, by simp [hne], v.group_append ts us⟩

theorem SpeltGroup.blankJoin {v : View} {ts : List Text} {bs : List Bool}
    (h : List.Forall₂ (SpeltGroup v) ts bs) (hne : ts ≠ []) :
    SpeltGroup v (HAProxy.blankJoin ts) (bs.all id) := by
  induction h with
  | nil => exact absurd rfl hne
  | @cons t b ts bs hhead htail ih =>
      cases htail with
      | nil => simpa using hhead
      | cons hnext hrest => simpa using hhead.append (ih (by simp))

theorem SpeltGroup.spelt {v : View} {t : Text} {b : Bool} (h : SpeltGroup v t b) :
    Spelt v t [b] := by
  obtain ⟨ts, hts, hne, rfl⟩ := h
  exact ⟨[], ts, hts.spells, by simpa using hne, rfl⟩

/-- A separator adds an alternative. -/
theorem SpeltGroup.or_spelt {v : View} {sep t u : Text} {b : Bool} {bs : List Bool}
    (hsep : Separator sep) (h : SpeltGroup v t b) (k : Spelt v u bs) :
    Spelt v (t ++ ' ' :: (sep ++ ' ' :: u)) (b :: bs) := by
  obtain ⟨ts, hts, hne, rfl⟩ := h
  obtain ⟨front, last, hspells, hfront, rfl⟩ := k
  exact ⟨ts :: front, last, hts.or_spells hsep hspells,
    List.forall_mem_cons.mpr ⟨hne, hfront⟩, rfl⟩

theorem SpeltGroup.orJoin {v : View} {sep : Text} (hsep : Separator sep) {ts : List Text}
    {bs : List Bool} (h : List.Forall₂ (SpeltGroup v) ts bs) (hne : ts ≠ []) :
    Spelt v (HAProxy.orJoin sep ts) bs := by
  induction h with
  | nil => exact absurd rfl hne
  | @cons t b ts bs hhead htail ih =>
      cases htail with
      | nil => exact hhead.spelt
      | cons hnext hrest =>
          rw [orJoin_cons_of_ne_nil (by simp)]
          exact hhead.or_spelt hsep (ih (by simp))

/-- **A spelt condition holds when an alternative does.** -/
theorem Spelt.holds {v : View} {t : Text} {bs : List Bool} (h : Spelt v t bs) :
    v.holds t = some (bs.any id) := by
  obtain ⟨front, last, hspells, hne, rfl⟩ := h
  rw [hspells.holds hne, View.eval, List.any_map]
  rfl

theorem SpeltGroup.holds {v : View} {t : Text} {b : Bool} (h : SpeltGroup v t b) :
    v.holds t = some b := by
  simpa using h.spelt.holds

/-- A separator and terms after a condition add an alternative at the end. -/
theorem Spelt.or_append {v : View} {sep t u : Text} {bs : List Bool} {b : Bool}
    (h : Spelt v t bs) (hsep : Separator sep) (k : SpeltGroup v u b) :
    Spelt v (t ++ ' ' :: (sep ++ ' ' :: u)) (bs ++ [b]) := by
  obtain ⟨front, last, hspells, hne, rfl⟩ := h
  obtain ⟨us, hus, hus_ne, rfl⟩ := k
  refine ⟨front ++ [last], us, hspells.or_terms hsep hus, ?_, by simp⟩
  intro g hg
  rcases List.mem_append.mp hg with hg | hg
  · exact hne g hg
  · rw [List.mem_singleton.mp hg]
    exact hus_ne

/-- Terms after a condition join its last alternative. -/
theorem Spelt.append {v : View} {t u : Text} {bs : List Bool} {b c : Bool}
    (h : Spelt v t (bs ++ [b])) (k : SpeltGroup v u c) :
    Spelt v (t ++ ' ' :: u) (bs ++ [b && c]) := by
  obtain ⟨front, last, hspells, hne, hvalue⟩ := h
  obtain ⟨us, hus, -, rfl⟩ := k
  rw [List.map_append, List.map_singleton] at hvalue
  obtain ⟨hfront, hlast⟩ := List.append_inj' hvalue rfl
  have hb : v.group last = b := by simpa using hlast
  refine ⟨front, last ++ us, hspells.append hus, ?_, ?_⟩
  · intro g hg
    rcases List.mem_append.mp hg with hg | hg
    · exact hne g (List.mem_append_left _ hg)
    · rw [List.mem_singleton.mp hg]
      exact List.append_ne_nil_of_left_ne_nil (hne last (by simp)) us
  · rw [List.map_append, List.map_singleton, hfront, v.group_append, hb]

end HAProxy
