import CorexManager.HAProxy.Condition
import CorexManager.Logic.RuleChain

/-!
# Transactions and http-request rules

The state a section's `http-request` rules run against (`Txn`), what its fetches
sample (`Txn.samples`), the actions, and the rules as a chain (`requestRules`).

Of a section `acl` lines, `http-request` rules and the choice of the backend are
modelled (`Line`); the ACLs are those of the whole section, and lines of one name
are alternatives.
Fetches of headers, variables, constants and the source address are computed;
converters and every other fetch are parameters of the transaction.
-/

namespace HAProxy

open Data

/-- An engine whose patterns and networks are single texts, without pattern files and
environment. -/
def Engine.simple : Engine where
  reg _ p s := p == s
  net a n := a == n
  intOf := readInt
  file _ := []
  expand _ := []

/-- The transaction of one request. -/
structure Txn where
  /-- Header lines, in order. -/
  headers : List (Text × Text)
  /-- The address `src` yields. -/
  src : Text
  vars : Text → Option Sample
  logLevel : Option Text
  /-- A converter applied to a sample. -/
  convert : Text → Sample → List Sample
  /-- The remaining fetches. -/
  other : Text → List Sample

namespace Txn

/-! ### Fetches -/

/-- Header names have no case. -/
def sameName (a b : Text) : Bool := a.map Char.toLower == b.map Char.toLower

/-- The full values of a header. -/
def fhdr (t : Txn) (name : Text) : List Text :=
  (t.headers.filter fun h => sameName h.1 name).map Prod.snd

/-- Drop the blanks around a value. -/
def trim (v : Text) : Text :=
  ((v.dropWhile (· == ' ')).reverse.dropWhile (· == ' ')).reverse

/-- The values of a header, a comma separating values. -/
def hdr (t : Txn) (name : Text) : List Text :=
  (t.fhdr name).flatMap fun v => (v.splitOn ',').map trim

end Txn

/-- A fetch without converters. -/
inductive Fetch where
  | var (name : Text)
  | hdr (name : Text)
  | fhdr (name : Text)
  | hdrCount (name : Text)
  | constant (s : Sample)
  | src
  | other (word : Text)
  deriving DecidableEq, Repr

namespace Fetch

/-- A call, by the name of the fetch. -/
def call (name arg : Text) : Fetch :=
  if name = "var".toList then .var arg
  else if name = "req.hdr".toList ∨ name = "hdr".toList then .hdr arg
  else if name = "req.fhdr".toList then .fhdr arg
  else if name = "req.hdr_cnt".toList then .hdrCount arg
  else if name = "bool".toList then .constant (.bool (arg = ['1'] || arg = "true".toList))
  else if name = "str".toList then .constant (.str arg)
  else if name = "int".toList ∧ (readInt arg).isSome then .constant (.int ((readInt arg).getD 0))
  else .other (name ++ '(' :: (arg ++ [')']))

/-- The characters of an argument that is one name. -/
def plainArg (arg : Text) : Bool := arg.all fun c => c != ')' && c != ','

/-- Read a fetch. -/
def read (word : Text) : Fetch :=
  let name := word.takeWhile (· != '(')
  let arg := ((word.dropWhile (· != '(')).drop 1).dropLast
  if word = name ++ '(' :: (arg ++ [')']) ∧ plainArg arg = true then call name arg
  else if word = "src".toList then .src
  else .other word

theorem read_call {name arg : Text} (hname : '(' ∉ name) (harg : plainArg arg = true) :
    read (name ++ '(' :: (arg ++ [')'])) = call name arg := by
  have hall : ∀ c ∈ name, (c != '(') = true := by
    intro c hc
    rw [bne_iff_ne]
    rintro rfl
    exact hname hc
  have htake : (name ++ '(' :: (arg ++ [')'])).takeWhile (· != '(') = name := by
    rw [List.takeWhile_append_of_pos hall]
    simp
  have hdrop : (name ++ '(' :: (arg ++ [')'])).dropWhile (· != '(') = '(' :: (arg ++ [')']) := by
    rw [List.dropWhile_append_of_pos hall]
    simp
  have hinner : ('(' :: (arg ++ [')'])).drop 1 = arg ++ [')'] := rfl
  simp only [read, htake, hdrop, hinner, List.dropLast_concat, harg, and_self, if_true]

end Fetch

/-- Split off the converters: what follows the first comma outside parentheses. -/
def splitConverter : Nat → Text → Text × Option Text
  | _, [] => ([], none)
  | 0, ',' :: rest => ([], some rest)
  | d, c :: rest =>
      let d := if c = '(' then d + 1 else if c = ')' then d - 1 else d
      let r := splitConverter d rest
      (c :: r.1, r.2)

namespace Txn

/-- What a fetch without converters samples. -/
def fetch (t : Txn) : Fetch → List Sample
  | .var name => (t.vars name).toList
  | .hdr name => (t.hdr name).map .str
  | .fhdr name => (t.fhdr name).map .str
  | .hdrCount name => [.int (t.hdr name).length]
  | .constant s => [s]
  | .src => [.addr t.src]
  | .other word => t.other word

/-- **What a fetch expression samples.** -/
def samples (t : Txn) (word : Text) : List Sample :=
  match splitConverter 0 word with
  | (base, none) => t.fetch (.read base)
  | (base, some converter) => (t.fetch (.read base)).flatMap (t.convert converter)

end Txn

/-- A name has no converter. -/
private theorem splitConverter_plain {d : Nat} {t : Text}
    (h : ∀ c ∈ t, c ≠ ',' ∧ c ≠ '(' ∧ c ≠ ')') (rest : Text) :
    splitConverter d (t ++ rest)
      = (t ++ (splitConverter d rest).1, (splitConverter d rest).2) := by
  induction t with
  | nil => rfl
  | cons c t ih =>
      obtain ⟨hcomma, hopen, hclose⟩ := h c (by simp)
      have htail := ih fun x hx => h x (List.mem_cons_of_mem c hx)
      rw [List.cons_append, splitConverter.eq_3 d c (t ++ rest) (by
        intro _ hc
        exact hcomma hc)]
      simp only [if_neg hopen, if_neg hclose, htail, List.cons_append]

/-- The characters of a name: no parentheses and no commas. -/
def isWord (t : Text) : Prop := ∀ c ∈ t, c ≠ ',' ∧ c ≠ '(' ∧ c ≠ ')'

instance (t : Text) : Decidable (isWord t) := inferInstanceAs (Decidable (∀ c ∈ t, _))

theorem isWord.plainArg {t : Text} (h : isWord t) : Fetch.plainArg t = true := by
  simp only [Fetch.plainArg, List.all_eq_true, Bool.and_eq_true, bne_iff_ne]
  intro c hc
  exact ⟨(h c hc).2.2, (h c hc).1⟩

private theorem splitConverter_call {name arg : Text} (hname : isWord name) (harg : isWord arg) :
    splitConverter 0 (name ++ '(' :: (arg ++ [')'])) = (name ++ '(' :: (arg ++ [')']), none) := by
  rw [splitConverter_plain hname]
  have hopen : splitConverter 0 ('(' :: (arg ++ [')'])) = ('(' :: (arg ++ [')']), none) := by
    rw [splitConverter.eq_3 0 '(' (arg ++ [')']) (by simp)]
    simp only [if_true, splitConverter_plain harg]
    rfl
  rw [hopen]

/-- **A call samples the fetch it names.** -/
theorem Txn.samples_call (t : Txn) {name arg : Text} (hname : isWord name) (harg : isWord arg) :
    t.samples (name ++ '(' :: (arg ++ [')'])) = t.fetch (.call name arg) := by
  have hopen : '(' ∉ name := fun h => (hname '(' h).2.1 rfl
  rw [samples, splitConverter_call hname harg]
  simp only [Fetch.read_call hopen harg.plainArg]

/-- A variable. -/
theorem Txn.samples_var (t : Txn) {name : Text} (h : isWord name) :
    t.samples ("var(".toList ++ (name ++ [')'])) = (t.vars name).toList :=
  have hname : isWord "var".toList := by decide
  t.samples_call hname h

/-- Full header values. -/
theorem Txn.samples_fhdr (t : Txn) {name : Text} (h : isWord name) :
    t.samples ("req.fhdr(".toList ++ (name ++ [')'])) = (t.fhdr name).map .str :=
  have hname : isWord "req.fhdr".toList := by decide
  t.samples_call hname h

/-- Header values. -/
theorem Txn.samples_hdr (t : Txn) {name : Text} (h : isWord name) :
    t.samples ("req.hdr(".toList ++ (name ++ [')'])) = (t.hdr name).map .str :=
  have hname : isWord "req.hdr".toList := by decide
  t.samples_call hname h

theorem isWord_intText (n : Int) : isWord (intText n) := by
  intro c hc
  have hdigit : ∀ c : Char, c.isDigit = true → c ≠ ',' ∧ c ≠ '(' ∧ c ≠ ')' := by
    intro c hc
    refine ⟨?_, ?_, ?_⟩ <;>
      · rintro rfl
        exact absurd hc (by decide)
  cases n with
  | ofNat n => exact hdigit c (natText_isDigit n c hc)
  | negSucc n =>
      rcases List.mem_cons.mp hc with rfl | hc
      · decide
      · exact hdigit c (natText_isDigit (n + 1) c hc)

/-- A constant integer. -/
theorem Txn.samples_int (t : Txn) (n : Int) :
    t.samples ("int".toList ++ '(' :: (intText n ++ [')'])) = [.int n] := by
  have hname : isWord "int".toList := by decide
  have hcall : Fetch.call "int".toList (intText n) = .constant (.int n) := by
    simp [Fetch.call, readInt_intText]
  rw [t.samples_call hname (isWord_intText n), hcall]
  rfl

/-- A constant string. -/
theorem Txn.samples_str (t : Txn) {w : Text} (h : isWord w) :
    t.samples ("str".toList ++ '(' :: (w ++ [')'])) = [.str w] := by
  have hname : isWord "str".toList := by decide
  have hcall : Fetch.call "str".toList w = .constant (.str w) := by
    simp [Fetch.call]
  rw [t.samples_call hname h, hcall]
  rfl

theorem Txn.samples_src (t : Txn) : t.samples "src".toList = [.addr t.src] := rfl

/-! ### Rules -/

/-- What ends the `http-request` rules of a section. -/
inductive Verdict where
  | allow
  | deny (args : Text)
  | redirect (args : Text)
  | respond (args : Text)
  deriving DecidableEq, Repr

/-- The actions. -/
inductive Action where
  | setVar (name expr : Text)
  | setVarFmt (name fmt : Text)
  | setLogLevel (level : Text)
  | setSrc (expr : Text)
  /-- A Lua action, with the variable it leaves its result in. -/
  | lua (call result : Text)
  | stop (v : Verdict)
  deriving DecidableEq, Repr

/-- Under what a rule fires. -/
inductive Cond where
  | always
  | when (t : Text)
  | unless (t : Text)
  deriving DecidableEq, Repr

/-- An `http-request` rule. -/
structure Rule where
  action : Action
  cond : Cond := .always
  deriving DecidableEq, Repr

/-- A line of a section. -/
inductive Line where
  | acl (name spec : Text)
  | request (r : Rule)
  | useBackend (backend cond : Text)
  | defaultBackend (backend : Text)
  deriving DecidableEq, Repr

namespace Line

/-- The ACL a line declares. -/
def acl? (E : Engine) : Line → Option (Text × Acl)
  | acl name spec => ((words E.expand spec).bind parseAcl).map (name, ·)
  | _ => none

/-- The rule a line is. -/
def rule? : Line → Option Rule
  | request r => some r
  | _ => none

/-- The choice a line offers, by its condition. -/
def choice? : Line → Option (Text × Text)
  | useBackend backend cond => some (backend, cond)
  | _ => none

/-- The default a line names. -/
def default? : Line → Option Text
  | defaultBackend backend => some backend
  | _ => none

end Line

/-- The ACLs of a section. -/
def declaredAcls (E : Engine) (section_ : List Line) : List (Text × Acl) :=
  section_.filterMap (Line.acl? E)

/-- What the conditions of a section see in a transaction. -/
def Txn.view (E : Engine) (acls : List (Text × Acl)) (t : Txn) : View where
  engine := E
  samples := t.samples
  named := declared E t.samples acls

/-- The rule fires; a condition HAProxy refuses is never met. -/
def Rule.fires (E : Engine) (acls : List (Text × Acl)) (t : Txn) (r : Rule) : Bool :=
  match r.cond with
  | .always => true
  | .when c => (t.view E acls).holds c == some true
  | .unless c => (t.view E acls).holds c == some false

/-- An `acl` line declares the ACL its words spell. -/
theorem Line.acl?_of_reads {E : Engine} {name spec : Text} {ws : List Text} {a : Acl}
    (hread : Reads spec ws) (hacl : parseAcl ws = some a) :
    (Line.acl name spec).acl? E = some (name, a) := by
  simp [Line.acl?, hread.words_eq, hacl]

/-- The fetch of an `acl` line is its first word. -/
theorem Line.acl?_fetch {E : Engine} {name w rest : Text} (hne : w ≠ [])
    (hbare : ∀ c ∈ w, bare c = true) {a : Text × Acl}
    (h : (Line.acl name (w ++ ' ' :: rest)).acl? E = some a) : a.2.fetch = (derivedFetch w).1 := by
  have hwords : words E.expand (w ++ ' ' :: rest) = (words E.expand rest).map ([w] ++ ·) :=
    (piece_bare hne hbare).reads.words_blank rest
  simp only [Line.acl?, hwords] at h
  cases hrest : words E.expand rest with
  | none =>
      rw [hrest] at h
      cases h
  | some ws =>
      rw [hrest] at h
      obtain ⟨acl, hacl, rfl⟩ := Option.map_eq_some_iff.mp h
      exact parseAcl_fetch hacl

/-- The only ACL of a name is what the name means. -/
theorem declared_unique {E : Engine} {samples : Text → List Sample} {acls : List (Text × Acl)}
    {name : Text} {a : Acl} (hmem : (name, a) ∈ acls)
    (honly : ∀ b ∈ acls, b.1 = name → b.2 = a) :
    declared E samples acls name = a.eval E samples := by
  unfold declared
  cases h : a.eval E samples with
  | true => exact List.any_eq_true.mpr ⟨_, hmem, by simp [h]⟩
  | false =>
      refine List.any_eq_false.mpr fun b hb => ?_
      simp only [Bool.and_eq_true, beq_iff_eq, not_and, Bool.not_eq_true]
      intro hname
      rw [honly b hb hname, h]

namespace Txn

/-- Assign a variable. -/
def setVar (t : Txn) (name : Text) (value : Option Sample) : Txn :=
  { t with vars := fun n => if n = name then value.orElse fun _ => t.vars n else t.vars n }

/-- The state after an action; a log-format string is sampled as a whole. -/
def apply : Action → Txn → Txn
  | .setVar name expr, t => t.setVar name (t.samples expr).head?
  | .setVarFmt name fmt, t => t.setVar name (t.other fmt).head?
  | .setLogLevel level, t => { t with logLevel := some level }
  | .setSrc expr, t =>
      match (t.samples expr).head? with
      | some s => { t with src := s.text }
      | none => t
  | .lua call result, t => t.setVar result (t.other call).head?
  | .stop _, t => t

@[simp] theorem setVar_src (t : Txn) (name : Text) (v : Option Sample) :
    (t.setVar name v).src = t.src := rfl

@[simp] theorem setVar_headers (t : Txn) (name : Text) (v : Option Sample) :
    (t.setVar name v).headers = t.headers := rfl

@[simp] theorem setVar_logLevel (t : Txn) (name : Text) (v : Option Sample) :
    (t.setVar name v).logLevel = t.logLevel := rfl

theorem setVar_vars_self (t : Txn) (name : Text) (s : Sample) :
    (t.setVar name (some s)).vars name = some s := by
  simp [setVar]

theorem setVar_vars_other (t : Txn) {name n : Text} (v : Option Sample) (h : n ≠ name) :
    (t.setVar name v).vars n = t.vars n := if_neg h

end Txn

/-- The verdict an action gives. -/
def Action.verdict : Action → Option Verdict
  | .stop v => some v
  | _ => none

/-- **The `http-request` rules of a section**, run in order. -/
def requestRules (E : Engine) (acls : List (Text × Acl)) :
    RuleChain.Machine Txn Rule Verdict where
  fires t r := r.fires E acls t
  effect r := Txn.apply r.action
  verdict r := r.action.verdict

/-- **The backend of a transaction**: that of the first `use_backend` whose condition
holds, the default otherwise. -/
def selectBackend (E : Engine) (lines : List Line) (t : Txn) : Option Text :=
  let v := t.view E (declaredAcls E lines)
  match (lines.filterMap Line.choice?).find? fun c => v.holds c.2 == some true with
  | some c => some c.1
  | none => (lines.filterMap Line.default?).getLast?

/-- Run the lines of a section. -/
def runLines (E : Engine) (lines : List Line) (t : Txn) : RuleChain.Outcome Txn Rule Verdict :=
  (requestRules E (declaredAcls E lines)).run (lines.filterMap Line.rule?) t

end HAProxy
