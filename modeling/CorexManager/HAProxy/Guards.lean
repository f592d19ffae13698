import CorexManager.HAProxy.Transaction

/-!
# Guards

Conditions that are conjunctions of tests of variables and of named ACLs, the guards a
generator of configurations writes again and again.  A guard is a list of tests
(`Guard`), its text is what stands in the configuration (`guardText`), and it holds
when every test does (`guardText_holds`).
-/

namespace HAProxy

open Data

/-- A test of a guard. -/
inductive Guard where
  /-- `{ var(name) -m method words }`, possibly negated. -/
  | test (neg : Bool) (name : Text) (method : Method) (words : List Text)
  /-- `acl`, possibly negated. -/
  | acl (neg : Bool) (name : Text)
  deriving DecidableEq

namespace Guard

/-- `{ var(name) -m found }`. -/
def found (name : Text) : Guard := .test false name .found []

/-- `{ var(name) -m bool }`. -/
def isTrue (name : Text) : Guard := .test false name .bool []

/-- `{ var(name) -m str word }`. -/
def equals (name word : Text) : Guard := .test false name .str [word]

/-- `{ var(name) -m int eq n }`. -/
def intEq (name : Text) (n : Int) : Guard := .test false name .int ["eq".toList, intText n]

/-- `acl`. -/
def named (name : Text) : Guard := .acl false name

/-- The test with an exclamation mark. -/
def not : Guard → Guard
  | test neg name method words => .test (!neg) name method words
  | acl neg name => .acl (!neg) name

/-- The fetch of a variable. -/
def varFetch (name : Text) : Text := "var".toList ++ '(' :: (name ++ [')'])

/-- A test without its exclamation mark. -/
def body : Guard → Text
  | test _ name method words =>
      anonText 0 (varFetch name ++ ' ' :: ("-m".toList ++ ' ' :: blankJoin (method.name :: words)))
  | acl _ name => name

/-- Whether the test is negated. -/
def negated : Guard → Bool
  | test neg _ _ _ => neg
  | acl neg _ => neg

/-- The text of a test. -/
def text (g : Guard) : Text := if g.negated then '!' :: g.body else g.body

/-- What a test says, without its exclamation mark. -/
def bodyTruth (v : View) (vars : Text → Option Sample) : Guard → Bool
  | test _ name method words => (vars name).any (matchSample v.engine method false words)
  | acl _ name => v.named name

/-- What a test says of a transaction. -/
def truth (v : View) (vars : Text → Option Sample) (g : Guard) : Bool :=
  xor g.negated (g.bodyTruth v vars)

/-- The names and words of a test are read as they are written. -/
def Plain : Guard → Prop
  | test _ name _ words =>
      (isWord name ∧ ∀ c ∈ name, bare c = true) ∧
        (∀ w ∈ words, Argument w ∧ ∀ c ∈ w, bare c = true) ∧
        ∀ w ∈ words.head?, notFlag w = true
  | acl _ name => isName name = true ∧ ∀ c ∈ name, bare c = true

/-! ### What the tests say -/

section Truth

variable (v : View) (vars : Text → Option Sample)

@[simp] theorem not_truth (g : Guard) : g.not.truth v vars = !g.truth v vars := by
  cases g <;> simp [not, truth, negated, bodyTruth]

/-- A test that is not negated says what its match says. -/
theorem test_truth (name : Text) (method : Method) (words : List Text) :
    (test false name method words).truth v vars =
      (vars name).any (matchSample v.engine method false words) := Bool.false_xor _

theorem found_truth (name : Text) : (found name).truth v vars = (vars name).isSome := by
  rw [found, test_truth]
  cases vars name <;> rfl

theorem isTrue_truth (name : Text) :
    (isTrue name).truth v vars = (vars name).any Sample.truthy := by
  rw [isTrue, test_truth]
  cases vars name <;> rfl

theorem equals_truth (name word : Text) :
    (equals name word).truth v vars = (vars name).any fun s => word == s.text := by
  rw [equals, test_truth]
  cases vars name with
  | none => rfl
  | some s => simp [matchSample, foldCase]

theorem intEq_truth (name : Text) (n : Int) :
    (intEq name n).truth v vars = (vars name).any fun s => s.int? v.engine == some n := by
  rw [intEq, test_truth]
  cases vars name with
  | none => rfl
  | some s =>
      have hread : IntOp.read "eq".toList = some .eq := by decide
      simp only [Option.any_some, matchSample, intMatch, hread, IntOp.read_intText,
        readInt_intText, Bool.or_false]
      cases s.int? v.engine <;> simp [IntOp.holds]

theorem named_truth (name : Text) : (named name).truth v vars = v.named name := Bool.false_xor _

end Truth

/-! ### Reading the text -/

private theorem varFetch_text {name : Text} (hname : isWord name ∧ ∀ c ∈ name, bare c = true) :
    FetchText (varFetch name) (varFetch name) := by
  refine FetchText.call (by decide) (by decide) (by decide) (by decide) fun c hc => ?_
  rcases List.mem_append.mp hc with hc | hc
  · exact hname.2 c hc
  · rw [List.mem_singleton.mp hc]
    decide

/-- A test without its exclamation mark is one anonymous ACL. -/
private theorem body_tests {v : View} {t : Txn} (hsamples : v.samples = t.samples)
    {neg : Bool} {name : Text} {method : Method} {words : List Text}
    (h : (test neg name method words).Plain) :
    Tests v (test neg name method words).body
      ((test neg name method words).bodyTruth v t.vars) := by
  obtain ⟨hname, hwords, hfirst⟩ := h
  have hvalue : (v.samples (varFetch name)).any (matchSample v.engine method false words)
      = (test neg name method words).bodyTruth v t.vars := by
    have hvar : v.samples (varFetch name) = (t.vars name).toList := by
      rw [hsamples]
      exact t.samples_var hname.1
    rw [hvar, bodyTruth]
    cases t.vars name <;> simp
  rw [← hvalue]
  cases words with
  | nil => exact Tests.method_alone method (varFetch_text hname)
  | cons w ws =>
      have hread : Reads (blankJoin (w :: ws)) (w :: ws) := by
        have hall : Reads (blankJoin ((w :: ws).map id)) ((w :: ws).flatMap fun x => [x]) :=
          Reads.blankJoin (by simp) fun x hx => (piece_bare (hwords x hx).1.1 (hwords x hx).2).reads
        simpa using hall
      exact Tests.method method (varFetch_text hname) hread hfirst fun x hx => (hwords x hx).1

/-- **A test of a guard** spells what it says. -/
theorem speltGroup {v : View} {t : Txn} (hsamples : v.samples = t.samples) {g : Guard}
    (h : g.Plain) : SpeltGroup v g.text (g.truth v t.vars) := by
  cases g with
  | test neg name method words =>
      have htests := body_tests hsamples h
      cases neg with
      | false => simpa [text, truth, negated] using htests.speltGroup
      | true => simpa [text, truth, negated] using htests.bang.speltGroup
  | acl neg name =>
      cases neg with
      | false => simpa [text, truth, negated, body, bodyTruth] using SpeltGroup.named v h.2 h.1
      | true =>
          simpa [text, truth, negated, body, bodyTruth] using SpeltGroup.not_named v h.2 h.1

theorem found_plain {name : Text} (h : isWord name ∧ ∀ c ∈ name, bare c = true) :
    (found name).Plain := ⟨h, by simp, by simp⟩

theorem isTrue_plain {name : Text} (h : isWord name ∧ ∀ c ∈ name, bare c = true) :
    (isTrue name).Plain := ⟨h, by simp, by simp⟩

theorem intEq_plain {name : Text} (h : isWord name ∧ ∀ c ∈ name, bare c = true) (n : Int) :
    (intEq name n).Plain := by
  refine ⟨h, ?_, by simp; decide⟩
  intro w hw
  rcases List.mem_cons.mp hw with rfl | hw
  · decide
  · rw [List.mem_singleton.mp hw]
    exact ⟨argument_int n, intText_bare n⟩

theorem not_plain {g : Guard} (h : g.Plain) : g.not.Plain := by
  cases g <;> exact h

end Guard

/-- The text of a guard. -/
def guardText (gs : List Guard) : Text := blankJoin (gs.map Guard.text)

/-- A guard holds when all its tests do. -/
def guardHolds (v : View) (vars : Text → Option Sample) (gs : List Guard) : Bool :=
  gs.all (Guard.truth v vars)

/-- Guards written one after the other are one guard. -/
theorem guardText_append {gs hs : List Guard} (hgs : gs ≠ []) (hhs : hs ≠ []) :
    guardText (gs ++ hs) = guardText gs ++ ' ' :: guardText hs := by
  unfold guardText
  induction gs with
  | nil => exact absurd rfl hgs
  | cons g gs ih =>
      rcases gs with _ | ⟨g', gs⟩
      · obtain ⟨h, hs, rfl⟩ := List.exists_cons_of_ne_nil hhs
        rfl
      · have hrest := ih (by simp)
        simp only [List.map_cons, List.cons_append, List.map_append, blankJoin_cons_cons,
          List.append_assoc] at hrest ⊢
        rw [hrest]

theorem guardText_cons (g : Guard) {gs : List Guard} (hgs : gs ≠ []) :
    guardText (g :: gs) = g.text ++ ' ' :: guardText gs :=
  guardText_append (List.cons_ne_nil g []) hgs

theorem guardText_concat {gs : List Guard} (hgs : gs ≠ []) (g : Guard) :
    guardText (gs ++ [g]) = guardText gs ++ ' ' :: g.text :=
  guardText_append hgs (List.cons_ne_nil g [])

@[simp] theorem guardHolds_append (v : View) (vars : Text → Option Sample) (gs hs : List Guard) :
    guardHolds v vars (gs ++ hs) = (guardHolds v vars gs && guardHolds v vars hs) :=
  List.all_append

@[simp] theorem guardHolds_singleton (v : View) (vars : Text → Option Sample) (g : Guard) :
    guardHolds v vars [g] = g.truth v vars := by
  simp [guardHolds]

/-- **The text of a guard** spells its truth. -/
theorem guardText_spelt {v : View} {t : Txn} (hsamples : v.samples = t.samples)
    {gs : List Guard} (hne : gs ≠ []) (h : ∀ g ∈ gs, g.Plain) :
    SpeltGroup v (guardText gs) (guardHolds v t.vars gs) := by
  have hall : List.Forall₂ (SpeltGroup v) (gs.map Guard.text) (gs.map (Guard.truth v t.vars)) := by
    rw [List.forall₂_map_left_iff, List.forall₂_map_right_iff]
    exact List.forall₂_same.mpr fun g hg => Guard.speltGroup hsamples (h g hg)
  have hjoin := SpeltGroup.blankJoin hall (by simpa using hne)
  unfold guardHolds
  rwa [List.all_map] at hjoin

/-- **A rule under a guard** fires when the guard holds. -/
theorem guardText_fires (E : Engine) (acls : List (Text × Acl)) (t : Txn) (a : Action)
    {gs : List Guard} (hne : gs ≠ []) (h : ∀ g ∈ gs, g.Plain) :
    Rule.fires E acls t ⟨a, .when (guardText gs)⟩ = guardHolds (t.view E acls) t.vars gs := by
  have hspelt : SpeltGroup (t.view E acls) (guardText gs) _ := guardText_spelt rfl hne h
  simp only [Rule.fires, hspelt.holds]
  cases guardHolds (t.view E acls) t.vars gs <;> rfl

end HAProxy
