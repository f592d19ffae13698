import CorexManager.Expression.Dnf
import CorexManager.Expression.Parser
import CorexManager.Python.Value

/-!
# The evaluator

`resolve_field_value`, `evaluate_leaf` and `evaluate`, over a context whose values
are arbitrary Python values, and its agreement with the normal form.  A run that
raises has the result `none`.

The flag `negated` of a leaf is the subject of this file.  Every kind of leaf but
one takes it into account on every path (`evaluateLeaf_negate`); a bare literal
returns its value and drops the flag (`evaluateLeaf_literal`).  The normaliser
sets the flag on literals as on any other leaf, so the normal form of a tree and
the tree itself part ways at the literals under an odd number of `not`s, and
nowhere else (`evaluate_iff_toDnf`).
-/

namespace CorexManager.Expression

open Data (Text)
open NormalForm
open Python (Runtime chopLineEnd lookup)

/-- A context: the entries of the dictionary. -/
abbrev Context := List (Text × Python.Value)

/-- `re.match(r'^([\w.]+)\["(.+)"\]$', field)`: the two groups.  The class of the
first does not contain the bracket, so it ends at the first character outside it;
the second may hold anything but a line end, one of which may follow the whole. -/
def bracketMatch (U : Python.UnicodeTables) (field : Text) : Option (Text × Text) :=
  let base := field.takeWhile fun c => U.alnum c || c == '_' || c == '.'
  match field.drop base.length with
  | '[' :: '"' :: rest =>
      let body := chopLineEnd rest
      let key := body.take (body.length - 2)
      if base ≠ [] ∧ key ≠ [] ∧ '\n' ∉ key ∧ body.drop (body.length - 2) = "\"]".toList then
        some (base, key)
      else none
  | _ => none

/-- The loop over the dotted path. -/
def descend : Python.Value → List Text → Python.Value
  | v, [] => v
  | .dict entries, part :: parts =>
      match lookup entries part with
      | some v => descend v parts
      | none => .none
  | _, _ :: _ => .none

/-- `resolve_field_value`. -/
def resolveFieldValue (R : Runtime) (field : Text) (ctx : Context) : Option Python.Value :=
  match bracketMatch R.unicode field with
  | some (base, key) =>
      match lookup ctx base with
      | some (.dict entries) =>
          match lookup entries key with
          | none | some .none => some .none
          | some v => (R.str v).map .str
      | _ => some .none
  | none =>
      match lookup ctx field with
      | some v => some v
      | none => some (descend (.dict ctx) (field.splitOn '.'))

/-- The operators on integers. -/
def compareInt (actual expected : Int) : CompareOp → Option Bool
  | .eq => some (actual == expected)
  | .ne => some (actual != expected)
  | .gt => some (expected < actual)
  | .lt => some (actual < expected)
  | .ge => some (expected ≤ actual)
  | .le => some (actual ≤ expected)
  | _ => none

/-- The operators on strings; the outer `none` is a pattern that does not
compile. -/
def compareStr (R : Runtime) (actual expected : Text) : CompareOp → Option (Option Bool)
  | .eq => some (some (actual == expected))
  | .ne => some (some (actual != expected))
  | .match => (R.search expected).map fun found => some (found actual)
  | .notMatch => (R.search expected).map fun found => some !(found actual)
  | .contains => some (some (decide (expected <:+: actual)))
  | .startsWith => some (some (expected.isPrefixOf actual))
  | .endsWith => some (some (expected.isSuffixOf actual))
  | _ => some none

/-- A comparison with a value that is there.  The inner `none` stands for the
paths that return `negated` without a result. -/
def compareValue (R : Runtime) (actual : Python.Value) (op : CompareOp) :
    Value → Option (Option Bool)
  | .bool b =>
      if op = .eq then (R.boolOf actual).map fun r => some (r == b) else some none
  | .int n =>
      match R.int actual with
      | .value k => some (compareInt k n op)
      | .refused => some none
      | .raised => none
  | .str s => (R.str actual).bind fun t => compareStr R t s op

/-- `actual == v or str(actual) == str(v)`. -/
def equalsItem (R : Runtime) (actual : Python.Value) (v : Item) : Option Bool := do
  let (equal, text) := match v with
    | .str s => (R.eqText s actual, some s)
    | .int n => (R.eqInteger n actual, R.str (.int n))
  if ← equal then some true
  else
    let t ← R.str actual
    let s ← text
    some (t == s)

/-- `any` over the values of a list literal. -/
def equalsSome (R : Runtime) (actual : Python.Value) : List Item → Option Bool
  | [] => some false
  | v :: vs =>
      match equalsItem R actual v with
      | none => none
      | some true => some true
      | some false => equalsSome R actual vs

/-- `list_resolver(list_type, list_name, actual)`, if there is a resolver. -/
def resolveList (R : Runtime) (ctx : Context) (listType listName : Text)
    (actual : Python.Value) : Option (Option Bool) := do
  let resolver := (lookup ctx "_list_resolver".toList).getD .none
  if ← R.boolOf resolver then
    match resolver with
    | .obj id =>
        let found ← R.call id listType listName actual
        let b ← R.boolOf found
        some (some b)
    | _ => none
  else some none

/-- What `evaluate_leaf` computes before it looks at `negated`. -/
def leafResult (R : Runtime) (ctx : Context) : LeafKind → Option (Option Bool)
  | .literal value => some (some value)
  | .boolField field => do
      let actual ← resolveFieldValue R field ctx
      let b ← R.boolOf actual
      some (some b)
  | .exists field => do
      match ← resolveFieldValue R field ctx with
      | .none => some (some false)
      | actual =>
          let blank ← R.eqText [] actual
          some (some !blank)
  | .compare field op value => do
      match ← resolveFieldValue R field ctx with
      | .none => some none
      | actual => compareValue R actual op value
  | .inLiterals field values => do
      match ← resolveFieldValue R field ctx with
      | .none => some none
      | actual => (equalsSome R actual values).map some
  | .inList field listType listName => do
      match ← resolveFieldValue R field ctx with
      | .none => some none
      | actual => resolveList R ctx listType listName actual

/-- `evaluate_leaf`. -/
def evaluateLeaf (R : Runtime) (ctx : Context) (l : Leaf) : Option Bool :=
  match l.kind with
  | .literal value => some value
  | kind =>
      match leafResult R ctx kind with
      | none => none
      | some none => some l.negated
      | some (some result) => some (if l.negated then !result else result)

mutual

/-- `evaluate`. -/
def evaluate (R : Runtime) (ctx : Context) : Node → Option Bool
  | .and cs => evaluateAll R ctx cs
  | .or cs => evaluateAny R ctx cs
  | .not c => (evaluate R ctx c).map not
  | .leaf l => evaluateLeaf R ctx l

/-- `all`, which stops at the first false child. -/
def evaluateAll (R : Runtime) (ctx : Context) : List Node → Option Bool
  | [] => some true
  | c :: cs =>
      match evaluate R ctx c with
      | none => none
      | some false => some false
      | some true => evaluateAll R ctx cs

/-- `any`, which stops at the first true child. -/
def evaluateAny (R : Runtime) (ctx : Context) : List Node → Option Bool
  | [] => some false
  | c :: cs =>
      match evaluate R ctx c with
      | none => none
      | some true => some true
      | some false => evaluateAny R ctx cs

end

section Agreement

variable {R : Runtime} {ctx : Context}

/-! ### The flag -/

/-- **Every kind of leaf but a literal** negates its result with the flag, on
every path, those of a missing field and an inapplicable operator included. -/
theorem evaluateLeaf_negate {l : Leaf} (h : l.isLiteral = false) :
    evaluateLeaf R ctx l.negate = (evaluateLeaf R ctx l).map not := by
  obtain ⟨kind, negated⟩ := l
  have hpath : ∀ r : Option (Option Bool),
      (match r with
        | none => none
        | some none => some (!negated)
        | some (some result) => some (if (!negated) = true then !result else result))
      = (match r with
        | none => none
        | some none => some negated
        | some (some result) => some (if negated then !result else result)).map not := by
    intro r
    rcases r with _ | _ | result
    · rfl
    · rfl
    · cases negated <;> cases result <;> rfl
  cases kind with
  | literal value => simp [Leaf.isLiteral] at h
  | compare field op value => exact hpath _
  | inList field listType listName => exact hpath _
  | inLiterals field values => exact hpath _
  | «exists» field => exact hpath _
  | boolField field => exact hpath _

/-- A literal drops the flag. -/
theorem evaluateLeaf_literal {l : Leaf} (h : l.isLiteral = true) :
    evaluateLeaf R ctx l.negate = evaluateLeaf R ctx l := by
  obtain ⟨kind, negated⟩ := l
  cases kind with
  | literal value => rfl
  | _ => simp [Leaf.isLiteral] at h

/-- `evaluate_leaf` returned true. -/
def LeafTrue (R : Runtime) (ctx : Context) (l : Leaf) : Prop :=
  evaluateLeaf R ctx l = some true

/-! ### The tree -/

private theorem evaluateAll_eq {cs : List Node} {holds : Node → Prop}
    (h : ∀ c ∈ cs, ∃ b, evaluate R ctx c = some b ∧ (b = true ↔ holds c)) :
    ∃ b, evaluateAll R ctx cs = some b ∧ (b = true ↔ ∀ c ∈ cs, holds c) := by
  induction cs with
  | nil => exact ⟨true, by simp [evaluateAll], by simp⟩
  | cons c cs ih =>
      obtain ⟨b, hb, hc⟩ := h c List.mem_cons_self
      obtain ⟨bs, hbs, hcs⟩ := ih fun d hd => h d (List.mem_cons_of_mem _ hd)
      simp only [List.forall_mem_cons, ← hc, ← hcs, evaluateAll, hb]
      cases b with
      | false => exact ⟨false, rfl, by simp⟩
      | true => exact ⟨bs, hbs, by simp⟩

private theorem evaluateAny_eq {cs : List Node} {holds : Node → Prop}
    (h : ∀ c ∈ cs, ∃ b, evaluate R ctx c = some b ∧ (b = true ↔ holds c)) :
    ∃ b, evaluateAny R ctx cs = some b ∧ (b = true ↔ ∃ c ∈ cs, holds c) := by
  induction cs with
  | nil => exact ⟨false, by simp [evaluateAny], by simp⟩
  | cons c cs ih =>
      obtain ⟨b, hb, hc⟩ := h c List.mem_cons_self
      obtain ⟨bs, hbs, hcs⟩ := ih fun d hd => h d (List.mem_cons_of_mem _ hd)
      simp only [List.exists_mem_cons_iff, ← hc, ← hcs, evaluateAny, hb]
      cases b with
      | true => exact ⟨true, rfl, by simp⟩
      | false => exact ⟨bs, hbs, by simp⟩

/-- The evaluator computes the boolean meaning of a tree none of whose leaves
raises. -/
theorem evaluate_eq (n : Node) (sign : Bool)
    (hraise : ∀ o ∈ n.occurrences sign, evaluateLeaf R ctx o.2 ≠ none) :
    ∃ b, evaluate R ctx n = some b ∧ (b = true ↔ n.Holds (LeafTrue R ctx)) := by
  induction n using Node.induct generalizing sign with
  | leaf l =>
      have hl := hraise (sign, l) (by simp [Node.occurrences])
      obtain ⟨b, hb⟩ := Option.ne_none_iff_exists'.mp hl
      exact ⟨b, by rw [evaluate, hb], by simp [LeafTrue, hb]⟩
  | and cs ih =>
      simp only [evaluate, holds_and]
      exact evaluateAll_eq fun c hc =>
        ih c hc sign fun o ho => hraise o (mem_occurrencesOf.mpr ⟨c, hc, ho⟩)
  | or cs ih =>
      simp only [evaluate, holds_or]
      exact evaluateAny_eq fun c hc =>
        ih c hc sign fun o ho => hraise o (mem_occurrencesOf.mpr ⟨c, hc, ho⟩)
  | not c ih =>
      obtain ⟨b, hb, hc⟩ := ih (!sign) hraise
      exact ⟨!b, by rw [evaluate, hb]; rfl, by rw [holds_not, ← hc]; simp⟩

/-! ### The tree and its normal form -/

/-- Some group of the normal form has every leaf true. -/
def DnfTrue (R : Runtime) (ctx : Context) (d : Dnf Leaf) : Prop :=
  d.Holds (LeafTrue R ctx)

/-- No literal stands under an odd number of `not`s. -/
def Node.NoNegatedLiteral (n : Node) : Prop :=
  ∀ o ∈ n.occurrences true, o.1 = false → o.2.isLiteral = false

instance (n : Node) : Decidable n.NoNegatedLiteral :=
  inferInstanceAs (Decidable (∀ o ∈ n.occurrences true, o.1 = false → o.2.isLiteral = false))

/-- The flag negates the truth of every leaf that is not a literal. -/
theorem leafTrue_negate {l : Leaf} (hlit : l.isLiteral = false)
    (hraise : evaluateLeaf R ctx l ≠ none) :
    LeafTrue R ctx l.negate ↔ ¬ LeafTrue R ctx l := by
  obtain ⟨b, hb⟩ := Option.ne_none_iff_exists'.mp hraise
  simp [LeafTrue, evaluateLeaf_negate hlit, hb]

/-- **The evaluator and the normal form agree** on every tree without a negated
literal, at every nesting, in every context in which no leaf raises. -/
theorem evaluate_iff_toDnf (R : Runtime) (ctx : Context) (n : Node)
    (hlit : n.NoNegatedLiteral)
    (hraise : ∀ o ∈ n.occurrences true, evaluateLeaf R ctx o.2 ≠ none) :
    evaluate R ctx n = some true ↔ DnfTrue R ctx (toDnf n) := by
  obtain ⟨b, hb, hholds⟩ := evaluate_eq n true hraise
  have hdnf := holds_toDnf_iff (v := LeafTrue R ctx) n fun o ho hsign =>
    leafTrue_negate (hlit o ho hsign) (hraise o ho)
  rw [DnfTrue, hdnf, ← hholds, hb, Option.some_inj]

/-- A negated literal is where they part, whatever the context. -/
theorem negated_literal_disagrees (R : Runtime) (ctx : Context) (value : Bool) :
    ¬ (evaluate R ctx (.not (.leaf ⟨.literal value, false⟩)) = some true ↔
      DnfTrue R ctx (toDnf (.not (.leaf ⟨.literal value, false⟩)))) := by
  simp only [toDnf, negateToDnf, DnfTrue, Dnf.holds_single, LeafTrue, evaluate]
  rw [evaluateLeaf_literal rfl]
  cases value <;> simp [evaluateLeaf]

end Agreement

/-- `not ip.src = "10.0.0.1"`, from another address. -/
theorem evaluate_iff_toDnf_not_eq :
    let n := Node.not (.leaf ⟨.compare "ip.src".toList .eq (.str "10.0.0.1".toList), false⟩)
    let ctx : Context := [("ip.src".toList, .str "10.0.0.2".toList)]
    evaluate .builtin ctx n = some true ↔ DnfTrue .builtin ctx (toDnf n) :=
  evaluate_iff_toDnf _ _ _ (by decide) (by decide)

/-- `not true` is false, and its normal form is true. -/
theorem not_true_disagrees :
    ∃ n, parseExpression .ascii [] "not true".toList = .ok n ∧
      ∀ R ctx, ¬ (evaluate R ctx n = some true ↔ DnfTrue R ctx (toDnf n)) := by
  have htok : tokenize .ascii "not true".toList
      = .ok [⟨.keyword .not, 0⟩, ⟨.keyword .true, 4⟩, ⟨.eof, 8⟩] := rfl
  refine ⟨.not (.leaf ⟨.literal true, false⟩), ?_, fun R ctx => ?_⟩
  · rw [parseExpression_of_tokens rfl htok]
    rfl
  · exact negated_literal_disagrees R ctx true

end CorexManager.Expression
