import CorexManager.Frontend.Sanitize
import CorexManager.HAProxy.Transaction

/-!
# Content switching rules

A backend rule sends the requests that meet its conditions to a backend.  Each
condition becomes an `acl` line, the rule's conditions one text of ACL names, and the
rule a `use_backend` line over that text.

* `backendConditionExpression` — what the `acl` line says.
* `combined_spelt` — the combined text spells the alternatives the joins make, `and`
  binding tighter than `or`, whatever the ACLs say.
-/

namespace CorexManager.Frontend

open Data
open HAProxy
open Python (UnicodeTables)

/-! ### Conditions and rules -/

/-- What a condition looks at. -/
inductive ConditionType where
  | path | host | hdr | cookie | urlParam | src
  deriving DecidableEq, Repr

/-- The operators the schema accepts. -/
inductive Operator where
  | beg | end | sub | dir | eq | found | len | reg
  deriving DecidableEq, Repr

/-- The word for an operator. -/
def Operator.word : Operator → Text
  | .beg => "beg".toList
  | .end => "end".toList
  | .sub => "sub".toList
  | .dir => "dir".toList
  | .eq => "eq".toList
  | .found => "found".toList
  | .len => "len".toList
  | .reg => "reg".toList

/-- How a condition is joined to those before it. -/
inductive Join where
  | and | or
  deriving DecidableEq, Repr

/-- A condition of a rule. -/
structure RuleCondition where
  conditionType : ConditionType
  conditionName : Option Text := none
  operator : Operator
  value : Option Text := none
  join : Join := .and
  deriving DecidableEq, Repr

/-- An enabled rule: its own condition and the further ones, and the name of its
backend, if the backend still exists. -/
structure BackendRule where
  id : Nat
  priority : Int
  backend : Option Text
  first : RuleCondition
  more : List RuleCondition
  deriving DecidableEq, Repr

/-! ### The lines -/

/-- The fetch of a condition, by the name it gives. -/
def conditionFetch (conditionType : ConditionType) (name : Text) : Text :=
  let keyed (fetch : Text) := if name = [] then fetch else fetch ++ '(' :: (name ++ [')'])
  match conditionType with
  | .path => "path".toList
  | .host => "req.hdr(host)".toList
  | .hdr => keyed "req.hdr".toList
  | .cookie => keyed "req.cook".toList
  | .urlParam => keyed "url_param".toList
  | .src => "src".toList

/-- `_backend_condition_expression`. -/
def backendConditionExpression (U : UnicodeTables) (c : RuleCondition) : Text :=
  let op := safeToken U c.operator.word
  let op := if op = "eq".toList then "str".toList else op
  let name := safeToken U (c.conditionName.getD [])
  let raw := c.value.getD []
  let value := if op = "reg".toList then safeRegex U raw else safeToken U raw
  let fetch := conditionFetch c.conditionType name
  let found := fetch ++ " -m found".toList
  let matching (method : Text) := fetch ++ " -m ".toList ++ method ++ ' ' :: value
  if c.conditionType = .src then
    if value = [] then found else fetch ++ ' ' :: value
  else if op = "found".toList then found
  else if op = "eq".toList ∨ op = "len".toList then
    if value = [] then found else matching op
  else if op = "reg".toList then matching op
  else if op = "beg".toList ∨ op = "end".toList ∨ op = "sub".toList ∨ op = "dir".toList then
    matching op
  -- `eq` has become `str` by now, which none of the branches asks for
  else matching "beg".toList

/-- `be_rule_{id}_c{idx}`. -/
def aclName (id idx : Nat) : Text :=
  "be_rule_".toList ++ (natText id ++ '_' :: 'c' :: natText idx)

namespace BackendRule

/-- All conditions, the rule's own first. -/
def conditions (r : BackendRule) : List RuleCondition := r.first :: r.more

/-- The `acl` lines, numbered from one. -/
def acls (U : UnicodeTables) (r : BackendRule) : List Line :=
  (r.conditions.zipIdx 1).map fun c =>
    .acl (aclName r.id c.2) (backendConditionExpression U c.1)

/-- The loop over the further conditions. -/
def combine (id : Nat) : Text → Nat → List RuleCondition → Text
  | combined, _, [] => combined
  | combined, idx, c :: cs =>
      combine id
        (match c.join with
          | .or => combined ++ " || ".toList ++ aclName id idx
          | .and => combined ++ ' ' :: aclName id idx)
        (idx + 1) cs

/-- The combined condition. -/
def combined (r : BackendRule) : Text := combine r.id (aclName r.id 1) 2 r.more

end BackendRule

/-- The rules with their backends. -/
def resolved (rules : List BackendRule) : List (BackendRule × Text) :=
  rules.filterMap fun r => r.backend.map (r, ·)

/-- The lines of content switching: the ACLs, the choices, the default. -/
def switchingLines (U : UnicodeTables) (rules : List BackendRule) (default : Option Text) :
    List Line :=
  (resolved rules).flatMap (fun r => r.1.acls U) ++
    (resolved rules).map (fun r => .useBackend r.2 r.1.combined) ++
    default.toList.map .defaultBackend

/-! ### What the joins mean -/

/-- The alternatives of conditions `and` binds tighter: those finished, and the one
being read. -/
def joinAlternatives : List Bool × Bool → List (Join × Bool) → List Bool × Bool
  | alts, [] => alts
  | (front, last), (.or, b) :: rest => joinAlternatives (front ++ [last], b) rest
  | (front, last), (.and, b) :: rest => joinAlternatives (front, last && b) rest

/-- The alternatives of a rule, by the truth of its conditions. -/
def BackendRule.alternatives (r : BackendRule) (truth : Nat → Bool) : List Bool × Bool :=
  joinAlternatives ([], truth 1)
    ((r.more.zipIdx 2).map fun c => (c.1.join, truth c.2))

/-! ### Names of ACLs -/

private theorem natText_nameChar (n : Nat) : ∀ c ∈ natText n, bare c = true ∧ c ≠ '_' := by
  intro c hc
  have hdigit := natText_isDigit n c hc
  have hascii : c.toNat < 128 := isAlphanum_ascii (by simp [Char.isAlphanum, hdigit])
  exact ascii_forall (P := fun c => c.isDigit = true → bare c = true ∧ c ≠ '_')
    (by decide +kernel) c hascii hdigit

theorem aclName_bare (id idx : Nat) : ∀ c ∈ aclName id idx, bare c = true := by
  have hrule : ∀ c ∈ "be_rule_".toList, bare c = true := by decide
  intro c hc
  unfold aclName at hc
  rcases List.mem_append.mp hc with hc | hc
  · exact hrule c hc
  · rcases List.mem_append.mp hc with hc | hc
    · exact (natText_nameChar id c hc).1
    · rcases List.mem_cons.mp hc with rfl | hc
      · decide
      · rcases List.mem_cons.mp hc with rfl | hc
        · decide
        · exact (natText_nameChar idx c hc).1

theorem aclName_isName (id idx : Nat) : isName (aclName id idx) = true := by
  have hcons : aclName id idx
      = 'b' :: ("e_rule_".toList ++ (natText id ++ '_' :: 'c' :: natText idx)) := rfl
  rw [hcons]
  generalize "e_rule_".toList ++ (natText id ++ '_' :: 'c' :: natText idx) = rest
  have hor : isOr ('b' :: rest) = false := by
    rw [isOr, Bool.or_eq_false_iff, beq_eq_false_iff_ne, beq_eq_false_iff_ne]
    constructor
    · intro h
      exact absurd (List.cons.inj h).1 (by decide)
    · intro h
      exact absurd (List.cons.inj h).1 (by decide)
  rw [isName, hor]
  simp

/-- A number is determined by its spelling up to what follows. -/
private theorem natText_append_inj {m n : Nat} {a b : Text}
    (h : natText m ++ '_' :: a = natText n ++ '_' :: b) : m = n ∧ a = b := by
  have htake : ∀ (k : Nat) (t : Text),
      (natText k ++ '_' :: t).takeWhile (· != '_') = natText k := by
    intro k t
    rw [List.takeWhile_append_of_pos fun c hc => bne_iff_ne.mpr (natText_nameChar k c hc).2]
    simp
  have hnum : natText m = natText n := by rw [← htake m a, h, htake n b]
  have hmn : m = n := by
    have hread := readNat_natText m
    rw [hnum, readNat_natText] at hread
    exact (Option.some.inj hread).symm
  refine ⟨hmn, ?_⟩
  rw [hnum] at h
  exact (List.cons.inj (List.append_cancel_left h)).2

theorem aclName_inj {id id' idx idx' : Nat} (h : aclName id idx = aclName id' idx') :
    id = id' ∧ idx = idx' := by
  obtain ⟨hid, htail⟩ := natText_append_inj (List.append_cancel_left h)
  refine ⟨hid, ?_⟩
  have hread := readNat_natText idx
  rw [(List.cons.inj htail).2, readNat_natText] at hread
  exact (Option.some.inj hread).symm

/-! ### The combined condition -/

private theorem combine_spelt {v : View} {id : Nat} {cs : List RuleCondition} :
    ∀ {combined : Text} {idx : Nat} (alts : List Bool × Bool),
      Spelt v combined (alts.1 ++ [alts.2]) →
      let all := joinAlternatives alts
        ((cs.zipIdx idx).map fun c => (c.1.join, v.named (aclName id c.2)))
      Spelt v (BackendRule.combine id combined idx cs) (all.1 ++ [all.2]) := by
  induction cs with
  | nil => exact fun _ h => h
  | cons c cs ih =>
      intro combined idx alts h
      have hname := SpeltGroup.named v (aclName_bare id idx) (aclName_isName id idx)
      obtain ⟨front, last⟩ := alts
      rw [List.zipIdx_cons, List.map_cons, BackendRule.combine]
      cases hjoin : c.join with
      | and => exact ih (front, last && v.named (aclName id idx)) (h.append hname)
      | or =>
          have hor := h.or_append separator_pipes hname
          have htext : combined ++ " || ".toList ++ aclName id idx
              = combined ++ ' ' :: ("||".toList ++ ' ' :: aclName id idx) := by
            rw [List.append_assoc]
            rfl
          rw [htext]
          exact ih (front ++ [last], v.named (aclName id idx)) hor

/-- **The combined condition** spells the alternatives of the joins. -/
theorem combined_spelt (v : View) (r : BackendRule) :
    Spelt v r.combined
      ((r.alternatives fun i => v.named (aclName r.id i)).1 ++
        [(r.alternatives fun i => v.named (aclName r.id i)).2]) := by
  refine combine_spelt ([], v.named (aclName r.id 1)) ?_
  exact (SpeltGroup.named v (aclName_bare r.id 1) (aclName_isName r.id 1)).spelt

end CorexManager.Frontend
