import CorexManager.Builder.Groups
import CorexManager.Expression.Evaluate

/-!
# How the rule builder reads

The loop of `parseToGroups`, one token at a time: the parentheses are passed over, a `not`
turns the next condition around, and an `or` ends a group.

* `groupsOf_lparen`, `groupsOf_not`, `groupsOf_condition`, `after_rparen`, `after_and`,
  `after_or`: one lemma for each token.
* `Groups`, a list of groups of signed things, with what `not`, `and` and `or` do to it
  when the parentheses are gone.
-/

namespace CorexManager.Builder

open Data (Text)

/-! ### Progress -/

theorem skip_length (type : TokenType) (ts : List Token) : (skip type ts).length ≤ ts.length :=
  (List.dropWhile_sublist _).length_le

theorem operatorOf_length (field : Text) (ts : List Token) :
    (operatorOf field ts).2.2.length ≤ ts.length := by
  unfold operatorOf
  repeat' split
  all_goals simp only [List.length_cons]
  all_goals omega

theorem operand_length {negated : Bool} {ts rest : List Token} {c : Option BuilderCondition}
    (h : operand negated ts = some (c, rest)) : rest.length < ts.length := by
  have hskip := skip_length .lparen ts
  unfold operand at h
  split at h
  · cases h
  · next t us hts =>
      rw [hts, List.length_cons] at hskip
      split at h
      · cases h
        have hlen := (skip_length .rparen _).trans
          ((operatorOf_length t.value (skip .rparen us)).trans (skip_length .rparen us))
        omega
      · cases h
        omega

theorem turn_length {ts rest : List Token} {c : Option BuilderCondition}
    (h : turn ts = some (c, rest)) : rest.length < ts.length := by
  have hskip := skip_length .lparen ts
  unfold turn at h
  split at h
  · next hts =>
      rw [hts, List.length_cons] at hskip
      have hlen := operand_length h
      omega
  · exact lt_of_lt_of_le (operand_length h) hskip

/-! ### One token at a time -/

theorem delimiter_length (current : List BuilderCondition) (ts : List Token) :
    (delimiter current ts).2.2.length ≤ ts.length := by
  unfold delimiter
  split <;> simp

/-- What the loop does with the outcome of a turn. -/
def resume (current : List BuilderCondition) :
    Option (Option BuilderCondition × List Token) → List BuilderGroup
  | none => lastGroup current
  | some (none, ts) => loop ts.length current ts
  | some (some c, ts) =>
      let r := delimiter (current ++ [c]) ts
      r.1 ++ loop r.2.2.length r.2.1 r.2.2

theorem loop_fuel : ∀ (fuel : Nat) (current : List BuilderCondition) (ts : List Token),
    ts.length ≤ fuel → loop fuel current ts = loop ts.length current ts := by
  intro fuel
  induction fuel using Nat.strong_induction_on with
  | _ fuel ih =>
      intro current ts hlen
      cases fuel with
      | zero => rw [Nat.le_zero.mp hlen]
      | succ fuel =>
          cases ts with
          | nil => rfl
          | cons t ts =>
              have hts : ts.length ≤ fuel := Nat.le_of_succ_le_succ hlen
              have hsame : ∀ current rest, rest.length ≤ ts.length →
                  loop fuel current rest = loop ts.length current rest := fun current rest hrest =>
                (ih fuel (Nat.lt_succ_self _) current rest (hrest.trans hts)).trans
                  (ih ts.length (Nat.lt_succ_of_le hts) current rest hrest).symm
              rw [List.length_cons, loop, loop]
              cases hturn : turn (t :: ts) with
              | none => rfl
              | some r =>
                  obtain ⟨c, rest⟩ := r
                  have hrest := Nat.le_of_lt_succ (turn_length hturn)
                  cases c with
                  | none => exact hsame _ _ hrest
                  | some c => exact congrArg _ (hsame _ _ ((delimiter_length _ _).trans hrest))

theorem loop_eq (current : List BuilderCondition) (ts : List Token) :
    loop ts.length current ts = resume current (turn ts) := by
  cases ts with
  | nil => rfl
  | cons t ts =>
      rw [List.length_cons, loop]
      cases hturn : turn (t :: ts) with
      | none => rfl
      | some r =>
          obtain ⟨c, rest⟩ := r
          have hrest := Nat.le_of_lt_succ (turn_length hturn)
          cases c with
          | none => exact loop_fuel _ _ _ hrest
          | some c => exact congrArg _ (loop_fuel _ _ _ ((delimiter_length _ _).trans hrest))

/-- The groups the loop still adds, before a condition; `negated` after its `not`. -/
def groupsOf (current : List BuilderCondition) (negated : Bool) (ts : List Token) :
    List BuilderGroup :=
  resume current (if negated then operand true ts else turn ts)

/-- The groups the loop still adds, after a condition. -/
def after (current : List BuilderCondition) (ts : List Token) : List BuilderGroup :=
  let r := delimiter current (skip .rparen ts)
  r.1 ++ groupsOf r.2.1 false r.2.2

section

variable (current : List BuilderCondition) (negated : Bool) (value : Text) (ts : List Token)

theorem groupsOf_false : groupsOf current false ts = loop ts.length current ts :=
  (loop_eq current ts).symm

theorem groupsOf_lparen :
    groupsOf current negated (⟨.lparen, value⟩ :: ts) = groupsOf current negated ts := by
  cases negated <;> rfl

theorem groupsOf_not :
    groupsOf current negated (⟨.not, value⟩ :: ts) = groupsOf current (!negated) ts := by
  cases negated with
  | false => rfl
  | true =>
      rw [Bool.not_true, groupsOf_false]
      rfl

theorem after_rparen : after current (⟨.rparen, value⟩ :: ts) = after current ts := rfl

theorem after_and : after current (⟨.and, value⟩ :: ts) = groupsOf current false ts := rfl

theorem after_or : after current (⟨.or, value⟩ :: ts) = ⟨current⟩ :: groupsOf [] false ts := rfl

theorem after_nil : after current [] = lastGroup current := rfl

/-- The tokens of a condition. -/
inductive ConditionTokens : List Token → BuilderCondition → Prop
  | literal {word : Text} (h : lower word = "true".toList ∨ lower word = "false".toList) :
      ConditionTokens [⟨.value, word⟩] ⟨word, "literal".toList, [], false⟩
  | «exists» {field : Text} (h : ¬ (lower field = "true".toList ∨ lower field = "false".toList)) :
      ConditionTokens [⟨.field, field⟩, ⟨.operator, "exists".toList⟩]
        ⟨field, "exists".toList, [], false⟩
  | compare {field op value : Text}
      (h : ¬ (lower field = "true".toList ∨ lower field = "false".toList))
      (hop : op ≠ "exists".toList) :
      ConditionTokens [⟨.field, field⟩, ⟨.operator, op⟩, ⟨.value, value⟩] ⟨field, op, value, false⟩

theorem skip_skip (type : TokenType) : skip type (skip type ts) = skip type ts := by
  induction ts with
  | nil => rfl
  | cons t ts ih =>
      cases ht : t.type == type with
      | true => simpa [skip, ht] using ih
      | false => simp [skip, ht]

/-- A turn at a field or a value. -/
theorem groupsOf_operand {t : Token} (ht : t.type = .field ∨ t.type = .value) :
    groupsOf current negated (t :: ts) =
      let r := operatorOf t.value (skip .rparen ts)
      after (current ++ [⟨t.value, r.1, r.2.1, negated⟩]) r.2.2 := by
  obtain ⟨type, word⟩ := t
  have hoperand : operand negated (⟨type, word⟩ :: ts) =
      let r := operatorOf word (skip .rparen ts)
      some (some ⟨word, r.1, r.2.1, negated⟩, skip .rparen r.2.2) := by
    rcases ht with rfl | rfl <;> rfl
  have hturn : turn (⟨type, word⟩ :: ts) = operand false (⟨type, word⟩ :: ts) := by
    rcases ht with rfl | rfl <;> rfl
  have hsame : (if negated then operand true (⟨type, word⟩ :: ts) else turn (⟨type, word⟩ :: ts)) =
      operand negated (⟨type, word⟩ :: ts) := by
    cases negated
    · exact hturn
    · rfl
  rw [groupsOf, hsame, hoperand]
  dsimp only
  rw [resume, after, groupsOf_false]

/-- **A condition is pushed**, turned around after a `not`. -/
theorem groupsOf_condition {cts : List Token} {c : BuilderCondition} (h : ConditionTokens cts c) :
    groupsOf current negated (cts ++ ts) = after (current ++ [{ c with negated := negated }]) ts := by
  cases h with
  | literal h =>
      rw [List.singleton_append, groupsOf_operand _ _ _ (.inr rfl)]
      have hop : ∀ us, operatorOf _ us = ("literal".toList, [], us) := fun us => if_pos h
      dsimp only
      rw [hop]
      dsimp only
      rw [after, skip_skip, ← after]
  | @«exists» field h =>
      have hop : operatorOf field (⟨.operator, "exists".toList⟩ :: ts) =
          ("exists".toList, [], ts) :=
        (if_neg h).trans (if_pos rfl)
      have hskip : skip .rparen (⟨.operator, "exists".toList⟩ :: ts) =
          ⟨.operator, "exists".toList⟩ :: ts := rfl
      rw [List.cons_append, groupsOf_operand _ _ _ (.inl rfl), List.singleton_append, hskip, hop]
  | @compare field op value h hop =>
      have hvalue : operatorOf field (⟨.operator, op⟩ :: ⟨.value, value⟩ :: ts) =
          (op, value, ts) :=
        (if_neg h).trans (if_neg hop)
      have hskip : skip .rparen (⟨.operator, op⟩ :: ⟨.value, value⟩ :: ts) =
          ⟨.operator, op⟩ :: ⟨.value, value⟩ :: ts := rfl
      rw [List.cons_append, groupsOf_operand _ _ _ (.inl rfl), List.cons_append,
        List.singleton_append, hskip, hvalue]

end

/-! ### Groups of signed things -/

/-- Alternatives of signed things; `true` is for a negated one. -/
abbrev Signed (α : Type) := List (List (Bool × α))

namespace Signed

variable {α : Type}

/-- Every group has something in it. -/
structure Full (gs : Signed α) : Prop where
  ne_nil : gs ≠ []
  groups : ∀ g ∈ gs, g ≠ []

/-- A `not` that turns the first thing around, if there is one. -/
def turnFirst (negated : Bool) : Signed α → Signed α
  | ((b, x) :: g) :: gs => ((b ^^ negated, x) :: g) :: gs
  | gs => gs

/-- An `and` that joins the last group of the one and the first of the other. -/
def joined : Signed α → Signed α → Signed α
  | [], hs => hs
  | [g], [] => [g]
  | [g], h :: hs => (g ++ h) :: hs
  | g :: g' :: gs, hs => g :: joined (g' :: gs) hs

theorem joined_nil : ∀ gs : Signed α, gs.joined [] = gs
  | [] => rfl
  | [_] => rfl
  | g :: g' :: gs => congrArg (g :: ·) (joined_nil (g' :: gs))

theorem Full.turnFirst {gs : Signed α} (h : gs.Full) (negated : Bool) :
    (gs.turnFirst negated).Full := by
  match gs, h with
  | ((b, x) :: g) :: gs, h =>
      exact ⟨List.cons_ne_nil _ _, List.forall_mem_cons.mpr
        ⟨List.cons_ne_nil _ _, (List.forall_mem_cons.mp h.groups).2⟩⟩
  | [] :: gs, h => exact h
  | [], h => exact h

theorem Full.joined {gs hs : Signed α} (hg : gs.Full) (hh : hs.Full) : (gs.joined hs).Full := by
  fun_induction Signed.joined gs hs with
  | case1 => exact hh
  | case2 => exact hg
  | case3 g h hs =>
      refine ⟨List.cons_ne_nil _ _, List.forall_mem_cons.mpr
        ⟨fun hnil => ?_, (List.forall_mem_cons.mp hh.groups).2⟩⟩
      exact (List.forall_mem_cons.mp hg.groups).1 (List.append_eq_nil_iff.mp hnil).1
  | case4 hs g g' gs ih =>
      obtain ⟨hg₁, hgs⟩ := List.forall_mem_cons.mp hg.groups
      have hrec := ih ⟨List.cons_ne_nil _ _, hgs⟩ hh
      exact ⟨List.cons_ne_nil _ _, List.forall_mem_cons.mpr ⟨hg₁, hrec.groups⟩⟩

theorem Full.append {gs hs : Signed α} (hg : gs.Full) (hh : hs.Full) :
    Full (gs ++ hs : Signed α) :=
  ⟨fun hnil => hg.ne_nil (List.append_eq_nil_iff.mp hnil).1,
    List.forall_mem_append.mpr ⟨hg.groups, hh.groups⟩⟩

/-- Everything in the groups has a property, whatever its sign. -/
def Each (P : α → Prop) (gs : Signed α) : Prop := ∀ g ∈ gs, ∀ x ∈ g, P x.2

theorem Each.turnFirst {P : α → Prop} {gs : Signed α} (h : gs.Each P) (negated : Bool) :
    (gs.turnFirst negated).Each P := by
  match gs, h with
  | ((b, x) :: g) :: gs, h =>
      obtain ⟨hg, hgs⟩ := List.forall_mem_cons.mp h
      obtain ⟨hx, hxs⟩ := List.forall_mem_cons.mp hg
      exact List.forall_mem_cons.mpr ⟨List.forall_mem_cons.mpr ⟨hx, hxs⟩, hgs⟩
  | [] :: gs, h => exact h
  | [], h => exact h

theorem Each.append {P : α → Prop} {gs hs : Signed α} (hg : gs.Each P) (hh : hs.Each P) :
    Each P (gs ++ hs : Signed α) :=
  List.forall_mem_append.mpr ⟨hg, hh⟩

theorem Each.joined {P : α → Prop} {gs hs : Signed α} (hg : gs.Each P) (hh : hs.Each P) :
    (gs.joined hs).Each P := by
  fun_induction Signed.joined gs hs with
  | case1 => exact hh
  | case2 => exact hg
  | case3 g h hs =>
      obtain ⟨hh, hhs⟩ := List.forall_mem_cons.mp hh
      have hg' : ∀ x ∈ g, P x.2 := hg g List.mem_cons_self
      exact List.forall_mem_cons.mpr ⟨List.forall_mem_append.mpr ⟨hg', hh⟩, hhs⟩
  | case4 g g' gs hs ih =>
      obtain ⟨hg, hgs⟩ := List.forall_mem_cons.mp hg
      exact List.forall_mem_cons.mpr ⟨hg, ih hgs hh⟩

theorem turnFirst_turnFirst (a b : Bool) (gs : Signed α) :
    (gs.turnFirst a).turnFirst b = gs.turnFirst (a ^^ b) := by
  match gs with
  | ((c, x) :: g) :: gs => simp [turnFirst]
  | [] :: gs => rfl
  | [] => rfl

theorem turnFirst_false (gs : Signed α) : gs.turnFirst false = gs := by
  match gs with
  | ((c, x) :: g) :: gs => simp [turnFirst]
  | [] :: gs => rfl
  | [] => rfl

theorem turnFirst_joined {gs : Signed α} (h : gs.Full) (negated : Bool) (hs : Signed α) :
    (gs.joined hs).turnFirst negated = (gs.turnFirst negated).joined hs := by
  match gs, hs with
  | [], _ => exact absurd rfl h.ne_nil
  | [] :: _, _ => exact absurd rfl (h.groups [] List.mem_cons_self)
  | [(b, x) :: g], [] => rfl
  | [(b, x) :: g], h :: hs => rfl
  | ((b, x) :: g) :: g' :: gs, hs => rfl

theorem turnFirst_append {gs : Signed α} (h : gs.Full) (negated : Bool) (hs : Signed α) :
    turnFirst negated (gs ++ hs : Signed α) = (gs.turnFirst negated ++ hs : List _) := by
  match gs with
  | [] => exact absurd rfl h.ne_nil
  | [] :: _ => exact absurd rfl (h.groups [] List.mem_cons_self)
  | ((b, x) :: g) :: gs => rfl

end Signed

end CorexManager.Builder
