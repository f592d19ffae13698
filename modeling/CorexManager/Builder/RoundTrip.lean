import CorexManager.Builder.Pieces

/-!
# Opening an expression in the rule builder and saving it

The builder drops the parentheses of an expression and keeps its conditions, in groups.
An expression survives when its text is made of pieces (`Spelled`) and its parentheses do
not matter (`Node.Flat`).

* `Arranged`: the grammar once more, with the groups of the builder;
* `Arranged.groupsOf`: the builder reads these groups;
* `Arranged.evaluate`: on a flat tree they mean what the tree means;
* `Condition.lexes`: a condition that is saved is read back.
-/

namespace CorexManager.Builder

open Data (Text)
open Expression (Context Derives Keyword Leaf Level Lexes Node TokenKind connective evaluate
  evaluateAll evaluateAny evaluateLeaf leafTokens parseExpression)
open Python (Runtime UnicodeTables)

/-! ### Arrangements -/

/-- The pieces of a condition, what the builder makes of them and what the backend does. -/
structure Condition (boolFields : List Text) (ps : List Piece) (c : BuilderCondition) (l : Leaf) :
    Prop where
  tokens : ConditionTokens (ps.map Piece.token) c
  kinds : ps.flatMap Piece.kinds = leafTokens l
  formed : l.Formed boolFields

/-- A condition of the builder and of the backend. -/
abbrev Shown := BuilderCondition × Leaf

/-- An operand behind a connective: the word it is written with, its pieces, its tree and
its groups. -/
structure Operand where
  word : Text
  pieces : List Piece
  node : Node
  groups : Signed Shown

/-- The pieces of the operands behind a connective. -/
def operandPieces (k : Keyword) (qs : List Operand) : List Piece :=
  qs.flatMap fun q => .word q.word k :: q.pieces

/-- The groups of the operands of an `and`. -/
def joinedGroups (qs : List Operand) : Signed Shown :=
  qs.foldr (fun q gs => q.groups.joined gs) []

/-- The pieces `ps` are the tree `n` at a level of the grammar, and the groups `gs` are
left of it when the parentheses are dropped. -/
inductive Arranged (boolFields : List Text) : Level → List Piece → Node → Signed Shown → Prop
  | leaf {ps : List Piece} {c : BuilderCondition} {l : Leaf} (h : Condition boolFields ps c l) :
      Arranged boolFields .primary ps (.leaf l) [[(false, c, l)]]
  | paren {ps : List Piece} {n : Node} {gs : Signed Shown} (h : Arranged boolFields .or ps n gs) :
      Arranged boolFields .primary (.lparen :: ps ++ [.rparen]) n gs
  | ofPrimary {ps : List Piece} {n : Node} {gs : Signed Shown}
      (h : Arranged boolFields .primary ps n gs) : Arranged boolFields .not ps n gs
  | not {word : Text} {ps : List Piece} {n : Node} {gs : Signed Shown}
      (h : Arranged boolFields .not ps n gs) :
      Arranged boolFields .not (.word word .not :: ps) (.not n) (gs.turnFirst true)
  | and {ps : List Piece} {n : Node} {gs : Signed Shown} {qs : List Operand}
      (h : Arranged boolFields .not ps n gs)
      (hqs : ∀ q ∈ qs, Arranged boolFields .not q.pieces q.node q.groups) :
      Arranged boolFields .and (ps ++ operandPieces .and qs)
        (connective .and (n :: qs.map Operand.node)) (gs.joined (joinedGroups qs))
  | or {ps : List Piece} {n : Node} {gs : Signed Shown} {qs : List Operand}
      (h : Arranged boolFields .and ps n gs)
      (hqs : ∀ q ∈ qs, Arranged boolFields .and q.pieces q.node q.groups) :
      Arranged boolFields .or (ps ++ operandPieces .or qs)
        (connective .or (n :: qs.map Operand.node)) (gs ++ qs.flatMap Operand.groups)

section

variable {boolFields : List Text}

/-- The backend reads the tree. -/
theorem Arranged.derives {level : Level} {ps : List Piece} {n : Node} {gs : Signed Shown}
    (h : Arranged boolFields level ps n gs) :
    Derives boolFields level (ps.flatMap Piece.kinds) n := by
  have hoperands : ∀ k (qs : List Operand), (operandPieces k qs).flatMap Piece.kinds =
      Expression.operandTokens k (qs.map fun q => (q.pieces.flatMap Piece.kinds, q.node)) := by
    intro k qs
    rw [operandPieces, Expression.operandTokens, List.flatMap_assoc, List.flatMap_map]
    rfl
  have hnodes : ∀ qs : List Operand,
      (qs.map fun q => (q.pieces.flatMap Piece.kinds, q.node)).map Prod.snd =
        qs.map Operand.node := by
    intro qs
    rw [List.map_map]
    rfl
  induction h with
  | leaf h => exact h.kinds ▸ .leaf h.formed
  | paren h ih =>
      rw [List.flatMap_append, List.flatMap_cons]
      exact .paren ih
  | ofPrimary h ih => exact .ofPrimary ih
  | not h ih => exact .not ih
  | and h hqs ih ihqs =>
      rw [List.flatMap_append, hoperands, ← hnodes]
      refine .and ih fun p hp => ?_
      obtain ⟨q, hq, rfl⟩ := List.mem_map.mp hp
      exact ihqs q hq
  | or h hqs ih ihqs =>
      rw [List.flatMap_append, hoperands, ← hnodes]
      refine .or ih fun p hp => ?_
      obtain ⟨q, hq, rfl⟩ := List.mem_map.mp hp
      exact ihqs q hq

/-- No group is empty. -/
theorem Arranged.full {level : Level} {ps : List Piece} {n : Node} {gs : Signed Shown}
    (h : Arranged boolFields level ps n gs) : gs.Full := by
  induction h with
  | leaf h => exact ⟨List.cons_ne_nil _ _, List.forall_mem_singleton.mpr (List.cons_ne_nil _ _)⟩
  | paren h ih => exact ih
  | ofPrimary h ih => exact ih
  | not h ih => exact ih.turnFirst true
  | @and ps n gs qs h hqs ih ihqs =>
      have hjoined : ∀ (qs : List Operand) {gs : Signed Shown}, gs.Full →
          (∀ q ∈ qs, q.groups.Full) → (gs.joined (joinedGroups qs)).Full := by
        intro qs
        induction qs with
        | nil =>
            intro gs hgs _
            rwa [joinedGroups, List.foldr_nil, Signed.joined_nil]
        | cons q qs ih =>
            intro gs hgs hqs
            obtain ⟨hq, hqs⟩ := List.forall_mem_cons.mp hqs
            exact hgs.joined (ih hq hqs)
      exact hjoined qs ih ihqs
  | @or ps n gs qs h hqs ih ihqs =>
      refine ⟨fun hnil => ih.ne_nil (List.append_eq_nil_iff.mp hnil).1,
        List.forall_mem_append.mpr ⟨ih.groups, fun g hg => ?_⟩⟩
      obtain ⟨q, hq, hg⟩ := List.mem_flatMap.mp hg
      exact (ihqs q hq).groups g hg

/-! ### The builder reads the groups -/

/-- A condition of the builder with its sign. -/
def mark (x : Bool × Shown) : BuilderCondition := { x.2.1 with negated := x.1 }

/-- What the loop makes of groups it reads behind the conditions `current`: those that are
ended, and what `next` makes of the last. -/
def feed (next : List BuilderCondition → List BuilderGroup) :
    Signed Shown → List BuilderCondition → List BuilderGroup
  | [], current => next current
  | [g], current => next (current ++ g.map mark)
  | g :: gs, current => ⟨current ++ g.map mark⟩ :: feed next gs []

theorem feed_cons (next : List BuilderCondition → List BuilderGroup) (g : List (Bool × Shown))
    {gs : Signed Shown} (h : gs ≠ []) (current : List BuilderCondition) :
    feed next (g :: gs) current = ⟨current ++ g.map mark⟩ :: feed next gs [] := by
  obtain ⟨g', gs, rfl⟩ := List.exists_cons_of_ne_nil h
  rfl

theorem feed_joined (next : List BuilderCondition → List BuilderGroup) (gs hs : Signed Shown)
    (current : List BuilderCondition) :
    feed next (gs.joined hs) current = feed (feed next hs) gs current := by
  fun_induction Signed.joined gs hs generalizing current with
  | case1 hs => rfl
  | case2 g => rfl
  | case3 g h hs =>
      cases hs with
      | nil => simp [feed]
      | cons h' hs => simp [feed]
  | case4 g g' gs hs ih =>
      have hne : Signed.joined (g' :: gs) hs ≠ [] := by
        intro hnil
        cases gs with
        | nil => cases hs <;> cases hnil
        | cons g'' gs => cases hnil
      rw [feed_cons _ _ hne, ih, feed_cons _ _ (List.cons_ne_nil _ _)]

theorem feed_append (next : List BuilderCondition → List BuilderGroup) {gs hs : Signed Shown}
    (hgs : gs ≠ []) (hhs : hs ≠ []) (current : List BuilderCondition) :
    feed next (gs ++ hs : List _) current =
      feed (fun current => ⟨current⟩ :: feed next hs []) gs current := by
  induction gs generalizing current with
  | nil => exact absurd rfl hgs
  | cons g gs ih =>
      cases gs with
      | nil => exact feed_cons next g hhs current
      | cons g' gs =>
          have hrec := ih (List.cons_ne_nil _ _) []
          have hne : (g' :: gs ++ hs : List _) ≠ [] := List.cons_ne_nil _ _
          rw [List.cons_append, feed_cons _ _ hne, hrec, feed_cons _ _ (List.cons_ne_nil _ _)]

/-- **The builder reads the groups**, whatever stands before them and behind them. -/
theorem Arranged.groupsOf {level : Level} {ps : List Piece} {n : Node} {gs : Signed Shown}
    (h : Arranged boolFields level ps n gs) (current : List BuilderCondition) (negated : Bool)
    (rest : List Token) :
    groupsOf current negated (ps.map Piece.token ++ rest) =
      feed (fun current => after current rest) (gs.turnFirst negated) current := by
  induction h generalizing current negated rest with
  | @leaf ps c l h =>
      rw [groupsOf_condition _ _ _ h.tokens]
      simp [feed, Signed.turnFirst, mark]
  | @paren ps n gs h ih =>
      have htokens : (Piece.lparen :: ps ++ [Piece.rparen]).map Piece.token ++ rest =
          ⟨.lparen, ['(']⟩ :: (ps.map Piece.token ++ ⟨.rparen, [')']⟩ :: rest) := by
        simp [Piece.token]
      rw [htokens, groupsOf_lparen, ih]
      rfl
  | ofPrimary h ih => exact ih current negated rest
  | @not word ps n gs h ih =>
      have htokens : (Piece.word word .not :: ps).map Piece.token ++ rest =
          ⟨.not, Keyword.text .not⟩ :: (ps.map Piece.token ++ rest) := rfl
      rw [htokens, groupsOf_not, ih, Signed.turnFirst_turnFirst, Bool.true_xor]
  | @and ps n gs qs h hqs ih ihqs =>
      have hrest : ∀ (qs : List Operand) (current : List BuilderCondition),
          (∀ q ∈ qs, ∀ current negated rest,
            Builder.groupsOf current negated (q.pieces.map Piece.token ++ rest) =
              feed (fun current => after current rest) (q.groups.turnFirst negated) current) →
          after current ((operandPieces .and qs).map Piece.token ++ rest) =
            feed (fun current => after current rest) (joinedGroups qs) current := by
        intro qs
        induction qs with
        | nil => intro current _; rfl
        | cons q qs ihq =>
            intro current hall
            obtain ⟨hq, hqs⟩ := List.forall_mem_cons.mp hall
            have htokens : (operandPieces .and (q :: qs)).map Piece.token ++ rest =
                ⟨.and, Keyword.text .and⟩ :: (q.pieces.map Piece.token ++
                  ((operandPieces .and qs).map Piece.token ++ rest)) := by
              simp [operandPieces, Piece.token, Piece.keywordType]
            rw [htokens, after_and, hq, Signed.turnFirst_false, joinedGroups, List.foldr_cons,
              feed_joined]
            exact congrArg (fun next => feed next q.groups current)
              (funext fun current => ihq current hqs)
      rw [List.map_append, List.append_assoc, ih, Signed.turnFirst_joined h.full, feed_joined]
      exact congrArg (fun next => feed next (gs.turnFirst negated) current)
        (funext fun current => hrest qs current ihqs)
  | @or ps n gs qs h hqs ih ihqs =>
      have hrest : ∀ (qs : List Operand) {gs : Signed Shown} (current : List BuilderCondition),
          gs ≠ [] → (∀ q ∈ qs, q.groups ≠ []) →
          (∀ q ∈ qs, ∀ current negated rest,
            Builder.groupsOf current negated (q.pieces.map Piece.token ++ rest) =
              feed (fun current => after current rest) (q.groups.turnFirst negated) current) →
          feed (fun current => after current ((operandPieces .or qs).map Piece.token ++ rest)) gs
            current =
            feed (fun current => after current rest) (gs ++ qs.flatMap Operand.groups) current := by
        intro qs
        induction qs with
        | nil =>
            intro gs current _ _ _
            rw [List.flatMap_nil, List.append_nil]
            rfl
        | cons q qs ihq =>
            intro gs current hgs hne hall
            obtain ⟨hq, hqs⟩ := List.forall_mem_cons.mp hall
            obtain ⟨hqne, hqsne⟩ := List.forall_mem_cons.mp hne
            have htokens : (operandPieces .or (q :: qs)).map Piece.token ++ rest =
                ⟨.or, Keyword.text .or⟩ :: (q.pieces.map Piece.token ++
                  ((operandPieces .or qs).map Piece.token ++ rest)) := by
              simp [operandPieces, Piece.token, Piece.keywordType]
            rw [htokens, List.flatMap_cons, feed_append _ hgs (by simp [hqne])]
            refine congrArg (fun next => feed next gs current) (funext fun current => ?_)
            rw [after_or, hq, Signed.turnFirst_false, ihq [] hqne hqsne hqs]
      have hturned := (h.full.turnFirst negated).ne_nil
      rw [List.map_append, List.append_assoc, ih, hrest qs current hturned
        (fun q hq => (hqs q hq).full.ne_nil) ihqs]
      rw [Signed.turnFirst_append h.full]

/-! ### The groups mean what a flat tree means -/

mutual

/-- Dropping the parentheses of the tree changes nothing: no `or` stands in an `and`, and
neither stands under an odd number of `not`s.  `alternatives` is whether an `or` may stand
here, `negated` whether the number is odd. -/
def Flat (alternatives : Bool) : Bool → Node → Prop
  | _, .leaf _ => True
  | negated, .not c => Flat alternatives (!negated) c
  | negated, .and cs => negated = false ∧ AllFlat false cs
  | negated, .or cs => negated = false ∧ alternatives = true ∧ AllFlat true cs

/-- The same of every child. -/
def AllFlat (alternatives : Bool) : List Node → Prop
  | [] => True
  | c :: cs => Flat alternatives false c ∧ AllFlat alternatives cs

end

theorem allFlat_iff (alternatives : Bool) (cs : List Node) :
    AllFlat alternatives cs ↔ ∀ c ∈ cs, Flat alternatives false c := by
  induction cs with
  | nil => simp [AllFlat]
  | cons c cs ih => rw [AllFlat, ih, List.forall_mem_cons]

/-- A condition with its sign, as a tree. -/
def signedNode (x : Bool × Shown) : Node :=
  if x.1 then .not (.leaf x.2.2) else .leaf x.2.2

/-- A group as a tree. -/
def groupNode (g : List (Bool × Shown)) : Node := connective .and (g.map signedNode)

/-- The groups as a tree. -/
def groupsNode (gs : Signed Shown) : Node := connective .or (gs.map groupNode)

/-- Both are true, the second being asked for only if the first is. -/
def both : Option Bool → Option Bool → Option Bool
  | some true, s => s
  | r, _ => r

/-- One of the two is true, the second being asked for only if the first is not. -/
def either : Option Bool → Option Bool → Option Bool
  | some false, s => s
  | r, _ => r

variable {R : Runtime} {ctx : Context}

theorem evaluateAll_cons (c : Node) (cs : List Node) :
    evaluateAll R ctx (c :: cs) = both (evaluate R ctx c) (evaluateAll R ctx cs) := by
  rw [evaluateAll]
  rcases evaluate R ctx c with _ | _ | _ <;> rfl

theorem evaluateAny_cons (c : Node) (cs : List Node) :
    evaluateAny R ctx (c :: cs) = either (evaluate R ctx c) (evaluateAny R ctx cs) := by
  rw [evaluateAny]
  rcases evaluate R ctx c with _ | _ | _ <;> rfl

theorem evaluateAll_append (cs ds : List Node) : evaluateAll R ctx (cs ++ ds) =
    both (evaluateAll R ctx cs) (evaluateAll R ctx ds) := by
  induction cs with
  | nil => rfl
  | cons c cs ih =>
      rw [List.cons_append, evaluateAll_cons, evaluateAll_cons, ih]
      rcases evaluate R ctx c with _ | _ | _ <;> rfl

theorem evaluateAny_append (cs ds : List Node) : evaluateAny R ctx (cs ++ ds) =
    either (evaluateAny R ctx cs) (evaluateAny R ctx ds) := by
  induction cs with
  | nil => rfl
  | cons c cs ih =>
      rw [List.cons_append, evaluateAny_cons, evaluateAny_cons, ih]
      rcases evaluate R ctx c with _ | _ | _ <;> rfl

/-- A connective of one operand is the operand. -/
theorem evaluate_and {cs : List Node} (h : cs ≠ []) :
    evaluate R ctx (connective .and cs) = evaluateAll R ctx cs := by
  match cs with
  | [] => exact absurd rfl h
  | [c] =>
      rw [evaluateAll_cons, connective]
      rcases evaluate R ctx c with _ | _ | _ <;> rfl
  | c :: d :: cs => simp only [connective, evaluate]

theorem evaluate_or {cs : List Node} (h : cs ≠ []) :
    evaluate R ctx (connective .or cs) = evaluateAny R ctx cs := by
  match cs with
  | [] => exact absurd rfl h
  | [c] =>
      rw [evaluateAny_cons, connective]
      rcases evaluate R ctx c with _ | _ | _ <;> rfl
  | c :: d :: cs => simp only [connective, evaluate]

/-- What groups mean. -/
def meaning (R : Runtime) (ctx : Context) (gs : Signed Shown) : Option Bool :=
  evaluateAny R ctx (gs.map groupNode)

theorem meaning_single {g : List (Bool × Shown)} (h : g ≠ []) :
    meaning R ctx [g] = evaluateAll R ctx (g.map signedNode) := by
  have hg : evaluate R ctx (groupNode g) = evaluateAll R ctx (g.map signedNode) :=
    evaluate_and (by simpa using h)
  rw [meaning, List.map_singleton, evaluateAny_cons, hg]
  rcases evaluateAll R ctx (g.map signedNode) with _ | _ | _ <;> rfl

theorem meaning_append (gs hs : Signed Shown) :
    meaning R ctx (gs ++ hs : List _) = either (meaning R ctx gs) (meaning R ctx hs) := by
  rw [meaning, List.map_append, evaluateAny_append]
  rfl

/-- A connective is flat if its operands are. -/
theorem flat_connective {alternatives negated : Bool} {node : List Node → Node} {n : Node}
    {ns : List Node} (h : Flat alternatives negated (connective node (n :: ns))) :
    (ns = [] ∧ Flat alternatives negated n) ∨ Flat alternatives negated (node (n :: ns)) := by
  cases ns with
  | nil => exact .inl ⟨rfl, h⟩
  | cons c cs => exact .inr h

/-- The operands of an `and` that are one group each are one group together. -/
theorem joined_single : ∀ (qs : List Operand) {g : List (Bool × Shown)}, g ≠ [] →
    (∀ q ∈ qs, ∃ h, h ≠ [] ∧ q.groups = [h] ∧
      evaluate R ctx q.node = evaluateAll R ctx (h.map signedNode)) →
    ∃ h, h ≠ [] ∧ Signed.joined [g] (joinedGroups qs) = [h] ∧
      evaluateAll R ctx (h.map signedNode) =
        both (evaluateAll R ctx (g.map signedNode)) (evaluateAll R ctx (qs.map Operand.node)) := by
  intro qs
  induction qs with
  | nil =>
      intro g hg _
      refine ⟨g, hg, rfl, ?_⟩
      rw [List.map_nil, evaluateAll]
      rcases evaluateAll R ctx (g.map signedNode) with _ | _ | _ <;> rfl
  | cons q qs ih =>
      intro g hg hall
      obtain ⟨⟨h, hh, hgroups, hq⟩, hqs⟩ := List.forall_mem_cons.mp hall
      obtain ⟨h', -, hjoined, heval⟩ := ih hh hqs
      refine ⟨g ++ h', fun hnil => hg (List.append_eq_nil_iff.mp hnil).1, ?_, ?_⟩
      · rw [joinedGroups, List.foldr_cons, hgroups, ← joinedGroups, hjoined]
        rfl
      · rw [List.map_append, evaluateAll_append, heval, List.map_cons, evaluateAll_cons, hq]

/-- The operands of an `or` are alternatives together. -/
theorem meaning_operands (gs : Signed Shown) : ∀ qs : List Operand,
    (∀ q ∈ qs, evaluate R ctx q.node = meaning R ctx q.groups) →
    meaning R ctx (gs ++ qs.flatMap Operand.groups : List _) =
      either (meaning R ctx gs) (evaluateAny R ctx (qs.map Operand.node)) := by
  intro qs hall
  rw [meaning_append]
  congr 1
  induction qs with
  | nil => rfl
  | cons q qs ih =>
      obtain ⟨hq, hqs⟩ := List.forall_mem_cons.mp hall
      have happend := @meaning_append R ctx q.groups (qs.flatMap Operand.groups)
      rw [List.flatMap_cons, happend, ih hqs, List.map_cons, evaluateAny_cons, hq]

/-- **The groups of a flat tree mean what it means.** -/
theorem Arranged.evaluate {level : Level} {ps : List Piece} {n : Node} {gs : Signed Shown}
    (h : Arranged boolFields level ps n gs) {alternatives negated : Bool}
    (hflat : Flat alternatives negated n) :
    (alternatives = false → ∃ g, gs.turnFirst negated = [g]) ∧
      evaluate R ctx n = (meaning R ctx (gs.turnFirst negated)).map (negated ^^ ·) := by
  induction h generalizing alternatives negated with
  | @leaf ps c l h =>
      refine ⟨fun _ => ⟨_, rfl⟩, ?_⟩
      rw [Signed.turnFirst, meaning_single (List.cons_ne_nil _ _), List.map_singleton,
        evaluateAll_cons]
      cases negated with
      | false =>
          have hl : signedNode (false ^^ false, c, l) = .leaf l := rfl
          rw [hl]
          rcases Expression.evaluate R ctx (.leaf l) with _ | _ | _ <;> rfl
      | true =>
          have hl : signedNode (false ^^ true, c, l) = .not (.leaf l) := rfl
          rw [hl, Expression.evaluate]
          rcases Expression.evaluate R ctx (.leaf l) with _ | _ | _ <;> rfl
  | paren h ih => exact ih hflat
  | ofPrimary h ih => exact ih hflat
  | @not word ps n gs h ih =>
      obtain ⟨hsingle, heval⟩ := ih hflat
      rw [Signed.turnFirst_turnFirst, Bool.true_xor]
      refine ⟨hsingle, ?_⟩
      rw [Expression.evaluate, heval, Option.map_map]
      congr 1
      funext b
      cases negated <;> cases b <;> rfl
  | @and ps n gs qs h hqs ih ihqs =>
      rcases flat_connective hflat with ⟨hnil, hn⟩ | hall
      · obtain rfl : qs = [] := List.map_eq_nil_iff.mp hnil
        rw [joinedGroups, List.foldr_nil, Signed.joined_nil]
        exact ih hn
      · obtain ⟨rfl, hn, hns⟩ := hall
        have hns' := (allFlat_iff _ _).mp hns
        obtain ⟨hsingle, heval⟩ := ih hn
        obtain ⟨g, hg⟩ := hsingle rfl
        rw [Signed.turnFirst_false] at hg heval
        subst hg
        have hgne : g ≠ [] := h.full.groups g List.mem_cons_self
        rw [meaning_single hgne] at heval
        have hoperands : ∀ q ∈ qs, ∃ j, j ≠ [] ∧ q.groups = [j] ∧
            Expression.evaluate R ctx q.node = evaluateAll R ctx (j.map signedNode) := by
          intro q hq
          obtain ⟨hsingle, heval⟩ := ihqs q hq (hns' _ (List.mem_map_of_mem hq))
          obtain ⟨j, hj⟩ := hsingle rfl
          rw [Signed.turnFirst_false] at hj heval
          have hjne : j ≠ [] := (hqs q hq).full.groups j (hj ▸ List.mem_cons_self)
          refine ⟨j, hjne, hj, ?_⟩
          rw [heval, hj, meaning_single hjne]
          simp
        obtain ⟨j, hj, hjoined, hmeaning⟩ := joined_single qs hgne hoperands
        rw [hjoined, Signed.turnFirst_false]
        refine ⟨fun _ => ⟨j, rfl⟩, ?_⟩
        rw [evaluate_and (List.cons_ne_nil _ _), evaluateAll_cons, heval, meaning_single hj, hmeaning]
        simp
  | @or ps n gs qs h hqs ih ihqs =>
      rcases flat_connective hflat with ⟨hnil, hn⟩ | hall
      · obtain rfl : qs = [] := List.map_eq_nil_iff.mp hnil
        rw [List.flatMap_nil, List.append_nil]
        exact ih hn
      · obtain ⟨rfl, rfl, hn, hns⟩ := hall
        have hns' := (allFlat_iff _ _).mp hns
        have heval := (ih hn).2
        have hoperands : ∀ q ∈ qs,
            Expression.evaluate R ctx q.node = meaning R ctx q.groups := by
          intro q hq
          have heval := (ihqs q hq (hns' _ (List.mem_map_of_mem hq))).2
          rw [Signed.turnFirst_false] at heval
          simpa using heval
        rw [Signed.turnFirst_false] at heval ⊢
        refine ⟨fun hfalse => absurd hfalse (by decide), ?_⟩
        rw [evaluate_or (List.cons_ne_nil _ _), evaluateAny_cons, heval,
          meaning_operands gs qs hoperands]
        simp

end

/-! ### Saved values -/

theorem trim_eq {t : Text} (hfirst : ∀ c ∈ t.head?, isSpace c = false)
    (hlast : ∀ c ∈ t.getLast?, isSpace c = false) : trim t = t := by
  have hkeep : ∀ s : Text, (∀ c ∈ s.head?, isSpace c = false) → s.dropWhile isSpace = s := by
    intro s hs
    cases s with
    | nil => rfl
    | cons c s => rw [List.dropWhile_cons_of_neg (by simp [hs c rfl])]
  rw [trim, hkeep t hfirst, hkeep t.reverse (by rwa [List.head?_reverse]), List.reverse_reverse]

theorem isSpace_word {c : Char} (h : isRef c = true) : isSpace c = false := by
  have hclass : isWord c = true ∨ c = ':' := by simpa [isRef] using h
  rcases hclass with hword | rfl
  · exact (isWord_plain hword).1
  · decide

/-- A text of word characters has no blank at its ends. -/
theorem trim_word {t : Text} (h : ∀ c ∈ t, isRef c = true) : trim t = t :=
  trim_eq (fun c hc => isSpace_word (h c (List.mem_of_mem_head? hc)))
    fun c hc => isSpace_word (h c (List.mem_of_mem_getLast? hc))

theorem between_word {t : Text} (h : ∀ c ∈ t, isRef c = true) {q : Char} (hq : isRef q = false)
    (d : Char) : between q d t = false := by
  have hne : t.head? ≠ some q := by
    intro hhead
    rw [h q (List.mem_of_mem_head? hhead)] at hq
    cases hq
  simp [between, hne]

theorem isRef_of_digit {c : Char} (h : c.isDigit = true) : isRef c = true := by
  simp [isRef, isWord_of_digit h]

/-- A number is written as it is. -/
theorem serializeValue_number {t ds : Text} (hds : isDigits ds = true) (ht : t = ds ∨ t = '-' :: ds) :
    serializeValue t = t := by
  obtain ⟨hne, hall⟩ := isDigits_iff.mp hds
  have hword : ∀ c ∈ t, isRef c = true := by
    rcases ht with rfl | rfl
    · exact fun c hc => isRef_of_digit (hall c hc)
    · exact List.forall_mem_cons.mpr ⟨rfl, fun c hc => isRef_of_digit (hall c hc)⟩
  have hsign : (if t.head? = some '-' then t.tail else t) = ds := by
    rcases ht with rfl | rfl
    · refine if_neg fun hhead => ?_
      have hdigit := hall '-' (List.mem_of_mem_head? hhead)
      exact absurd hdigit (by decide)
    · rfl
  have hnumber : isNumber t = true := by
    obtain ⟨htake, hdrop⟩ := Data.takeWhile_of_boundary [] hall (by simp)
    rw [List.append_nil] at htake hdrop
    unfold isNumber
    rw [hsign]
    dsimp only
    rw [hdrop, htake]
    exact hds
  rw [serializeValue, trim_word hword, between_word hword rfl, between_word hword rfl, hnumber]
  rfl

/-- The number of an autonomous system is written as it is. -/
theorem serializeValue_asNumber {head digits : Text} (hhead : lower head = ['a', 's'])
    (hdigits : isDigits digits = true) : serializeValue (head ++ digits) = head ++ digits := by
  obtain ⟨hne, hall⟩ := isDigits_iff.mp hdigits
  have hword : ∀ c ∈ head ++ digits, isRef c = true := by
    refine List.forall_mem_append.mpr ⟨fun c hc => ?_, fun c hc => isRef_of_digit (hall c hc)⟩
    simp [isRef, isWord_of_head hhead c hc]
  have hlen : head.length = 2 := by simpa [lower] using congrArg List.length hhead
  have hnumber : isAsNumber (head ++ digits) = true := by
    rw [isAsNumber, ← hlen, List.take_left, List.drop_left, hhead, hdigits]
    rfl
  rw [serializeValue, trim_word hword, between_word hword rfl, between_word hword rfl, hnumber]
  simp

/-- A reference is written as it is. -/
theorem serializeValue_listref {t : Text} (h : ∀ c ∈ t, isRef c = true) :
    serializeValue ('$' :: t) = '$' :: t := by
  have htrim : trim ('$' :: t) = '$' :: t := by
    refine trim_eq (by simp [isSpace]) fun c hc => ?_
    rcases List.mem_cons.mp (List.mem_of_mem_getLast? hc) with rfl | hc
    · decide
    · exact isSpace_word (h c hc)
  have hnumber : isNumber ('$' :: t) = false := rfl
  rw [serializeValue, htrim, hnumber]
  simp [between]

/-- A list is written as it is. -/
theorem serializeValue_list (body : Text) :
    serializeValue ('[' :: (body ++ [']'])) = '[' :: (body ++ [']']) := by
  have hlast : ('[' :: body ++ [']']).getLast? = some ']' := List.getLast?_concat
  rw [List.cons_append] at hlast
  have htrim : trim ('[' :: (body ++ [']'])) = '[' :: (body ++ [']']) := by
    refine trim_eq (by rintro c hc; cases hc; decide) fun c hc => ?_
    rw [hlast] at hc
    obtain rfl := Option.some.inj hc
    decide
  rw [serializeValue, htrim]
  simp [between, hlast, isNumber, isAsNumber, lower]

/-- A string that survives is written in quotes, or is the number of an autonomous
system. -/
theorem serializeValue_string {s : Text} (h : Survives s) :
    serializeValue s = if isAsNumber s then s else Expression.quote s := by
  have hliteral : ¬ (s = "true".toList ∨ s = "false".toList) := not_or.mpr h.literal
  rw [serializeValue, trim_eq h.first h.last]
  rw [h.quotes.1, h.quotes.2, h.number, h.list, if_neg hliteral, if_neg h.reference]
  rfl

/-! ### Saved texts -/

section

variable {U : UnicodeTables} {boolFields : List Text}

/-- The text is read as the tokens, in front of a blank and at the end. -/
def Reads (U : UnicodeTables) (t : Text) (ks : List TokenKind) : Prop :=
  ∀ rest ls, (∀ c ∈ rest.head?, c = ' ') → Lexes U rest ls → Lexes U (t ++ rest) (ks ++ ls)

theorem apart_of_blank {rest : Text} (h : ∀ c ∈ rest.head?, c = ' ') : Apart U rest := by
  constructor
  · intro c hc
    rw [h c hc]
    exact ⟨rfl, rfl, by decide⟩
  · intro hc
    exact absurd (h '[' hc) (by decide)

theorem Reads.blank {t : Text} {ks : List TokenKind} (h : Reads U t ks) : Reads U (' ' :: t) ks :=
  fun rest ls hrest hls => (h rest ls hrest hls).blank

/-- Two texts with a blank between them. -/
theorem Reads.append {s t : Text} {ks ls : List TokenKind} (hs : Reads U s ks) (ht : Reads U t ls) :
    Reads U (s ++ ' ' :: t) (ks ++ ls) := by
  intro rest ms hrest hms
  rw [List.append_assoc, List.append_assoc]
  exact hs _ _ (by rintro c hc; cases hc; rfl) (ht.blank rest ms hrest hms)

theorem reads_keyword (k : Keyword) : Reads U k.text [.keyword k] := by
  intro rest ls hrest hls
  exact lexes_word (by cases k <;> rfl) (apart_of_blank hrest).1 hls

/-- Texts with a keyword between them. -/
theorem reads_join (k : Keyword) : ∀ xs : List (Text × List TokenKind),
    (∀ x ∈ xs, Reads U x.1 x.2) →
    Reads U (join (' ' :: k.text ++ [' ']) (xs.map Prod.fst))
      (Expression.joinOperands k (xs.map Prod.snd)) := by
  intro xs hall
  cases xs with
  | nil => exact fun rest ls _ hls => hls
  | cons x xs =>
      obtain ⟨hx, hxs⟩ := List.forall_mem_cons.mp hall
      rw [List.map_cons, List.map_cons, join, Expression.joinOperands]
      have hrest : ∀ (xs : List (Text × List TokenKind)) (t : Text) (ks : List TokenKind),
          Reads U t ks → (∀ x ∈ xs, Reads U x.1 x.2) →
          Reads U (t ++ (xs.map Prod.fst).flatMap ((' ' :: k.text ++ [' ']) ++ ·))
            (ks ++ (xs.map Prod.snd).flatMap fun js => .keyword k :: js) := by
        intro xs
        induction xs with
        | nil =>
            intro t ks ht _
            simpa using ht
        | cons y ys ih =>
            intro t ks ht hys
            obtain ⟨hy, hys⟩ := List.forall_mem_cons.mp hys
            have hty := ht.append ((reads_keyword k).append hy)
            have hmore := ih _ _ hty hys
            simpa using hmore
      exact hrest xs x.1 x.2 hx hxs

/-- A field is saved as it was. -/
theorem Piece.Legible.reads_field {p : Piece} (h : p.Legible U) (hp : p.token.type = .field) :
    Reads U p.token.value p.kinds := by
  intro rest ls hrest hls
  have hapart := apart_of_blank (U := U) hrest
  cases p with
  | name t => exact h.lexes (show Piece.Fits U none rest (.name t) from ⟨nofun, hapart⟩) hls
  | keyed t body key =>
      exact h.lexes (show Piece.Fits U none rest (.keyed t body key) from ⟨nofun, hapart.2⟩) hls
  | word t k => cases k <;> cases hp
  | _ => cases hp

/-- An operator is saved as it was, in lower case. -/
theorem Piece.Legible.reads_operator {p : Piece} (h : p.Legible U)
    (hp : p.token.type = .operator) : Reads U p.token.value p.kinds := by
  cases p with
  | word t k => exact reads_keyword k
  | symbol o =>
      intro rest ls hrest hls
      have hhead : rest.head? ≠ some '=' := fun hc => absurd (hrest '=' hc) (by decide)
      exact h.lexes (show Piece.Fits U none rest (.symbol o) from hhead) hls
  | _ => cases hp

/-- A value is saved so that it is read as it was. -/
theorem Piece.Legible.reads_value {p : Piece} (h : p.Legible U) (hp : p.token.type = .value) :
    p.token.value ≠ [] ∧ Reads U (serializeValue p.token.value) p.kinds := by
  cases p with
  | word t k =>
      cases k with
      | true => exact ⟨nofun, reads_keyword .true⟩
      | false => exact ⟨nofun, reads_keyword .false⟩
      | _ => cases hp
  | number t n =>
      obtain ⟨ds, k, hds, hk, hcases⟩ := id h
      have ht : t = ds ∨ t = '-' :: ds := hcases.imp And.left And.left
      refine ⟨?_, ?_⟩
      · rintro rfl
        rcases ht with rfl | ht
        · cases hds
        · cases ht
      · intro rest ls hrest hls
        have htext : serializeValue (Piece.number t n).token.value = t := serializeValue_number hds ht
        rw [htext]
        exact h.lexes (show Piece.Fits U (some .operator) rest (.number t n) from
          ⟨rfl, apart_of_blank hrest⟩) hls
  | asNumber head digits =>
      refine ⟨fun hnil => ?_, ?_⟩
      · have hdigits : digits = [] := (List.append_eq_nil_iff.mp hnil).2
        rw [hdigits] at h
        cases h.2
      · intro rest ls hrest hls
        have htext : serializeValue (Piece.asNumber head digits).token.value = head ++ digits :=
          serializeValue_asNumber h.1 h.2
        rw [htext]
        exact h.lexes (show Piece.Fits U (some .operator) rest (.asNumber head digits) from
          ⟨rfl, apart_of_blank hrest⟩) hls
  | quoted quote body value =>
      obtain ⟨-, -, hsurvives⟩ := h
      refine ⟨hsurvives.ne_nil, ?_⟩
      have htext : serializeValue (Piece.quoted quote body value).token.value =
          if isAsNumber value then value else Expression.quote value :=
        serializeValue_string hsurvives
      rw [htext]
      by_cases has : isAsNumber value = true
      · rw [if_pos has]
        obtain ⟨hhead, hdigits⟩ := Bool.and_eq_true_iff.mp has
        have hupper := hsurvives.asNumber has
        have hvalue : 'A' :: 'S' :: value.drop 2 = value := by
          have hsplit := List.take_append_drop 2 value
          rwa [hupper] at hsplit
        intro rest ls hrest hls
        have hlex := @lexes_asNumber U ['A', 'S'] _ _ _ rfl hdigits (apart_of_blank hrest).1 hls
        have htext : ['A', 'S'] ++ value.drop 2 = value := hvalue
        rw [htext, hvalue] at hlex
        exact hlex
      · rw [if_neg has]
        intro rest ls hrest hls
        refine Lexes.spell (k := .string value) trivial rest (fun _ _ c hc => ?_) hls
        rw [hrest c hc]
        decide
  | listref listType listName =>
      refine ⟨nofun, ?_⟩
      have hall : ∀ c ∈ listType ++ ':' :: listName, isRef c = true :=
        List.forall_mem_append.mpr ⟨h.2.1, List.forall_mem_cons.mpr ⟨rfl, h.2.2⟩⟩
      have htext : serializeValue (Piece.listref listType listName).token.value =
          '$' :: (listType ++ ':' :: listName) := serializeValue_listref hall
      intro rest ls hrest hls
      rw [htext]
      exact h.lexes (show Piece.Fits U none rest (.listref listType listName) from
        apart_of_blank hrest) hls
  | list body values =>
      refine ⟨nofun, ?_⟩
      have htext : serializeValue (Piece.list body values).token.value = '[' :: (body ++ [']']) :=
        serializeValue_list body
      intro rest ls hrest hls
      rw [htext]
      exact h.lexes (show Piece.Fits U (some .operator) rest (.list body values) from rfl) hls
  | _ => cases hp

/-- The tokens of a condition with its sign. -/
def signTokens (x : Bool × Shown) : List TokenKind :=
  Expression.notTokens x.1 ++ leafTokens x.2.2

/-- A word that is alone is `true` or `false`. -/
theorem reads_literal {p : Piece} (hp : p.Legible U) (htype : p.token.type = .value) {l : Leaf}
    (hl : l.Formed boolFields) (hkinds : p.kinds = leafTokens l) :
    Reads U p.token.value p.kinds := by
  have hhead : ∀ k rest, p.kinds = k :: rest → (∃ t, k = .ident t) ∨ ∃ w, k = .keyword w := by
    intro k rest hk
    rw [hkinds] at hk
    cases hlit : l.isLiteral with
    | false =>
        obtain ⟨name, more, hident⟩ := Expression.leafTokens_head hl hlit
        rw [hident] at hk
        exact .inl ⟨name, (List.cons.inj hk).1.symm⟩
    | true =>
        obtain ⟨kind, negated⟩ := l
        cases kind with
        | literal b => cases b <;> exact .inr ⟨_, (List.cons.inj hk).1.symm⟩
        | _ => cases hlit
  cases p with
  | word t k => exact reads_keyword k
  | number t n => simpa using hhead _ _ rfl
  | asNumber head digits => simpa using hhead _ _ rfl
  | quoted quote body value => simpa using hhead _ _ rfl
  | listref listType listName => simpa using hhead _ _ rfl
  | list body values => simpa using hhead _ _ rfl
  | _ => cases htype

theorem forall_mem_pair {α : Type*} {p : α → Prop} {a b : α} :
    (∀ x ∈ [a, b], p x) ↔ p a ∧ p b := by
  rw [List.forall_mem_cons, List.forall_mem_singleton]

theorem map_eq_pair {α β : Type*} {f : α → β} {xs : List α} {a b : β} (h : xs.map f = [a, b]) :
    ∃ x y, xs = [x, y] ∧ f x = a ∧ f y = b := by
  obtain ⟨x, ys, rfl, hx, hys⟩ := List.map_eq_cons_iff.mp h
  obtain ⟨y, rfl, hy⟩ := List.map_eq_singleton_iff.mp hys
  exact ⟨x, y, rfl, hx, hy⟩

theorem map_eq_triple {α β : Type*} {f : α → β} {xs : List α} {a b c : β}
    (h : xs.map f = [a, b, c]) : ∃ x y z, xs = [x, y, z] ∧ f x = a ∧ f y = b ∧ f z = c := by
  obtain ⟨x, ys, rfl, hx, hys⟩ := List.map_eq_cons_iff.mp h
  obtain ⟨y, z, rfl, hy, hz⟩ := map_eq_pair hys
  exact ⟨x, y, z, rfl, hx, hy, hz⟩

theorem join_cons (s t : Text) (ts : List Text) :
    join [' '] (s :: t :: ts) = s ++ ' ' :: join [' '] (t :: ts) := by
  simp [join]

theorem join_single (t : Text) : join [' '] [t] = t := List.append_nil t

/-- The word `not` goes in front of what is saved of the condition itself. -/
theorem serializeCondition_negated (field op value : Text) :
    serializeCondition ⟨field, op, value, true⟩ =
      "not".toList ++ ' ' :: serializeCondition ⟨field, op, value, false⟩ := by
  unfold serializeCondition
  dsimp only
  by_cases hliteral : op = "literal".toList
  · rw [if_pos hliteral, if_pos hliteral]
    exact join_cons _ _ _
  · rw [if_neg hliteral, if_neg hliteral]
    by_cases hexists : op = "exists".toList
    · rw [if_pos hexists, if_pos hexists]
      exact join_cons _ _ _
    · rw [if_neg hexists, if_neg hexists]
      by_cases hvalue : value = []
      · rw [if_pos hvalue, if_pos hvalue]
        exact join_cons _ _ _
      · rw [if_neg hvalue, if_neg hvalue]
        exact join_cons _ _ _

theorem operator_ne_literal {p : Piece} (hp : p.token.type = .operator) :
    p.token.value ≠ "literal".toList := by
  cases p with
  | word t k =>
      have hne : k.text ≠ "literal".toList := by cases k <;> decide
      exact hne
  | symbol o =>
      have hne : Expression.opText o ≠ "literal".toList := by cases o <;> decide
      exact hne
  | _ => cases hp

/-- **A condition that is saved is read back**, with its sign. -/
theorem Condition.reads {ps : List Piece} {c : BuilderCondition} {l : Leaf}
    (h : Condition boolFields ps c l) (hps : ∀ p ∈ ps, p.Legible U) (negated : Bool) :
    serializeCondition (mark (negated, c, l)) ≠ [] ∧
      Reads U (serializeCondition (mark (negated, c, l))) (signTokens (negated, c, l)) := by
  have hbody : serializeCondition (mark (false, c, l)) ≠ [] ∧
      Reads U (serializeCondition (mark (false, c, l))) (leafTokens l) := by
    have hkinds := h.kinds
    have htokens := h.tokens
    generalize hts : ps.map Piece.token = ts at htokens
    cases htokens with
    | @literal word hword =>
        obtain ⟨p, rfl, hp⟩ := List.map_eq_singleton_iff.mp hts
        rw [List.flatMap_singleton] at hkinds
        have hreads := reads_literal (hps p List.mem_cons_self) (by rw [hp]) h.formed hkinds
        rw [hp, hkinds] at hreads
        have htext : serializeCondition ⟨word, "literal".toList, [], false⟩ = word := join_single word
        rw [mark, htext]
        refine ⟨?_, hreads⟩
        rintro rfl
        rcases hword with hword | hword <;> cases hword
    | @«exists» field hfield =>
        obtain ⟨p, o, rfl, hp, ho⟩ := map_eq_pair hts
        obtain ⟨hplegible, holegible⟩ := forall_mem_pair.mp hps
        have hfieldReads := hplegible.reads_field (by rw [hp])
        have hopReads := holegible.reads_operator (by rw [ho])
        rw [hp] at hfieldReads
        rw [ho] at hopReads
        have hall := hfieldReads.append hopReads
        have hflat : p.kinds ++ o.kinds = leafTokens l := by simpa using hkinds
        rw [hflat] at hall
        have htext : serializeCondition ⟨field, "exists".toList, [], false⟩ =
            field ++ ' ' :: "exists".toList :=
          (join_cons field "exists".toList []).trans (by rw [join_single])
        rw [mark, htext]
        exact ⟨by simp, hall⟩
    | @compare field op value hfield hop =>
        obtain ⟨p, o, v, rfl, hp, ho, hv⟩ := map_eq_triple hts
        obtain ⟨hplegible, hmore⟩ := List.forall_mem_cons.mp hps
        obtain ⟨holegible, hvlegible⟩ := forall_mem_pair.mp hmore
        have hfieldReads := hplegible.reads_field (by rw [hp])
        have hopReads := holegible.reads_operator (by rw [ho])
        have hvalueReads := hvlegible.reads_value (by rw [hv])
        have hliteral := operator_ne_literal (p := o) (by rw [ho])
        rw [hp] at hfieldReads
        rw [ho] at hopReads hliteral
        rw [hv] at hvalueReads
        have hall := hfieldReads.append (hopReads.append hvalueReads.2)
        have hflat : p.kinds ++ (o.kinds ++ v.kinds) = leafTokens l := by simpa using hkinds
        rw [hflat] at hall
        have htext : serializeCondition ⟨field, op, value, false⟩ =
            field ++ ' ' :: (op ++ ' ' :: serializeValue value) := by
          unfold serializeCondition
          dsimp only
          rw [if_neg hliteral, if_neg hop, if_neg hvalueReads.1]
          refine (join_cons _ _ _).trans ?_
          rw [join_cons, join_single]
        rw [mark, htext]
        exact ⟨by simp, hall⟩
  cases negated with
  | false => exact hbody
  | true =>
      have hnot : Reads U (Keyword.text .not ++ ' ' :: serializeCondition (mark (false, c, l)))
          ([.keyword .not] ++ leafTokens l) := (reads_keyword .not).append hbody.2
      rw [mark, serializeCondition_negated]
      exact ⟨List.append_ne_nil_of_right_ne_nil _ (List.cons_ne_nil _ _), hnot⟩

theorem each_joinedGroups {P : Shown → Prop} : ∀ {qs : List Operand},
    (∀ q ∈ qs, q.groups.Each P) → (joinedGroups qs).Each P := by
  intro qs
  induction qs with
  | nil => exact fun _ => nofun
  | cons q qs ih =>
      intro h
      obtain ⟨hq, hqs⟩ := List.forall_mem_cons.mp h
      exact hq.joined (ih hqs)

/-- The conditions of the groups are conditions of the text. -/
theorem Arranged.conditions {level : Level} {ps : List Piece} {n : Node} {gs : Signed Shown}
    (h : Arranged boolFields level ps n gs) (hps : ∀ p ∈ ps, p.Legible U) :
    gs.Each fun x => ∃ qs, Condition boolFields qs x.1 x.2 ∧ ∀ q ∈ qs, q.Legible U := by
  have hoperands : ∀ {k : Keyword} {qs : List Operand},
      (∀ p ∈ operandPieces k qs, p.Legible U) → ∀ q ∈ qs, ∀ p ∈ q.pieces, p.Legible U :=
    fun h q hq p hp => h p (List.mem_flatMap.mpr ⟨q, hq, List.mem_cons_of_mem _ hp⟩)
  induction h with
  | leaf h =>
      refine List.forall_mem_singleton.mpr (List.forall_mem_singleton.mpr ⟨_, h, hps⟩)
  | paren h ih => exact ih fun p hp => hps p (by simp [hp])
  | ofPrimary h ih => exact ih hps
  | not h ih => exact (ih fun p hp => hps p (List.mem_cons_of_mem _ hp)).turnFirst true
  | @and ps n gs qs h hqs ih ihqs =>
      obtain ⟨hps, hmore⟩ := List.forall_mem_append.mp hps
      exact (ih hps).joined (each_joinedGroups fun q hq => ihqs q hq (hoperands hmore q hq))
  | @or ps n gs qs h hqs ih ihqs =>
      obtain ⟨hps, hmore⟩ := List.forall_mem_append.mp hps
      refine (ih hps).append fun g hg => ?_
      obtain ⟨q, hq, hg⟩ := List.mem_flatMap.mp hg
      exact ihqs q hq (hoperands hmore q hq) g hg

/-- The tokens of a group. -/
def groupTokens (g : List (Bool × Shown)) : List TokenKind :=
  Expression.joinOperands .and (g.map signTokens)

/-- The tokens of groups. -/
def groupsTokens (gs : Signed Shown) : List TokenKind :=
  Expression.joinOperands .or (gs.map groupTokens)

/-- Operands that are derived are derived together. -/
theorem derives_join {α : Type} {f : α → List TokenKind} {node : α → Node} :
    (∀ {x : α} {xs : List α}, (∀ y ∈ x :: xs, Derives boolFields .not (f y) (node y)) →
      Derives boolFields .and (Expression.joinOperands .and ((x :: xs).map f))
        (connective .and ((x :: xs).map node))) ∧
    ∀ {x : α} {xs : List α}, (∀ y ∈ x :: xs, Derives boolFields .and (f y) (node y)) →
      Derives boolFields .or (Expression.joinOperands .or ((x :: xs).map f))
        (connective .or ((x :: xs).map node)) := by
  have htokens : ∀ (k : Keyword) (x : α) (xs : List α),
      Expression.joinOperands k ((x :: xs).map f) =
        f x ++ Expression.operandTokens k (xs.map fun y => (f y, node y)) := by
    intro k x xs
    rw [List.map_cons, Expression.joinOperands, Expression.operandTokens, List.flatMap_map,
      List.flatMap_map]
  have hnodes : ∀ xs : List α, xs.map node = (xs.map fun y => (f y, node y)).map Prod.snd := by
    intro xs
    rw [List.map_map]
    rfl
  constructor
  · intro x xs h
    obtain ⟨hx, hxs⟩ := List.forall_mem_cons.mp h
    rw [htokens, List.map_cons, hnodes]
    refine .and hx fun p hp => ?_
    obtain ⟨y, hy, rfl⟩ := List.mem_map.mp hp
    exact hxs y hy
  · intro x xs h
    obtain ⟨hx, hxs⟩ := List.forall_mem_cons.mp h
    rw [htokens, List.map_cons, hnodes]
    refine .or hx fun p hp => ?_
    obtain ⟨y, hy, rfl⟩ := List.mem_map.mp hp
    exact hxs y hy

/-- The tokens of the groups derive their tree. -/
theorem derives_groups {gs : Signed Shown} (hfull : gs.Full)
    (hall : gs.Each fun x => x.2.Formed boolFields) :
    Derives boolFields .or (groupsTokens gs) (groupsNode gs) := by
  have hsigned : ∀ x : Bool × Shown, x.2.2.Formed boolFields →
      Derives boolFields .not (signTokens x) (signedNode x) := by
    rintro ⟨b, c, l⟩ hl
    cases b with
    | false => exact .ofPrimary (.leaf hl)
    | true => exact .not (.ofPrimary (.leaf hl))
  obtain ⟨g, gs, rfl⟩ := List.exists_cons_of_ne_nil hfull.ne_nil
  refine derives_join.2 fun h hh => ?_
  obtain ⟨x, xs, rfl⟩ := List.exists_cons_of_ne_nil (hfull.groups h hh)
  exact derives_join.1 fun y hy => hsigned y (hall _ hh y hy)

/-- The text of a group. -/
def groupText (g : BuilderGroup) : Text :=
  join " and ".toList ((g.conditions.map serializeCondition).filter (· ≠ []))

theorem filter_ne_nil {ts : List Text} (h : ∀ t ∈ ts, t ≠ []) : ts.filter (· ≠ []) = ts :=
  List.filter_eq_self.mpr fun t ht => decide_eq_true (h t ht)

/-- What is saved of the groups is read as their tokens. -/
theorem reads_groups {gs : Signed Shown} (hfull : gs.Full)
    (hall : gs.Each fun x => ∃ qs, Condition boolFields qs x.1 x.2 ∧ ∀ q ∈ qs, q.Legible U) :
    Reads U (serializeGroups (gs.map fun g => ⟨g.map mark⟩)) (groupsTokens gs) := by
  have hcondition : ∀ g ∈ gs, ∀ x ∈ g, serializeCondition (mark x) ≠ [] ∧
      Reads U (serializeCondition (mark x)) (signTokens x) := by
    intro g hg x hx
    obtain ⟨qs, hqs, hlegible⟩ := hall g hg x hx
    exact hqs.reads hlegible x.1
  have hgroup : ∀ g ∈ gs, groupText ⟨g.map mark⟩ ≠ [] ∧
      Reads U (groupText ⟨g.map mark⟩) (groupTokens g) := by
    intro g hg
    obtain ⟨x, xs, rfl⟩ := List.exists_cons_of_ne_nil (hfull.groups g hg)
    have htexts : ∀ t ∈ ((x :: xs).map mark).map serializeCondition, t ≠ [] := by
      intro t ht
      rw [List.map_map] at ht
      obtain ⟨y, hy, rfl⟩ := List.mem_map.mp ht
      exact (hcondition _ hg y hy).1
    have hreads := reads_join (U := U) .and
      ((x :: xs).map fun y => (serializeCondition (mark y), signTokens y)) fun p hp => by
        obtain ⟨y, hy, rfl⟩ := List.mem_map.mp hp
        exact (hcondition _ hg y hy).2
    rw [List.map_map, List.map_map] at hreads
    rw [groupText, filter_ne_nil htexts, List.map_map]
    refine ⟨fun hnil => ?_, hreads⟩
    exact (hcondition _ hg x List.mem_cons_self).1 (List.append_eq_nil_iff.mp hnil).1
  have htexts : ∀ t ∈ (gs.map fun g => (⟨g.map mark⟩ : BuilderGroup)).map groupText, t ≠ [] := by
    intro t ht
    rw [List.map_map] at ht
    obtain ⟨g, hg, rfl⟩ := List.mem_map.mp ht
    exact (hgroup g hg).1
  have hreads := reads_join (U := U) .or
    (gs.map fun g => (groupText ⟨g.map mark⟩, groupTokens g)) fun p hp => by
      obtain ⟨g, hg, rfl⟩ := List.mem_map.mp hp
      exact (hgroup g hg).2
  rw [List.map_map, List.map_map] at hreads
  have hserialize : ∀ groups, serializeGroups groups =
      join " or ".toList ((groups.map groupText).filter (· ≠ [])) := fun _ => rfl
  rw [hserialize, filter_ne_nil htexts, List.map_map]
  exact hreads

/-- **What survives the builder**: texts of pieces whose parentheses do not matter. -/
def Kept (U : UnicodeTables) (boolFields : List Text) (text : Text) : Prop :=
  ∃ ps n gs, Spelled U none text ps ∧ Arranged boolFields .or ps n gs ∧ Flat true false n

/-- A blank text has no token. -/
theorem tokenize_blank : ∀ {text : Text} {last : Option TokenType}, text.all isSpace = true →
    tokenizeFrom text.length last text = [] := by
  intro text
  induction text with
  | nil => exact fun _ => rfl
  | cons c cs ih =>
      intro last h
      obtain ⟨hc, hcs⟩ := Bool.and_eq_true_iff.mp h
      have hlex : lexeme last c cs = (none, cs) := if_pos hc
      rw [tokenizeFrom_cons, hlex]
      exact ih hcs

theorem feed_lastGroup : ∀ {gs : Signed Shown}, gs.Full →
    feed lastGroup gs [] = gs.map fun g => ⟨g.map mark⟩ := by
  intro gs
  induction gs with
  | nil => exact fun h => absurd rfl h.ne_nil
  | cons g gs ih =>
      intro h
      obtain ⟨hg, hgs⟩ := List.forall_mem_cons.mp h.groups
      by_cases hnil : gs = []
      · subst hnil
        have hmarked : g.map mark ≠ [] := by simpa using hg
        exact if_neg hmarked
      · rw [feed_cons _ _ hnil, ih ⟨hnil, hgs⟩]
        rfl

/-- **The builder shows the groups.** -/
theorem parseToGroups_eq {text : Text} {ps : List Piece} {n : Node} {gs : Signed Shown}
    (hspelled : Spelled U none text ps) (harranged : Arranged boolFields .or ps n gs)
    (defaultField : Text) :
    parseToGroups text defaultField = gs.map fun g => ⟨g.map mark⟩ := by
  have htokens : tokenize text = ps.map Piece.token := hspelled.tokens
  have hne : ps ≠ [] := by
    rintro rfl
    exact harranged.derives.ne_nil rfl
  have hblank : ¬ text.all isSpace = true := fun hblank =>
    hne (List.map_eq_nil_iff.mp (htokens.symm.trans (tokenize_blank hblank)))
  have hread : loop (ps.map Piece.token).length [] (ps.map Piece.token) =
      gs.map fun g => ⟨g.map mark⟩ := by
    have hgroups := harranged.groupsOf [] false []
    rw [List.append_nil, groupsOf_false, Signed.turnFirst_false] at hgroups
    rw [hgroups]
    exact feed_lastGroup harranged.full
  obtain ⟨t, ts, hcons⟩ := List.exists_cons_of_ne_nil (List.map_eq_nil_iff.not.mpr hne)
  obtain ⟨g, hs, rfl⟩ := List.exists_cons_of_ne_nil harranged.full.ne_nil
  rw [parseToGroups, if_neg hblank, htokens]
  rw [hcons] at hread ⊢
  dsimp only
  rw [hread]
  rfl

/-- **An expression that is kept is saved with its meaning**: the backend accepts what is
saved, and its truth value is that of the expression in every context. -/
theorem saved_equivalent (U : UnicodeTables) (boolFields : List Text) (defaultField : Text)
    {text : Text} (h : Kept U boolFields text) :
    ∃ n m, parseExpression U boolFields text = .ok n ∧
      parseExpression U boolFields (saved text defaultField) = .ok m ∧
      ∀ R ctx, evaluate R ctx m = evaluate R ctx n := by
  obtain ⟨ps, n, gs, hspelled, harranged, hflat⟩ := h
  have hconditions := harranged.conditions hspelled.legible
  have hformed : gs.Each fun x => x.2.Formed boolFields := fun g hg x hx =>
    (hconditions g hg x hx).elim fun _ h => h.1.formed
  have hsaved : Lexes U (saved text defaultField) (groupsTokens gs) := by
    have hreads := reads_groups harranged.full hconditions [] [] nofun .nil
    rw [List.append_nil, List.append_nil, ← parseToGroups_eq hspelled harranged defaultField]
      at hreads
    exact hreads
  refine ⟨n, groupsNode gs, Expression.parseExpression_iff.mpr ⟨_, hspelled.lexes, harranged.derives⟩,
    Expression.parseExpression_iff.mpr ⟨_, hsaved, derives_groups harranged.full hformed⟩, ?_⟩
  intro R ctx
  have hmeaning := (@Arranged.evaluate _ R ctx _ _ _ _ harranged _ _ hflat).2
  have hne : gs.map groupNode ≠ [] := List.map_eq_nil_iff.not.mpr harranged.full.ne_nil
  rw [hmeaning, groupsNode, evaluate_or hne, Signed.turnFirst_false, ← meaning]
  simp

end

theorem plainName_letter {c : Char} (hletter : c.isAlpha = true)
    (hown : keywords (lower [c]) = none) (hkeyword : Expression.keywordOf [c] = none) :
    PlainName .ascii [c] where
  name := ⟨⟨c, [], rfl, (nameStart_of_letter (.inl hletter)).1, nofun, fun h => nomatch h.2.1⟩,
    hkeyword⟩
  word := List.forall_mem_singleton.mpr (by simp [isWord, Char.isAlphanum, hletter])
  own := hown

theorem apart_blank (rest : Text) : Apart .ascii (' ' :: rest) :=
  ⟨by rintro c hc; cases hc; exact ⟨rfl, rfl, by decide⟩, by simp⟩

/-- `a = 'b' OR not c exists`. -/
theorem kept_or : Kept .ascii [] "a = 'b' OR not c exists".toList := by
  have ha : PlainName .ascii ['a'] := plainName_letter rfl rfl rfl
  have hc : PlainName .ascii ['c'] := plainName_letter rfl rfl rfl
  have hsurvives : Survives ['b'] := by
    refine ⟨nofun, by simp [isSpace], by simp [isSpace], by decide, by decide, by decide, by decide,
      by decide, by decide⟩
  have hend : Apart .ascii [] := ⟨nofun, nofun⟩
  have hblank : ∀ {rest : Text}, (' ' :: rest).head? ≠ some '=' := by
    intro rest h
    cases h
  have h₁ : Spelled .ascii (some .field) " exists".toList [.word "exists".toList .exists] :=
    .blank rfl (@Spelled.piece _ _ (.word "exists".toList .exists) [] [] rfl hend .nil)
  have h₂ : Spelled .ascii (some .not) " c exists".toList
      [.name ['c'], .word "exists".toList .exists] :=
    .blank rfl (@Spelled.piece _ _ (.name ['c']) _ _ hc ⟨nofun, apart_blank _⟩ h₁)
  have h₃ : Spelled .ascii (some .or) " not c exists".toList
      [.word "not".toList .not, .name ['c'], .word "exists".toList .exists] :=
    .blank rfl (@Spelled.piece _ _ (.word "not".toList .not) _ _ rfl (apart_blank _) h₂)
  have h₄ : Spelled .ascii (some .value) " OR not c exists".toList
      [.word "OR".toList .or, .word "not".toList .not, .name ['c'],
        .word "exists".toList .exists] :=
    .blank rfl (@Spelled.piece _ _ (.word "OR".toList .or) _ _ rfl (apart_blank _) h₃)
  have h₅ : Spelled .ascii (some .operator) " 'b' OR not c exists".toList
      [.quoted '\'' ['b', '\''] ['b'], .word "OR".toList .or, .word "not".toList .not, .name ['c'],
        .word "exists".toList .exists] :=
    .blank rfl (@Spelled.piece _ _ (.quoted '\'' ['b', '\''] ['b']) _ _
      ⟨.inr rfl, rfl, hsurvives⟩ trivial h₄)
  have h₆ : Spelled .ascii (some .field) " = 'b' OR not c exists".toList
      [.symbol .eq, .quoted '\'' ['b', '\''] ['b'], .word "OR".toList .or, .word "not".toList .not,
        .name ['c'], .word "exists".toList .exists] :=
    .blank rfl (@Spelled.piece _ _ (.symbol .eq) _ _ rfl hblank h₅)
  have h₇ : Spelled .ascii none "a = 'b' OR not c exists".toList
      [.name ['a'], .symbol .eq, .quoted '\'' ['b', '\''] ['b'], .word "OR".toList .or,
        .word "not".toList .not, .name ['c'], .word "exists".toList .exists] :=
    @Spelled.piece _ _ (.name ['a']) _ _ ha ⟨nofun, apart_blank _⟩ h₆
  have hfield : ∀ c : Char, lower [c] ≠ "true".toList ∧ lower [c] ≠ "false".toList := by
    intro c
    constructor <;> exact fun h => nomatch (congrArg List.length h)
  have hleft : Condition [] [.name ['a'], .symbol .eq, .quoted '\'' ['b', '\''] ['b']]
      ⟨['a'], ['='], ['b'], false⟩ ⟨.compare ['a'] .eq (.str ['b']), false⟩ :=
    ⟨.compare (not_or.mpr (hfield 'a')) (by decide), rfl,
      ⟨⟨['a'], by decide, .inl rfl⟩, .inl rfl, rfl⟩⟩
  have hright : Condition [] [.name ['c'], .word "exists".toList .exists]
      ⟨['c'], "exists".toList, [], false⟩ ⟨.exists ['c'], false⟩ :=
    ⟨.exists (not_or.mpr (hfield 'c')), rfl, ⟨['c'], by decide, .inl rfl⟩⟩
  have hsingle : ∀ {ps : List Piece} {n : Node} {gs : Signed Shown}, Arranged [] .not ps n gs →
      Arranged [] .and ps n gs := by
    intro ps n gs h
    have hand := @Arranged.and [] ps n gs [] h nofun
    rwa [operandPieces, List.flatMap_nil, List.append_nil, joinedGroups, List.foldr_nil,
      Signed.joined_nil] at hand
  have hnot : Arranged [] .and [.word "not".toList .not, .name ['c'], .word "exists".toList .exists]
      (.not (.leaf ⟨.exists ['c'], false⟩))
      [[(true, ⟨['c'], "exists".toList, [], false⟩, ⟨.exists ['c'], false⟩)]] :=
    hsingle (.not (.ofPrimary (.leaf hright)))
  have hor := @Arranged.or [] _ _ _ [⟨"OR".toList, _, _, _⟩] (hsingle (.ofPrimary (.leaf hleft)))
    (List.forall_mem_singleton.mpr hnot)
  exact ⟨_, _, _, h₇, hor, rfl, rfl, trivial, trivial, trivial⟩

theorem saved_equivalent_or :
    ∃ n m, parseExpression .ascii [] "a = 'b' OR not c exists".toList = .ok n ∧
      parseExpression .ascii [] (saved "a = 'b' OR not c exists".toList []) = .ok m ∧
      ∀ R ctx, evaluate R ctx m = evaluate R ctx n :=
  saved_equivalent .ascii [] [] kept_or

/-- `ip.src not in $network:blocklist` is accepted, and what is saved of it, which is
`ip.src exists and $network:blocklist exists`, is not. -/
theorem not_in_saved :
    (∃ n, parseExpression .ascii [] "ip.src not in $network:blocklist".toList = .ok n) ∧
    ¬ ∃ m, parseExpression .ascii []
      (saved "ip.src not in $network:blocklist".toList "http.request.uri.path".toList) = .ok m := by
  have hread : (parseExpression .ascii [] "ip.src not in $network:blocklist".toList).isOk = true := by
    decide +kernel
  have hlost : (parseExpression .ascii [] (saved "ip.src not in $network:blocklist".toList
      "http.request.uri.path".toList)).isOk = false := by
    decide +kernel
  refine ⟨?_, ?_⟩
  · cases h : parseExpression .ascii [] "ip.src not in $network:blocklist".toList with
    | ok n => exact ⟨n, rfl⟩
    | error e =>
        rw [h] at hread
        cases hread
  · rintro ⟨m, hm⟩
    rw [hm] at hlost
    cases hlost

end CorexManager.Builder
