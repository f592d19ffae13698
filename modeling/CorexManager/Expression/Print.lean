import CorexManager.Expression.Spelling

/-!
# Printing and parsing

`Node.Supported` are the trees built from fields, operators, values, lists, `not`, `and`
and `or`.  `print` writes one with parentheses only where the precedence of its
connectives asks for them, and with every string in quotes.

* `parseExpression_iff`: the texts the parser accepts are those of the grammar;
* `Node.Supported.derives`: the tokens of a supported tree derive it;
* `supported_of_parse`: no other tree is ever the result.
-/

namespace CorexManager.Expression

open Data (Text)
open Python (UnicodeTables)

/-! ### Accepted texts -/

theorem Derives.ne_nil {boolFields : List Text} {level : Level} {ks : List TokenKind} {n : Node}
    (h : Derives boolFields level ks n) : ks ≠ [] := by
  induction h with
  | leaf h =>
      obtain ⟨k, rest, hhead, -⟩ := (Derives.leaf h).primary_head
      rw [hhead]
      exact List.cons_ne_nil _ _
  | paren h ih => exact List.cons_ne_nil _ _
  | ofPrimary h ih => exact ih
  | not h ih => exact List.cons_ne_nil _ _
  | and h hps ih ihps => exact fun hnil => ih (List.append_eq_nil_iff.mp hnil).1
  | or h hps ih ihps => exact fun hnil => ih (List.append_eq_nil_iff.mp hnil).1

section

variable {U : UnicodeTables} {boolFields : List Text}

/-- A blank text has no token. -/
theorem lexes_blank {text : Text} {ks : List TokenKind} (h : Lexes U text ks)
    (hblank : text.all U.space = true) : ks = [] := by
  induction h with
  | nil => rfl
  | @cons c cs rest kind ks h hrest ih =>
      obtain ⟨hc, hcs⟩ := Bool.and_eq_true_iff.mp hblank
      have hlex := ((lexeme_iff 0).mpr h).symm.trans ((lexeme_iff 0).mpr (.blank hc))
      cases hlex
      exact ih hcs

/-- **The parser accepts the texts of the grammar, with their trees.** -/
theorem parseExpression_iff {text : Text} {n : Node} :
    parseExpression U boolFields text = .ok n ↔
      ∃ ks, Lexes U text ks ∧ Derives boolFields .or ks n := by
  constructor
  · intro h
    unfold parseExpression at h
    split at h
    · cases h
    · obtain ⟨ts, htok, h⟩ := bind_ok h
      obtain ⟨body, rfl, hlexes⟩ := lexes_of_tokenizeFrom _ _ _ htok
      have hclean : ∀ t ∈ body, t.kind.Clean ∧ t.kind ≠ .eof := fun t ht =>
        hlexes.clean _ (List.mem_map_of_mem ht)
      exact ⟨_, hlexes, (parseTokens_iff (fun t ht => (hclean t ht).1)
        (fun t ht => (hclean t ht).2)).mp h⟩
  · rintro ⟨ks, hlexes, hderives⟩
    obtain ⟨ts, htok, rfl⟩ := tokenize_iff.mpr hlexes
    have hclean : ∀ t ∈ ts, t.kind.Clean ∧ t.kind ≠ .eof := fun t ht =>
      hlexes.clean _ (List.mem_map_of_mem ht)
    have hblank : text.all U.space = false := by
      rw [← Bool.not_eq_true]
      exact fun hblank => hderives.ne_nil (lexes_blank hlexes hblank)
    rw [parseExpression_of_tokens hblank htok]
    exact (parseTokens_iff (fun t ht => (hclean t ht).1) (fun t ht => (hclean t ht).2)).mpr hderives

/-! ### Supported trees -/

/-- A field: a name, with a key or without. -/
def FieldName (U : UnicodeTables) (field : Text) : Prop :=
  ∃ name, IsName U name ∧ (field = name ∨ ∃ key, field = bracketField name key)

/-- A value of a comparison. -/
def Value.Supported : Value → Prop
  | .int n => IsNumber n
  | _ => True

/-- A condition on a field. -/
def Leaf.Supported (U : UnicodeTables) (boolFields : List Text) (l : Leaf) : Prop :=
  match l.kind with
  | .compare field op value => FieldName U field ∧ value.Supported ∧
      (op.symbolic = true ∨ ∃ v : Item, value = v.value) ∧ l.negated = false
  | .inList field listType listName => FieldName U field ∧ IsListRef U listType listName
  | .inLiterals field values => FieldName U field ∧ ∀ v ∈ values, v.value.Supported
  | .exists field => FieldName U field
  | .boolField field => FieldName U field ∧ field ∈ boolFields ∧ l.negated = false
  | .literal _ => l.negated = false

mutual

/-- A tree of conditions and connectives; a connective has at least two operands. -/
def Node.Supported (U : UnicodeTables) (boolFields : List Text) : Node → Prop
  | .leaf l => l.Supported U boolFields
  | .and cs => 2 ≤ cs.length ∧ AllSupported U boolFields cs
  | .or cs => 2 ≤ cs.length ∧ AllSupported U boolFields cs
  | .not c => c.Supported U boolFields

/-- The same of every child. -/
def AllSupported (U : UnicodeTables) (boolFields : List Text) : List Node → Prop
  | [] => True
  | c :: cs => c.Supported U boolFields ∧ AllSupported U boolFields cs

end

theorem allSupported_iff (cs : List Node) :
    AllSupported U boolFields cs ↔ ∀ c ∈ cs, c.Supported U boolFields := by
  induction cs with
  | nil => simp [AllSupported]
  | cons c cs ih => rw [AllSupported, ih, List.forall_mem_cons]

/-! ### Printing -/

/-- Tokens, in parentheses if asked for. -/
def parenthesized (b : Bool) (ks : List TokenKind) : List TokenKind :=
  if b then .lparen :: ks ++ [.rparen] else ks

/-- Operands with the keyword of their connective between them. -/
def joinOperands (k : Keyword) : List (List TokenKind) → List TokenKind
  | [] => []
  | ks :: kss => ks ++ kss.flatMap fun js => .keyword k :: js

mutual

/-- The tokens of a tree where the grammar expects a level: a looser tree goes in
parentheses. -/
def Node.tokens : Level → Node → List TokenKind
  | _, .leaf l => leafTokens l
  | level, .and cs =>
      parenthesized (level = .not ∨ level = .primary) (joinOperands .and (allTokens .not cs))
  | level, .or cs => parenthesized (level ≠ .or) (joinOperands .or (allTokens .and cs))
  | level, .not c => parenthesized (level = .primary) (.keyword .not :: c.tokens .not)

/-- The tokens of every child. -/
def allTokens (level : Level) : List Node → List (List TokenKind)
  | [] => []
  | c :: cs => c.tokens level :: allTokens level cs

end

/-- The text of a tree. -/
def print (n : Node) : Text := render (n.tokens .or)

theorem allTokens_eq (level : Level) (cs : List Node) :
    allTokens level cs = cs.map (Node.tokens level) := by
  induction cs with
  | nil => rfl
  | cons c cs ih => rw [allTokens, ih, List.map_cons]

/-! ### A supported tree is derived by its tokens -/

theorem FieldName.isField {field : Text} (h : FieldName U field) : IsField field := by
  obtain ⟨name, hname, hfield⟩ := h
  exact ⟨name, hname.no_bracket, hfield⟩

theorem Leaf.Supported.formed {l : Leaf} (h : l.Supported U boolFields) : l.Formed boolFields := by
  obtain ⟨kind, negated⟩ := l
  cases kind with
  | compare field op value => exact ⟨h.1.isField, h.2.2⟩
  | inList field listType listName => exact h.1.isField
  | inLiterals field values => exact h.1.isField
  | «exists» field => exact FieldName.isField h
  | boolField field => exact ⟨h.1.isField, h.2⟩
  | literal b => exact h

/-- A single operand is the whole of its level. -/
theorem Derives.and_single {ks : List TokenKind} {n : Node} (h : Derives boolFields .not ks n) :
    Derives boolFields .and ks n := by
  have hand := @Derives.and boolFields ks n [] h nofun
  rwa [operandTokens, List.flatMap_nil, List.append_nil] at hand

theorem Derives.or_single {ks : List TokenKind} {n : Node} (h : Derives boolFields .and ks n) :
    Derives boolFields .or ks n := by
  have hor := @Derives.or boolFields ks n [] h nofun
  rwa [operandTokens, List.flatMap_nil, List.append_nil] at hor

/-- A primary stands at every level. -/
theorem Derives.primary_at {ks : List TokenKind} {n : Node}
    (h : Derives boolFields .primary ks n) : ∀ level, Derives boolFields level ks n
  | .primary => h
  | .not => h.ofPrimary
  | .and => h.ofPrimary.and_single
  | .or => h.ofPrimary.and_single.or_single

/-- In parentheses, any tree stands at every level. -/
theorem derives_parenthesized {ks : List TokenKind} {n : Node} (hor : Derives boolFields .or ks n)
    {b : Bool} {level : Level} (hb : b = false → Derives boolFields level ks n) :
    Derives boolFields level (parenthesized b ks) n := by
  cases b with
  | false => exact hb rfl
  | true => exact (Derives.paren hor).primary_at level

/-- Two operands or more, joined, are the tokens the grammar has for a connective. -/
theorem joinOperands_eq (k : Keyword) (level : Level) (c : Node) (cs : List Node) :
    joinOperands k (allTokens level (c :: cs)) =
      c.tokens level ++ operandTokens k (cs.map fun d => (d.tokens level, d)) := by
  rw [allTokens_eq, List.map_cons, joinOperands, operandTokens, List.flatMap_map, List.flatMap_map]

theorem connective_operands (node : List Node → Node) (level : Level) {c : Node} {cs : List Node}
    (h : 2 ≤ (c :: cs).length) :
    connective node (c :: (cs.map fun d => (d.tokens level, d)).map Prod.snd) = node (c :: cs) := by
  rw [List.map_map]
  cases cs with
  | nil => simp at h
  | cons d ds => simp [connective, Function.comp_def]

/-- **The tokens of a supported tree derive it**, wherever they stand. -/
theorem Node.Supported.derives {n : Node} (h : n.Supported U boolFields) :
    ∀ level, Derives boolFields level (n.tokens level) n := by
  induction n using Node.induct with
  | leaf l =>
      intro level
      have hformed : l.Formed boolFields := Leaf.Supported.formed h
      exact (Derives.leaf hformed).primary_at level
  | and cs ih =>
      intro level
      obtain ⟨hlen, hcs⟩ := h
      have hall := (allSupported_iff cs).mp hcs
      cases cs with
      | nil => simp at hlen
      | cons c cs =>
          have hand : Derives boolFields .and (joinOperands .and (allTokens .not (c :: cs)))
              (.and (c :: cs)) := by
            rw [joinOperands_eq, ← connective_operands .and .not hlen]
            refine Derives.and (ih c List.mem_cons_self (hall c List.mem_cons_self) .not) ?_
            intro p hp
            obtain ⟨d, hd, rfl⟩ := List.mem_map.mp hp
            have hmem := List.mem_cons_of_mem c hd
            exact ih d hmem (hall d hmem) .not
          refine derives_parenthesized hand.or_single (fun hb => ?_)
          cases level with
          | or => exact hand.or_single
          | and => exact hand
          | not => simp at hb
          | primary => simp at hb
  | or cs ih =>
      intro level
      obtain ⟨hlen, hcs⟩ := h
      have hall := (allSupported_iff cs).mp hcs
      cases cs with
      | nil => simp at hlen
      | cons c cs =>
          have hor : Derives boolFields .or (joinOperands .or (allTokens .and (c :: cs)))
              (.or (c :: cs)) := by
            rw [joinOperands_eq, ← connective_operands .or .and hlen]
            refine Derives.or (ih c List.mem_cons_self (hall c List.mem_cons_self) .and) ?_
            intro p hp
            obtain ⟨d, hd, rfl⟩ := List.mem_map.mp hp
            have hmem := List.mem_cons_of_mem c hd
            exact ih d hmem (hall d hmem) .and
          refine derives_parenthesized hor (fun hb => ?_)
          cases level with
          | or => exact hor
          | _ => simp at hb
  | not c ih =>
      intro level
      have hnot : Derives boolFields .not (.keyword .not :: c.tokens .not) (.not c) :=
        .not (ih h .not)
      refine derives_parenthesized hnot.and_single.or_single (fun hb => ?_)
      cases level with
      | or => exact hnot.and_single.or_single
      | and => exact hnot.and_single
      | not => exact hnot
      | primary => simp at hb

/-! ### The tokens of a supported tree are well formed -/

theorem FieldName.lexical {field : Text} (h : FieldName U field) :
    ∀ k ∈ fieldTokens field, k.Lexical U := by
  obtain ⟨name, hname, rfl | ⟨key, rfl⟩⟩ := h
  · rw [fieldTokens_plain hname.no_bracket]
    exact List.forall_mem_singleton.mpr hname
  · rw [fieldTokens_keyed hname.no_bracket]
    exact List.forall_iff_forall_mem.mp ⟨hname, trivial, trivial, trivial⟩

theorem Value.Supported.lexical {v : Value} (h : v.Supported) : (valueToken v).Lexical U := by
  cases v with
  | str s => trivial
  | int n => exact h
  | bool b => cases b <;> trivial

theorem opToken_lexical (op : CompareOp) : (opToken op).Lexical U := by
  cases op <;> first | exact trivial | rfl

theorem notTokens_lexical (negated : Bool) : ∀ k ∈ notTokens negated, k.Lexical U := by
  cases negated with
  | false => exact nofun
  | true => exact List.forall_mem_singleton.mpr trivial

theorem Leaf.Supported.lexical {l : Leaf} (h : l.Supported U boolFields) :
    ∀ k ∈ leafTokens l, k.Lexical U := by
  obtain ⟨kind, negated⟩ := l
  cases kind with
  | compare field op value =>
      refine List.forall_mem_append.mpr ⟨h.1.lexical, ?_⟩
      exact List.forall_iff_forall_mem.mp ⟨opToken_lexical op, h.2.1.lexical⟩
  | inList field listType listName =>
      refine List.forall_mem_append.mpr
        ⟨List.forall_mem_append.mpr ⟨h.1.lexical, notTokens_lexical negated⟩, ?_⟩
      exact List.forall_iff_forall_mem.mp ⟨trivial, h.2⟩
  | inLiterals field values =>
      have hitems : ∀ k ∈ itemTokens values, k.Lexical U := by
        cases values with
        | nil => exact nofun
        | cons v vs =>
            obtain ⟨hv, hvs⟩ := List.forall_mem_cons.mp h.2
            refine List.forall_mem_cons.mpr ⟨hv.lexical, fun k hk => ?_⟩
            obtain ⟨w, hw, hk⟩ := List.mem_flatMap.mp hk
            rcases List.mem_pair.mp hk with rfl | rfl
            · trivial
            · exact (hvs w hw).lexical
      refine List.forall_mem_append.mpr
        ⟨List.forall_mem_append.mpr ⟨h.1.lexical, notTokens_lexical negated⟩, ?_⟩
      refine List.forall_mem_cons.mpr ⟨trivial, List.forall_mem_cons.mpr ⟨trivial, ?_⟩⟩
      exact List.forall_mem_append.mpr ⟨hitems, List.forall_mem_singleton.mpr trivial⟩
  | «exists» field =>
      refine List.forall_mem_append.mpr
        ⟨List.forall_mem_append.mpr ⟨FieldName.lexical h, notTokens_lexical negated⟩, ?_⟩
      exact List.forall_mem_singleton.mpr trivial
  | boolField field => exact h.1.lexical
  | literal b => cases b <;> exact List.forall_mem_singleton.mpr trivial

theorem parenthesized_lexical {ks : List TokenKind} (h : ∀ k ∈ ks, k.Lexical U) (b : Bool) :
    ∀ k ∈ parenthesized b ks, k.Lexical U := by
  cases b with
  | false => exact h
  | true =>
      refine List.forall_mem_cons.mpr ⟨trivial, List.forall_mem_append.mpr ⟨h, ?_⟩⟩
      exact List.forall_mem_singleton.mpr trivial

theorem joinOperands_lexical (k : Keyword) {kss : List (List TokenKind)}
    (h : ∀ ks ∈ kss, ∀ k ∈ ks, k.Lexical U) : ∀ j ∈ joinOperands k kss, j.Lexical U := by
  cases kss with
  | nil => exact nofun
  | cons ks kss =>
      obtain ⟨hks, hkss⟩ := List.forall_mem_cons.mp h
      refine List.forall_mem_append.mpr ⟨hks, fun j hj => ?_⟩
      obtain ⟨js, hjs, hj⟩ := List.mem_flatMap.mp hj
      rcases List.mem_cons.mp hj with rfl | hj
      · trivial
      · exact hkss js hjs j hj

theorem Node.Supported.lexical {n : Node} (h : n.Supported U boolFields) :
    ∀ level, ∀ k ∈ n.tokens level, k.Lexical U := by
  have hall : ∀ (cs : List Node) (level : Level), AllSupported U boolFields cs →
      (∀ c ∈ cs, c.Supported U boolFields → ∀ level, ∀ k ∈ c.tokens level, k.Lexical U) →
      ∀ ks ∈ allTokens level cs, ∀ k ∈ ks, k.Lexical U := by
    intro cs level hcs ih ks hks
    rw [allTokens_eq] at hks
    obtain ⟨c, hc, rfl⟩ := List.mem_map.mp hks
    exact ih c hc ((allSupported_iff cs).mp hcs c hc) level
  induction n using Node.induct with
  | leaf l =>
      have hlexical : ∀ k ∈ leafTokens l, k.Lexical U := Leaf.Supported.lexical h
      exact fun _ => hlexical
  | and cs ih =>
      exact fun level => parenthesized_lexical (joinOperands_lexical _ (hall cs .not h.2 ih)) _
  | or cs ih =>
      exact fun level => parenthesized_lexical (joinOperands_lexical _ (hall cs .and h.2 ih)) _
  | not c ih =>
      have hnot : ∀ k ∈ TokenKind.keyword .not :: c.tokens .not, k.Lexical U :=
        List.forall_mem_cons.mpr ⟨trivial, ih h .not⟩
      exact fun level => parenthesized_lexical hnot _

/-! ### Results are supported -/

/-- The name of a field is the first of its tokens. -/
theorem fieldName_of_tokens {field : Text} (h : IsField field)
    (hlexical : ∀ k ∈ fieldTokens field, k.Lexical U) : FieldName U field := by
  obtain ⟨name, hname, hfield⟩ := h
  refine ⟨name, ?_, hfield⟩
  rcases hfield with rfl | ⟨key, rfl⟩
  · rw [fieldTokens_plain hname] at hlexical
    exact hlexical _ List.mem_cons_self
  · rw [fieldTokens_keyed hname] at hlexical
    exact hlexical _ List.mem_cons_self

theorem value_of_token {v : Value} (h : (valueToken v).Lexical U) : v.Supported := by
  cases v with
  | int n => exact h
  | _ => exact trivial

theorem Leaf.Formed.supported {l : Leaf} (h : l.Formed boolFields)
    (hlexical : ∀ k ∈ leafTokens l, k.Lexical U) : l.Supported U boolFields := by
  obtain ⟨kind, negated⟩ := l
  cases kind with
  | compare field op value =>
      obtain ⟨hfield, hvalue⟩ := List.forall_mem_append.mp hlexical
      exact ⟨fieldName_of_tokens h.1 hfield, value_of_token (hvalue _ (by simp)), h.2⟩
  | inList field listType listName =>
      obtain ⟨hfield, hrest⟩ := List.forall_mem_append.mp hlexical
      exact ⟨fieldName_of_tokens h (List.forall_mem_append.mp hfield).1,
        hrest (.listref listType listName) (by simp)⟩
  | inLiterals field values =>
      obtain ⟨hfield, hrest⟩ := List.forall_mem_append.mp hlexical
      refine ⟨fieldName_of_tokens h (List.forall_mem_append.mp hfield).1, fun v hv => ?_⟩
      refine value_of_token (hrest _ ?_)
      have hmem : valueToken v.value ∈ itemTokens values := by
        cases values with
        | nil => cases hv
        | cons w ws =>
            rcases List.mem_cons.mp hv with rfl | hv
            · exact List.mem_cons_self
            · exact List.mem_cons_of_mem _ (List.mem_flatMap.mpr ⟨v, hv, by simp⟩)
      simp [hmem]
  | «exists» field =>
      obtain ⟨hfield, -⟩ := List.forall_mem_append.mp hlexical
      have hname : FieldName U field :=
        fieldName_of_tokens h (List.forall_mem_append.mp hfield).1
      exact hname
  | boolField field => exact ⟨fieldName_of_tokens h.1 hlexical, h.2⟩
  | literal b => exact h

theorem connective_supported (node : List Node → Node)
    (hnode : ∀ cs, 2 ≤ cs.length → (∀ c ∈ cs, c.Supported U boolFields) →
      (node cs).Supported U boolFields) {n : Node} (h : n.Supported U boolFields) {cs : List Node}
    (hcs : ∀ c ∈ cs, c.Supported U boolFields) :
    (connective node (n :: cs)).Supported U boolFields := by
  cases cs with
  | nil => exact h
  | cons c cs => exact hnode _ (by simp) (List.forall_mem_cons.mpr ⟨h, hcs⟩)

theorem Derives.supported {level : Level} {ks : List TokenKind} {n : Node}
    (h : Derives boolFields level ks n) (hlexical : ∀ k ∈ ks, k.Lexical U) :
    n.Supported U boolFields := by
  have hoperands : ∀ k (ps : List (List TokenKind × Node)),
      (∀ j ∈ operandTokens k ps, j.Lexical U) →
      (∀ p ∈ ps, (∀ j ∈ p.1, j.Lexical U) → p.2.Supported U boolFields) →
      ∀ c ∈ ps.map Prod.snd, c.Supported U boolFields := by
    intro k ps hps ih c hc
    obtain ⟨p, hp, rfl⟩ := List.mem_map.mp hc
    exact ih p hp fun j hj =>
      hps j (List.mem_flatMap.mpr ⟨p, hp, List.mem_cons_of_mem _ hj⟩)
  induction h with
  | leaf h =>
      have hleaf : Leaf.Supported U boolFields _ := Leaf.Formed.supported h hlexical
      exact hleaf
  | paren h ih => exact ih fun k hk => hlexical k (by simp [hk])
  | ofPrimary h ih => exact ih hlexical
  | not h ih =>
      have hchild : Node.Supported U boolFields _ := ih fun k hk => hlexical k (by simp [hk])
      exact hchild
  | and h hps ih ihps =>
      obtain ⟨hfirst, hrest⟩ := List.forall_mem_append.mp hlexical
      exact connective_supported .and (fun cs hlen hcs => ⟨hlen, (allSupported_iff cs).mpr hcs⟩)
        (ih hfirst) (hoperands _ _ hrest ihps)
  | or h hps ih ihps =>
      obtain ⟨hfirst, hrest⟩ := List.forall_mem_append.mp hlexical
      exact connective_supported .or (fun cs hlen hcs => ⟨hlen, (allSupported_iff cs).mpr hcs⟩)
        (ih hfirst) (hoperands _ _ hrest ihps)

theorem Lexes.lexical (hU : Decimal U) {text : Text} {ks : List TokenKind} (h : Lexes U text ks) :
    ∀ k ∈ ks, k.Lexical U := by
  induction h with
  | nil => exact nofun
  | @cons c cs rest kind ks h hrest ih =>
      cases kind with
      | none => exact ih
      | some k => exact List.forall_mem_cons.mpr ⟨h.lexical hU, ih⟩

/-- **Every result of the parser is a supported tree.** -/
theorem supported_of_parse (hU : Decimal U) {text : Text} {n : Node}
    (h : parseExpression U boolFields text = .ok n) : n.Supported U boolFields := by
  obtain ⟨ks, hlexes, hderives⟩ := parseExpression_iff.mp h
  exact hderives.supported (hlexes.lexical hU)

/-! ### The round trip -/

/-- **The parser accepts its grammar, and what is printed is read back.** -/
theorem parse_print (U : UnicodeTables) (boolFields : List Text) :
    (∀ text n, parseExpression U boolFields text = .ok n ↔
      ∃ ks, Lexes U text ks ∧ Derives boolFields .or ks n) ∧
    ∀ n, n.Supported U boolFields → parseExpression U boolFields (print n) = .ok n :=
  ⟨fun _ _ => parseExpression_iff, fun _ h =>
    parseExpression_iff.mpr ⟨_, lexes_render (h.lexical .or), h.derives .or⟩⟩

/-- `not a["\\"] = "\"" and (true or a in [-7, "b"])`. -/
def quotes : Node :=
  .and [.not (.leaf ⟨.compare (bracketField ['a'] ['\\']) .eq (.str ['"']), false⟩),
    .or [.leaf ⟨.literal true, false⟩, .leaf ⟨.inLiterals ['a'] [.int (-7), .str ['b']], false⟩]]

theorem parse_print_quotes : print quotes =
      "not a[\"\\\\\"] = \"\\\"\" and (true or a in [-7, \"b\"])".toList ∧
    parseExpression .ascii [] (print quotes) = .ok quotes := by
  have hname : IsName .ascii ['a'] :=
    ⟨⟨'a', [], rfl, ⟨.inl rfl, rfl, rfl⟩, nofun, fun h => nomatch h.2.1⟩, rfl⟩
  have hsupported : quotes.Supported .ascii [] := by
    refine ⟨le_rfl, ⟨⟨['a'], hname, .inr ⟨_, rfl⟩⟩, trivial, .inl rfl, rfl⟩,
      ⟨le_rfl, rfl, ⟨⟨['a'], hname, .inl rfl⟩, ?_⟩, trivial⟩, trivial⟩
    have hseven : Item.value (.int (-7)) |>.Supported := isNumber_of_lt (by decide)
    exact List.forall_iff_forall_mem.mp ⟨hseven, trivial⟩
  exact ⟨rfl, (parse_print .ascii []).2 quotes hsupported⟩

end

end CorexManager.Expression
