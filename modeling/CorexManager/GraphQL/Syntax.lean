import CorexManager.GraphQL.Lexer

/-!
# The syntax of GraphQL documents

The grammar of executable documents, over the tokens of `GraphQL/Lexer.lean`, and a reader that only
counts braces, parentheses and names.

* `Derives` — values, arguments, directives, types and variable definitions.
* `Selections`, `Document` — how deep the selection sets of a document are nested, and its fields.
* `Nesting.run` — the counting reader; it skips what is in parentheses.
* `Document.counts` — the reader finds the depth and the fields, also behind the first brace.
-/

namespace GraphQL

open Data

/-! ### The grammar -/

/-- A punctuator of one character. -/
abbrev mark (c : Char) : Element := .punctuator [c]

def ellipsis : Element := .punctuator ['.', '.', '.']

/-- What surrounds the selections of a set, the members of an object or a list. -/
def enclosed (opening : Char) (ts : List Element) (closing : Char) : List Element :=
  mark opening :: (ts ++ [mark closing])

inductive Category where
  | value | values | members | arguments | directives | nullable | type | default
  | definitions
  deriving DecidableEq

/-- The phrases of a document that are no selections; a constant phrase has no variables. -/
inductive Derives : (constant : Bool) → Category → List Element → Prop
  | reference (n : Text) : Derives false .value [mark '$', .name n]
  | number (b : Bool) (t : Text) : Derives b .value [.number t]
  | string (b : Bool) (t : Text) : Derives b .value [.string t]
  /-- Booleans, the null value and the values of enumerations. -/
  | word (b : Bool) (n : Text) : Derives b .value [.name n]
  | list {b : Bool} {ts : List Element} (h : Derives b .values ts) :
      Derives b .value (enclosed '[' ts ']')
  | object {b : Bool} {ts : List Element} (h : Derives b .members ts) :
      Derives b .value (enclosed '\x7b' ts '\x7d')
  | noValues (b : Bool) : Derives b .values []
  | values {b : Bool} {ts us : List Element} (h : Derives b .value ts)
      (hrest : Derives b .values us) : Derives b .values (ts ++ us)
  | noMembers (b : Bool) : Derives b .members []
  | members {b : Bool} {ts us : List Element} (n : Text) (h : Derives b .value ts)
      (hrest : Derives b .members us) : Derives b .members (.name n :: mark ':' :: (ts ++ us))
  | noArguments (b : Bool) : Derives b .arguments []
  | arguments {b : Bool} {ts : List Element} (hne : ts ≠ []) (h : Derives b .members ts) :
      Derives b .arguments (enclosed '(' ts ')')
  | noDirectives (b : Bool) : Derives b .directives []
  | directives {b : Bool} {ts us : List Element} (n : Text) (h : Derives b .arguments ts)
      (hrest : Derives b .directives us) : Derives b .directives (mark '@' :: .name n :: (ts ++ us))
  | named (b : Bool) (n : Text) : Derives b .nullable [.name n]
  | listOf {b : Bool} {ts : List Element} (h : Derives b .type ts) :
      Derives b .nullable (enclosed '[' ts ']')
  | plain {b : Bool} {ts : List Element} (h : Derives b .nullable ts) : Derives b .type ts
  | nonNull {b : Bool} {ts : List Element} (h : Derives b .nullable ts) :
      Derives b .type (ts ++ [mark '!'])
  | noDefault (b : Bool) : Derives b .default []
  | default {b : Bool} {ts : List Element} (h : Derives true .value ts) :
      Derives b .default (mark '=' :: ts)
  | noDefinitions (b : Bool) : Derives b .definitions []
  | definitions {b : Bool} {ts us vs ws : List Element} (n : Text) (htype : Derives true .type ts)
      (hdefault : Derives true .default us) (hdirectives : Derives true .directives vs)
      (hrest : Derives b .definitions ws) :
      Derives b .definitions (mark '$' :: .name n :: mark ':' :: (ts ++ (us ++ (vs ++ ws))))

structure Field where
  aliasName : Option Text
  name : Text
  deriving DecidableEq

/-- The alias of a field, with its colon. -/
def aliasTokens : Option Text → List Element
  | none => []
  | some a => [.name a, mark ':']

/-- The type condition of a fragment. -/
def conditionTokens : Option Text → List Element
  | none => []
  | some t => [.name "on".toList, .name t]

/-- Selections, how deep selection sets are nested in them, and their fields. -/
inductive Selections : List Element → Nat → List Field → Prop
  | nil : Selections [] 0 []
  | field {as ds rest : List Element} {e : Nat} {gs : List Field} (f : Field)
      (hargs : Derives false .arguments as) (hdirs : Derives false .directives ds)
      (hrest : Selections rest e gs) :
      Selections (aliasTokens f.aliasName ++ .name f.name :: (as ++ (ds ++ rest))) e (f :: gs)
  | nested {as ds ts rest : List Element} {d e : Nat} {fs gs : List Field} (f : Field)
      (hargs : Derives false .arguments as) (hdirs : Derives false .directives ds)
      (hne : ts ≠ []) (hts : Selections ts d fs) (hrest : Selections rest e gs) :
      Selections
        (aliasTokens f.aliasName ++
          .name f.name :: (as ++ (ds ++ (enclosed '\x7b' ts '\x7d' ++ rest))))
        (max (d + 1) e) (f :: (fs ++ gs))
  | spread {ds rest : List Element} {e : Nat} {gs : List Field} (n : Text) (hn : n ≠ "on".toList)
      (hdirs : Derives false .directives ds) (hrest : Selections rest e gs) :
      Selections (ellipsis :: .name n :: (ds ++ rest)) e gs
  | inline {ds ts rest : List Element} {d e : Nat} {fs gs : List Field} (condition : Option Text)
      (hdirs : Derives false .directives ds) (hne : ts ≠ []) (hts : Selections ts d fs)
      (hrest : Selections rest e gs) :
      Selections
        (ellipsis :: (conditionTokens condition ++ (ds ++ (enclosed '\x7b' ts '\x7d' ++ rest))))
        (max (d + 1) e) (fs ++ gs)

/-- Variable definitions in their parentheses. -/
inductive Variables : List Element → Prop
  | none : Variables []
  | some {ts : List Element} (hne : ts ≠ []) (h : Derives false .definitions ts) :
      Variables (enclosed '(' ts ')')

/-- What stands before the selection set of a definition. -/
inductive Header : List Element → Prop
  | shorthand : Header []
  | operation {vs ds : List Element} (kind : Text)
      (hkind : kind ∈ ["query".toList, "mutation".toList, "subscription".toList])
      (name : Option Text) (hvars : Variables vs) (hdirs : Derives false .directives ds) :
      Header (.name kind :: (name.toList.map Element.name ++ (vs ++ ds)))
  | fragment {ds : List Element} (n t : Text) (hn : n ≠ "on".toList)
      (hdirs : Derives false .directives ds) :
      Header (.name "fragment".toList :: .name n :: (conditionTokens (some t) ++ ds))

/-- **Executable documents**, how deep selection sets are nested in the selection sets of the
definitions, and the fields. -/
inductive Document : List Element → Nat → List Field → Prop
  | last {hs ts : List Element} {d : Nat} {fs : List Field} (hh : Header hs) (hne : ts ≠ [])
      (hts : Selections ts d fs) : Document (hs ++ enclosed '\x7b' ts '\x7d') d fs
  | cons {hs ts rest : List Element} {d e : Nat} {fs gs : List Field} (hh : Header hs)
      (hne : ts ≠ []) (hts : Selections ts d fs) (hrest : Document rest e gs) :
      Document (hs ++ (enclosed '\x7b' ts '\x7d' ++ rest)) (max d e) (fs ++ gs)

/-! ### Counting braces and names -/

/-- What a reader has counted: the parentheses that are open, the braces that are open, the most of
them that were, and the names. -/
structure Nesting where
  level : Nat
  depth : Nat
  deepest : Nat
  names : Nat
  deriving DecidableEq

namespace Nesting

def start : Nesting := ⟨0, 0, 0, 0⟩

variable (counted : Text → Bool)

/-- In parentheses nothing but parentheses is read. -/
def step (m : Nesting) : Element → Nesting
  | .punctuator t =>
      if t = ['('] then { m with level := m.level + 1 }
      else if t = [')'] then { m with level := m.level - 1 }
      else if 0 < m.level then m
      else if t = ['\x7b'] then
        { m with depth := m.depth + 1, deepest := max m.deepest (m.depth + 1) }
      else if t = ['\x7d'] then { m with depth := m.depth - 1 }
      else m
  | .name t =>
      if m.level = 0 ∧ counted t = true then { m with names := m.names + 1 } else m
  | _ => m

def run (m : Nesting) (ts : List Element) : Nesting := ts.foldl (step counted) m

variable {counted} {m : Nesting} {ts us : List Element}

@[simp] theorem run_nil : run counted m [] = m := rfl

@[simp] theorem run_cons (e : Element) :
    run counted m (e :: ts) = run counted (m.step counted e) ts := rfl

@[simp] theorem run_append : run counted m (ts ++ us) = run counted (run counted m ts) us :=
  List.foldl_append

/-- What is no token is not counted. -/
theorem run_tokens (m : Nesting) (es : List Element) :
    run counted m (tokens es) = run counted m es := by
  induction es generalizing m with
  | nil => rfl
  | cons e es ih =>
      cases e with
      | ignored c => exact ih m
      | comment body => exact ih m
      | punctuator t => exact ih _
      | name t => exact ih _
      | number t => exact ih _
      | string t => exact ih _

@[simp] theorem step_open : m.step counted (mark '(') = { m with level := m.level + 1 } := rfl

@[simp] theorem step_close : m.step counted (mark ')') = { m with level := m.level - 1 } := rfl

theorem step_begin (h : m.level = 0) :
    m.step counted (mark '\x7b') =
      { m with depth := m.depth + 1, deepest := max m.deepest (m.depth + 1) } := by
  obtain ⟨level, depth, deepest, names⟩ := m
  obtain rfl : level = 0 := h
  rfl

theorem step_end (h : m.level = 0) :
    m.step counted (mark '\x7d') = { m with depth := m.depth - 1 } := by
  obtain ⟨level, depth, deepest, names⟩ := m
  obtain rfl : level = 0 := h
  rfl

theorem step_inside {c : Char} (h : 0 < m.level) (ho : c ≠ '(') (hc : c ≠ ')') :
    m.step counted (mark c) = m := by
  have hmark : ∀ {d : Char}, c ≠ d → ¬[c] = [d] := fun hne heq => hne (List.cons.inj heq).1
  rw [step, if_neg (hmark ho), if_neg (hmark hc), if_pos h]

theorem step_other {c : Char} (hc : c ∉ ['(', ')', '\x7b', '\x7d']) :
    m.step counted (mark c) = m := by
  have hmark : ∀ {d : Char}, d ∈ ['(', ')', '\x7b', '\x7d'] → ¬[c] = [d] := fun hd heq =>
    hc ((List.cons.inj heq).1 ▸ hd)
  rw [step, if_neg (hmark (by decide)), if_neg (hmark (by decide)), if_neg (hmark (by decide)),
    if_neg (hmark (by decide)), ite_self]

theorem step_level (m : Nesting) (e : Element) :
    (m.step counted e).level =
      if e = mark '(' then m.level + 1 else if e = mark ')' then m.level - 1 else m.level := by
  cases e with
  | punctuator t =>
      rw [step]
      split_ifs <;> simp_all
  | name t =>
      rw [step]
      split_ifs <;> simp_all
  | ignored c => rfl
  | comment body => rfl
  | number t => rfl
  | string t => rfl

/-- A reader with more parentheses open keeps more of them open. -/
theorem level_step {n : Nesting} (h : m.level ≤ n.level) (e : Element) :
    (m.step counted e).level ≤ (n.step counted e).level := by
  rw [step_level, step_level]
  split_ifs <;> omega

theorem level_run {n : Nesting} (h : m.level ≤ n.level) (ts : List Element) :
    (run counted m ts).level ≤ (run counted n ts).level := by
  induction ts generalizing m n with
  | nil => exact h
  | cons e ts ih => exact ih (level_step h e)

theorem depth_step (h : m.depth ≤ m.deepest) (e : Element) :
    (m.step counted e).depth ≤ (m.step counted e).deepest := by
  cases e with
  | punctuator t =>
      rw [step]
      split_ifs
      · exact h
      · exact h
      · exact h
      · exact le_max_right _ _
      · exact (Nat.sub_le _ _).trans h
      · exact h
  | name t =>
      rw [step]
      split_ifs <;> exact h
  | ignored c => exact h
  | comment body => exact h
  | number t => exact h
  | string t => exact h

theorem depth_run (h : m.depth ≤ m.deepest) (ts : List Element) :
    (run counted m ts).depth ≤ (run counted m ts).deepest := by
  induction ts generalizing m with
  | nil => exact h
  | cons e ts ih => exact ih (depth_step h e)

/-! #### What is in parentheses -/

/-- Tokens that are skipped in parentheses. -/
def Inert (ts : List Element) : Prop :=
  ∀ (counted : Text → Bool) (m : Nesting), 0 < m.level → run counted m ts = m

theorem inert_nil : Inert [] := fun _ _ _ => rfl

theorem Inert.mark {c : Char} (ho : c ≠ '(') (hc : c ≠ ')') (h : Inert ts) :
    Inert (mark c :: ts) := by
  intro counted m hm
  rw [run_cons, step_inside hm ho hc]
  exact h counted m hm

theorem Inert.name (n : Text) (h : Inert ts) : Inert (.name n :: ts) := by
  intro counted m hm
  have hname : m.step counted (.name n) = m :=
    if_neg fun hzero => absurd hzero.1 (Nat.pos_iff_ne_zero.mp hm)
  rw [run_cons, hname]
  exact h counted m hm

theorem Inert.append (h : Inert ts) (hrest : Inert us) : Inert (ts ++ us) := by
  intro counted m hm
  rw [run_append, h counted m hm]
  exact hrest counted m hm

theorem Inert.enclosed {c d : Char} (hc : c ≠ '(' ∧ c ≠ ')') (hd : d ≠ '(' ∧ d ≠ ')')
    (h : Inert ts) : Inert (enclosed c ts d) :=
  .mark hc.1 hc.2 (h.append (.mark hd.1 hd.2 inert_nil))

/-- A group in parentheses is skipped, wherever it stands. -/
theorem run_group (h : Inert ts) (m : Nesting) : run counted m (enclosed '(' ts ')') = m := by
  have hinside := h counted { m with level := m.level + 1 } (Nat.succ_pos _)
  rw [GraphQL.enclosed, run_cons, run_append, step_open, hinside]
  rfl

end Nesting

open Nesting

theorem Derives.inert {b : Bool} {k : Category} {ts : List Element} (h : Derives b k ts) :
    Inert ts := by
  induction h with
  | reference n => exact .mark (by decide) (by decide) (.name n inert_nil)
  | number b t => exact fun _ _ _ => rfl
  | string b t => exact fun _ _ _ => rfl
  | word b n => exact .name n inert_nil
  | list h ih => exact ih.enclosed (by decide) (by decide)
  | object h ih => exact ih.enclosed (by decide) (by decide)
  | noValues b => exact inert_nil
  | values h hrest ih ihrest => exact ih.append ihrest
  | noMembers b => exact inert_nil
  | members n h hrest ih ihrest =>
      exact .name n (.mark (by decide) (by decide) (ih.append ihrest))
  | noArguments b => exact inert_nil
  | arguments hne h ih => exact fun counted m _ => run_group ih m
  | noDirectives b => exact inert_nil
  | directives n h hrest ih ihrest =>
      exact .mark (by decide) (by decide) (.name n (ih.append ihrest))
  | named b n => exact .name n inert_nil
  | listOf h ih => exact ih.enclosed (by decide) (by decide)
  | plain h ih => exact ih
  | nonNull h ih => exact ih.append (.mark (by decide) (by decide) inert_nil)
  | noDefault b => exact inert_nil
  | default h ih => exact .mark (by decide) (by decide) ih
  | noDefinitions b => exact inert_nil
  | definitions n htype hdefault hdirs hrest iht ihd ihs ihr =>
      exact .mark (by decide) (by decide) (.name n (.mark (by decide) (by decide)
        (iht.append (ihd.append (ihs.append ihr)))))

/-! #### What is counted outside -/

namespace Nesting

/-- Outside of parentheses some tokens nest braces `d` deep, and have `k` names that count. -/
structure Grown (m r : Nesting) (d k : Nat) : Prop where
  outside : r.level = 0
  depth : r.depth = m.depth
  deepest : m.deepest ≤ r.deepest
  nested : m.depth + d ≤ r.deepest
  names : m.names + k ≤ r.names

def Grows (counted : Text → Bool) (ts : List Element) (d k : Nat) : Prop :=
  ∀ m : Nesting, m.level = 0 → m.depth ≤ m.deepest → Grown m (run counted m ts) d k

variable {counted : Text → Bool} {ts us : List Element} {d e k l : Nat}

theorem Grows.nil : Grows counted [] 0 0 := fun _ hm hle => ⟨hm, rfl, le_refl _, hle, le_refl _⟩

theorem Grows.append (h : Grows counted ts d k) (hrest : Grows counted us e l) :
    Grows counted (ts ++ us) (max d e) (k + l) := by
  intro m hm hle
  have hfirst := h m hm hle
  have hdepth : (run counted m ts).depth ≤ (run counted m ts).deepest := by
    rw [hfirst.depth]
    exact hle.trans hfirst.deepest
  have hsecond := hrest _ hfirst.outside hdepth
  rw [run_append]
  refine ⟨hsecond.outside, hsecond.depth.trans hfirst.depth,
    hfirst.deepest.trans hsecond.deepest, ?_, ?_⟩
  · have h₁ := hfirst.nested
    have h₂ := hsecond.nested
    have h₃ := hsecond.deepest
    rw [hfirst.depth] at h₂
    omega
  · have h₁ := hfirst.names
    have h₂ := hsecond.names
    omega

/-- What counts nothing may stand before anything. -/
theorem Grows.after (h : Grows counted ts 0 0) (hrest : Grows counted us d k) :
    Grows counted (ts ++ us) d k := by
  have happend := h.append hrest
  rwa [Nat.zero_max, Nat.zero_add] at happend

theorem grows_other {c : Char} (hc : c ∉ ['(', ')', '\x7b', '\x7d'])
    (h : Grows counted ts d k) : Grows counted (mark c :: ts) d k := by
  intro m hm hle
  rw [run_cons, step_other hc]
  exact h m hm hle

theorem grows_name (n : Text) (h : Grows counted ts d k) :
    Grows counted (.name n :: ts) d (if counted n = true then k + 1 else k) := by
  intro m hm hle
  rw [run_cons, step]
  by_cases hn : counted n = true
  · rw [if_pos ⟨hm, hn⟩, if_pos hn]
    have hrest := h { m with names := m.names + 1 } hm hle
    refine ⟨hrest.outside, hrest.depth, hrest.deepest, hrest.nested, ?_⟩
    have hnames := hrest.names
    dsimp only at hnames
    omega
  · rw [if_neg fun hboth => hn hboth.2, if_neg hn]
    exact h m hm hle

theorem Grows.mono (h : Grows counted ts d k) (hd : e ≤ d) (hk : l ≤ k) :
    Grows counted ts e l := fun m hm hle =>
  have hgrown := h m hm hle
  ⟨hgrown.outside, hgrown.depth, hgrown.deepest,
    (Nat.add_le_add_left hd _).trans hgrown.nested, (Nat.add_le_add_left hk _).trans hgrown.names⟩

theorem grows_skip (n : Text) (h : Grows counted ts d k) : Grows counted (.name n :: ts) d k := by
  refine (grows_name n h).mono (le_refl d) ?_
  split_ifs
  · exact Nat.le_succ k
  · exact le_refl k

theorem grows_group (h : Inert ts) : Grows counted (enclosed '(' ts ')') 0 0 := by
  intro m hm hle
  rw [run_group h]
  exact ⟨hm, rfl, le_refl _, hle, le_refl _⟩

theorem grows_braces (h : Grows counted ts d k) :
    Grows counted (enclosed '\x7b' ts '\x7d') (d + 1) k := by
  intro m hm hle
  rw [enclosed, run_cons, run_append, step_begin hm, run_cons, run_nil]
  have hinside := h { m with depth := m.depth + 1, deepest := max m.deepest (m.depth + 1) } hm
    (le_max_right _ _)
  rw [step_end hinside.outside]
  refine ⟨hinside.outside, ?_, (le_max_left _ _).trans hinside.deepest, ?_, hinside.names⟩
  · dsimp only
    rw [hinside.depth]
    rfl
  · have hnested := hinside.nested
    dsimp only at hnested ⊢
    omega

end Nesting

section Documents

variable {counted : Text → Bool} {b : Bool} {ts : List Element} {d : Nat} {fs : List Field}

theorem Derives.grows_arguments (h : Derives b .arguments ts) : Grows counted ts 0 0 := by
  cases h with
  | noArguments => exact .nil
  | arguments hne h => exact grows_group h.inert

theorem Derives.grows_directives (h : Derives b .directives ts) : Grows counted ts 0 0 := by
  generalize hk : Category.directives = k at h
  induction h with
  | noDirectives => exact .nil
  | directives n h hrest ih ihrest =>
      exact grows_other (by decide) (grows_skip n (h.grows_arguments.after (ihrest hk)))
  | _ => cases hk

/-- The name or the alias of the field counts. -/
def Field.Counted (counted : Text → Bool) (f : Field) : Prop :=
  counted f.name = true ∨ ∃ a, f.aliasName = some a ∧ counted a = true

theorem Field.Counted.grows {f : Field} {k : Nat} (h : f.Counted counted)
    (hts : Grows counted ts d k) :
    Grows counted (aliasTokens f.aliasName ++ .name f.name :: ts) d (k + 1) := by
  rcases h with hname | ⟨a, ha, hcount⟩
  · have hfield := grows_name f.name hts
    rw [if_pos hname] at hfield
    cases f.aliasName with
    | none => exact hfield
    | some a => exact grows_skip a (grows_other (by decide) hfield)
  · have halias := grows_name a (grows_other (c := ':') (by decide) (grows_skip f.name hts))
    rw [if_pos hcount] at halias
    rw [ha]
    exact halias

theorem grows_condition {k : Nat} (condition : Option Text) (h : Grows counted ts d k) :
    Grows counted (conditionTokens condition ++ ts) d k := by
  cases condition with
  | none => exact h
  | some t => exact grows_skip _ (grows_skip t h)

theorem step_ellipsis (m : Nesting) : m.step counted ellipsis = m := by
  rw [ellipsis, step, if_neg (by decide), if_neg (by decide)]
  split_ifs with h₁ h₂ h₃
  · rfl
  · exact absurd h₂ (by decide)
  · exact absurd h₃ (by decide)
  · rfl

theorem grows_ellipsis {k : Nat} (h : Grows counted ts d k) :
    Grows counted (ellipsis :: ts) d k := by
  intro m hm hle
  rw [run_cons, step_ellipsis]
  exact h m hm hle

/-- **Selections nest braces as deep as their sets are, and a name counts for each field.** -/
theorem Selections.grows (h : Selections ts d fs) (hfs : ∀ f ∈ fs, f.Counted counted) :
    Grows counted ts d fs.length := by
  induction h with
  | nil => exact .nil
  | field f hargs hdirs hrest ih =>
      obtain ⟨hf, hgs⟩ := List.forall_mem_cons.mp hfs
      exact hf.grows (hargs.grows_arguments.after (hdirs.grows_directives.after (ih hgs)))
  | nested f hargs hdirs hne hts hrest ih ihrest =>
      obtain ⟨hf, hboth⟩ := List.forall_mem_cons.mp hfs
      obtain ⟨hinner, hgs⟩ := List.forall_mem_append.mp hboth
      rw [List.length_cons, List.length_append]
      exact hf.grows (hargs.grows_arguments.after (hdirs.grows_directives.after
        ((grows_braces (ih hinner)).append (ihrest hgs))))
  | spread n hn hdirs hrest ih =>
      exact grows_ellipsis (grows_skip n (hdirs.grows_directives.after (ih hfs)))
  | inline condition hdirs hne hts hrest ih ihrest =>
      obtain ⟨hinner, hgs⟩ := List.forall_mem_append.mp hfs
      rw [List.length_append]
      exact grows_ellipsis (grows_condition condition (hdirs.grows_directives.after
        ((grows_braces (ih hinner)).append (ihrest hgs))))

theorem Variables.grows (h : Variables ts) : Grows counted ts 0 0 := by
  cases h with
  | none => exact .nil
  | some hne h => exact grows_group h.inert

theorem Header.grows (h : Header ts) : Grows counted ts 0 0 := by
  cases h with
  | shorthand => exact .nil
  | operation kind hkind name hvars hdirs =>
      have hname : Grows counted (name.toList.map Element.name) 0 0 := by
        cases name with
        | none => exact .nil
        | some n => exact grows_skip n .nil
      exact grows_skip kind (hname.after (hvars.grows.after hdirs.grows_directives))
  | fragment n t hn hdirs =>
      exact grows_skip _ (grows_skip n (grows_condition (some t) hdirs.grows_directives))

/-- A document begins with a header and a brace; the rest nests braces one deeper than the
selections. -/
theorem Document.grows (h : Document ts d fs) (hfs : ∀ f ∈ fs, f.Counted counted) :
    ∃ hs tail, ts = hs ++ mark '\x7b' :: tail ∧ Header hs ∧
      Grows counted (mark '\x7b' :: tail) (d + 1) fs.length := by
  induction h with
  | last hh hne hts => exact ⟨_, _, rfl, hh, grows_braces (hts.grows hfs)⟩
  | @cons hs ts rest d e fs gs hh hne hts hrest ih =>
      obtain ⟨hinner, hgs⟩ := List.forall_mem_append.mp hfs
      obtain ⟨hs', tail, rfl, hh', hgrows⟩ := ih hgs
      refine ⟨hs, _, rfl, hh, ?_⟩
      have hall := (grows_braces (hts.grows hinner)).append (hh'.grows.after hgrows)
      rw [← Nat.add_max_add_right, List.length_append]
      exact hall

/-- **A reader that begins with the first brace still counts all of it.**  The brace may be one of
an object, in the parentheses of a header. -/
theorem Document.counts {before after : List Element} (h : Document ts d fs)
    (hfs : ∀ f ∈ fs, f.Counted counted) (hcut : ts = before ++ mark '\x7b' :: after)
    (hfirst : mark '\x7b' ∉ before) :
    d + 1 ≤ (run counted start (mark '\x7b' :: after)).deepest ∧
      fs.length ≤ (run counted start (mark '\x7b' :: after)).names := by
  obtain ⟨hs, tail, hts, hh, hgrows⟩ := h.grows hfs
  obtain ⟨u, rfl, hafter⟩ :
      ∃ u, hs = before ++ u ∧ mark '\x7b' :: after = u ++ mark '\x7b' :: tail := by
    rcases List.append_eq_append_iff.mp (hcut.symm.trans hts) with ⟨u, h₁, h₂⟩ | ⟨u, h₁, h₂⟩
    · exact ⟨u, h₁, h₂⟩
    · cases u with
      | nil => exact ⟨[], by rw [h₁, List.append_nil, List.append_nil], h₂.symm⟩
      | cons e u =>
          obtain ⟨rfl, -⟩ := List.cons.inj h₂
          exact absurd (h₁ ▸ List.mem_append_right hs List.mem_cons_self) hfirst
  have hlevel : (run counted start u).level = 0 := by
    have hgrowsHeader : Grows counted (before ++ u) 0 0 := hh.grows
    have hheader := (hgrowsHeader start rfl (le_refl 0)).outside
    rw [run_append] at hheader
    exact Nat.le_zero.mp (hheader ▸ level_run (Nat.zero_le _) u)
  have hgrown := hgrows _ hlevel (depth_run (le_refl 0) u)
  rw [hafter, run_append]
  exact ⟨(Nat.le_add_left _ _).trans hgrown.nested, (Nat.le_add_left _ _).trans hgrown.names⟩

end Documents

end GraphQL
