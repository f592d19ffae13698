import CorexManager.ApiArmor.JwtValidator
import CorexManager.ApiArmor.LearnedSchema

/-!
# What a schema means

`validate` of `schema_validator/src/lib.rs` against the meaning JSON Schema gives to the keywords it
knows.  The validator counts the bytes of a string, compares numbers as `f64`, reads bounds that are
written as integers only, knows no boolean schemas but `additionalProperties: false`, and reads that
only beside `properties`; a pattern that is a lone star makes it panic.

* `Satisfies` — a value meets the keywords of a schema, and its parts the schemas that apply to
  them.
* `Accepts` — the same for the validator; `validateValue_nil_iff` — it reports nothing exactly then.
* `Clear` — the two agree about the keywords of a schema and a value.
* `validate_iff` — if they do wherever the validator comes, it does not panic and it reports
  violations exactly of the values that do not satisfy the schema.
-/

namespace CorexManager.ApiArmor.Schema

open Data
open Rust (asU64)

/-! ### JSON Schema -/

/-- Two values are the same: numbers by their value, objects by their fields. -/
inductive Same : Json → Json → Prop
  | null : Same .null .null
  | bool (b : Bool) : Same (.bool b) (.bool b)
  | num {m n : Number} (h : numberValue m = numberValue n) : Same (.num m) (.num n)
  | str (t : Text) : Same (.str t) (.str t)
  | arr {as bs : List Json} (hlength : as.length = bs.length)
      (h : ∀ p ∈ as.zip bs, Same p.1 p.2) : Same (.arr as) (.arr bs)
  | obj {as bs : List (Text × Json)}
      (hkeys : ∀ k, (Dict.lookup as k).isSome = (Dict.lookup bs k).isSome)
      (h : ∀ k a b, Dict.lookup as k = some a → Dict.lookup bs k = some b → Same a b) :
      Same (.obj as) (.obj bs)

/-- The names of types. -/
def typeNames : List Text :=
  ["string".toList, "number".toList, "integer".toList, "boolean".toList, "object".toList,
    "array".toList, "null".toList]

/-- A value of a type; what names no type asks for nothing. -/
inductive HasName : Json → Text → Prop
  | string (t : Text) : HasName (.str t) "string".toList
  | number (n : Number) : HasName (.num n) "number".toList
  | integer {n : Number} (i : Int) (h : numberValue n = i) : HasName (.num n) "integer".toList
  | boolean (b : Bool) : HasName (.bool b) "boolean".toList
  | object (fields : List (Text × Json)) : HasName (.obj fields) "object".toList
  | array (items : List Json) : HasName (.arr items) "array".toList
  | null : HasName .null "null".toList
  | unknown (v : Json) {name : Text} (h : name ∉ typeNames) : HasName v name

/-- `type`: a name, or one of some. -/
inductive HasType (v : Json) : Json → Prop
  | name {n : Text} (h : HasName v n) : HasType v (.str n)
  | union {types : List Json} {t : Json} (ht : t ∈ types) (h : HasType v t) : HasType v (.arr types)
  | other {t : Json} (hstr : t.asStr = none) (harr : t.asArray = none) : HasType v t

/-- `pattern`: a text, with a star for anything at its beginning, at its end or at both. -/
inductive Wildcard : Text → Text → Prop
  | holds {t x : Text} (h : x <:+: t) : Wildcard t ('*' :: (x ++ ['*']))
  | ends {t x : Text} (hx : x.getLast? ≠ some '*') (h : x <:+ t) : Wildcard t ('*' :: x)
  | begins {t x : Text} (hx : x.head? ≠ some '*') (h : x <+: t) : Wildcard t (x ++ ['*'])
  | is {t : Text} (hfirst : t.head? ≠ some '*') (hlast : t.getLast? ≠ some '*') : Wildcard t t

/-- A value meets the keywords of a schema that are not about its parts. -/
structure Meets (v s : Json) : Prop where
  possible : s ≠ .bool false
  type t : s.get "type".toList = some t → HasType v t
  enum allowed : s.get "enum".toList = some (.arr allowed) → ∃ a ∈ allowed, Same v a
  minLength t b : v = .str t → s.get "minLength".toList = some (.num b) →
    numberValue b ≤ t.length
  maxLength t b : v = .str t → s.get "maxLength".toList = some (.num b) →
    (t.length : ℚ) ≤ numberValue b
  pattern t p : v = .str t → s.get "pattern".toList = some (.str p) → Wildcard t p
  minimum n b : v = .num n → s.get "minimum".toList = some (.num b) →
    numberValue b ≤ numberValue n
  maximum n b : v = .num n → s.get "maximum".toList = some (.num b) →
    numberValue n ≤ numberValue b
  required fields names name : v = .obj fields → s.get "required".toList = some (.arr names) →
    .str name ∈ names → (Dict.lookup fields name).isSome = true
  minItems items b : v = .arr items → s.get "minItems".toList = some (.num b) →
    numberValue b ≤ items.length
  maxItems items b : v = .arr items → s.get "maxItems".toList = some (.num b) →
    (items.length : ℚ) ≤ numberValue b

/-- The schemas of the properties. -/
def propertiesOf (s : Json) : List (Text × Json) :=
  match s.get "properties".toList with
  | some (.obj ps) => ps
  | _ => []

/-- A schema applies to a part of a value. -/
inductive Applies : Json × Json → Json × Json → Prop
  | property {fields : List (Text × Json)} {s v p : Json} {key : Text}
      (hp : (key, p) ∈ propertiesOf s) (hv : Dict.lookup fields key = some v) :
      Applies (.obj fields, s) (v, p)
  | additional {fields : List (Text × Json)} {s v a : Json} {key : Text}
      (hnone : Dict.lookup (propertiesOf s) key = none)
      (ha : s.get "additionalProperties".toList = some a) (hv : (key, v) ∈ fields) :
      Applies (.obj fields, s) (v, a)
  | item {items : List Json} {s v i : Json} (hi : s.get "items".toList = some i)
      (hv : v ∈ items) : Applies (.arr items, s) (v, i)

/-- **A value satisfies a schema.** -/
inductive Satisfies : Json → Json → Prop
  | intro {v s : Json} (meets : Meets v s)
      (parts : ∀ v' s', Applies (v, s) (v', s') → Satisfies v' s') : Satisfies v s

/-! ### The validator -/

/-- The value has the type of the schema, if the schema has one. -/
def TypePasses (v s : Json) : Prop := (s.get "type".toList).all (checkType v) = true

/-- `validate_value` calls itself. -/
inductive Descends : Json × Json → Json × Json → Prop
  | property {fields ps : List (Text × Json)} {s v p : Json} {key : Text}
      (htype : TypePasses (.obj fields) s) (hs : s.get "properties".toList = some (.obj ps))
      (hp : (key, p) ∈ ps) (hv : Dict.lookup fields key = some v) :
      Descends (.obj fields, s) (v, p)
  | additional {fields ps a : List (Text × Json)} {s v : Json} {key : Text}
      (htype : TypePasses (.obj fields) s) (hs : s.get "properties".toList = some (.obj ps))
      (hnone : Dict.lookup ps key = none)
      (ha : s.get "additionalProperties".toList = some (.obj a)) (hv : (key, v) ∈ fields) :
      Descends (.obj fields, s) (v, .obj a)
  | item {items : List Json} {s v i : Json} (htype : TypePasses (.arr items) s)
      (hi : s.get "items".toList = some i) (hv : v ∈ items) : Descends (.arr items, s) (v, i)

/-- The validator comes to a value and a schema. -/
def Reaches : Json × Json → Json × Json → Prop := Relation.ReflTransGen Descends

/-- It comes to a string whose pattern is a lone star: `match_pattern` then takes the slice of the
pattern from 1 to 0. -/
def Panics (value schema : Json) : Prop :=
  ∃ t s, Reaches (value, schema) (.str t, s) ∧ TypePasses (.str t) s ∧
    s.get "pattern".toList = some (.str ['*'])

/-- Nothing is reported of the number of the parts of a value, and of their names. -/
structure PartsPass (v s : Json) : Prop where
  required fields names name : v = .obj fields → s.get "required".toList = some (.arr names) →
    .str name ∈ names → (Dict.lookup fields name).isSome = true
  additional fields ps f : v = .obj fields → s.get "properties".toList = some (.obj ps) →
    s.get "additionalProperties".toList = some (.bool false) → f ∈ fields →
      (Dict.lookup ps f.1).isSome = true
  minItems items b : v = .arr items → boundOf s "minItems".toList = some b → b ≤ items.length
  maxItems items b : v = .arr items → boundOf s "maxItems".toList = some b → items.length ≤ b

variable (V : Values)

/-- Nothing is reported of the value itself. -/
structure Passes (v s : Json) : Prop extends PartsPass v s where
  type : TypePasses v s
  enum allowed : s.get "enum".toList = some (.arr allowed) → allowed.any (V.equal v) = true
  minLength t b : v = .str t → boundOf s "minLength".toList = some b → b ≤ Rust.len t
  maxLength t b : v = .str t → boundOf s "maxLength".toList = some b → Rust.len t ≤ b
  pattern t p : v = .str t → s.get "pattern".toList = some (.str p) → matchPattern t p = true
  minimum n b : v = .num n → s.get "minimum".toList = some (.num b) → V.lessThan n b = false
  maximum n b : v = .num n → s.get "maximum".toList = some (.num b) → V.lessThan b n = false

/-- Nothing is reported of the value and its parts. -/
inductive Accepts : Json → Json → Prop
  | intro {v s : Json} (passes : Passes V v s)
      (parts : ∀ v' s', Descends (v, s) (v', s') → Accepts v' s') : Accepts v s

/-! ### Where the two agree -/

/-- The validator reads the keywords of the schema as they are meant, for the value. -/
structure Clear (v s : Json) : Prop where
  /-- Of the boolean schemas `true` only is read right. -/
  possible : s ≠ .bool false
  /-- `additionalProperties` is read beside `properties`. -/
  additional fields a : v = .obj fields → s.get "additionalProperties".toList = some a →
    a = .bool true ∨ fields = [] ∨ ∃ ps, s.get "properties".toList = some (.obj ps)
  /-- No bound lies between the number of characters and that of bytes, and what is no integer that
  fits in 64 bits does not matter. -/
  minLength t b : v = .str t → s.get "minLength".toList = some (.num b) →
    (∀ n, asU64 (.num b) = some n → n ≤ Rust.len t → n ≤ t.length) ∧
      (asU64 (.num b) = none → numberValue b ≤ t.length)
  maxLength t b : v = .str t → s.get "maxLength".toList = some (.num b) →
    (∀ n, asU64 (.num b) = some n → t.length ≤ n → Rust.len t ≤ n) ∧
      (asU64 (.num b) = none → (t.length : ℚ) ≤ numberValue b)
  minItems items b : v = .arr items → s.get "minItems".toList = some (.num b) →
    asU64 (.num b) = none → numberValue b ≤ items.length
  maxItems items b : v = .arr items → s.get "maxItems".toList = some (.num b) →
    asU64 (.num b) = none → (items.length : ℚ) ≤ numberValue b
  pattern t : v = .str t → s.get "pattern".toList ≠ some (.str ['*'])
  /-- As `f64` the numbers are in their order. -/
  minimum n b : v = .num n → s.get "minimum".toList = some (.num b) →
    (V.lessThan n b = true ↔ numberValue n < numberValue b)
  maximum n b : v = .num n → s.get "maximum".toList = some (.num b) →
    (V.lessThan b n = true ↔ numberValue b < numberValue n)
  /-- `==` of values finds what is the same. -/
  enum allowed : s.get "enum".toList = some (.arr allowed) →
    ((∃ a ∈ allowed, V.equal v a = true) ↔ ∃ a ∈ allowed, Same v a)

/-- The numbers of a value are those that `serde_json` holds: integers of 64 bits, with or without a
sign, and finite numbers of floating point. -/
inductive Held : Json → Prop
  | null : Held .null
  | bool (b : Bool) : Held (.bool b)
  | int {n : Int} (h : -9223372036854775808 ≤ n ∧ n < 18446744073709551616) :
      Held (.num (.int n))
  | float {bits : UInt64} (h : bits.toNat / 4503599627370496 % 2048 ≠ 2047) :
      Held (.num (.float bits))
  | str (t : Text) : Held (.str t)
  | arr {items : List Json} (h : ∀ v ∈ items, Held v) : Held (.arr items)
  | obj {fields : List (Text × Json)} (h : ∀ f ∈ fields, Held f.2) : Held (.obj fields)

/-! ### Types -/

/-- The significand and the sign of a number do not matter for being whole. -/
theorem whole_mul {m k : Nat} :
    (∃ i : Int, (m : ℚ) * (2 : ℚ) ^ (-(k : Int)) = i) ↔ m % 2 ^ k = 0 := by
  have hpos : (0 : ℚ) < 2 ^ k := by positivity
  rw [← Nat.dvd_iff_mod_eq_zero]
  constructor
  · rintro ⟨i, hi⟩
    rw [zpow_neg, zpow_natCast, ← div_eq_mul_inv, div_eq_iff hpos.ne'] at hi
    have hint : (m : Int) = i * 2 ^ k := by exact_mod_cast hi
    exact Int.natCast_dvd_natCast.mp ⟨i, by rw [hint]; push_cast; ring⟩
  · rintro ⟨j, rfl⟩
    refine ⟨j, ?_⟩
    rw [zpow_neg, zpow_natCast]
    push_cast
    field_simp

theorem neg_whole {q : ℚ} : (∃ i : Int, -q = i) ↔ ∃ i : Int, q = i := by
  constructor
  · rintro ⟨i, hi⟩
    exact ⟨-i, by rw [Int.cast_neg, ← hi, neg_neg]⟩
  · rintro ⟨i, rfl⟩
    exact ⟨-i, by rw [Int.cast_neg]⟩

/-- `fract` is zero exactly for the integers. -/
theorem wholeBits_iff {bits : UInt64} (h : bits.toNat / 4503599627370496 % 2048 ≠ 2047) :
    wholeBits bits = true ↔ ∃ i : Int, f64Value bits = i := by
  have hpow : (2 : Nat) ^ 52 = 4503599627370496 := by norm_num
  have hpow' : (2 : Nat) ^ 11 = 2048 := by norm_num
  unfold wholeBits f64Value
  dsimp only
  rw [hpow, hpow']
  generalize he : bits.toNat / 4503599627370496 % 2048 = e at h ⊢
  generalize hf : bits.toNat % 4503599627370496 = f
  have hflt : f < 4503599627370496 := hf ▸ Nat.mod_lt _ (by norm_num)
  have helt : e < 2048 := he ▸ Nat.mod_lt _ (by norm_num)
  have hsign : ∀ (c : Prop) [Decidable c] (q : ℚ),
      (∃ i : Int, (if c then -q else q) = i) ↔ ∃ i : Int, q = i := by
    intro c _ q
    split_ifs
    · exact neg_whole
    · exact Iff.rfl
  rw [hsign]
  by_cases hzero : e = 0
  · rw [if_pos hzero, if_pos hzero]
    have hsmall : ∀ k : Nat, 52 ≤ k →
        ((∃ i : Int, (f : ℚ) * (2 : ℚ) ^ (-(k : Int)) = i) ↔ f = 0) := by
      intro k hk
      have hlt : f < 2 ^ k := by
        refine hflt.trans_le ?_
        rw [← hpow]
        exact Nat.pow_le_pow_right (by decide) hk
      rw [whole_mul, Nat.mod_eq_of_lt hlt]
    rw [beq_iff_eq]
    exact (hsmall 1074 (by decide)).symm
  · rw [if_neg hzero, if_neg hzero]
    have hbound : e < 2047 := by omega
    rw [decide_eq_true hbound, Bool.true_and]
    by_cases hbig : 1075 ≤ e
    · rw [decide_eq_true hbig, Bool.true_or]
      refine iff_of_true rfl ⟨((4503599627370496 + f) * 2 ^ (e - 1075) : Nat), ?_⟩
      have hexp : (e : Int) - 1075 = ((e - 1075 : Nat) : Int) := by omega
      rw [hexp, zpow_natCast]
      push_cast
      ring
    · rw [decide_eq_false hbig, Bool.false_or, beq_iff_eq]
      have hexp : (e : Int) - 1075 = -((1075 - e : Nat) : Int) := by omega
      rw [hexp]
      exact whole_mul.symm

theorem isIntegerValue_iff {v : Json} (hv : Held v) :
    isIntegerValue v = true ↔ ∃ n, v = .num n ∧ ∃ i : Int, numberValue n = i := by
  cases hv with
  | @int n h =>
      refine iff_of_true (decide_eq_true ⟨?_, ?_⟩) ⟨_, rfl, n, rfl⟩
      · have hpow : (2 : Int) ^ 63 = 9223372036854775808 := by norm_num
        rw [hpow]
        exact h.1
      · have hpow : (2 : Int) ^ 64 = 18446744073709551616 := by norm_num
        rw [hpow]
        exact h.2
  | @float bits h =>
      refine (wholeBits_iff h).trans ⟨fun hi => ⟨_, rfl, hi⟩, ?_⟩
      rintro ⟨n, hn, hi⟩
      obtain rfl := Json.num.inj hn
      exact hi
  | null => exact ⟨fun h => absurd h Bool.false_ne_true, fun ⟨_, h, _⟩ => Json.noConfusion h⟩
  | bool b => exact ⟨fun h => absurd h Bool.false_ne_true, fun ⟨_, h, _⟩ => Json.noConfusion h⟩
  | str t => exact ⟨fun h => absurd h Bool.false_ne_true, fun ⟨_, h, _⟩ => Json.noConfusion h⟩
  | arr h => exact ⟨fun h => absurd h Bool.false_ne_true, fun ⟨_, h, _⟩ => Json.noConfusion h⟩
  | obj h => exact ⟨fun h => absurd h Bool.false_ne_true, fun ⟨_, h, _⟩ => Json.noConfusion h⟩

/-- **A value has the type the validator sees.** -/
theorem hasTypeName_iff {v : Json} (hv : Held v) (name : Text) :
    hasTypeName v name = true ↔ HasName v name := by
  constructor
  · intro h
    unfold hasTypeName at h
    split_ifs at h with h₁ h₂ h₃ h₄ h₅ h₆ h₇
    · subst h₁
      cases v with
      | str t => exact .string t
      | _ => cases h
    · subst h₂
      cases v with
      | num n => exact .number n
      | _ => cases h
    · subst h₃
      obtain ⟨n, rfl, i, hi⟩ := (isIntegerValue_iff hv).mp h
      exact .integer i hi
    · subst h₄
      cases v with
      | bool b => exact .boolean b
      | _ => cases h
    · subst h₅
      cases v with
      | obj fields => exact .object fields
      | _ => cases h
    · subst h₆
      cases v with
      | arr items => exact .array items
      | _ => cases h
    · subst h₇
      cases v with
      | null => exact .null
      | _ => cases h
    · refine .unknown v fun hin => ?_
      simp only [typeNames, List.mem_cons, List.not_mem_nil, or_false] at hin
      rcases hin with h | h | h | h | h | h | h
      · exact h₁ h
      · exact h₂ h
      · exact h₃ h
      · exact h₄ h
      · exact h₅ h
      · exact h₆ h
      · exact h₇ h
  · intro h
    cases h with
    | string t => rfl
    | number n => rfl
    | integer i h => exact (isIntegerValue_iff hv).mpr ⟨_, rfl, i, h⟩
    | boolean b => rfl
    | object fields => rfl
    | array items => rfl
    | null => rfl
    | unknown _ h =>
        have hne : ∀ k ∈ typeNames, ¬name = k := fun k hk heq => h (heq ▸ hk)
        unfold hasTypeName
        rw [if_neg (hne _ (by decide)), if_neg (hne _ (by decide)), if_neg (hne _ (by decide)),
          if_neg (hne _ (by decide)), if_neg (hne _ (by decide)), if_neg (hne _ (by decide)),
          if_neg (hne _ (by decide))]

mutual

theorem checkType_iff {v : Json} (hv : Held v) : ∀ t, checkType v t = true ↔ HasType v t
  | .str name => by
      rw [checkType, hasTypeName_iff hv]
      constructor
      · exact .name
      · intro h
        cases h with
        | name h => exact h
        | other hstr _ => cases hstr
  | .arr types => by
      rw [checkType, checkTypes_iff hv types]
      constructor
      · rintro ⟨t, ht, h⟩
        exact .union ht h
      · intro h
        cases h with
        | union ht h => exact ⟨_, ht, h⟩
        | other _ harr => cases harr
  | .null => iff_of_true rfl (.other rfl rfl)
  | .bool _ => iff_of_true rfl (.other rfl rfl)
  | .num _ => iff_of_true rfl (.other rfl rfl)
  | .obj _ => iff_of_true rfl (.other rfl rfl)

theorem checkTypes_iff {v : Json} (hv : Held v) :
    ∀ types, checkTypes v types = true ↔ ∃ t ∈ types, HasType v t
  | [] => ⟨fun h => absurd h Bool.false_ne_true, fun ⟨_, ht, _⟩ => absurd ht List.not_mem_nil⟩
  | t :: types => by
      rw [checkTypes, Bool.or_eq_true, checkType_iff hv t, checkTypes_iff hv types]
      constructor
      · rintro (h | ⟨u, hu, h⟩)
        · exact ⟨t, List.mem_cons_self, h⟩
        · exact ⟨u, List.mem_cons_of_mem t hu, h⟩
      · rintro ⟨u, hu, h⟩
        rcases List.mem_cons.mp hu with rfl | hu
        · exact .inl h
        · exact .inr ⟨u, hu, h⟩

end

theorem typePasses_iff {v s : Json} (hv : Held v) :
    TypePasses v s ↔ ∀ t, s.get "type".toList = some t → HasType v t := by
  unfold TypePasses
  cases h : s.get "type".toList with
  | none => exact iff_of_true rfl fun t ht => by cases ht
  | some t =>
      rw [Option.all_some, checkType_iff hv]
      exact ⟨fun ht u hu => Option.some.inj hu ▸ ht, fun hall => hall t rfl⟩

/-! ### Patterns -/

theorem getLast?_star {x : Text} (hx : x ≠ []) : ('*' :: x).getLast? = x.getLast? := by
  cases h : x.getLast? with
  | none => exact absurd (List.getLast?_eq_none_iff.mp h) hx
  | some c => rw [List.getLast?_cons, h, Option.getD_some]

theorem head?_star {x : Text} (hx : x ≠ []) : (x ++ ['*']).head? = x.head? := by
  cases x with
  | nil => exact absurd rfl hx
  | cons c x => rfl

/-- **A pattern is matched as it is meant**, unless it is a lone star. -/
theorem matchPattern_iff {t p : Text} (hp : p ≠ ['*']) :
    matchPattern t p = true ↔ Wildcard t p := by
  constructor
  · intro h
    unfold matchPattern at h
    split_ifs at h with h₁ h₂ h₃
    · obtain ⟨x, rfl⟩ := List.head?_eq_some_iff.mp h₁.1
      have hx : x ≠ [] := fun hnil => hp (by rw [hnil])
      obtain ⟨y, rfl⟩ := List.getLast?_eq_some_iff.mp (getLast?_star hx ▸ h₁.2)
      rw [Rust.contains, decide_eq_true_iff, List.drop_one, List.tail_cons,
        List.dropLast_concat] at h
      exact .holds h
    · obtain ⟨x, rfl⟩ := List.head?_eq_some_iff.mp h₂
      refine .ends (fun hlast => h₁ ⟨h₂, ?_⟩) (List.isSuffixOf_iff_suffix.mp h)
      have hx : x ≠ [] := fun hnil => by
        rw [hnil] at hlast
        cases hlast
      rw [getLast?_star hx, hlast]
    · obtain ⟨x, rfl⟩ := List.getLast?_eq_some_iff.mp h₃
      rw [List.dropLast_concat] at h
      refine .begins (fun hfirst => h₂ ?_) (List.isPrefixOf_iff_prefix.mp h)
      have hx : x ≠ [] := fun hnil => by
        rw [hnil] at hfirst
        cases hfirst
      rw [head?_star hx, hfirst]
    · obtain rfl := beq_iff_eq.mp h
      exact .is h₂ h₃
  · intro h
    unfold matchPattern
    cases h with
    | @holds x h =>
        rw [if_pos ⟨rfl, by rw [← List.cons_append, List.getLast?_concat]⟩, Rust.contains,
          decide_eq_true_iff, List.drop_one, List.tail_cons, List.dropLast_concat]
        exact h
    | @ends x hx h =>
        have hne : x ≠ [] := fun hnil => hp (by rw [hnil])
        rw [if_neg fun hboth => hx (getLast?_star hne ▸ hboth.2), if_pos List.head?_cons]
        exact List.isSuffixOf_iff_suffix.mpr h
    | @begins x hx h =>
        have hne : x ≠ [] := fun hnil => hp (by rw [hnil]; rfl)
        have hfirst : (x ++ ['*']).head? ≠ some '*' := head?_star hne ▸ hx
        rw [if_neg fun hboth => hfirst hboth.1, if_neg hfirst, if_pos (List.getLast?_concat ..),
          List.dropLast_concat]
        exact List.isPrefixOf_iff_prefix.mpr h
    | is hfirst hlast =>
        rw [if_neg fun hboth => hfirst hboth.1, if_neg hfirst, if_neg hlast]
        exact beq_self_eq_true _

/-! ### What the validator accepts -/

section Accepts

variable {V : Values} {v s : Json} {path : Text}

/-- One violation, or none. -/
theorem ite_nil_iff {c : Prop} [Decidable c] {x : Violation} :
    (if c then [] else [x]) = [] ↔ c := by
  by_cases h : c
  · rw [if_pos h]
    exact iff_of_true rfl h
  · rw [if_neg h]
    exact iff_of_false (List.cons_ne_nil _ _) h

theorem ite_cons_iff {c : Prop} [Decidable c] {x : Violation} :
    (if c then [x] else []) = [] ↔ ¬c := by
  rw [← ite_not, ite_nil_iff]

theorem lengthViolations_nil_iff {length : Nat} {min max : Option Nat}
    {tooShort tooLong : Nat → Nat → Failure} :
    lengthViolations path length min max tooShort tooLong = [] ↔
      (∀ b, min = some b → b ≤ length) ∧ ∀ b, max = some b → length ≤ b := by
  unfold lengthViolations
  rw [List.append_eq_nil_iff]
  refine and_congr ?_ ?_
  · cases min with
    | none => exact iff_of_true rfl fun b hb => by cases hb
    | some n =>
        dsimp only
        rw [ite_cons_iff, Nat.not_lt]
        exact ⟨fun h b hb => Option.some.inj hb ▸ h, fun h => h n rfl⟩
  · cases max with
    | none => exact iff_of_true rfl fun b hb => by cases hb
    | some n =>
        dsimp only
        rw [ite_cons_iff, Nat.not_lt]
        exact ⟨fun h b hb => Option.some.inj hb ▸ h, fun h => h n rfl⟩

theorem enumViolations_nil_iff : enumViolations V v s path = [] ↔
    ∀ allowed, s.get "enum".toList = some (.arr allowed) → allowed.any (V.equal v) = true := by
  unfold enumViolations
  split
  · next allowed h =>
      rw [ite_nil_iff]
      exact ⟨fun hany a ha => Json.arr.inj (Option.some.inj (h.symm.trans ha)) ▸ hany,
        fun hall => hall allowed h⟩
  · next hother => exact iff_of_true rfl fun allowed h => absurd h (hother allowed)

theorem stringViolations_nil_iff : stringViolations v s path = [] ↔ ∀ t, v = .str t →
    (∀ b, boundOf s "minLength".toList = some b → b ≤ Rust.len t) ∧
      (∀ b, boundOf s "maxLength".toList = some b → Rust.len t ≤ b) ∧
      ∀ p, s.get "pattern".toList = some (.str p) → matchPattern t p = true := by
  cases v with
  | str t =>
      unfold stringViolations
      dsimp only
      rw [List.append_eq_nil_iff, lengthViolations_nil_iff, and_assoc]
      simp only [Json.str.injEq, forall_eq']
      refine and_congr_right fun _ => and_congr_right fun _ => ?_
      split
      · next p h =>
          rw [ite_nil_iff]
          exact ⟨fun hm q hq => Json.str.inj (Option.some.inj (h.symm.trans hq)) ▸ hm,
            fun hall => hall p h⟩
      · next hother => exact iff_of_true rfl fun p h => absurd h (hother p)
  | _ => exact iff_of_true rfl fun t ht => by cases ht

theorem numberViolations_nil_iff : numberViolations V v s path = [] ↔ ∀ n, v = .num n →
    (∀ b, s.get "minimum".toList = some (.num b) → V.lessThan n b = false) ∧
      ∀ b, s.get "maximum".toList = some (.num b) → V.lessThan b n = false := by
  cases v with
  | num n =>
      unfold numberViolations
      dsimp only
      rw [List.append_eq_nil_iff]
      simp only [Json.num.injEq, forall_eq']
      refine and_congr ?_ ?_
      · split
        · next b h =>
            rw [ite_cons_iff, Bool.not_eq_true]
            exact ⟨fun hm c hc => Json.num.inj (Option.some.inj (h.symm.trans hc)) ▸ hm,
              fun hall => hall b h⟩
        · next hother => exact iff_of_true rfl fun b h => absurd h (hother b)
      · split
        · next b h =>
            rw [ite_cons_iff, Bool.not_eq_true]
            exact ⟨fun hm c hc => Json.num.inj (Option.some.inj (h.symm.trans hc)) ▸ hm,
              fun hall => hall b h⟩
        · next hother => exact iff_of_true rfl fun b h => absurd h (hother b)
  | _ => exact iff_of_true rfl fun n hn => by cases hn

theorem lookup_fieldChecks (fields : List (Text × Json)) (key : Text) :
    Dict.lookup (fieldChecks V fields) key = (Dict.lookup fields key).map (validateValue V) := by
  rw [fieldChecks_eq, Dict.lookup_map]

theorem requiredViolations_nil_iff {fields : List (Text × Json)} :
    requiredViolations (fieldChecks V fields) s path = [] ↔
      ∀ names name, s.get "required".toList = some (.arr names) → .str name ∈ names →
        (Dict.lookup fields name).isSome = true := by
  unfold requiredViolations
  split
  · next names h =>
      rw [List.filterMap_eq_nil_iff]
      constructor
      · intro hall ns name hns hname
        obtain rfl := Json.arr.inj (Option.some.inj (h.symm.trans hns))
        have hnone := hall _ hname
        by_cases hsome : (Dict.lookup (fieldChecks V fields) name).isSome = true
        · rwa [lookup_fieldChecks, Option.isSome_map] at hsome
        · dsimp only at hnone
          rw [if_neg hsome] at hnone
          cases hnone
      · intro hall j hj
        cases j with
        | str name =>
            have hsome := hall names name h hj
            dsimp only
            rw [lookup_fieldChecks, Option.isSome_map, if_pos hsome]
        | _ => rfl
  · next hother => exact iff_of_true rfl fun names _ h => absurd h (hother names)

/-- Nothing is reported of a part, whatever its path. -/
def Silent (V : Values) (v s : Json) : Prop := ∀ path, validateValue V v s path = []

theorem propertyViolations_nil_iff {fields ps : List (Text × Json)}
    (hparts : ∀ f ∈ fields, ∀ s path, validateValue V f.2 s path = [] → Silent V f.2 s) :
    propertyViolations (fieldChecks V fields) ps path = [] ↔
      ∀ key p v, (key, p) ∈ ps → Dict.lookup fields key = some v → Silent V v p := by
  unfold propertyViolations
  rw [List.flatMap_eq_nil_iff]
  constructor
  · intro hall key p v hp hv
    have hnil := hall (key, p) hp
    rw [lookup_fieldChecks, hv] at hnil
    exact hparts (key, v) (Dict.mem_of_lookup hv) p _ hnil
  · rintro hall ⟨key, p⟩ hp
    rw [lookup_fieldChecks]
    cases hv : Dict.lookup fields key with
    | none => rfl
    | some v => exact hall key p v hp hv _

theorem additionalViolations_nil_iff {fields ps : List (Text × Json)} {a : Option Json}
    (hparts : ∀ f ∈ fields, ∀ s path, validateValue V f.2 s path = [] → Silent V f.2 s) :
    additionalViolations (fieldChecks V fields) ps a path = [] ↔
      (a = some (.bool false) → ∀ f ∈ fields, (Dict.lookup ps f.1).isSome = true) ∧
        ∀ sub, a = some (.obj sub) → ∀ f ∈ fields, Dict.lookup ps f.1 = none →
          Silent V f.2 (.obj sub) := by
  have hothers : ∀ c : Text × Check,
      c ∈ (fieldChecks V fields).filter (fun c => (Dict.lookup ps c.1).isNone) ↔
        ∃ f ∈ fields, Dict.lookup ps f.1 = none ∧ c = (f.1, validateValue V f.2) := by
    intro c
    rw [List.mem_filter, fieldChecks_eq, List.mem_map]
    constructor
    · rintro ⟨⟨f, hf, rfl⟩, hnone⟩
      exact ⟨f, hf, Option.isNone_iff_eq_none.mp hnone, rfl⟩
    · rintro ⟨f, hf, hnone, rfl⟩
      exact ⟨⟨f, hf, rfl⟩, Option.isNone_iff_eq_none.mpr hnone⟩
  unfold additionalViolations
  dsimp only
  split
  · rw [List.map_eq_nil_iff, List.eq_nil_iff_forall_not_mem]
    constructor
    · intro hall
      refine ⟨fun _ f hf => ?_, fun sub h => by cases h⟩
      refine Option.isSome_iff_ne_none.mpr fun hnone => ?_
      exact hall _ ((hothers _).mpr ⟨f, hf, hnone, rfl⟩)
    · rintro ⟨hall, -⟩ c hc
      obtain ⟨f, hf, hnone, -⟩ := (hothers c).mp hc
      exact Option.isSome_iff_ne_none.mp (hall rfl f hf) hnone
  · next sub =>
      rw [List.flatMap_eq_nil_iff]
      constructor
      · intro hall
        refine ⟨fun h => (by cases h), fun sub' hsub f hf hnone => ?_⟩
        obtain rfl := Json.obj.inj (Option.some.inj hsub)
        exact hparts f hf _ _ (hall _ ((hothers _).mpr ⟨f, hf, hnone, rfl⟩))
      · rintro ⟨-, hall⟩ c hc
        obtain ⟨f, hf, hnone, rfl⟩ := (hothers c).mp hc
        exact hall sub rfl f hf hnone _
  · next hfalse hobj =>
      exact iff_of_true rfl ⟨fun h => absurd h hfalse, fun sub h => absurd h (hobj sub)⟩

theorem arrayViolations_nil_iff {items : List Json}
    (hparts : ∀ v ∈ items, ∀ s path, validateValue V v s path = [] → Silent V v s) :
    arrayViolations (itemChecks V items) s path = [] ↔
      (∀ i, s.get "items".toList = some i → ∀ v ∈ items, Silent V v i) ∧
        (∀ b, boundOf s "minItems".toList = some b → b ≤ items.length) ∧
          ∀ b, boundOf s "maxItems".toList = some b → items.length ≤ b := by
  unfold arrayViolations
  rw [List.append_eq_nil_iff, lengthViolations_nil_iff, itemChecks_eq, List.length_map]
  refine and_congr_left fun _ => ?_
  split
  · next i hi =>
      rw [List.flatten_eq_nil_iff]
      constructor
      · intro hall j hj v hv
        obtain rfl := Option.some.inj (hi.symm.trans hj)
        obtain ⟨n, hn, rfl⟩ := List.getElem_of_mem hv
        refine hparts _ hv i (itemPath path n) (hall _ (List.mem_mapIdx.mpr ⟨n, ?_, ?_⟩))
        · rwa [List.length_map]
        · rw [List.getElem_map]
      · intro hall l hl
        obtain ⟨n, hn, rfl⟩ := List.mem_mapIdx.mp hl
        rw [List.getElem_map]
        exact hall i hi _ (List.getElem_mem _) _
  · next hnone => exact iff_of_true rfl fun i hi => by rw [hnone] at hi; cases hi

/-- What is reported of a value with a schema that is an object. -/
theorem checkWith_nil_iff {parts : Check} {s : List (Text × Json)} :
    checkWith V v parts (.obj s) path = [] ↔ TypePasses v (.obj s) ∧
      enumViolations V v (.obj s) path = [] ∧ stringViolations v (.obj s) path = [] ∧
        numberViolations V v (.obj s) path = [] ∧ parts (.obj s) path = [] := by
  unfold checkWith TypePasses
  dsimp only
  by_cases h : ((Json.obj s).get "type".toList).all (checkType v) = true
  · rw [if_pos h, List.append_eq_nil_iff, List.append_eq_nil_iff, List.append_eq_nil_iff]
    exact ⟨fun ⟨⟨⟨h₁, h₂⟩, h₃⟩, h₄⟩ => ⟨h, h₁, h₂, h₃, h₄⟩,
      fun ⟨_, h₁, h₂, h₃, h₄⟩ => ⟨⟨⟨h₁, h₂⟩, h₃⟩, h₄⟩⟩
  · rw [if_neg h]
    exact ⟨fun hnil => absurd hnil (List.cons_ne_nil _ _), fun hall => absurd hall.1 h⟩

theorem objectViolations_nil_iff {fields : List (Text × Json)}
    (htype : TypePasses (.obj fields) s)
    (hparts : ∀ f ∈ fields, ∀ s path, validateValue V f.2 s path = [] → Silent V f.2 s) :
    objectViolations (fieldChecks V fields) s path = [] ↔
      PartsPass (.obj fields) s ∧
        ∀ v' s', Descends (.obj fields, s) (v', s') → Silent V v' s' := by
  unfold objectViolations
  rw [List.append_eq_nil_iff, requiredViolations_nil_iff]
  split
  · next ps hps =>
      rw [List.append_eq_nil_iff, propertyViolations_nil_iff hparts,
        additionalViolations_nil_iff hparts]
      constructor
      · rintro ⟨hrequired, hproperties, hfalse, hsub⟩
        refine ⟨⟨?_, ?_, fun _ _ h => (by cases h), fun _ _ h => (by cases h)⟩, ?_⟩
        · intro fs names name hfs hnames hname
          obtain rfl := Json.obj.inj hfs
          exact hrequired names name hnames hname
        · intro fs qs f hfs hqs hadditional hf
          obtain rfl := Json.obj.inj hfs
          obtain rfl := Json.obj.inj (Option.some.inj (hps.symm.trans hqs))
          exact hfalse hadditional f hf
        · intro v' s' h
          cases h with
          | property _ hs hp hv =>
              obtain rfl := Json.obj.inj (Option.some.inj (hps.symm.trans hs))
              exact hproperties _ _ _ hp hv
          | additional _ hs hnone ha hv =>
              obtain rfl := Json.obj.inj (Option.some.inj (hps.symm.trans hs))
              exact hsub _ ha _ hv hnone
      · rintro ⟨hpass, hdescends⟩
        exact ⟨fun names name hnames hname => hpass.required fields names name rfl hnames hname,
          fun key p v hp hv => hdescends v p (.property htype hps hp hv),
          fun hadditional f hf => hpass.additional fields ps f rfl hps hadditional hf,
          fun sub ha f hf hnone => hdescends _ _ (.additional htype hps hnone ha hf)⟩
  · next hother =>
      constructor
      · rintro ⟨hrequired, -⟩
        refine ⟨⟨?_, fun _ _ _ _ h => absurd h (hother _), fun _ _ h => (by cases h),
          fun _ _ h => (by cases h)⟩, ?_⟩
        · intro fs names name hfs hnames hname
          obtain rfl := Json.obj.inj hfs
          exact hrequired names name hnames hname
        · intro v' s' h
          cases h with
          | property _ hs _ _ => exact absurd hs (hother _)
          | additional _ hs _ _ _ => exact absurd hs (hother _)
      · rintro ⟨hpass, -⟩
        exact ⟨fun names name hnames hname => hpass.required fields names name rfl hnames hname,
          rfl⟩

theorem items_nil_iff {items : List Json} (htype : TypePasses (.arr items) s)
    (hparts : ∀ v ∈ items, ∀ s path, validateValue V v s path = [] → Silent V v s) :
    arrayViolations (itemChecks V items) s path = [] ↔
      PartsPass (.arr items) s ∧
        ∀ v' s', Descends (.arr items, s) (v', s') → Silent V v' s' := by
  rw [arrayViolations_nil_iff hparts]
  constructor
  · rintro ⟨hitems, hmin, hmax⟩
    refine ⟨⟨fun _ _ _ h => (by cases h), fun _ _ _ h => (by cases h), ?_, ?_⟩, ?_⟩
    · intro js b hjs hb
      obtain rfl := Json.arr.inj hjs
      exact hmin b hb
    · intro js b hjs hb
      obtain rfl := Json.arr.inj hjs
      exact hmax b hb
    · intro v' s' h
      cases h with
      | item _ hi hv => exact hitems _ hi _ hv
  · rintro ⟨hpass, hdescends⟩
    exact ⟨fun i hi v hv => hdescends v i (.item htype hi hv),
      fun b hb => hpass.minItems items b rfl hb, fun b hb => hpass.maxItems items b rfl hb⟩

/-- The checks of the parts report nothing exactly if the parts pass and nothing is reported of
them. -/
theorem partChecks_nil_iff (htype : TypePasses v s)
    (hitems : ∀ items, v = .arr items →
      ∀ w ∈ items, ∀ s path, validateValue V w s path = [] → Silent V w s)
    (hfields : ∀ fields, v = .obj fields →
      ∀ f ∈ fields, ∀ s path, validateValue V f.2 s path = [] → Silent V f.2 s) :
    partChecks V v s path = [] ↔
      PartsPass v s ∧ ∀ v' s', Descends (v, s) (v', s') → Silent V v' s' := by
  have hnone : (∀ fields, v ≠ .obj fields) → (∀ items, v ≠ .arr items) →
      PartsPass v s ∧ ∀ v' s', Descends (v, s) (v', s') → Silent V v' s' := by
    intro hobj harr
    refine ⟨⟨fun fs _ _ h => absurd h (hobj fs), fun fs _ _ h => absurd h (hobj fs),
      fun js _ h => absurd h (harr js), fun js _ h => absurd h (harr js)⟩, fun v' s' h => ?_⟩
    cases h with
    | property => exact absurd rfl (hobj _)
    | additional => exact absurd rfl (hobj _)
    | item => exact absurd rfl (harr _)
  cases v with
  | arr items => exact items_nil_iff htype (hitems items rfl)
  | obj fields => exact objectViolations_nil_iff htype (hfields fields rfl)
  | null => exact iff_of_true rfl (hnone (fun _ h => by cases h) fun _ h => by cases h)
  | bool b => exact iff_of_true rfl (hnone (fun _ h => by cases h) fun _ h => by cases h)
  | num n => exact iff_of_true rfl (hnone (fun _ h => by cases h) fun _ h => by cases h)
  | str t => exact iff_of_true rfl (hnone (fun _ h => by cases h) fun _ h => by cases h)

/-- A schema that is no object has no keywords. -/
theorem get_none (hs : s.asObject = none) (key : Text) : s.get key = none := by
  cases s with
  | obj fields => cases hs
  | _ => rfl

theorem no_descent (hs : s.asObject = none) {v' s' : Json} : ¬Descends (v, s) (v', s') := by
  intro h
  cases h with
  | property _ h _ _ =>
      rw [get_none hs] at h
      cases h
  | additional _ h _ _ _ =>
      rw [get_none hs] at h
      cases h
  | item _ h _ =>
      rw [get_none hs] at h
      cases h

theorem accepts_of_no_object (hs : s.asObject = none) : Accepts V v s := by
  have hget := get_none hs
  have hbound : ∀ key, boundOf s key = none := fun key => by rw [boundOf, hget]; rfl
  have htype : TypePasses v s := by
    rw [TypePasses, hget]
    rfl
  refine .intro ?_ fun v' s' h => absurd h (no_descent hs)
  constructor
  · constructor
    all_goals intros; simp_all
  · exact htype
  all_goals intros; simp_all

/-- A value whose parts are read as they should be. -/
theorem nil_iff_of_parts
    (hitems : ∀ items, v = .arr items →
      ∀ w ∈ items, ∀ s path, validateValue V w s path = [] ↔ Accepts V w s)
    (hfields : ∀ fields, v = .obj fields →
      ∀ f ∈ fields, ∀ s path, validateValue V f.2 s path = [] ↔ Accepts V f.2 s) :
    validateValue V v s path = [] ↔ Accepts V v s := by
  have hsilent : ∀ v' s', Descends (v, s) (v', s') → (Silent V v' s' ↔ Accepts V v' s') := by
    have hany : ∀ {w t}, (∀ path, validateValue V w t path = [] ↔ Accepts V w t) →
        (Silent V w t ↔ Accepts V w t) := fun h =>
      ⟨fun hall => (h []).mp (hall []), fun ha path => (h path).mpr ha⟩
    intro v' s' h
    cases h with
    | property _ _ _ hv => exact hany (hfields _ rfl _ (Dict.mem_of_lookup hv) _)
    | additional _ _ _ _ hv => exact hany (hfields _ rfl _ hv _)
    | item _ _ hv => exact hany (hitems _ rfl _ hv _)
  cases hs : s.asObject with
  | none =>
      refine iff_of_true ?_ (accepts_of_no_object hs)
      rw [validateValue_eq]
      cases s with
      | obj fields => cases hs
      | _ => rfl
  | some fields =>
      obtain rfl : s = .obj fields := by
        cases s with
        | obj fs => rw [Option.some.inj hs]
        | _ => cases hs
      rw [validateValue_eq, checkWith_nil_iff, enumViolations_nil_iff, stringViolations_nil_iff,
        numberViolations_nil_iff]
      have hparts : TypePasses v (.obj fields) → (partChecks V v (.obj fields) path = [] ↔
          PartsPass v (.obj fields) ∧
            ∀ v' s', Descends (v, .obj fields) (v', s') → Silent V v' s') := by
        refine fun htype => partChecks_nil_iff htype ?_ ?_
        · exact fun items h w hw t p hnil q =>
            (hitems items h w hw t q).mpr ((hitems items h w hw t p).mp hnil)
        · exact fun fs h f hf t p hnil q =>
            (hfields fs h f hf t q).mpr ((hfields fs h f hf t p).mp hnil)
      constructor
      · rintro ⟨htype, henum, hstring, hnumber, hnil⟩
        obtain ⟨hpass, hdescends⟩ := (hparts htype).mp hnil
        refine .intro ⟨hpass, htype, henum, fun t b ht => (hstring t ht).1 b,
          fun t b ht => (hstring t ht).2.1 b, fun t p ht => (hstring t ht).2.2 p,
          fun n b hn => (hnumber n hn).1 b, fun n b hn => (hnumber n hn).2 b⟩ fun v' s' h => ?_
        exact (hsilent v' s' h).mp (hdescends v' s' h)
      · intro h
        cases h with
        | intro passes parts =>
            exact ⟨passes.type, passes.enum,
              fun t ht => ⟨fun b => passes.minLength t b ht, fun b => passes.maxLength t b ht,
                fun p => passes.pattern t p ht⟩,
              fun n hn => ⟨fun b => passes.minimum n b hn, fun b => passes.maximum n b hn⟩,
              (hparts passes.type).mpr ⟨passes.toPartsPass,
                fun v' s' h => (hsilent v' s' h).mpr (parts v' s' h)⟩⟩

/-- **The validator reports nothing exactly of what it accepts.** -/
theorem validateValue_nil_iff (v s : Json) (path : Text) :
    validateValue V v s path = [] ↔ Accepts V v s := by
  induction v using Json.partsInduction generalizing s path with
  | arr items ih =>
      refine nil_iff_of_parts (fun js h w hw => ?_) fun _ h => by cases h
      obtain rfl := Json.arr.inj h
      exact ih w hw
  | obj fields ih =>
      refine nil_iff_of_parts (fun _ h => by cases h) fun fs h f hf => ?_
      obtain rfl := Json.obj.inj h
      exact ih f hf
  | null => exact nil_iff_of_parts (fun _ h => by cases h) fun _ h => by cases h
  | bool b => exact nil_iff_of_parts (fun _ h => by cases h) fun _ h => by cases h
  | num n => exact nil_iff_of_parts (fun _ h => by cases h) fun _ h => by cases h
  | str t => exact nil_iff_of_parts (fun _ h => by cases h) fun _ h => by cases h

end Accepts

/-! ### The meaning of what is accepted -/

section Meaning

variable {V : Values} {v s : Json}

theorem asU64_value {b : Number} {n : Nat} (h : asU64 (.num b) = some n) : numberValue b = n := by
  cases b with
  | int i =>
      cases i with
      | ofNat m =>
          have hread : (if m < 2 ^ 64 then some m else none) = some n := h
          split_ifs at hread
          rw [← Option.some.inj hread]
          rfl
      | negSucc m => cases h
  | float bits => cases h

/-- A bound that is read is a number. -/
theorem boundOf_eq_some {key : Text} {n : Nat} (h : boundOf s key = some n) :
    ∃ b, s.get key = some (.num b) ∧ asU64 (.num b) = some n := by
  obtain ⟨j, hj, hread⟩ := Option.bind_eq_some_iff.mp h
  cases j with
  | num b => exact ⟨b, hj, hread⟩
  | _ => cases hread

theorem boundOf_of_get {key : Text} {b : Number} {n : Nat} (h : s.get key = some (.num b))
    (hread : asU64 (.num b) = some n) : boundOf s key = some n := by
  rw [boundOf, h]
  exact hread

/-- What passes meets the keywords. -/
theorem Passes.meets (h : Passes V v s) (hv : Held v) (hc : Clear V v s) : Meets v s := by
  constructor
  · exact hc.possible
  · exact (typePasses_iff hv).mp h.type
  · intro allowed hallowed
    exact (hc.enum allowed hallowed).mp (List.any_eq_true.mp (h.enum allowed hallowed))
  · intro t b ht hb
    obtain ⟨hgap, hunread⟩ := hc.minLength t b ht hb
    cases hread : asU64 (.num b) with
    | none => exact hunread hread
    | some n =>
        rw [asU64_value hread]
        exact_mod_cast hgap n hread (h.minLength t n ht (boundOf_of_get hb hread))
  · intro t b ht hb
    obtain ⟨-, hunread⟩ := hc.maxLength t b ht hb
    cases hread : asU64 (.num b) with
    | none => exact hunread hread
    | some n =>
        rw [asU64_value hread]
        have hlen := h.maxLength t n ht (boundOf_of_get hb hread)
        exact_mod_cast (Rust.length_le_len t).trans hlen
  · intro t p ht hp
    have hstar : p ≠ ['*'] := fun heq => hc.pattern t ht (heq ▸ hp)
    exact (matchPattern_iff hstar).mp (h.pattern t p ht hp)
  · intro n b hn hb
    refine not_lt.mp fun hlt => ?_
    exact absurd (h.minimum n b hn hb) (by rw [(hc.minimum n b hn hb).mpr hlt]; decide)
  · intro n b hn hb
    refine not_lt.mp fun hlt => ?_
    exact absurd (h.maximum n b hn hb) (by rw [(hc.maximum n b hn hb).mpr hlt]; decide)
  · exact h.required
  · intro items b hitems hb
    cases hread : asU64 (.num b) with
    | none => exact hc.minItems items b hitems hb hread
    | some n =>
        rw [asU64_value hread]
        exact_mod_cast h.minItems items n hitems (boundOf_of_get hb hread)
  · intro items b hitems hb
    cases hread : asU64 (.num b) with
    | none => exact hc.maxItems items b hitems hb hread
    | some n =>
        rw [asU64_value hread]
        exact_mod_cast h.maxItems items n hitems (boundOf_of_get hb hread)

/-- What meets the keywords passes, if no field is forbidden. -/
theorem Meets.passes (h : Meets v s) (hv : Held v) (hc : Clear V v s)
    (hadditional : ∀ fields ps f, v = .obj fields → s.get "properties".toList = some (.obj ps) →
      s.get "additionalProperties".toList = some (.bool false) → f ∈ fields →
        (Dict.lookup ps f.1).isSome = true) : Passes V v s := by
  refine ⟨⟨h.required, hadditional, ?_, ?_⟩, (typePasses_iff hv).mpr h.type, ?_, ?_, ?_, ?_, ?_, ?_⟩
  · intro items n hitems hn
    obtain ⟨b, hb, hread⟩ := boundOf_eq_some hn
    have hmin := h.minItems items b hitems hb
    rw [asU64_value hread] at hmin
    exact_mod_cast hmin
  · intro items n hitems hn
    obtain ⟨b, hb, hread⟩ := boundOf_eq_some hn
    have hmax := h.maxItems items b hitems hb
    rw [asU64_value hread] at hmax
    exact_mod_cast hmax
  · intro allowed hallowed
    exact List.any_eq_true.mpr ((hc.enum allowed hallowed).mpr (h.enum allowed hallowed))
  · intro t n ht hn
    obtain ⟨b, hb, hread⟩ := boundOf_eq_some hn
    have hmin := h.minLength t b ht hb
    rw [asU64_value hread] at hmin
    have hlen : n ≤ t.length := by exact_mod_cast hmin
    exact hlen.trans (Rust.length_le_len t)
  · intro t n ht hn
    obtain ⟨b, hb, hread⟩ := boundOf_eq_some hn
    have hmax := h.maxLength t b ht hb
    rw [asU64_value hread] at hmax
    exact (hc.maxLength t b ht hb).1 n hread (by exact_mod_cast hmax)
  · intro t p ht hp
    have hstar : p ≠ ['*'] := fun heq => hc.pattern t ht (heq ▸ hp)
    exact (matchPattern_iff hstar).mpr (h.pattern t p ht hp)
  · intro n b hn hb
    exact Bool.eq_false_iff.mpr fun hlt =>
      not_lt.mpr (h.minimum n b hn hb) ((hc.minimum n b hn hb).mp hlt)
  · intro n b hn hb
    exact Bool.eq_false_iff.mpr fun hlt =>
      not_lt.mpr (h.maximum n b hn hb) ((hc.maximum n b hn hb).mp hlt)

/-- A schema that is no object asks for nothing, unless it is `false`. -/
theorem satisfies_of_no_object (hs : s.asObject = none) (hne : s ≠ .bool false) :
    Satisfies v s := by
  have hget := get_none hs
  have hproperties : propertiesOf s = [] := by
    rw [propertiesOf, hget]
  refine .intro ?_ fun v' s' h => ?_
  · constructor
    · exact hne
    all_goals intros; simp_all
  · cases h with
    | property hp _ =>
        rw [hproperties] at hp
        exact absurd hp List.not_mem_nil
    | additional _ ha _ =>
        rw [hget] at ha
        cases ha
    | item hi _ =>
        rw [hget] at hi
        cases hi

theorem propertiesOf_of_get {ps : List (Text × Json)}
    (h : s.get "properties".toList = some (.obj ps)) : propertiesOf s = ps := by
  rw [propertiesOf, h]

theorem Descends.applies {v' s' : Json} (h : Descends (v, s) (v', s')) :
    Applies (v, s) (v', s') := by
  cases h with
  | property _ hs hp hv => exact .property (propertiesOf_of_get hs ▸ hp) hv
  | additional _ hs hnone ha hv => exact .additional (propertiesOf_of_get hs ▸ hnone) ha hv
  | item _ hi hv => exact .item hi hv

theorem Descends.held {v' s' : Json} (h : Descends (v, s) (v', s')) (hv : Held v) : Held v' := by
  cases h with
  | property _ _ _ hlookup =>
      cases hv with
      | obj hfields => exact hfields _ (Dict.mem_of_lookup hlookup)
  | additional _ _ _ _ hmem =>
      cases hv with
      | obj hfields => exact hfields _ hmem
  | item _ _ hmem =>
      cases hv with
      | arr hitems => exact hitems _ hmem

/-- The validator reads the keywords as they are meant, wherever it comes. -/
def ClearBelow (V : Values) (v s : Json) : Prop :=
  ∀ w t, Reaches (v, s) (w, t) → TypePasses w t → Clear V w t

theorem ClearBelow.descend {v' s' : Json} (h : ClearBelow V v s)
    (hstep : Descends (v, s) (v', s')) : ClearBelow V v' s' := fun w t hreach =>
  h w t (.head hstep hreach)

theorem ClearBelow.here (h : ClearBelow V v s) (htype : TypePasses v s) : Clear V v s :=
  h v s .refl htype

/-- A value that is accepted satisfies the schema. -/
theorem satisfies_of_accepts (h : Accepts V v s) (hv : Held v) (hclear : ClearBelow V v s) :
    Satisfies v s := by
  induction h with
  | @intro v s passes parts ih =>
      have hc := hclear.here passes.type
      have hbelow : ∀ {v' s'}, Descends (v, s) (v', s') → Satisfies v' s' := fun hstep =>
        ih _ _ hstep (hstep.held hv) (hclear.descend hstep)
      refine .intro (passes.meets hv hc) fun v' s' happlies => ?_
      cases happlies with
      | @property fields _ v' p key hp hlookup =>
          cases hs : s.get "properties".toList with
          | none =>
              rw [propertiesOf, hs] at hp
              exact absurd hp List.not_mem_nil
          | some j =>
              cases j with
              | obj ps =>
                  exact hbelow (.property passes.type hs (propertiesOf_of_get hs ▸ hp) hlookup)
              | _ =>
                  rw [propertiesOf, hs] at hp
                  exact absurd hp List.not_mem_nil
      | @additional fields _ v' a key hnone ha hmem =>
          rcases hc.additional fields s' rfl ha with htrue | hempty | ⟨ps, hs⟩
          · rw [htrue]
            exact satisfies_of_no_object rfl (by decide)
          · rw [hempty] at hmem
            exact absurd hmem List.not_mem_nil
          · have hlookup : Dict.lookup ps key = none := propertiesOf_of_get hs ▸ hnone
            cases s' with
            | obj sub => exact hbelow (.additional passes.type hs hlookup ha hmem)
            | bool b =>
                cases b with
                | true => exact satisfies_of_no_object rfl (by decide)
                | false =>
                    have hsome := passes.additional fields ps _ rfl hs ha hmem
                    rw [hlookup] at hsome
                    cases hsome
            | _ => exact satisfies_of_no_object rfl (fun h => by cases h)
      | item hi hmem => exact hbelow (.item passes.type hi hmem)

/-- A value that satisfies the schema is accepted. -/
theorem accepts_of_satisfies (h : Satisfies v s) (hv : Held v) (hclear : ClearBelow V v s) :
    Accepts V v s := by
  induction h with
  | @intro v s meets parts ih =>
      have htype : TypePasses v s := (typePasses_iff hv).mpr meets.type
      refine .intro (meets.passes hv (hclear.here htype) ?_) fun v' s' hstep =>
        ih v' s' hstep.applies (hstep.held hv) (hclear.descend hstep)
      intro fields ps f hfields hs ha hmem
      refine Option.isSome_iff_ne_none.mpr fun hnone => ?_
      subst hfields
      have hfalse := parts f.2 (.bool false)
        (.additional ((propertiesOf_of_get hs).symm ▸ hnone) ha hmem)
      cases hfalse with
      | intro hmeets _ => exact hmeets.possible rfl

end Meaning

/-- **The validator and the meaning of schemas**: if the keywords are read as they are meant
wherever the validator comes, it does not panic, and it reports violations exactly of the values
that do not satisfy the schema. -/
theorem validate_iff (V : Values) (value schema : Json) (hvalue : Held value)
    (hclear : ClearBelow V value schema) :
    ¬Panics value schema ∧ ((validate V value schema).valid = true ↔ Satisfies value schema) := by
  constructor
  · rintro ⟨t, s, hreach, htype, hstar⟩
    exact (hclear _ _ hreach htype).pattern t rfl hstar
  · have hvalid :
        (validate V value schema).valid = true ↔ validateValue V value schema [] = [] := by
      unfold validate
      dsimp only
      rw [List.isEmpty_iff, List.map_eq_nil_iff]
    rw [hvalid, validateValue_nil_iff]
    exact ⟨fun h => satisfies_of_accepts h hvalue hclear,
      fun h => accepts_of_satisfies h hvalue hclear⟩

/-! ### Short names -/

/-- Values as the crate compares those that are small. -/
def smallValues : Values where
  lessThan m n := decide (numberValue m < numberValue n)
  equal := Json.beq
  debugValue _ := []
  debugText t := t
  displayF64 _ := []

/-- A schema of an object with a short name. -/
def nameSchema : Json :=
  .obj [("type".toList, .str "object".toList),
    ("properties".toList, .obj [("name".toList, .obj [("maxLength".toList, .num (.int 1))])]),
    ("additionalProperties".toList, .bool false)]

def nameValue (name : Text) : Json := .obj [("name".toList, .str name)]

theorem held_nameValue (name : Text) : Held (nameValue name) :=
  .obj (List.forall_mem_singleton.mpr (.str name))

/-- The schema of the name. -/
def shortSchema : Json := .obj [("maxLength".toList, .num (.int 1))]

/-- The validator comes to the object and to its name. -/
theorem reaches_name {name : Text} {p : Json × Json}
    (h : Reaches (nameValue name, nameSchema) p) :
    p = (nameValue name, nameSchema) ∨ p = (.str name, shortSchema) := by
  rcases Relation.ReflTransGen.cases_head h with rfl | ⟨q, hstep, hrest⟩
  · exact .inl rfl
  · have hq : q = (.str name, shortSchema) := by
      obtain ⟨v, s⟩ := q
      unfold nameValue at hstep
      cases hstep with
      | property _ hs hp hv =>
          obtain rfl := Json.obj.inj (Option.some.inj hs)
          obtain ⟨rfl, rfl⟩ := Prod.mk.inj (List.mem_singleton.mp hp)
          obtain rfl := Option.some.inj hv
          rfl
      | additional _ _ _ ha _ =>
          have hfalse : nameSchema.get "additionalProperties".toList = some (.bool false) := rfl
          rw [hfalse] at ha
          cases ha
    subst hq
    rcases Relation.ReflTransGen.cases_head hrest with rfl | ⟨r, hnext, -⟩
    · exact .inr rfl
    · obtain ⟨v, s⟩ := r
      cases hnext

theorem get_nameSchema {key : Text}
    (h : key ∉ ["type".toList, "properties".toList, "additionalProperties".toList]) :
    nameSchema.get key = none := by
  have hne : ∀ k ∈ ["type".toList, "properties".toList, "additionalProperties".toList], ¬k = key :=
    fun k hk heq => h (heq ▸ hk)
  rw [nameSchema, Json.get_obj, Dict.lookup_cons, if_neg (hne _ (by decide)), Dict.lookup_cons,
    if_neg (hne _ (by decide)), Dict.lookup_cons, if_neg (hne _ (by decide)), Dict.lookup_nil]

theorem get_shortSchema {key : Text} (h : key ≠ "maxLength".toList) :
    shortSchema.get key = none := by
  have hne : ¬"maxLength".toList = key := fun heq => h heq.symm
  have hget : shortSchema.get key =
      Dict.lookup [("maxLength".toList, .num (.int 1))] key := Json.get_obj key _
  rw [hget, Dict.lookup_cons]
  exact if_neg hne

/-- One character is a name, in whatever bytes. -/
theorem satisfies_name (c : Char) : Satisfies (nameValue [c]) nameSchema := by
  have hshort : Satisfies (.str [c]) shortSchema := by
    refine .intro ?_ fun v' s' h => by cases h
    constructor
    · exact fun h => by cases h
    · exact fun t h => by rw [get_shortSchema (by decide)] at h; cases h
    · exact fun t h => by rw [get_shortSchema (by decide)] at h; cases h
    · exact fun t b _ h => by rw [get_shortSchema (by decide)] at h; cases h
    · intro t b ht hb
      obtain rfl := Json.str.inj ht
      obtain rfl := Json.num.inj (Option.some.inj hb)
      exact le_of_eq (by rw [numberValue]; rfl)
    · exact fun t p _ h => by rw [get_shortSchema (by decide)] at h; cases h
    · exact fun n b _ h => by rw [get_shortSchema (by decide)] at h; cases h
    · exact fun n b _ h => by rw [get_shortSchema (by decide)] at h; cases h
    · exact fun fs names name _ h => by rw [get_shortSchema (by decide)] at h; cases h
    · exact fun items b _ h => by rw [get_shortSchema (by decide)] at h; cases h
    · exact fun items b _ h => by rw [get_shortSchema (by decide)] at h; cases h
  refine .intro ?_ fun v' s' h => ?_
  · constructor
    · exact fun h => by cases h
    · intro t ht
      obtain rfl := Option.some.inj ht
      exact .name (.object _)
    · exact fun t h => by rw [get_nameSchema (by decide)] at h; cases h
    · exact fun t b _ h => by rw [get_nameSchema (by decide)] at h; cases h
    · exact fun t b _ h => by rw [get_nameSchema (by decide)] at h; cases h
    · exact fun t p _ h => by rw [get_nameSchema (by decide)] at h; cases h
    · exact fun n b _ h => by rw [get_nameSchema (by decide)] at h; cases h
    · exact fun n b _ h => by rw [get_nameSchema (by decide)] at h; cases h
    · exact fun fs names name _ h => by rw [get_nameSchema (by decide)] at h; cases h
    · exact fun items b _ h => by rw [get_nameSchema (by decide)] at h; cases h
    · exact fun items b _ h => by rw [get_nameSchema (by decide)] at h; cases h
  · have hproperties : propertiesOf nameSchema = [("name".toList, shortSchema)] := rfl
    unfold nameValue at h
    cases h with
    | property hp hv =>
        rw [hproperties] at hp
        obtain ⟨rfl, rfl⟩ := Prod.mk.inj (List.mem_singleton.mp hp)
        obtain rfl := Option.some.inj hv
        exact hshort
    | additional hnone _ hv =>
        obtain ⟨rfl, rfl⟩ := Prod.mk.inj (List.mem_singleton.mp hv)
        cases hnone

theorem clear_name : ClearBelow smallValues (nameValue ['a']) nameSchema := by
  intro w t hreach htype
  rcases reaches_name hreach with h | h
  · obtain ⟨rfl, rfl⟩ := Prod.mk.inj h
    constructor
    · exact fun h => by cases h
    · exact fun fields a _ _ => .inr (.inr ⟨_, rfl⟩)
    · exact fun t b h => by cases h
    · exact fun t b h => by cases h
    · exact fun items b h => by cases h
    · exact fun items b h => by cases h
    · exact fun t h => by cases h
    · exact fun n b h => by cases h
    · exact fun n b h => by cases h
    · exact fun allowed h => by rw [get_nameSchema (by decide)] at h; cases h
  · obtain ⟨rfl, rfl⟩ := Prod.mk.inj h
    constructor
    · exact fun h => by cases h
    · exact fun fields a h => by cases h
    · exact fun t b _ h => by rw [get_shortSchema (by decide)] at h; cases h
    · intro t b ht hb
      obtain rfl := Json.str.inj ht
      obtain rfl := Json.num.inj (Option.some.inj hb)
      have hread : asU64 (.num (.int 1)) = some 1 := Rust.asU64_nat (by norm_num)
      refine ⟨fun n hn _ => ?_, fun hnone => ?_⟩
      · obtain rfl := Option.some.inj (hread.symm.trans hn)
        decide
      · rw [hread] at hnone
        cases hnone
    · exact fun items b h => by cases h
    · exact fun items b h => by cases h
    · exact fun t _ h => by rw [get_shortSchema (by decide)] at h; cases h
    · exact fun n b h => by cases h
    · exact fun n b h => by cases h
    · exact fun allowed h => by rw [get_shortSchema (by decide)] at h; cases h

theorem validate_name : Held (nameValue ['a']) ∧
    ClearBelow smallValues (nameValue ['a']) nameSchema ∧ ¬Panics (nameValue ['a']) nameSchema ∧
      ((validate smallValues (nameValue ['a']) nameSchema).valid = true ↔
        Satisfies (nameValue ['a']) nameSchema) :=
  ⟨held_nameValue _, clear_name,
    validate_iff smallValues _ _ (held_nameValue _) clear_name⟩

/-- **What is not read as it is meant**: a name of one character and two bytes is too long, and a
lone star makes the validator panic. -/
theorem accented_rejected :
    ((validate smallValues (nameValue ['é']) nameSchema).valid = false ∧
      Satisfies (nameValue ['é']) nameSchema) ∧
    Panics (.str ['a']) (.obj [("pattern".toList, .str ['*'])]) :=
  ⟨⟨by decide, satisfies_name 'é'⟩, ['a'], _, .refl, rfl, rfl⟩

end CorexManager.ApiArmor.Schema
