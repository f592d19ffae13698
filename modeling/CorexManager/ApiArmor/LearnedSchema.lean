import CorexManager.ApiArmor.SchemaLearner

/-!
# What a learned schema accepts

* `Learned` — the schema a sequence of samples leads to, by the kinds of the samples; a step
  of the learner keeps it (`Learned.step`), so a run reaches it (`learned_samples`).
* `Covered` — what the samples of some values leave room for: arrays of one item at most,
  texts no longer in bytes than the longest that was kept is in characters.
* `learned_accepts_iff` — the learned schema of an endpoint accepts the bodies it was learned
  from exactly when these cover each of them.
-/

namespace CorexManager.ApiArmor

open Data

/-! ### Kinds -/

/-- The types a schema is inferred with. -/
inductive Kind where
  | null | boolean | integer | number | string | array | object
  deriving DecidableEq, Repr

/-- The kind of a value. -/
def kindOf : Json → Kind
  | .null => .null
  | .bool _ => .boolean
  | .num (.int _) => .integer
  | .num (.float _) => .number
  | .str _ => .string
  | .arr _ => .array
  | .obj _ => .object

/-- The name of a kind in a schema. -/
def Kind.name : Kind → Text
  | .null => "null".toList
  | .boolean => "boolean".toList
  | .integer => "integer".toList
  | .number => "number".toList
  | .string => "string".toList
  | .array => "array".toList
  | .object => "object".toList

/-- A kind whose schema is nothing but its name. -/
def Kind.Plain (k : Kind) : Prop := k = .null ∨ k = .boolean ∨ k = .integer ∨ k = .number

/-- A value of the type of a kind. -/
def IsA (w : Json) (k : Kind) : Prop := hasTypeName w k.name = true

theorem exists_str {a : Json} (h : kindOf a = .string) : ∃ t, a = .str t := by
  cases a with
  | str t => exact ⟨t, rfl⟩
  | num n => cases n <;> cases h
  | _ => cases h

theorem exists_arr {a : Json} (h : kindOf a = .array) : ∃ items, a = .arr items := by
  cases a with
  | arr items => exact ⟨items, rfl⟩
  | num n => cases n <;> cases h
  | _ => cases h

theorem exists_obj {a : Json} (h : kindOf a = .object) : ∃ fields, a = .obj fields := by
  cases a with
  | obj fields => exact ⟨fields, rfl⟩
  | num n => cases n <;> cases h
  | _ => cases h

theorem Kind.name_injective : Function.Injective Kind.name := by
  have h : ∀ k l : Kind, (k.name == l.name) = decide (k = l) := by
    intro k l
    cases k <;> cases l <;> rfl
  intro k l hkl
  exact of_decide_eq_true ((h k l).symm.trans (beq_iff_eq.mpr hkl))

theorem isA_string {w : Json} : IsA w .string ↔ ∃ s, w = .str s := by
  have h : hasTypeName w Kind.string.name = w.asStr.isSome := rfl
  rw [IsA, h]
  cases w <;> simp [Json.asStr]

theorem isA_object {w : Json} : IsA w .object ↔ ∃ fields, w = .obj fields := by
  have h : hasTypeName w Kind.object.name = w.asObject.isSome := rfl
  rw [IsA, h]
  cases w <;> simp [Json.asObject]

theorem isA_array {w : Json} : IsA w .array ↔ ∃ items, w = .arr items := by
  have h : hasTypeName w Kind.array.name = w.asArray.isSome := rfl
  rw [IsA, h]
  cases w <;> simp [Json.asArray]

/-! ### Forms of schemas -/

/-- The schema of a plain kind. -/
def plainSchema (k : Kind) : Json := .obj [("type".toList, .str k.name)]

/-- A union of types. -/
def unionSchema (types : List Json) : Json := .obj [("type".toList, .arr types)]

/-- The schema of texts of a length. -/
def stringSchema (n : Nat) : Json :=
  .obj [("type".toList, .str "string".toList), ("minLength".toList, intValue 0),
    ("maxLength".toList, intValue n)]

/-- The schema of objects. -/
def objectSchema (properties : List (Text × Json)) (required : List Text) : Json :=
  .obj [("type".toList, .str "object".toList), ("properties".toList, .obj properties),
    ("required".toList, .arr (required.map .str)), ("additionalProperties".toList, .bool true)]

theorem inferSchema_plain {a : Json} (h : (kindOf a).Plain) :
    inferSchema a = plainSchema (kindOf a) := by
  unfold Kind.Plain at h
  cases a with
  | num n => cases n <;> rfl
  | null => rfl
  | bool b => rfl
  | _ => simp [kindOf] at h

theorem inferFields_eq (fields : List (Text × Json)) :
    inferFields fields = fields.map fun f => (f.1, inferSchema f.2) := by
  induction fields with
  | nil => rfl
  | cons f fields ih => rw [inferFields, ih, List.map_cons]

theorem inferSchema_obj (fields : List (Text × Json)) :
    inferSchema (.obj fields) =
      objectSchema (fields.map fun f => (f.1, inferSchema f.2)) (fields.map Prod.fst) := by
  rw [inferSchema, inferFields_eq, objectSchema, List.map_map]
  rfl

/-- An inferred schema names the kind. -/
theorem inferSchema_type (a : Json) :
    (inferSchema a).get "type".toList = some (.str (kindOf a).name) := by
  cases a with
  | num n => cases n <;> rfl
  | arr items => cases items <;> rfl
  | _ => rfl

/-! ### Learning -/

/-- The schema of some samples after one more. -/
def learnSample (schema : Option Json) (sample : Json) : Option Json :=
  some ((schema.map fun s => mergeSchemas s (inferSchema sample)).getD (inferSchema sample))

/-- The schema learned from samples. -/
def learnSamples (samples : List Json) : Option Json := samples.foldl learnSample none

theorem learnSamples_concat (samples : List Json) (a : Json) :
    learnSamples (samples ++ [a]) = learnSample (learnSamples samples) a := by
  rw [learnSamples, List.foldl_append]
  rfl

/-- The values of a key. -/
def valuesAt (key : Text) (samples : List Json) : List Json := samples.filterMap (·.get key)

/-- The schemas samples lead to. -/
inductive Learned (samples : List Json) : Json → Prop
  | plain {k : Kind} (hplain : k.Plain) (hne : samples ≠ []) (hkind : ∀ a ∈ samples, kindOf a = k) :
      Learned samples (plainSchema k)
  | string {n : Nat} (hkind : ∀ a ∈ samples, kindOf a = .string)
      (hlongest : ∃ t, .str t ∈ samples ∧ t.length = n)
      (hbound : ∀ t, .str t ∈ samples → t.length ≤ n) : Learned samples (stringSchema n)
  | array {items : List Json} (hkind : ∀ a ∈ samples, kindOf a = .array)
      (hfirst : samples.head? = some (.arr items)) : Learned samples (inferSchema (.arr items))
  | object {properties : List (Text × Json)} {required : List Text} (hne : samples ≠ [])
      (hkind : ∀ a ∈ samples, kindOf a = .object) (hdistinct : Dict.Distinct properties)
      (hproperties : ∀ key, Dict.lookup properties key = learnSamples (valuesAt key samples))
      (hrequired : ∀ key, key ∈ required ↔ ∀ a ∈ samples, (a.get key).isSome) :
      Learned samples (objectSchema properties required)
  | union {types : List Json} (hmixed : ∃ a ∈ samples, ∃ b ∈ samples, kindOf a ≠ kindOf b)
      (hne : types ≠ [])
      (htypes : ∀ w, checkTypes w types = true ↔ ∃ a ∈ samples, IsA w (kindOf a)) :
      Learned samples (unionSchema types)

section

variable {samples : List Json} {s a : Json}

theorem Learned.ne_nil (h : Learned samples s) : samples ≠ [] := by
  cases h with
  | plain _ hne _ => exact hne
  | string _ hlongest _ =>
      obtain ⟨t, ht, -⟩ := hlongest
      exact List.ne_nil_of_mem ht
  | array _ hfirst => exact List.ne_nil_of_mem (List.mem_of_mem_head? hfirst)
  | object hne _ _ _ _ => exact hne
  | union hmixed _ _ =>
      obtain ⟨a, ha, -⟩ := hmixed
      exact List.ne_nil_of_mem ha

/-- All samples are of one kind, and the schema names it, or it names all their kinds. -/
theorem Learned.type (h : Learned samples s) :
    (∃ k, s.get "type".toList = some (.str k.name) ∧ ∀ a ∈ samples, kindOf a = k) ∨
      ∃ types, types ≠ [] ∧ s.get "type".toList = some (.arr types) ∧
        (∃ a ∈ samples, ∃ b ∈ samples, kindOf a ≠ kindOf b) ∧
        ∀ w, checkTypes w types = true ↔ ∃ a ∈ samples, IsA w (kindOf a) := by
  cases h with
  | @plain k _ _ hkind => exact Or.inl ⟨k, rfl, hkind⟩
  | string hkind _ _ => exact Or.inl ⟨.string, rfl, hkind⟩
  | @array items hkind _ =>
      exact Or.inl ⟨.array, inferSchema_type (.arr items), hkind⟩
  | object _ hkind _ _ _ => exact Or.inl ⟨.object, rfl, hkind⟩
  | @union types hmixed hne htypes => exact Or.inr ⟨types, hne, rfl, hmixed, htypes⟩

theorem checkType_name (w : Json) (k : Kind) : checkType w (.str k.name) = true ↔ IsA w k := by
  rw [checkType, IsA]

theorem truthy_name (k : Kind) : truthy (some (.str k.name)) = true := by
  cases k <;> rfl

theorem truthy_types {types : List Json} (h : types ≠ []) : truthy (some (.arr types)) = true := by
  cases types with
  | nil => exact absurd rfl h
  | cons t types => rfl

/-- A learned schema is a type, and its values are those of the kinds of the samples. -/
theorem Learned.type_check (h : Learned samples s) :
    ∃ t, s.get "type".toList = some t ∧ truthy (some t) = true ∧
      (∀ w, checkType w t = true ↔ ∃ a ∈ samples, IsA w (kindOf a)) ∧
      ∀ k, t = .str k.name ↔ ∀ a ∈ samples, kindOf a = k := by
  obtain ⟨a, ha⟩ := List.exists_mem_of_ne_nil samples h.ne_nil
  rcases h.type with ⟨k, hget, hkind⟩ | ⟨types, hne, hget, ⟨b, hb, c, hc, hbc⟩, htypes⟩
  · refine ⟨_, hget, truthy_name k, fun w => ?_, fun l => ⟨fun heq => ?_, fun hl => ?_⟩⟩
    · rw [checkType_name]
      exact ⟨fun hw => ⟨a, ha, (hkind a ha).symm ▸ hw⟩, fun ⟨b, hb, hw⟩ => hkind b hb ▸ hw⟩
    · exact Kind.name_injective (Json.str.inj heq) ▸ hkind
    · rw [← hkind a ha, hl a ha]
  · refine ⟨_, hget, truthy_types hne, fun w => ?_, fun l => ⟨fun heq => ?_, fun hl => ?_⟩⟩
    · rw [checkType]
      exact htypes w
    · cases heq
    · exact absurd ((hl b hb).trans (hl c hc).symm) hbc

/-- One sample. -/
theorem Learned.single (ha : a.Distinct) : Learned [a] (inferSchema a) := by
  have hkind : ∀ b ∈ [a], kindOf b = kindOf a := fun b hb => by rw [List.mem_singleton.mp hb]
  by_cases hplain : (kindOf a).Plain
  · rw [inferSchema_plain hplain]
    exact Learned.plain hplain (List.cons_ne_nil _ _) hkind
  cases a with
  | str t =>
      refine Learned.string hkind ⟨t, List.mem_singleton_self _, rfl⟩ fun u hu => ?_
      rw [Json.str.inj (List.mem_singleton.mp hu)]
  | arr items => exact Learned.array hkind rfl
  | obj fields =>
      cases ha with
      | obj hkeys _ =>
          rw [inferSchema_obj]
          refine Learned.object (List.cons_ne_nil _ _) hkind ?_ (fun key => ?_) fun key => ?_
          · rw [Dict.Distinct, Dict.keys_map]
            exact hkeys
          · rw [Dict.lookup_map, valuesAt, List.filterMap_cons, Json.get_obj]
            cases Dict.lookup fields key <;> rfl
          · rw [List.forall_mem_singleton, Json.get_obj, Dict.lookup_isSome_iff]
  | null => exact absurd (Or.inl rfl) hplain
  | bool b => exact absurd (Or.inr (Or.inl rfl)) hplain
  | num n =>
      cases n with
      | int n => exact absurd (Or.inr (Or.inr (Or.inl rfl))) hplain
      | float bits => exact absurd (Or.inr (Or.inr (Or.inr rfl))) hplain

end

/-! ### One more sample -/

/-- Schemas of different types merge into the union of their types. -/
theorem mergeSchemas_union {s1 s2 t1 t2 : Json} (h1 : s1.get "type".toList = some t1)
    (h2 : s2.get "type".toList = some t2) (hne : t1 ≠ t2) (htruthy1 : truthy (some t1) = true)
    (htruthy2 : truthy (some t2) = true) : mergeSchemas s1 s2 = unionSchema [t1, t2] := by
  rw [mergeSchemas, h1, h2, if_pos fun heq => hne (Option.some.inj heq), htruthy1, htruthy2]
  rfl

/-- Neither objects nor texts: the first schema stays. -/
theorem mergeSchemas_same {s1 s2 : Json} {k : Kind} (h1 : s1.get "type".toList = some (.str k.name))
    (h2 : s2.get "type".toList = some (.str k.name)) (hobject : k ≠ .object) (hstring : k ≠ .string) :
    mergeSchemas s1 s2 = s1 := by
  have hname : ∀ l : Kind, k ≠ l → some (Json.str k.name) ≠ some (.str l.name) := fun l hl heq =>
    hl (Kind.name_injective (Json.str.inj (Option.some.inj heq)))
  have hobject' : some (Json.str k.name) ≠ some (.str "object".toList) := hname .object hobject
  have hstring' : some (Json.str k.name) ≠ some (.str "string".toList) := hname .string hstring
  rw [mergeSchemas, h1, h2, if_neg (not_not.mpr rfl), if_neg hobject', if_neg hstring']

theorem mergeSchemas_string (n m : Nat) :
    mergeSchemas (stringSchema n) (stringSchema m) = stringSchema (max n m) := by
  have h1 : (stringSchema n).get "type".toList = some (.str "string".toList) := rfl
  have h2 : (stringSchema m).get "type".toList = some (.str "string".toList) := rfl
  have hobject : some (Json.str "string".toList) ≠ some (.str "object".toList) := fun heq =>
    absurd (@Kind.name_injective .string .object (Json.str.inj (Option.some.inj heq))) (by decide)
  rw [mergeSchemas, h1, h2, if_neg (not_not.mpr rfl), if_neg hobject, if_pos rfl]
  have hmax : intAt (stringSchema n) "maxLength".toList = n := rfl
  have hmax' : intAt (stringSchema m) "maxLength".toList = m := rfl
  have hmin : intAt (stringSchema n) "minLength".toList = 0 := rfl
  have hmin' : intAt (stringSchema m) "minLength".toList = 0 := rfl
  rw [hmax, hmax', hmin, hmin', ← Nat.cast_max]
  rfl

theorem mergeProperties_eq (d e : List (Text × Json)) :
    mergeProperties d e = Dict.merge mergeSchemas d e := by
  induction e generalizing d with
  | nil => rw [mergeProperties, Dict.merge]
  | cons entry e ih =>
      obtain ⟨key, value⟩ := entry
      rw [mergeProperties, Dict.merge, ih]
      cases Dict.lookup d key <;> rfl

theorem mergeSchemas_object (d e : List (Text × Json)) (r q : List Text) :
    mergeSchemas (objectSchema d r) (objectSchema e q) =
      objectSchema (Dict.merge mergeSchemas d e) (r.filter q.contains) := by
  have h1 : (objectSchema d r).get "type".toList = some (.str "object".toList) := rfl
  have h2 : (objectSchema e q).get "type".toList = some (.str "object".toList) := rfl
  have hd : dictAt (objectSchema d r) "properties".toList = d := rfl
  have he : dictAt (objectSchema e q) "properties".toList = e := rfl
  have htexts : ∀ (p : List (Text × Json)) (l : List Text),
      textsAt (objectSchema p l) "required".toList = l := by
    intro p l
    show (l.map Json.str).filterMap Json.asStr = l
    rw [List.filterMap_map]
    exact List.filterMap_some
  rw [mergeSchemas, h1, h2, if_neg (not_not.mpr rfl), if_pos rfl, hd, he, htexts, htexts,
    mergeProperties_eq]
  rfl

section

variable {samples : List Json} {s a : Json}

theorem valuesAt_concat (key : Text) (samples : List Json) (fields : List (Text × Json)) :
    valuesAt key (samples ++ [.obj fields]) =
      valuesAt key samples ++ (Dict.lookup fields key).toList := by
  rw [valuesAt, List.filterMap_append, List.filterMap_cons, Json.get_obj]
  cases Dict.lookup fields key <;> rfl

/-- A sample of another kind than some of the earlier ones. -/
theorem Learned.step_other (h : Learned samples s) (hother : ¬ ∀ b ∈ samples, kindOf b = kindOf a) :
    Learned (samples ++ [a]) (mergeSchemas s (inferSchema a)) := by
  obtain ⟨t, hget, htruthy, hcheck, hname⟩ := h.type_check
  rw [mergeSchemas_union hget (inferSchema_type a) (fun heq => hother ((hname _).mp heq)) htruthy
    (truthy_name _)]
  refine Learned.union ?_ (List.cons_ne_nil _ _) fun w => ?_
  · obtain ⟨b, hb, hne⟩ := not_forall₂.mp hother
    exact ⟨b, List.mem_append_left _ hb, a, List.mem_append_right _ (List.mem_singleton_self a), hne⟩
  · rw [checkTypes, checkTypes, checkTypes, Bool.or_false, Bool.or_eq_true, hcheck, checkType_name]
    constructor
    · rintro (⟨b, hb, hw⟩ | hw)
      · exact ⟨b, List.mem_append_left _ hb, hw⟩
      · exact ⟨a, List.mem_append_right _ (List.mem_singleton_self a), hw⟩
    · rintro ⟨b, hb, hw⟩
      rcases List.mem_append.mp hb with hb | hb
      · exact Or.inl ⟨b, hb, hw⟩
      · exact Or.inr (List.mem_singleton.mp hb ▸ hw)

/-- The properties of objects, key by key. -/
theorem lookup_learned {properties : List (Text × Json)} {fields : List (Text × Json)} {key : Text}
    (hproperty : Dict.lookup properties key = learnSamples (valuesAt key samples))
    (hkeys : Dict.Distinct fields) :
    Dict.lookup (Dict.merge mergeSchemas properties (fields.map fun f => (f.1, inferSchema f.2))) key =
      learnSamples (valuesAt key (samples ++ [.obj fields])) := by
  have hinferred : Dict.Distinct (fields.map fun f => (f.1, inferSchema f.2)) := by
    rw [Dict.Distinct, Dict.keys_map]
    exact hkeys
  rw [Dict.lookup_merge _ _ hinferred, Dict.lookup_map, hproperty, valuesAt_concat]
  cases Dict.lookup fields key with
  | none =>
      rw [Option.toList_none, List.append_nil]
      cases learnSamples (valuesAt key samples) <;> rfl
  | some v =>
      rw [Option.toList_some, learnSamples_concat]
      cases learnSamples (valuesAt key samples) <;> rfl

/-- One more sample. -/
theorem Learned.step (h : Learned samples s) (ha : a.Distinct) :
    Learned (samples ++ [a]) (mergeSchemas s (inferSchema a)) := by
  by_cases hother : ∀ b ∈ samples, kindOf b = kindOf a
  swap
  · exact h.step_other hother
  have hne : samples ++ [a] ≠ [] := List.append_ne_nil_of_right_ne_nil _ (List.cons_ne_nil _ _)
  have hall : ∀ b ∈ samples ++ [a], kindOf b = kindOf a := fun b hb => by
    rcases List.mem_append.mp hb with hb | hb
    · exact hother b hb
    · rw [List.mem_singleton.mp hb]
  obtain ⟨b, hb⟩ := List.exists_mem_of_ne_nil samples h.ne_nil
  cases h with
  | @plain k hplain _ hkind =>
      have hk : kindOf a = k := (hother b hb).symm.trans (hkind b hb)
      have hsame : mergeSchemas (plainSchema k) (inferSchema a) = plainSchema k := by
        refine mergeSchemas_same (k := k) rfl (hk ▸ inferSchema_type a) ?_ ?_ <;>
          · rintro rfl
            exact absurd hplain (by simp [Kind.Plain])
      rw [hsame]
      exact Learned.plain hplain hne (hk ▸ hall)
  | @string n hkind hlongest hbound =>
      have hk : kindOf a = .string := (hother b hb).symm.trans (hkind b hb)
      obtain ⟨u, rfl⟩ := exists_str hk
      obtain ⟨t, ht, hlength⟩ := hlongest
      have hmerged : mergeSchemas (stringSchema n) (inferSchema (.str u)) =
          stringSchema (max n u.length) := mergeSchemas_string n u.length
      rw [hmerged]
      refine Learned.string (hk ▸ hall) ?_ fun v hv => ?_
      · by_cases hle : u.length ≤ n
        · exact ⟨t, List.mem_append_left _ ht, hlength.trans (max_eq_left hle).symm⟩
        · exact ⟨u, List.mem_append_right _ (List.mem_singleton_self _),
            (max_eq_right (Nat.le_of_not_le hle)).symm⟩
      · rcases List.mem_append.mp hv with hv | hv
        · exact (hbound v hv).trans (le_max_left _ _)
        · rw [Json.str.inj (List.mem_singleton.mp hv)]
          exact le_max_right _ _
  | @array items hkind hfirst =>
      have hk : kindOf a = .array := (hother b hb).symm.trans (hkind b hb)
      have hsame : mergeSchemas (inferSchema (.arr items)) (inferSchema a) =
          inferSchema (.arr items) :=
        mergeSchemas_same (k := .array) (inferSchema_type (.arr items)) (hk ▸ inferSchema_type a)
          (by decide) (by decide)
      rw [hsame]
      exact Learned.array (hk ▸ hall) (List.head?_append_of_ne_nil _ (List.ne_nil_of_mem hb) ▸ hfirst)
  | @object properties required _ hkind hdistinct hproperties hrequired =>
      have hk : kindOf a = .object := (hother b hb).symm.trans (hkind b hb)
      obtain ⟨fields, rfl⟩ := exists_obj hk
      cases ha with
      | obj hkeys _ =>
          rw [inferSchema_obj, mergeSchemas_object]
          refine Learned.object hne (hk ▸ hall) (hdistinct.merge _ _)
            (fun key => lookup_learned (hproperties key) hkeys) fun key => ?_
          rw [List.mem_filter, List.contains_iff_mem, hrequired, List.forall_mem_append,
            List.forall_mem_singleton, Json.get_obj, Dict.lookup_isSome_iff]
  | union hmixed _ _ =>
      obtain ⟨c, hc, d, hd, hcd⟩ := hmixed
      exact absurd ((hother c hc).trans (hother d hd).symm) hcd

/-- Samples lead to a schema. -/
theorem learned_samples (samples : List Json) (hne : samples ≠ [])
    (hdistinct : ∀ a ∈ samples, a.Distinct) :
    ∃ s, learnSamples samples = some s ∧ Learned samples s := by
  induction samples using List.reverseRecOn with
  | nil => exact absurd rfl hne
  | append_singleton samples a ih =>
      have ha : a.Distinct := hdistinct a (List.mem_append_right _ (List.mem_singleton_self a))
      rw [learnSamples_concat]
      by_cases hsamples : samples = []
      · subst hsamples
        exact ⟨_, rfl, Learned.single ha⟩
      · obtain ⟨s, hs, hlearned⟩ :=
          ih hsamples fun b hb => hdistinct b (List.mem_append_left _ hb)
        rw [hs]
        exact ⟨_, rfl, hlearned.step ha⟩

end

/-! ### What a sample keeps -/

/-- What the learner keeps of a value of a dictionary. -/
def truncateField : Json → Json
  | .str s => .str (if maxBodySampleSize < s.length then s.take maxBodySampleSize else s)
  | value => truncateSample value

/-- What is left of a value of a body, below a key or elsewhere. -/
def sampleOf (maxBytes : Nat) (inDict : Bool) (value : Json) : Json :=
  if inDict then truncateField (truncateBodySample maxBytes value)
  else truncateSample (truncateBodySample maxBytes value)

/-- How many characters are left of a text. -/
def keptLength (maxBytes : Nat) (inDict : Bool) (t : Text) : Nat :=
  let logged := if maxBytes < Rust.len t then min maxBytes t.length else t.length
  if inDict then min maxBodySampleSize logged else logged

section

variable {maxBytes : Nat} {inDict : Bool}

theorem truncateFields_eq (fields : List (Text × Json)) :
    truncateFields maxBytes fields = fields.map fun f => (f.1, truncateBodySample maxBytes f.2) := by
  induction fields with
  | nil => rfl
  | cons f fields ih => rw [truncateFields, ih, List.map_cons]

theorem truncateSampleFields_eq (fields : List (Text × Json)) :
    truncateSampleFields fields = fields.map fun f => (f.1, truncateField f.2) := by
  induction fields with
  | nil => rfl
  | cons f fields ih =>
      obtain ⟨key, value⟩ := f
      rw [List.map_cons, ← ih]
      cases value <;> rfl

theorem sampleOf_obj (fields : List (Text × Json)) :
    sampleOf maxBytes inDict (.obj fields) =
      .obj (fields.map fun f => (f.1, sampleOf maxBytes true f.2)) := by
  have h : truncateSample (truncateBodySample maxBytes (.obj fields)) =
      .obj (fields.map fun f => (f.1, sampleOf maxBytes true f.2)) := by
    rw [truncateBodySample, truncateSample, truncateFields_eq, truncateSampleFields_eq, List.map_map]
    rfl
  cases inDict
  · exact h
  · exact h

theorem sampleOf_nil : sampleOf maxBytes inDict (.arr []) = .arr [] := by
  cases inDict <;> rfl

theorem sampleOf_cons (item : Json) (items : List Json) :
    sampleOf maxBytes inDict (.arr (item :: items)) = .arr [sampleOf maxBytes false item] := by
  cases inDict <;> rfl

/-- A text is cut to the length that is kept. -/
theorem sampleOf_str (t : Text) : ∃ u, sampleOf maxBytes inDict (.str t) = .str u ∧
    u.length = keptLength maxBytes inDict t := by
  have hlogged : (cutBytes maxBytes t).length =
      if maxBytes < Rust.len t then min maxBytes t.length else t.length := by
    unfold cutBytes
    by_cases h : maxBytes < Rust.len t
    · rw [if_pos h, if_pos h, List.length_take]
    · rw [if_neg h, if_neg h]
  cases inDict with
  | false => exact ⟨cutBytes maxBytes t, rfl, hlogged⟩
  | true =>
      refine ⟨_, rfl, ?_⟩
      show _ = min maxBodySampleSize (if maxBytes < Rust.len t then min maxBytes t.length else t.length)
      rw [← hlogged]
      by_cases h : maxBodySampleSize < (cutBytes maxBytes t).length
      · rw [if_pos h, List.length_take]
      · rw [if_neg h, min_eq_right (Nat.le_of_not_lt h)]

theorem keptLength_le (t : Text) : keptLength maxBytes inDict t ≤ maxBytes := by
  have hlogged : (if maxBytes < Rust.len t then min maxBytes t.length else t.length) ≤ maxBytes := by
    by_cases h : maxBytes < Rust.len t
    · rw [if_pos h]
      exact min_le_left _ _
    · rw [if_neg h]
      exact (Rust.length_le_len t).trans (Nat.le_of_not_lt h)
  cases inDict with
  | false => exact hlogged
  | true => exact (min_le_right _ _).trans hlogged

theorem kindOf_sampleOf (value : Json) : kindOf (sampleOf maxBytes inDict value) = kindOf value := by
  cases value with
  | num n => cases n <;> cases inDict <;> rfl
  | arr items => cases items <;> cases inDict <;> rfl
  | _ => cases inDict <;> rfl

theorem get_sampleOf (key : Text) (value : Json) :
    (sampleOf maxBytes inDict value).get key = (value.get key).map (sampleOf maxBytes true) := by
  cases value with
  | obj fields => rw [sampleOf_obj, Json.get_obj, Json.get_obj, Dict.lookup_map]
  | arr items => cases items <;> cases inDict <;> rfl
  | _ => cases inDict <;> rfl

theorem valuesAt_sampleOf (key : Text) (values : List Json) :
    valuesAt key (values.map (sampleOf maxBytes inDict)) =
      (valuesAt key values).map (sampleOf maxBytes true) := by
  rw [valuesAt, valuesAt, List.filterMap_map, List.map_filterMap]
  congr 1
  funext value
  exact get_sampleOf key value

theorem distinct_sampleOf {value : Json} (h : value.Distinct) (inDict : Bool) :
    (sampleOf maxBytes inDict value).Distinct := by
  induction value using Json.partsInduction generalizing inDict with
  | null => cases inDict <;> exact Json.Distinct.null
  | bool b => cases inDict <;> exact Json.Distinct.bool b
  | num n => cases inDict <;> exact Json.Distinct.num n
  | str t => cases inDict <;> exact Json.Distinct.str _
  | arr items ih =>
      cases h with
      | arr hitems =>
          cases items with
          | nil =>
              rw [sampleOf_nil]
              exact Json.Distinct.arr hitems
          | cons item items =>
              rw [sampleOf_cons]
              refine Json.Distinct.arr fun j hj => ?_
              rw [List.mem_singleton.mp hj]
              exact ih item List.mem_cons_self (hitems item List.mem_cons_self) false
  | obj fields ih =>
      cases h with
      | obj hkeys hfields =>
          rw [sampleOf_obj]
          refine Json.Distinct.obj ?_ fun f hf => ?_
          · rw [Dict.Distinct, Dict.keys_map]
            exact hkeys
          · obtain ⟨g, hg, rfl⟩ := List.mem_map.mp hf
            exact ih g hg (hfields g hg) true

end

/-! ### What a schema accepts -/

section

variable (V : Values)

/-- The checks of the parts of a value. -/
def partChecks : Json → Check
  | .arr items => arrayViolations (itemChecks V items)
  | .obj fields => objectViolations (fieldChecks V fields)
  | _ => fun _ _ => []

theorem validateValue_eq (w : Json) : validateValue V w = checkWith V w (partChecks V w) := by
  cases w <;> rfl

theorem itemChecks_eq (items : List Json) : itemChecks V items = items.map (validateValue V) := by
  induction items with
  | nil => rfl
  | cons item items ih => rw [itemChecks, ih, List.map_cons]

theorem fieldChecks_eq (fields : List (Text × Json)) :
    fieldChecks V fields = fields.map fun f => (f.1, validateValue V f.2) := by
  induction fields with
  | nil => rfl
  | cons f fields ih => rw [fieldChecks, ih, List.map_cons]

/-- A schema that names a type, and holds neither `enum` nor bounds of numbers. -/
theorem validateValue_eq_nil {w t : Json} {s : List (Text × Json)} {path : Text}
    (htype : (Json.obj s).get "type".toList = some t)
    (henum : (Json.obj s).get "enum".toList = none)
    (hminimum : (Json.obj s).get "minimum".toList = none)
    (hmaximum : (Json.obj s).get "maximum".toList = none) :
    validateValue V w (.obj s) path = [] ↔
      checkType w t = true ∧ stringViolations w (.obj s) path = [] ∧
        partChecks V w (.obj s) path = [] := by
  have henums : enumViolations V w (.obj s) path = [] := by
    rw [enumViolations, henum]
  have hnumbers : numberViolations V w (.obj s) path = [] := by
    cases w with
    | num n =>
        rw [numberViolations, hminimum, hmaximum]
        rfl
    | _ => rfl
  rw [validateValue_eq, checkWith, htype, Option.all_some]
  by_cases ht : checkType w t = true
  · rw [if_pos ht, henums, hnumbers, List.nil_append, List.append_nil, List.append_eq_nil_iff]
    exact ⟨fun h => ⟨ht, h⟩, fun h => h.2⟩
  · rw [if_neg ht]
    exact ⟨fun h => absurd h (List.cons_ne_nil _ _), fun h => absurd h.1 ht⟩

/-- A schema that is nothing but a type. -/
theorem validateValue_type (w t : Json) (path : Text) :
    validateValue V w (.obj [("type".toList, t)]) path = [] ↔ checkType w t = true := by
  rw [validateValue_eq_nil V rfl rfl rfl rfl]
  have hstring : stringViolations w (.obj [("type".toList, t)]) path = [] := by
    cases w <;> rfl
  have hparts : partChecks V w (.obj [("type".toList, t)]) path = [] := by
    cases w with
    | arr items =>
        show [] ++ lengthViolations path _ none none _ _ = []
        rfl
    | obj fields => rfl
    | _ => rfl
  exact ⟨fun h => h.1, fun h => ⟨h, hstring, hparts⟩⟩

theorem validateValue_string {w : Json} {n : Nat} (hn : n < 2 ^ 64) (path : Text) :
    validateValue V w (stringSchema n) path = [] ↔ ∃ t, w = .str t ∧ Rust.len t ≤ n := by
  rw [stringSchema, validateValue_eq_nil V rfl rfl rfl rfl]
  have hmin : boundOf (stringSchema n) "minLength".toList = some 0 := rfl
  have hmax : boundOf (stringSchema n) "maxLength".toList = some n := Rust.asU64_nat hn
  have hbounds : ∀ t : Text, stringViolations (.str t) (stringSchema n) path = [] ↔
      Rust.len t ≤ n := by
    intro t
    have hparts : stringViolations (.str t) (stringSchema n) path =
        (if n < Rust.len t then [⟨path, .maxLength (Rust.len t) n⟩] else []) := by
      show lengthViolations path (Rust.len t) _ _ _ _ ++ [] = _
      rw [hmin, hmax, lengthViolations, List.append_nil]
      show (if Rust.len t < 0 then _ else _) ++ _ = _
      rw [if_neg (Nat.not_lt_zero _), List.nil_append]
    rw [hparts]
    by_cases h : n < Rust.len t
    · rw [if_pos h]
      exact ⟨fun he => absurd he (List.cons_ne_nil _ _), fun hle => absurd h (Nat.not_lt.mpr hle)⟩
    · rw [if_neg h]
      exact ⟨fun _ => Nat.le_of_not_lt h, fun _ => rfl⟩
  constructor
  · rintro ⟨htype, hstring, -⟩
    obtain ⟨t, rfl⟩ := isA_string.mp ((checkType_name w .string).mp htype)
    exact ⟨t, rfl, (hbounds t).mp hstring⟩
  · rintro ⟨t, rfl, hlen⟩
    exact ⟨(checkType_name _ .string).mpr (isA_string.mpr ⟨t, rfl⟩), (hbounds t).mpr hlen, rfl⟩

theorem validateValue_array {w items : Json} {n : Nat} (hn : n < 2 ^ 64) (path : Text) :
    validateValue V w (arraySchema items n) path = [] ↔
      ∃ js, w = .arr js ∧ js.length ≤ n ∧
        ∀ i, ∀ h : i < js.length, validateValue V js[i] items (itemPath path i) = [] := by
  rw [arraySchema, validateValue_eq_nil V rfl rfl rfl rfl]
  have hmin : boundOf (arraySchema items n) "minItems".toList = some 0 := rfl
  have hmax : boundOf (arraySchema items n) "maxItems".toList = some n := Rust.asU64_nat hn
  have hparts : ∀ js : List Json, partChecks V (.arr js) (arraySchema items n) path = [] ↔
      js.length ≤ n ∧
        ∀ i, ∀ h : i < js.length, validateValue V js[i] items (itemPath path i) = [] := by
    intro js
    have hlength : (itemChecks V js).length = js.length := by
      rw [itemChecks_eq, List.length_map]
    have heq : partChecks V (.arr js) (arraySchema items n) path =
        (((itemChecks V js).mapIdx fun i check => check items (itemPath path i)).flatten) ++
          if n < js.length then [⟨path, .maxItems js.length n⟩] else [] := by
      show _ ++ lengthViolations path _ _ _ _ _ = _
      rw [hmin, hmax, lengthViolations, hlength]
      show _ ++ ((if js.length < 0 then _ else _) ++ _) = _
      rw [if_neg (Nat.not_lt_zero _), List.nil_append]
      rfl
    have hflat : (((itemChecks V js).mapIdx fun i check => check items (itemPath path i)).flatten) =
        [] ↔ ∀ i, ∀ h : i < js.length, validateValue V js[i] items (itemPath path i) = [] := by
      rw [List.flatten_eq_nil_iff, itemChecks_eq]
      constructor
      · intro h i hi
        exact h _ (List.mem_mapIdx.mpr ⟨i, by rwa [List.length_map], by rw [List.getElem_map]⟩)
      · intro h l hl
        obtain ⟨i, hi, rfl⟩ := List.mem_mapIdx.mp hl
        rw [List.getElem_map]
        exact h i _
    rw [heq, List.append_eq_nil_iff, hflat, and_comm]
    refine and_congr_left fun _ => ?_
    by_cases h : n < js.length
    · rw [if_pos h]
      exact ⟨fun he => absurd he (List.cons_ne_nil _ _), fun hle => absurd h (Nat.not_lt.mpr hle)⟩
    · rw [if_neg h]
      exact ⟨fun _ => Nat.le_of_not_lt h, fun _ => rfl⟩
  constructor
  · rintro ⟨htype, -, hw⟩
    obtain ⟨js, rfl⟩ := isA_array.mp ((checkType_name w .array).mp htype)
    exact ⟨js, rfl, (hparts js).mp hw⟩
  · rintro ⟨js, rfl, hw⟩
    exact ⟨(checkType_name _ .array).mpr (isA_array.mpr ⟨js, rfl⟩), rfl, (hparts js).mpr hw⟩

theorem validateValue_object {w : Json} {properties : List (Text × Json)} {required : List Text}
    (hdistinct : Dict.Distinct properties) (path : Text) :
    validateValue V w (objectSchema properties required) path = [] ↔
      ∃ fields, w = .obj fields ∧ (∀ key ∈ required, (Dict.lookup fields key).isSome) ∧
        ∀ key value s, Dict.lookup fields key = some value → Dict.lookup properties key = some s →
          validateValue V value s (childPath path key) = [] := by
  rw [objectSchema, validateValue_eq_nil V rfl rfl rfl rfl]
  have hrequired : ∀ fields : List (Text × Json),
      requiredViolations (fieldChecks V fields) (objectSchema properties required) path = [] ↔
        ∀ key ∈ required, (Dict.lookup fields key).isSome := by
    intro fields
    have heq : requiredViolations (fieldChecks V fields) (objectSchema properties required) path =
        required.filterMap fun name =>
          if (Dict.lookup (fieldChecks V fields) name).isSome then none
          else some ⟨path, .required name⟩ := by
      show (required.map Json.str).filterMap _ = _
      rw [List.filterMap_map]
      rfl
    rw [heq, List.filterMap_eq_nil_iff]
    refine forall₂_congr fun key _ => ?_
    rw [fieldChecks_eq, Dict.lookup_map, Option.isSome_map]
    by_cases h : (Dict.lookup fields key).isSome = true
    · rw [if_pos h]
      exact ⟨fun _ => h, fun _ => rfl⟩
    · rw [if_neg h]
      exact ⟨fun he => absurd he (Option.some_ne_none _), fun hk => absurd hk h⟩
  have hproperties : ∀ fields : List (Text × Json),
      propertyViolations (fieldChecks V fields) properties path = [] ↔
        ∀ key value s, Dict.lookup fields key = some value → Dict.lookup properties key = some s →
          validateValue V value s (childPath path key) = [] := by
    intro fields
    rw [propertyViolations, List.flatMap_eq_nil_iff, fieldChecks_eq]
    constructor
    · intro h key value s hvalue hs
      have hp := h (key, s) (Dict.mem_of_lookup hs)
      rw [Dict.lookup_map, hvalue] at hp
      exact hp
    · rintro h ⟨key, s⟩ hp
      have hs := Dict.lookup_of_mem hdistinct hp
      rw [Dict.lookup_map]
      cases hvalue : Dict.lookup fields key with
      | none => rfl
      | some value => exact h key value s hvalue hs
  have hparts : ∀ fields : List (Text × Json),
      partChecks V (.obj fields) (objectSchema properties required) path = [] ↔
        (∀ key ∈ required, (Dict.lookup fields key).isSome) ∧
          ∀ key value s, Dict.lookup fields key = some value → Dict.lookup properties key = some s →
            validateValue V value s (childPath path key) = [] := by
    intro fields
    have heq : partChecks V (.obj fields) (objectSchema properties required) path =
        requiredViolations (fieldChecks V fields) (objectSchema properties required) path ++
          (propertyViolations (fieldChecks V fields) properties path ++ []) := rfl
    rw [heq, List.append_nil, List.append_eq_nil_iff, hrequired, hproperties]
  constructor
  · rintro ⟨htype, -, hw⟩
    obtain ⟨fields, rfl⟩ := isA_object.mp ((checkType_name w .object).mp htype)
    exact ⟨fields, rfl, (hparts fields).mp hw⟩
  · rintro ⟨fields, rfl, hw⟩
    exact ⟨(checkType_name _ .object).mpr (isA_object.mpr ⟨fields, rfl⟩), rfl, (hparts fields).mpr hw⟩

end

/-! ### Room for a value -/

/-- What values at one place of the bodies leave room for, once they are cut and merged:
between values of different kinds everything of these kinds, among texts those no longer in
bytes than the longest that is kept is in characters, among arrays the empty ones and, when
the first has items, those of one item that the first item has room for. -/
inductive Covered (maxBytes : Nat) : Bool → List Json → Json → Prop
  | union {inDict : Bool} {values : List Json} {w a : Json}
      (hmixed : ∃ a ∈ values, ∃ b ∈ values, kindOf a ≠ kindOf b) (ha : a ∈ values)
      (hw : IsA w (kindOf a)) : Covered maxBytes inDict values w
  | plain {inDict : Bool} {values : List Json} {w : Json} {k : Kind} (hplain : k.Plain)
      (hkind : ∀ a ∈ values, kindOf a = k) (hw : IsA w k) : Covered maxBytes inDict values w
  | string {inDict : Bool} {values : List Json} {t u : Text}
      (hkind : ∀ a ∈ values, kindOf a = .string) (hu : .str u ∈ values)
      (hlength : Rust.len t ≤ keptLength maxBytes inDict u) : Covered maxBytes inDict values (.str t)
  | empty {inDict : Bool} {values : List Json} (hkind : ∀ a ∈ values, kindOf a = .array) :
      Covered maxBytes inDict values (.arr [])
  | single {inDict : Bool} {values items : List Json} {w item : Json}
      (hkind : ∀ a ∈ values, kindOf a = .array) (hfirst : values.head? = some (.arr (item :: items)))
      (hw : Covered maxBytes false [item] w) : Covered maxBytes inDict values (.arr [w])
  | object {inDict : Bool} {values : List Json} {fields : List (Text × Json)}
      (hkind : ∀ a ∈ values, kindOf a = .object)
      (hrequired : ∀ key, (∀ a ∈ values, (a.get key).isSome) → (Dict.lookup fields key).isSome)
      (hfields : ∀ key w, Dict.lookup fields key = some w → valuesAt key values ≠ [] →
        Covered maxBytes true (valuesAt key values) w) :
      Covered maxBytes inDict values (.obj fields)

section

variable {maxBytes : Nat} {inDict : Bool} {values : List Json} {w : Json}

theorem covered_union_iff (hmixed : ∃ a ∈ values, ∃ b ∈ values, kindOf a ≠ kindOf b) :
    Covered maxBytes inDict values w ↔ ∃ a ∈ values, IsA w (kindOf a) := by
  have hmixed' := hmixed
  obtain ⟨a, ha, b, hb, hne⟩ := hmixed
  have hkinds : ∀ k, ¬ ∀ c ∈ values, kindOf c = k := fun k hkind =>
    hne ((hkind a ha).trans (hkind b hb).symm)
  constructor
  · intro h
    cases h with
    | union _ hc hw => exact ⟨_, hc, hw⟩
    | plain _ hkind _ => exact absurd hkind (hkinds _)
    | string hkind _ _ => exact absurd hkind (hkinds _)
    | empty hkind => exact absurd hkind (hkinds _)
    | single hkind _ _ => exact absurd hkind (hkinds _)
    | object hkind _ _ => exact absurd hkind (hkinds _)
  · rintro ⟨c, hc, hw⟩
    exact Covered.union hmixed' hc hw

/-- Of one kind, nothing is covered as a mixture. -/
theorem not_mixed {k : Kind} (hkind : ∀ a ∈ values, kindOf a = k) :
    ¬ ∃ a ∈ values, ∃ b ∈ values, kindOf a ≠ kindOf b :=
  fun ⟨a, ha, b, hb, hne⟩ => hne ((hkind a ha).trans (hkind b hb).symm)

theorem kind_unique (hne : values ≠ []) {k l : Kind} (hk : ∀ a ∈ values, kindOf a = k)
    (hl : ∀ a ∈ values, kindOf a = l) : k = l := by
  obtain ⟨a, ha⟩ := List.exists_mem_of_ne_nil values hne
  exact (hk a ha).symm.trans (hl a ha)

theorem covered_plain_iff {k : Kind} (hplain : k.Plain) (hne : values ≠ [])
    (hkind : ∀ a ∈ values, kindOf a = k) : Covered maxBytes inDict values w ↔ IsA w k := by
  constructor
  · intro h
    have hother : ∀ l, (∀ a ∈ values, kindOf a = l) → ¬ l.Plain → IsA w k := fun l hl hnot =>
      absurd (kind_unique hne hkind hl ▸ hplain) hnot
    cases h with
    | union hmixed _ _ => exact absurd hmixed (not_mixed hkind)
    | plain _ hl hw => exact kind_unique hne hl hkind ▸ hw
    | string hl _ _ => exact hother _ hl (by simp [Kind.Plain])
    | empty hl => exact hother _ hl (by simp [Kind.Plain])
    | single hl _ _ => exact hother _ hl (by simp [Kind.Plain])
    | object hl _ _ => exact hother _ hl (by simp [Kind.Plain])
  · exact Covered.plain hplain hkind

theorem covered_string_iff (hne : values ≠ []) (hkind : ∀ a ∈ values, kindOf a = .string) :
    Covered maxBytes inDict values w ↔
      ∃ t, w = .str t ∧ ∃ u, .str u ∈ values ∧ Rust.len t ≤ keptLength maxBytes inDict u := by
  constructor
  · intro h
    cases h with
    | union hmixed _ _ => exact absurd hmixed (not_mixed hkind)
    | plain hplain hl _ => exact absurd (kind_unique hne hl hkind ▸ hplain) (by simp [Kind.Plain])
    | string _ hu hlength => exact ⟨_, rfl, _, hu, hlength⟩
    | empty hl => exact absurd (kind_unique hne hl hkind) (by decide)
    | single hl _ _ => exact absurd (kind_unique hne hl hkind) (by decide)
    | object hl _ _ => exact absurd (kind_unique hne hl hkind) (by decide)
  · rintro ⟨t, rfl, u, hu, hlength⟩
    exact Covered.string hkind hu hlength

theorem covered_array_iff (hne : values ≠ []) (hkind : ∀ a ∈ values, kindOf a = .array) :
    Covered maxBytes inDict values w ↔ w = .arr [] ∨ ∃ v item items, w = .arr [v] ∧
      values.head? = some (.arr (item :: items)) ∧ Covered maxBytes false [item] v := by
  constructor
  · intro h
    cases h with
    | union hmixed _ _ => exact absurd hmixed (not_mixed hkind)
    | plain hplain hl _ => exact absurd (kind_unique hne hl hkind ▸ hplain) (by simp [Kind.Plain])
    | string hl _ _ => exact absurd (kind_unique hne hl hkind) (by decide)
    | empty _ => exact Or.inl rfl
    | single _ hfirst hw => exact Or.inr ⟨_, _, _, rfl, hfirst, hw⟩
    | object hl _ _ => exact absurd (kind_unique hne hl hkind) (by decide)
  · rintro (rfl | ⟨v, item, items, rfl, hfirst, hv⟩)
    · exact Covered.empty hkind
    · exact Covered.single hkind hfirst hv

theorem covered_object_iff (hne : values ≠ []) (hkind : ∀ a ∈ values, kindOf a = .object) :
    Covered maxBytes inDict values w ↔ ∃ fields, w = .obj fields ∧
      (∀ key, (∀ a ∈ values, (a.get key).isSome) → (Dict.lookup fields key).isSome) ∧
      ∀ key v, Dict.lookup fields key = some v → valuesAt key values ≠ [] →
        Covered maxBytes true (valuesAt key values) v := by
  constructor
  · intro h
    cases h with
    | union hmixed _ _ => exact absurd hmixed (not_mixed hkind)
    | plain hplain hl _ => exact absurd (kind_unique hne hl hkind ▸ hplain) (by simp [Kind.Plain])
    | string hl _ _ => exact absurd (kind_unique hne hl hkind) (by decide)
    | empty hl => exact absurd (kind_unique hne hl hkind) (by decide)
    | single hl _ _ => exact absurd (kind_unique hne hl hkind) (by decide)
    | object _ hrequired hfields => exact ⟨_, rfl, hrequired, hfields⟩
  · rintro ⟨fields, rfl, hrequired, hfields⟩
    exact Covered.object hkind hrequired hfields

end

/-! ### Acceptance -/

section

variable (V : Values) {maxBytes : Nat}

theorem valuesAt_distinct {values : List Json} (h : ∀ a ∈ values, a.Distinct) (key : Text) :
    ∀ a ∈ valuesAt key values, a.Distinct := by
  intro a ha
  obtain ⟨b, hb, hget⟩ := List.mem_filterMap.mp ha
  cases h b hb with
  | obj _ hfields =>
      rw [Json.get_obj] at hget
      exact hfields (key, a) (Dict.mem_of_lookup hget)
  | _ => cases hget

/-- Learned schemas accept a value exactly when it is covered. -/
def Exact (maxBytes : Nat) (w : Json) : Prop :=
  ∀ (inDict : Bool) (values : List Json), values ≠ [] → (∀ a ∈ values, a.Distinct) →
    ∀ s, learnSamples (values.map (sampleOf maxBytes inDict)) = some s → ∀ path,
      validateValue V w s path = [] ↔ Covered maxBytes inDict values w

section

variable {inDict : Bool} {values : List Json} {w : Json} {path : Text}

/-- Texts: the longest sample decides. -/
theorem exact_string (hmax : maxBytes < 2 ^ 64) (hne : values ≠ [])
    (hkind : ∀ a ∈ values, kindOf a = .string) {n : Nat}
    (hlongest : ∃ t, .str t ∈ values.map (sampleOf maxBytes inDict) ∧ t.length = n)
    (hbound : ∀ t, .str t ∈ values.map (sampleOf maxBytes inDict) → t.length ≤ n) :
    validateValue V w (stringSchema n) path = [] ↔ Covered maxBytes inDict values w := by
  have hkept : ∀ u, .str u ∈ values → keptLength maxBytes inDict u ≤ n := by
    intro u hu
    obtain ⟨v, hv, hlength⟩ := @sampleOf_str maxBytes inDict u
    exact hlength ▸ hbound v (hv ▸ List.mem_map_of_mem hu)
  obtain ⟨u, hu, hun⟩ : ∃ u, .str u ∈ values ∧ keptLength maxBytes inDict u = n := by
    obtain ⟨t, ht, hlength⟩ := hlongest
    obtain ⟨a, ha, hat⟩ := List.mem_map.mp ht
    obtain ⟨u, rfl⟩ := exists_str (hkind a ha)
    obtain ⟨v, hv, hlength'⟩ := @sampleOf_str maxBytes inDict u
    obtain rfl : v = t := Json.str.inj (hv.symm.trans hat)
    exact ⟨u, ha, hlength'.symm.trans hlength⟩
  have hn : n < 2 ^ 64 := lt_of_le_of_lt (hun ▸ keptLength_le u) hmax
  rw [validateValue_string V hn, covered_string_iff hne hkind]
  refine exists_congr fun t => and_congr_right fun _ => ⟨fun hlen => ⟨u, hu, hun ▸ hlen⟩, ?_⟩
  rintro ⟨u', hu', hlen⟩
  exact hlen.trans (hkept u' hu')

/-- Arrays: the first sample decides, by its first item. -/
theorem exact_array (hne : values ≠ []) (hdistinct : ∀ a ∈ values, a.Distinct)
    (hkind : ∀ a ∈ values, kindOf a = .array) {items : List Json}
    (hfirst : (values.map (sampleOf maxBytes inDict)).head? = some (.arr items))
    (hitems : ∀ js, w = .arr js → ∀ j ∈ js, Exact V maxBytes j) :
    validateValue V w (inferSchema (.arr items)) path = [] ↔ Covered maxBytes inDict values w := by
  rw [covered_array_iff hne hkind]
  rw [List.head?_map] at hfirst
  obtain ⟨a, hhead, ha⟩ := Option.map_eq_some_iff.mp hfirst
  have hmem : a ∈ values := List.mem_of_mem_head? hhead
  obtain ⟨as, rfl⟩ := exists_arr (hkind a hmem)
  cases as with
  | nil =>
      rw [sampleOf_nil] at ha
      obtain rfl := Json.arr.inj ha
      rw [inferSchema, validateValue_array V (by decide)]
      constructor
      · rintro ⟨js, rfl, hlength, -⟩
        exact Or.inl (by rw [List.eq_nil_of_length_eq_zero (Nat.le_zero.mp hlength)])
      · rintro (rfl | ⟨v, item, items, rfl, hfirst', -⟩)
        · exact ⟨[], rfl, le_refl 0, fun i hi => absurd hi (Nat.not_lt_zero i)⟩
        · rw [hhead] at hfirst'
          cases hfirst'
  | cons item rest =>
      rw [sampleOf_cons] at ha
      obtain rfl := Json.arr.inj ha
      have hitem : ∀ b ∈ [item], b.Distinct := fun b hb => by
        rw [List.mem_singleton.mp hb]
        cases hdistinct _ hmem with
        | arr h => exact h item List.mem_cons_self
      rw [inferSchema, validateValue_array V (by decide)]
      constructor
      · rintro ⟨js, rfl, hlength, hchecks⟩
        match js, hlength with
        | [], _ => exact Or.inl rfl
        | [v], _ =>
            exact Or.inr ⟨v, item, rest, rfl, hhead, (hitems [v] rfl v (List.mem_singleton_self v)
              false [item] (List.cons_ne_nil _ _) hitem _ rfl _).mp (hchecks 0 Nat.one_pos)⟩
      · rintro (rfl | ⟨v, item', rest', rfl, hfirst', hv⟩)
        · exact ⟨[], rfl, Nat.zero_le _, fun i hi => absurd hi (Nat.not_lt_zero i)⟩
        · rw [hhead] at hfirst'
          cases hfirst'
          refine ⟨[v], rfl, le_refl 1, fun i hi => ?_⟩
          obtain rfl : i = 0 := Nat.lt_one_iff.mp hi
          exact (hitems [v] rfl v (List.mem_singleton_self v) false [item] (List.cons_ne_nil _ _)
            hitem _ rfl _).mpr hv

/-- Objects: key by key. -/
theorem exact_object (hne : values ≠ []) (hdistinct : ∀ a ∈ values, a.Distinct)
    (hkind : ∀ a ∈ values, kindOf a = .object) {properties : List (Text × Json)}
    {required : List Text} (hkeys : Dict.Distinct properties)
    (hproperties : ∀ key, Dict.lookup properties key =
      learnSamples (valuesAt key (values.map (sampleOf maxBytes inDict))))
    (hrequired : ∀ key, key ∈ required ↔
      ∀ a ∈ values.map (sampleOf maxBytes inDict), (a.get key).isSome)
    (hfields : ∀ fields, w = .obj fields → ∀ f ∈ fields, Exact V maxBytes f.2) :
    validateValue V w (objectSchema properties required) path = [] ↔
      Covered maxBytes inDict values w := by
  rw [validateValue_object V hkeys, covered_object_iff hne hkind]
  refine exists_congr fun fields => and_congr_right fun hw => and_congr ?_ ?_
  · refine forall_congr' fun key => imp_congr_left ((hrequired key).trans ?_)
    rw [List.forall_mem_map]
    refine forall₂_congr fun a _ => ?_
    rw [get_sampleOf, Option.isSome_map]
  · refine forall₂_congr fun key v => ?_
    have hvalues : Dict.lookup properties key =
        learnSamples ((valuesAt key values).map (sampleOf maxBytes true)) := by
      rw [hproperties, valuesAt_sampleOf]
    constructor
    · intro h hv hnonempty
      obtain ⟨s, hs, -⟩ := learned_samples ((valuesAt key values).map (sampleOf maxBytes true))
        (fun hnil => hnonempty (List.map_eq_nil_iff.mp hnil)) fun a ha => by
          obtain ⟨b, hb, rfl⟩ := List.mem_map.mp ha
          exact distinct_sampleOf (valuesAt_distinct hdistinct key b hb) true
      exact (hfields fields hw (key, v) (Dict.mem_of_lookup hv) true (valuesAt key values) hnonempty
        (valuesAt_distinct hdistinct key) s hs _).mp (h s hv (hvalues.trans hs))
    · intro h s hv hs
      have hnonempty : valuesAt key values ≠ [] := by
        intro hnil
        rw [hvalues, hnil] at hs
        cases hs
      exact (hfields fields hw (key, v) (Dict.mem_of_lookup hv) true (valuesAt key values) hnonempty
        (valuesAt_distinct hdistinct key) s (hvalues.symm.trans hs) _).mpr (h hv hnonempty)

end

/-- From the parts of a value to the value. -/
theorem exact_of_parts (hmax : maxBytes < 2 ^ 64) {w : Json}
    (hitems : ∀ js, w = .arr js → ∀ j ∈ js, Exact V maxBytes j)
    (hfields : ∀ fields, w = .obj fields → ∀ f ∈ fields, Exact V maxBytes f.2) :
    Exact V maxBytes w := by
  intro inDict values hne hdistinct s hs path
  obtain ⟨s', hs', hlearned⟩ := learned_samples (values.map (sampleOf maxBytes inDict))
    (fun h => hne (List.map_eq_nil_iff.mp h)) fun a ha => by
      obtain ⟨b, hb, rfl⟩ := List.mem_map.mp ha
      exact distinct_sampleOf (hdistinct b hb) inDict
  obtain rfl : s' = s := Option.some.inj (hs'.symm.trans hs)
  have hkinds : ∀ {k}, (∀ a ∈ values.map (sampleOf maxBytes inDict), kindOf a = k) →
      ∀ a ∈ values, kindOf a = k := fun hkind a ha =>
    (kindOf_sampleOf a).symm.trans (hkind _ (List.mem_map_of_mem ha))
  cases hlearned with
  | plain hplain _ hkind =>
      rw [plainSchema, validateValue_type, checkType_name,
        covered_plain_iff hplain hne (hkinds hkind)]
  | string hkind hlongest hbound => exact exact_string V hmax hne (hkinds hkind) hlongest hbound
  | array hkind hfirst => exact exact_array V hne hdistinct (hkinds hkind) hfirst hitems
  | object _ hkind hkeys hproperties hrequired =>
      exact exact_object V hne hdistinct (hkinds hkind) hkeys hproperties hrequired hfields
  | union hmixed _ htypes =>
      have hmixed' : ∃ a ∈ values, ∃ b ∈ values, kindOf a ≠ kindOf b := by
        obtain ⟨a, ha, b, hb, hne⟩ := hmixed
        obtain ⟨c, hc, rfl⟩ := List.mem_map.mp ha
        obtain ⟨d, hd, rfl⟩ := List.mem_map.mp hb
        rw [kindOf_sampleOf, kindOf_sampleOf] at hne
        exact ⟨c, hc, d, hd, hne⟩
      rw [unionSchema, validateValue_type, checkType, htypes, covered_union_iff hmixed']
      constructor
      · rintro ⟨a, ha, hw⟩
        obtain ⟨b, hb, rfl⟩ := List.mem_map.mp ha
        exact ⟨b, hb, kindOf_sampleOf b ▸ hw⟩
      · rintro ⟨a, ha, hw⟩
        exact ⟨_, List.mem_map_of_mem ha, (kindOf_sampleOf a).symm ▸ hw⟩

/-- A learned schema accepts what its values leave room for, at every depth. -/
theorem exact (hmax : maxBytes < 2 ^ 64) (w : Json) : Exact V maxBytes w := by
  induction w using Json.partsInduction with
  | arr items ih =>
      refine exact_of_parts V hmax (fun js hjs => ?_) fun _ h => by cases h
      exact Json.arr.inj hjs ▸ ih
  | obj fields ih =>
      refine exact_of_parts V hmax (fun _ h => by cases h) fun fs hfs => ?_
      exact Json.obj.inj hfs ▸ ih
  | null => exact exact_of_parts V hmax (fun _ h => by cases h) fun _ h => by cases h
  | bool b => exact exact_of_parts V hmax (fun _ h => by cases h) fun _ h => by cases h
  | num n => exact exact_of_parts V hmax (fun _ h => by cases h) fun _ h => by cases h
  | str t => exact exact_of_parts V hmax (fun _ h => by cases h) fun _ h => by cases h

end

/-! ### Endpoints -/

/-- A request to an endpoint. -/
def LoggedRequest.At (method path : Text) (r : LoggedRequest) : Prop :=
  upper r.method = upper method ∧ r.path = path

instance (method path : Text) (r : LoggedRequest) : Decidable (r.At method path) := by
  unfold LoggedRequest.At
  infer_instance

/-- The body the learner learns from; only objects are learned. -/
def LoggedRequest.learnedBody (r : LoggedRequest) : Option Json :=
  if r.method.isEmpty || r.path.isEmpty then none
  else
    match r.json with
    | some (.obj fields) => some (.obj fields)
    | _ => none

/-- The bodies observed at an endpoint and learned from, in their order. -/
def observedBodies (log : List LoggedRequest) (method path : Text) : List Json :=
  log.filterMap fun r => if r.At method path then r.learnedBody else none

/-- The learned schema of an endpoint accepts every body it was learned from. -/
def AcceptsObserved (V : Values) (nextId : List LearnedRow → Int) (maxBytes : UInt64)
    (table : List LearnedRow) (log : List LoggedRequest) (method path : Text) : Prop :=
  ∀ b ∈ observedBodies log method path, ∃ row,
    (learnFrom nextId maxBytes table log).find? (LearnedRow.isFor method path) = some row ∧
      (validate V b row.schema).valid = true

theorem isFor_of_at {method path : Text} {r : LoggedRequest} (h : r.At method path) :
    LearnedRow.isFor r.method r.path = LearnedRow.isFor method path := by
  funext row
  rw [LearnedRow.isFor, LearnedRow.isFor, h.1, h.2]

section

variable {nextId : List LearnedRow → Int} {maxBytes : UInt64} {table : List LearnedRow}
variable {method path : Text} {r : LoggedRequest}

/-- A body that is learned from is merged into the schema of its endpoint. -/
theorem ingestSample_learned {b : Json} (hb : r.learnedBody = some b) :
    ingestSample nextId table (writeProfilingLog maxBytes r) =
      mergeLearnedSchema nextId table r.method r.path (sampleOf maxBytes.toNat false b) := by
  unfold LoggedRequest.learnedBody at hb
  by_cases hempty : (r.method.isEmpty || r.path.isEmpty) = true
  · rw [if_pos hempty] at hb
    cases hb
  rw [if_neg hempty] at hb
  obtain ⟨m, p, json, graphql⟩ := r
  obtain ⟨fields, rfl, rfl⟩ : ∃ fields, json = some (.obj fields) ∧ b = .obj fields := by
    match json, hb with
    | some (.obj fields), hb => exact ⟨fields, rfl, (Option.some.inj hb).symm⟩
  exact if_neg hempty

/-- Otherwise nothing changes, unless the entry describes a query. -/
theorem ingestSample_skipped (hb : r.learnedBody = none)
    (hquery : r.graphql.isSome → ∃ j, r.json = some j ∧ j ≠ .null) :
    ingestSample nextId table (writeProfilingLog maxBytes r) = table := by
  unfold LoggedRequest.learnedBody at hb
  by_cases hempty : (r.method.isEmpty || r.path.isEmpty) = true
  · exact if_pos hempty
  rw [if_neg hempty] at hb
  have hbody : ∀ fields, (writeProfilingLog maxBytes r).body ≠ some (.obj fields) := by
    obtain ⟨m, p, json, graphql⟩ := r
    have hnone : json = none ∨ json = some .null → graphql = none := by
      intro hjson
      cases graphql with
      | none => rfl
      | some g =>
          obtain ⟨j, hj, hne⟩ := hquery rfl
          rcases hjson with rfl | rfl
          · cases hj
          · exact absurd (Option.some.inj hj).symm hne
    intro fields hfields
    match json, hb with
    | none, _ =>
        rw [hnone (Or.inl rfl)] at hfields
        cases hfields
    | some .null, _ =>
        rw [hnone (Or.inr rfl)] at hfields
        cases hfields
    | some (.bool _), _ => cases hfields
    | some (.num _), _ => cases hfields
    | some (.str _), _ => cases hfields
    | some (.arr []), _ => cases hfields
    | some (.arr (_ :: _)), _ => cases hfields
  rw [ingestSample]
  refine (if_neg hempty).trans ?_
  match hbody' : (writeProfilingLog maxBytes r).body with
  | some (.obj fields) => exact absurd hbody' (hbody fields)
  | none | some .null | some (.bool _) | some (.num _) | some (.str _) | some (.arr _) => rfl

/-- An entry of another endpoint. -/
theorem find?_ingestSample_other (hat : ¬ r.At method path) :
    (ingestSample nextId table (writeProfilingLog maxBytes r)).find? (LearnedRow.isFor method path) =
      table.find? (LearnedRow.isFor method path) := by
  rw [ingestSample]
  by_cases hempty : (r.method.isEmpty || r.path.isEmpty) = true
  · exact congrArg _ (if_pos hempty)
  refine (congrArg _ (if_neg hempty)).trans ?_
  match (writeProfilingLog maxBytes r).body with
  | some (.obj fields) => exact find?_mergeLearnedSchema_other nextId table _ hat
  | none | some .null | some (.bool _) | some (.num _) | some (.str _) | some (.arr _) => rfl

end

theorem Learned.orEmpty {samples : List Json} {s : Json} (h : Learned samples s) : orEmpty s = s := by
  cases h with
  | @array items _ _ => cases items <;> rfl
  | _ => rfl

theorem observedBodies_concat (log : List LoggedRequest) (r : LoggedRequest) (method path : Text) :
    observedBodies (log ++ [r]) method path = observedBodies log method path ++
      (if r.At method path then r.learnedBody else none).toList := by
  rw [observedBodies, List.filterMap_append, List.filterMap_cons]
  cases (if r.At method path then r.learnedBody else none) <;> rfl

theorem observedBodies_distinct {log : List LoggedRequest} {method path : Text}
    (h : ∀ r ∈ log, ∀ j ∈ r.json, j.Distinct) :
    ∀ b ∈ observedBodies log method path, b.Distinct := by
  intro b hb
  obtain ⟨r, hr, hbody⟩ := List.mem_filterMap.mp hb
  refine h r hr b ?_
  by_cases hat : r.At method path
  · rw [if_pos hat, LoggedRequest.learnedBody] at hbody
    by_cases hempty : (r.method.isEmpty || r.path.isEmpty) = true
    · rw [if_pos hempty] at hbody
      cases hbody
    · rw [if_neg hempty] at hbody
      match hjson : r.json, hbody with
      | some (.obj fields), hbody => exact congrArg some (Option.some.inj hbody)
  · rw [if_neg hat] at hbody
    cases hbody

/-- What a log leaves in the learned row of an endpoint. -/
theorem find?_learnFrom (nextId : List LearnedRow → Int) (maxBytes : UInt64)
    (table : List LearnedRow) (log : List LoggedRequest) (method path : Text)
    (hnew : table.find? (LearnedRow.isFor method path) = none)
    (hqueries : ∀ r ∈ log, r.At method path → r.graphql.isSome → ∃ j, r.json = some j ∧ j ≠ .null)
    (hdistinct : ∀ r ∈ log, ∀ j ∈ r.json, j.Distinct) :
    ((learnFrom nextId maxBytes table log).find? (LearnedRow.isFor method path)).map (·.schema) =
      learnSamples ((observedBodies log method path).map (sampleOf maxBytes.toNat false)) := by
  induction log using List.reverseRecOn with
  | nil =>
      show (table.find? _).map _ = none
      rw [hnew]
      rfl
  | append_singleton log r ih =>
      have ih := ih (fun q hq => hqueries q (List.mem_append_left _ hq)) fun q hq =>
        hdistinct q (List.mem_append_left _ hq)
      have hr : r ∈ log ++ [r] := List.mem_append_right _ (List.mem_singleton_self r)
      have hlast : learnFrom nextId maxBytes table (log ++ [r]) =
          ingestSample nextId (learnFrom nextId maxBytes table log) (writeProfilingLog maxBytes r) := by
        rw [learnFrom, List.map_append, List.foldl_append]
        rfl
      rw [hlast, observedBodies_concat]
      by_cases hat : r.At method path
      · rw [if_pos hat]
        cases hbody : r.learnedBody with
        | none =>
            rw [ingestSample_skipped hbody (hqueries r hr hat), Option.toList_none, List.append_nil, ih]
        | some b =>
            rw [ingestSample_learned hbody, ← isFor_of_at hat, find?_mergeLearnedSchema,
              isFor_of_at hat, ih, Option.toList_some, List.map_append, List.map_singleton,
              learnSamples_concat]
            by_cases hempty : observedBodies log method path = []
            · rw [hempty]
              rfl
            · obtain ⟨s, hs, hlearned⟩ := learned_samples
                ((observedBodies log method path).map (sampleOf maxBytes.toNat false))
                (fun hnil => hempty (List.map_eq_nil_iff.mp hnil)) fun a ha => by
                  obtain ⟨c, hc, rfl⟩ := List.mem_map.mp ha
                  exact distinct_sampleOf (observedBodies_distinct
                    (fun q hq => hdistinct q (List.mem_append_left _ hq)) c hc) false
              rw [hs, Option.map_some, hlearned.orEmpty]
              rfl
      · rw [if_neg hat, find?_ingestSample_other hat, ih, Option.toList_none, List.append_nil]

/-- The learned schema of an endpoint accepts every body it was learned from exactly when the
bodies leave room for each of them.  The endpoint is learned from the start, and the queries
sent to it are JSON. -/
theorem learned_accepts_iff (V : Values) (nextId : List LearnedRow → Int) (maxBytes : UInt64)
    (table : List LearnedRow) (log : List LoggedRequest) (method path : Text)
    (hnew : table.find? (LearnedRow.isFor method path) = none)
    (hqueries : ∀ r ∈ log, r.At method path → r.graphql.isSome → ∃ j, r.json = some j ∧ j ≠ .null)
    (hdistinct : ∀ r ∈ log, ∀ j ∈ r.json, j.Distinct) :
    AcceptsObserved V nextId maxBytes table log method path ↔
      ∀ b ∈ observedBodies log method path,
        Covered maxBytes.toNat false (observedBodies log method path) b := by
  have hrow := find?_learnFrom nextId maxBytes table log method path hnew hqueries hdistinct
  have hbodies := @observedBodies_distinct log method path hdistinct
  refine forall₂_congr fun b hb => ?_
  have hne : observedBodies log method path ≠ [] := List.ne_nil_of_mem hb
  obtain ⟨s, hs, -⟩ := learned_samples
    ((observedBodies log method path).map (sampleOf maxBytes.toNat false))
    (fun hnil => hne (List.map_eq_nil_iff.mp hnil)) fun a ha => by
      obtain ⟨c, hc, rfl⟩ := List.mem_map.mp ha
      exact distinct_sampleOf (hbodies c hc) false
  rw [hs] at hrow
  obtain ⟨row, hfind, hschema⟩ := Option.map_eq_some_iff.mp hrow
  have hvalid : (validate V b row.schema).valid = true ↔ validateValue V b row.schema [] = [] := by
    show ((validateValue V b row.schema []).map _).isEmpty = true ↔ _
    rw [List.isEmpty_iff, List.map_eq_nil_iff]
  rw [← exact V maxBytes.toNat_lt b false _ hne hbodies s hs [], ← hschema, ← hvalid]
  constructor
  · rintro ⟨row', hrow', h⟩
    obtain rfl : row = row' := Option.some.inj (hfind.symm.trans hrow')
    exact h
  · exact fun h => ⟨row, hfind, h⟩

/-! ### A learned body is rejected -/

/-- The parts of the crate that a schema without enumerations and bounds of numbers does not
reach. -/
def plainValues : Values where
  lessThan _ _ := false
  equal := Json.beq
  debugValue _ := []
  debugText t := '"' :: t ++ ['"']
  displayF64 _ := []

/-- A request that creates a user. -/
def createUser (name : Text) : LoggedRequest where
  method := "POST".toList
  path := "/users".toList
  json := some (.obj [("name".toList, .str name)])
  graphql := none

/-- Two users with names in ASCII. -/
theorem learned_accepts_users :
    AcceptsObserved plainValues (fun rows => rows.length + 1) 4096 []
        [createUser "ann".toList, createUser "robert".toList] "POST".toList "/users".toList ↔
      ∀ b ∈ observedBodies [createUser "ann".toList, createUser "robert".toList] "POST".toList
          "/users".toList,
        Covered (4096 : UInt64).toNat false (observedBodies
          [createUser "ann".toList, createUser "robert".toList] "POST".toList "/users".toList) b := by
  have hlog : ∀ r ∈ [createUser "ann".toList, createUser "robert".toList],
      ∃ name, r = createUser name := by
    intro r hr
    rcases List.mem_pair.mp hr with rfl | rfl
    · exact ⟨_, rfl⟩
    · exact ⟨_, rfl⟩
  refine learned_accepts_iff plainValues (fun rows => rows.length + 1) 4096 [] _ "POST".toList
    "/users".toList rfl (fun r hr _ hquery => ?_) fun r hr j hj => ?_
  · obtain ⟨name, rfl⟩ := hlog r hr
    cases hquery
  · obtain ⟨name, rfl⟩ := hlog r hr
    obtain rfl := Option.some.inj hj
    refine Json.Distinct.obj (List.nodup_singleton _) fun f hf => ?_
    rw [List.mem_singleton.mp hf]
    exact Json.Distinct.str name

/-- A name of one character and two bytes is longer than what was learned from it. -/
theorem accented_name_rejected :
    ¬ AcceptsObserved plainValues (fun rows => rows.length + 1) 4096 [] [createUser ['é']]
      "POST".toList "/users".toList := by
  intro h
  obtain ⟨row, hrow, hvalid⟩ := h (.obj [("name".toList, .str ['é'])]) List.mem_cons_self
  have hlearned : (learnFrom (fun rows => rows.length + 1) 4096 [] [createUser ['é']]).find?
      (LearnedRow.isFor "POST".toList "/users".toList) =
      some (LearnedRow.fresh 1 "POST".toList "/users".toList
        (inferSchema (.obj [("name".toList, .str ['é'])]))) := rfl
  obtain rfl := Option.some.inj (hlearned.symm.trans hrow)
  have hrejected : (validate plainValues (.obj [("name".toList, .str ['é'])])
      (inferSchema (.obj [("name".toList, .str ['é'])]))).valid = false := rfl
  exact absurd (hrejected.symm.trans hvalid) Bool.false_ne_true

end CorexManager.ApiArmor
