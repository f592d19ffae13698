import CorexManager.Data.Dict
import CorexManager.Data.Text

/-!
# JSON values

JSON documents as the reader of a request body holds them, with the accessors a
program looks into them with.  Equality is decidable by recursion on the values.
-/

namespace Data

/-- A JSON number: an integer, or a binary floating-point number by its bits. -/
inductive Number where
  | int (n : Int)
  | float (bits : UInt64)
  deriving DecidableEq, Repr

/-- A JSON value; the fields of an object are in the order of its keys. -/
inductive Json where
  | null
  | bool (b : Bool)
  | num (n : Number)
  | str (t : Text)
  | arr (items : List Json)
  | obj (fields : List (Text × Json))

namespace Json

/-! ### Accessors -/

/-- The fields of an object. -/
def asObject : Json → Option (List (Text × Json))
  | obj fields => some fields
  | _ => none

/-- The text of a string. -/
def asStr : Json → Option Text
  | str t => some t
  | _ => none

/-- The items of an array. -/
def asArray : Json → Option (List Json)
  | arr items => some items
  | _ => none

/-- The field of an object. -/
def get (key : Text) : Json → Option Json
  | obj fields => (fields.find? fun f => f.1 == key).map Prod.snd
  | _ => none

theorem get_obj (key : Text) (fields : List (Text × Json)) :
    (obj fields).get key = Dict.lookup fields key := by
  have htest : (fun f : Text × Json => f.1 == key) = fun f => decide (f.1 = key) := by
    funext f
    exact Bool.eq_iff_iff.mpr (by rw [beq_iff_eq, decide_eq_true_iff])
  show (fields.find? fun f => f.1 == key).map Prod.snd = _
  rw [htest]
  rfl

/-- A field of an object without duplicate keys. -/
theorem get_of_mem {fields : List (Text × Json)} {key : Text} {value : Json}
    (hkeys : (fields.map Prod.fst).Nodup) (h : (key, value) ∈ fields) :
    (obj fields).get key = some value := by
  rw [get_obj]
  exact Dict.lookup_of_mem hkeys h

/-! ### Recursion on the parts of a value -/

/-- Induction over a value and the values it holds. -/
@[elab_as_elim]
theorem partsInduction {P : Json → Prop} (null : P null) (bool : ∀ b, P (bool b))
    (num : ∀ n, P (num n)) (str : ∀ t, P (str t)) (arr : ∀ items, (∀ j ∈ items, P j) → P (arr items))
    (obj : ∀ fields, (∀ f ∈ fields, P f.2) → P (obj fields)) (j : Json) : P j :=
  @Json.rec P (fun items => ∀ j ∈ items, P j) (fun fields => ∀ f ∈ fields, P f.2) (fun f => P f.2)
    null bool num str arr obj
    (fun _ h => absurd h List.not_mem_nil)
    (fun _ _ hhead htail => List.forall_mem_cons.mpr ⟨hhead, htail⟩)
    (fun _ h => absurd h List.not_mem_nil)
    (fun _ _ hhead htail => List.forall_mem_cons.mpr ⟨hhead, htail⟩)
    (fun _ _ hvalue => hvalue) j

/-! ### Documents without floating point -/

/-- All numbers of a value are integers. -/
inductive Integral : Json → Prop
  | null : Integral null
  | bool (b : Bool) : Integral (bool b)
  | int (n : Int) : Integral (num (.int n))
  | str (t : Text) : Integral (str t)
  | arr {items : List Json} (h : ∀ j ∈ items, Integral j) : Integral (arr items)
  | obj {fields : List (Text × Json)} (h : ∀ f ∈ fields, Integral f.2) : Integral (obj fields)

/-- No object in a value has a key twice. -/
inductive Distinct : Json → Prop
  | null : Distinct null
  | bool (b : Bool) : Distinct (bool b)
  | num (n : Number) : Distinct (num n)
  | str (t : Text) : Distinct (str t)
  | arr {items : List Json} (h : ∀ j ∈ items, Distinct j) : Distinct (arr items)
  | obj {fields : List (Text × Json)} (hkeys : Dict.Distinct fields)
      (h : ∀ f ∈ fields, Distinct f.2) : Distinct (obj fields)

/-! ### Equality -/

mutual

/-- Compare two values. -/
def beq : Json → Json → Bool
  | null, null => true
  | bool a, bool b => a == b
  | num a, num b => a == b
  | str a, str b => a == b
  | arr a, arr b => beqItems a b
  | obj a, obj b => beqFields a b
  | _, _ => false

/-- Compare two lists of values. -/
def beqItems : List Json → List Json → Bool
  | [], [] => true
  | a :: as, b :: bs => beq a b && beqItems as bs
  | _, _ => false

/-- Compare two lists of fields. -/
def beqFields : List (Text × Json) → List (Text × Json) → Bool
  | [], [] => true
  | (k, a) :: as, (l, b) :: bs => k == l && (beq a b && beqFields as bs)
  | _, _ => false

end

mutual

theorem beq_iff : ∀ a b : Json, a.beq b = true ↔ a = b
  | null, b => by cases b <;> simp [beq]
  | bool a, b => by cases b <;> simp [beq]
  | num a, b => by cases b <;> simp [beq]
  | str a, b => by cases b <;> simp [beq]
  | arr a, b => by
      cases b with
      | arr b => simpa only [beq, arr.injEq] using beqItems_iff a b
      | _ => simp [beq]
  | obj a, b => by
      cases b with
      | obj b => simpa only [beq, obj.injEq] using beqFields_iff a b
      | _ => simp [beq]

theorem beqItems_iff : ∀ a b : List Json, beqItems a b = true ↔ a = b
  | [], b => by cases b <;> simp [beqItems]
  | a :: as, b => by
      cases b with
      | nil => simp [beqItems]
      | cons b bs =>
          rw [beqItems, Bool.and_eq_true, beq_iff a b, beqItems_iff as bs, List.cons.injEq]

theorem beqFields_iff : ∀ a b : List (Text × Json), beqFields a b = true ↔ a = b
  | [], b => by cases b <;> simp [beqFields]
  | (k, a) :: as, b => by
      cases b with
      | nil => simp [beqFields]
      | cons b bs =>
          obtain ⟨l, b⟩ := b
          rw [beqFields, Bool.and_eq_true, Bool.and_eq_true, beq_iff a b, beqFields_iff as bs,
            beq_iff_eq, List.cons.injEq, Prod.mk.injEq, and_assoc]

end

instance : DecidableEq Json := fun a b => decidable_of_iff (a.beq b = true) (beq_iff a b)

end Json

/-! ### Texts -/

/-- A printer of documents, and a reader of their syntax. -/
structure JsonText where
  dumps : Json → Text
  parse : Text → Option Json

/-- A document without floating point reads back, and none reads as another. -/
structure JsonText.ReadsBack (J : JsonText) (j : Json) : Prop where
  integral : j.Integral → J.parse (J.dumps j) = some j
  only : ∀ j', J.parse (J.dumps j) = some j' → j' = j

/-- A printer and a reader of some documents with their texts. -/
def printer (docs : List (Json × Text)) : JsonText where
  dumps j := ((docs.find? fun d => d.1 == j).map Prod.snd).getD []
  parse t := (docs.find? fun d => d.2 == t).map Prod.fst

theorem printer_readsBack {docs : List (Json × Text)} (hdocs : (docs.map Prod.fst).Nodup)
    (htexts : (docs.map Prod.snd).Nodup) {d : Json × Text} (hd : d ∈ docs) :
    (printer docs).ReadsBack d.1 := by
  have hfind : docs.find? (fun e => e.1 == d.1) = some d := by
    cases hfound : docs.find? fun e => e.1 == d.1 with
    | none => exact absurd (beq_iff_eq.mpr rfl) (List.find?_eq_none.mp hfound d hd)
    | some e =>
        have heq : (e.1 == d.1) = true :=
          List.find?_some (p := fun e : Json × Text => e.1 == d.1) hfound
        rw [List.inj_on_of_nodup_map hdocs (List.mem_of_find?_eq_some hfound) hd
          (beq_iff_eq.mp heq)]
  have hback : docs.find? (fun e => e.2 == d.2) = some d := by
    cases hfound : docs.find? fun e => e.2 == d.2 with
    | none => exact absurd (beq_iff_eq.mpr rfl) (List.find?_eq_none.mp hfound d hd)
    | some e =>
        have heq : (e.2 == d.2) = true :=
          List.find?_some (p := fun e : Json × Text => e.2 == d.2) hfound
        rw [List.inj_on_of_nodup_map htexts (List.mem_of_find?_eq_some hfound) hd
          (beq_iff_eq.mp heq)]
  have hparse : (printer docs).parse ((printer docs).dumps d.1) = some d.1 := by
    show (docs.find? fun e => e.2 == ((docs.find? fun e => e.1 == d.1).map Prod.snd).getD []).map
      Prod.fst = some d.1
    rw [hfind]
    show (docs.find? fun e => e.2 == d.2).map Prod.fst = some d.1
    rw [hback]
    rfl
  refine ⟨fun _ => hparse, fun j' hj' => ?_⟩
  rw [hparse] at hj'
  exact (Option.some.inj hj').symm

end Data
