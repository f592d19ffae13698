import CorexManager.ApiArmor.BodyParser
import CorexManager.Rust.Serde
import CorexManager.Rust.Text

/-!
# The schema validator

The crate that validates a JSON body against a JSON Schema.  The checks of a value are a
function of the schema, made from the checks of the values it holds.
-/

namespace CorexManager.ApiArmor

open Data
open Rust (asU64)

/-! ### Messages -/

/-- What the crate uses of `serde_json` and of formatting: `<` of two numbers as `f64`,
equality of two values, and the `Debug` and `Display` texts. -/
structure Values where
  lessThan : Number → Number → Bool
  equal : Json → Json → Bool
  debugValue : Json → Text
  debugText : Text → Text
  displayF64 : Number → Text

/-- What is reported of a value. -/
inductive Failure where
  | type (expected : Json) (found : Text)
  | enum (allowed : Json)
  | minLength (length bound : Nat)
  | maxLength (length bound : Nat)
  | pattern (pattern : Text)
  | minimum (value bound : Number)
  | maximum (value bound : Number)
  | required (field : Text)
  | additional (field : Text)
  | minItems (length bound : Nat)
  | maxItems (length bound : Nat)

/-- A failure, and where. -/
structure Violation where
  path : Text
  failure : Failure

/-- `path_or_root`. -/
def pathOrRoot (path : Text) : Text := if path.isEmpty then "root".toList else path

/-- A comparison with a bound, in words. -/
def bounded (what value relation bound : Text) : Text := what ++ value ++ relation ++ bound

/-- The text of an error. -/
def Violation.message (V : Values) (v : Violation) : Text :=
  pathOrRoot v.path ++ ": ".toList ++
    match v.failure with
    | .type expected found =>
        "expected type ".toList ++ V.debugValue expected ++ ", got ".toList ++ found
    | .enum allowed => "value not in enum ".toList ++ V.debugValue allowed
    | .minLength n b => bounded "string length ".toList (natText n) " < minLength ".toList (natText b)
    | .maxLength n b => bounded "string length ".toList (natText n) " > maxLength ".toList (natText b)
    | .pattern p => "string does not match pattern ".toList ++ V.debugText p
    | .minimum n b =>
        bounded "value ".toList (V.displayF64 n) " < minimum ".toList (V.displayF64 b)
    | .maximum n b =>
        bounded "value ".toList (V.displayF64 n) " > maximum ".toList (V.displayF64 b)
    | .required f => "missing required field ".toList ++ V.debugText f
    | .additional f => "additional property ".toList ++ V.debugText f ++ " not allowed".toList
    | .minItems n b => bounded "array length ".toList (natText n) " < minItems ".toList (natText b)
    | .maxItems n b => bounded "array length ".toList (natText n) " > maxItems ".toList (natText b)

/-! ### Types -/

/-- `json_type_name`. -/
def jsonTypeName : Json → Text
  | .null => "null".toList
  | .bool _ => "boolean".toList
  | .num (.int _) => "integer".toList
  | .num (.float _) => "number".toList
  | .str _ => "string".toList
  | .arr _ => "array".toList
  | .obj _ => "object".toList

/-- `fract() == 0.0` of a finite `f64`, from its exponent and its significand. -/
def wholeBits (bits : UInt64) : Bool :=
  let exponent := bits.toNat / 2 ^ 52 % 2 ^ 11
  let fraction := bits.toNat % 2 ^ 52
  if exponent = 0 then fraction == 0
  else exponent < 2047 && (1075 ≤ exponent || (2 ^ 52 + fraction) % 2 ^ (1075 - exponent) == 0)

/-- Read as an integer: an `i64`, a `u64`, or a float without a fraction. -/
def isIntegerValue : Json → Bool
  | .num (.int n) => decide (-2 ^ 63 ≤ n ∧ n < 2 ^ 64)
  | .num (.float bits) => wholeBits bits
  | _ => false

/-- The type a name asks for. -/
def hasTypeName (value : Json) (name : Text) : Bool :=
  if name = "string".toList then value.asStr.isSome
  else if name = "number".toList then value matches .num _
  else if name = "integer".toList then isIntegerValue value
  else if name = "boolean".toList then value matches .bool _
  else if name = "object".toList then value.asObject.isSome
  else if name = "array".toList then value.asArray.isSome
  else if name = "null".toList then value matches .null
  else true

mutual

/-- `check_type`. -/
def checkType (value : Json) : Json → Bool
  | .str name => hasTypeName value name
  | .arr types => checkTypes value types
  | _ => true

/-- One of the types. -/
def checkTypes (value : Json) : List Json → Bool
  | [] => false
  | t :: types => checkType value t || checkTypes value types

end

/-- `match_pattern`; the slice of a lone `*`, on which the source panics, is the empty text. -/
def matchPattern (s pattern : Text) : Bool :=
  if pattern.head? = some '*' ∧ pattern.getLast? = some '*' then
    Rust.contains s (pattern.drop 1).dropLast
  else if pattern.head? = some '*' then (pattern.drop 1).isSuffixOf s
  else if pattern.getLast? = some '*' then pattern.dropLast.isPrefixOf s
  else s == pattern

/-! ### Constraints -/

variable (V : Values)

/-- A bound of a schema on a length. -/
def boundOf (schema : Json) (key : Text) : Option Nat := (schema.get key).bind asU64

/-- The violations of a lower and an upper bound. -/
def lengthViolations (path : Text) (length : Nat) (min max : Option Nat)
    (tooShort tooLong : Nat → Nat → Failure) : List Violation :=
  (match min with
    | some b => if length < b then [⟨path, tooShort length b⟩] else []
    | none => []) ++
  match max with
  | some b => if b < length then [⟨path, tooLong length b⟩] else []
  | none => []

/-- The constraint `enum`. -/
def enumViolations (value schema : Json) (path : Text) : List Violation :=
  match schema.get "enum".toList with
  | some (.arr allowed) => if allowed.any (V.equal value) then [] else [⟨path, .enum (.arr allowed)⟩]
  | _ => []

/-- The constraints on a string. -/
def stringViolations (value schema : Json) (path : Text) : List Violation :=
  match value with
  | .str s =>
      lengthViolations path (Rust.len s) (boundOf schema "minLength".toList)
        (boundOf schema "maxLength".toList) .minLength .maxLength ++
      match schema.get "pattern".toList with
      | some (.str pattern) => if matchPattern s pattern then [] else [⟨path, .pattern pattern⟩]
      | _ => []
  | _ => []

/-- The constraints on a number. -/
def numberViolations (value schema : Json) (path : Text) : List Violation :=
  match value with
  | .num n =>
      (match schema.get "minimum".toList with
        | some (.num b) => if V.lessThan n b then [⟨path, .minimum n b⟩] else []
        | _ => []) ++
      match schema.get "maximum".toList with
      | some (.num b) => if V.lessThan b n then [⟨path, .maximum n b⟩] else []
      | _ => []
  | _ => []

/-- The checks of a value, as a function of the schema and of the path. -/
abbrev Check := Json → Text → List Violation

/-- The path of a field. -/
def childPath (path key : Text) : Text := if path.isEmpty then key else path ++ '.' :: key

/-- The path of an item. -/
def itemPath (path : Text) (i : Nat) : Text := path ++ '[' :: natText i ++ [']']

/-- The fields that must be there. -/
def requiredViolations (checks : List (Text × Check)) (schema : Json) (path : Text) :
    List Violation :=
  match schema.get "required".toList with
  | some (.arr required) => required.filterMap fun
      | .str name => if (Dict.lookup checks name).isSome then none else some ⟨path, .required name⟩
      | _ => none
  | _ => []

/-- The fields that have a schema. -/
def propertyViolations (checks : List (Text × Check)) (properties : List (Text × Json))
    (path : Text) : List Violation :=
  properties.flatMap fun p =>
    match Dict.lookup checks p.1 with
    | some check => check p.2 (childPath path p.1)
    | none => []

/-- The fields that have none. -/
def additionalViolations (checks : List (Text × Check)) (properties : List (Text × Json))
    (additional : Option Json) (path : Text) : List Violation :=
  let others := checks.filter fun c => (Dict.lookup properties c.1).isNone
  match additional with
  | some (.bool false) => others.map fun c => ⟨path, .additional c.1⟩
  | some (.obj fields) => others.flatMap fun c => c.2 (.obj fields) (childPath path c.1)
  | _ => []

/-- The constraints on an object. -/
def objectViolations (checks : List (Text × Check)) : Check := fun schema path =>
  requiredViolations checks schema path ++
    match schema.get "properties".toList with
    | some (.obj properties) =>
        propertyViolations checks properties path ++
          additionalViolations checks properties (schema.get "additionalProperties".toList) path
    | _ => []

/-- The constraints on an array. -/
def arrayViolations (checks : List Check) : Check := fun schema path =>
  (match schema.get "items".toList with
    | some items => (checks.mapIdx fun i check => check items (itemPath path i)).flatten
    | none => []) ++
  lengthViolations path checks.length (boundOf schema "minItems".toList)
    (boundOf schema "maxItems".toList) .minItems .maxItems

/-- The constraints on a value that has the type of the schema. -/
def checkWith (value : Json) (parts : Check) : Check := fun schema path =>
  match schema with
  | .obj _ =>
      if (schema.get "type".toList).all (checkType value) then
        enumViolations V value schema path ++ stringViolations value schema path ++
          numberViolations V value schema path ++ parts schema path
      else [⟨path, .type ((schema.get "type".toList).getD .null) (jsonTypeName value)⟩]
  | _ => []

mutual

/-- `validate_value`. -/
def validateValue : Json → Check
  | .arr items => checkWith V (.arr items) (arrayViolations (itemChecks items))
  | .obj fields => checkWith V (.obj fields) (objectViolations (fieldChecks fields))
  | value => checkWith V value fun _ _ => []

/-- The checks of the items of an array. -/
def itemChecks : List Json → List Check
  | [] => []
  | item :: items => validateValue item :: itemChecks items

/-- The checks of the fields of an object. -/
def fieldChecks : List (Text × Json) → List (Text × Check)
  | [] => []
  | (key, value) :: fields => (key, validateValue value) :: fieldChecks fields

end

/-- `validate`. -/
def validate (value schema : Json) : ValidationResult :=
  let errors := (validateValue V value schema []).map (·.message V)
  ⟨errors.isEmpty, errors⟩

end CorexManager.ApiArmor
