import CorexManager.ApiArmor.Authentication

/-!
# The schema gate

When `parse_body_lua` calls a body valid for the schema of its endpoint.

* `parseBodyLua_schemaValid` — the variable the rules test, after the whole action.
* `FailsClosed` — a body called valid parses and satisfies the schema.
* `failsClosed_iff` — the gate fails closed on a request exactly when the schema of
  the endpoint and the body can be read, and the content type takes the JSON branch of
  the parser or the body satisfies the schema unasked.
* `mixedCase_passes` — a content type in another letter case passes any body.
-/

namespace CorexManager.ApiArmor

open Data
open HAProxy

/-- The variable the rules test. -/
def schemaValidVar : Text := varName "api_schema_valid".toList

/-! ### Requests that declare JSON -/

/-- The media type of a content type, in lower case and without parameters. -/
def mediaType (contentType : Text) : Text :=
  (Rust.trim (contentType.takeWhile (· != ';'))).map Char.toLower

/-- The request declares the JSON content type. -/
def DeclaresJson (t : Txn) : Prop :=
  (t.fhdr "content-type".toList).head?.map mediaType = some "application/json".toList

instance (t : Txn) : Decidable (DeclaresJson t) := inferInstanceAs (Decidable (_ = _))

/-! ### The variable survives the rest of the action -/

theorem schemaValidVar_eq : schemaValidVar = "txn.".toList ++ "api_schema_valid".toList := by
  unfold schemaValidVar
  rw [toList_of_eq (s := "api_schema_valid") rfl]
  exact varName_prefixed (by decide)

namespace Host

variable (H : Host)

/-- The credentials leave the schema's verdict alone. -/
private theorem validateAndSetAuth_other (t : Txn) :
    ∀ a ∈ H.validateAndSetAuth t, varName a.1 ≠ schemaValidVar := by
  intro a ha heq
  have hprefix := H.validateAndSetAuth_vars t a ha
  rw [heq] at hprefix
  exact absurd hprefix (by decide)

/-- **What the rules see**: the outcome of the validation of the body. -/
theorem parseBodyLua_schemaValid (t : Txn) :
    (H.parseBodyLua t).vars schemaValidVar = some (.bool (H.validateBody
      (if H.method t ≠ [] ∧ H.path t ≠ [] then
        (H.findSchemaJson (H.method t) (H.path t)).getD [] else [])
      (ParsedBody.parse H ((H.body t).getD []) (H.contentType t))).valid) := by
  unfold parseBodyLua
  dsimp only
  -- the two steps after the schema's assign other variables
  have hprofile : schemaValidVar ≠ varName "api.profile_anomaly".toList := by
    rw [toList_of_eq (s := "api.profile_anomaly") rfl, varName_prefixed (by decide),
      schemaValidVar_eq, toList_of_eq (s := "api_schema_valid") rfl]
    intro h
    have htail := List.append_cancel_left h
    simp only [List.cons.injEq] at htail
    exact absurd htail.2.2.2.1 (by decide)
  refine (Txn.setVar_vars_other _ _ hprofile).trans ?_
  refine (tsetAll_vars_other (H.validateAndSetAuth_other _) _).trans ?_
  have herrors : varName "api_schema_errors".toList ≠ schemaValidVar := by
    rw [toList_of_eq (s := "api_schema_errors") rfl, varName_prefixed (by decide),
      schemaValidVar_eq, toList_of_eq (s := "api_schema_valid") rfl]
    intro h
    have htail := List.append_cancel_left h
    simp only [List.cons.injEq] at htail
    exact absurd htail.2.2.2.2.2.2.2.2.2.2.2.1 (by decide)
  unfold schemaVars
  refine tsetAll_vars_last [_] ?_ _
  intro b hb
  rw [List.mem_singleton.mp hb]
  exact herrors

/-! ### Failing closed -/

/-- The body parses, and its value satisfies the schema in the file of the entry. -/
def Satisfied (t : Txn) (e : SchemaEntry) : Prop :=
  ∃ schemaText schema text json, H.readSchemaFile e.file = some schemaText ∧
    H.parseJson schemaText = some schema ∧ H.body t = some text ∧
    H.parseJson text = some json ∧ (H.validateSchema json schema).valid = true

/-- **Failing closed**: the action says valid only of a body that is. -/
def FailsClosed (t : Txn) (e : SchemaEntry) : Prop :=
  (H.parseBodyLua t).vars schemaValidVar = some (.bool true) → H.Satisfied t e

/-- The schema and the body can be read, and the content type makes the parser read
the body; failing the last, the body happens to satisfy the schema. -/
def Judged (t : Txn) (e : SchemaEntry) : Prop :=
  ∃ schemaText schema text json, H.readSchemaFile e.file = some schemaText ∧
    H.parseJson schemaText = some schema ∧ H.body t = some text ∧
    H.parseJson text = some json ∧
    ((H.method t ≠ [] ∧ H.path t ≠ [] ∧ bodyKind (H.contentType t) = .json) ∨
      (H.validateSchema json schema).valid = true)

/-- A text that is read as JSON is not empty. -/
private theorem parseJson_ne_nil {text : Text} {json : Json} (h : H.parseJson text = some json) :
    text ≠ [] := by
  rintro rfl
  rw [H.parseJson_nil] at h
  cases h

/-- The verdict on a body that is judged is that of the validator. -/
private theorem validateBody_judged {schemaText text contentType : Text} {schema json : Json}
    (hschema : H.parseJson schemaText = some schema) (hjson : H.parseJson text = some json)
    (hkind : bodyKind contentType = .json) :
    H.validateBody schemaText (ParsedBody.parse H text contentType)
      = H.validateSchema json schema := by
  have hparsed : (ParsedBody.parse H text contentType).json = some json := by
    unfold ParsedBody.parse
    dsimp only
    rw [if_pos hkind, hjson]
  unfold validateBody schemaResult
  rw [hparsed]
  dsimp only
  rw [if_neg (H.parseJson_ne_nil hschema), hschema]

/-- Only a body that is judged can be called invalid. -/
private theorem judged_of_invalid {schemaText contentType : Text} {text? : Option Text}
    (h : (H.validateBody schemaText
      (ParsedBody.parse H (text?.getD []) contentType)).valid = false) :
    bodyKind contentType = .json ∧ schemaText ≠ [] ∧ ∃ schema text json,
      H.parseJson schemaText = some schema ∧ text? = some text ∧
        H.parseJson text = some json := by
  unfold validateBody at h
  split at h
  · next json hjson =>
    split at h
    · cases h
    · next hne =>
      unfold ParsedBody.parse at hjson
      dsimp only at hjson
      split at hjson
      · next hkind =>
        unfold schemaResult at h
        split at h
        · next schema hschema =>
          refine ⟨hkind, hne, schema, ?_⟩
          cases text? with
          | none => exact absurd rfl (H.parseJson_ne_nil hjson)
          | some text => exact ⟨text, json, hschema, rfl, hjson⟩
        · cases h
      · cases hjson
  · cases h

/-- **When the gate fails closed**, for a request to an endpoint with a schema. -/
theorem failsClosed_iff (t : Txn) (e : SchemaEntry)
    (hentry : H.findEntry (H.method t) (H.path t) = some e) :
    H.FailsClosed t e ↔ H.Judged t e := by
  have hfind : H.findSchemaJson (H.method t) (H.path t) = H.readSchemaFile e.file := by
    rw [findSchemaJson, hentry]
    rfl
  unfold FailsClosed
  rw [H.parseBodyLua_schemaValid t, hfind, Option.some.injEq, Sample.bool.injEq]
  constructor
  · intro hclosed
    by_cases hvalid : (H.validateBody (if H.method t ≠ [] ∧ H.path t ≠ [] then
        (H.readSchemaFile e.file).getD [] else [])
        (ParsedBody.parse H ((H.body t).getD []) (H.contentType t))).valid = true
    · -- called valid, so it is
      obtain ⟨schemaText, schema, text, json, hread, hschema, hbody, hjson, hok⟩ :=
        hclosed hvalid
      exact ⟨schemaText, schema, text, json, hread, hschema, hbody, hjson, .inr hok⟩
    · obtain ⟨hkind, hne, schema, text, json, hschema, hbody, hjson⟩ :=
        H.judged_of_invalid (Bool.eq_false_of_not_eq_true hvalid)
      by_cases hpath : H.method t ≠ [] ∧ H.path t ≠ []
      · rw [if_pos hpath] at hschema hne
        cases hread : H.readSchemaFile e.file with
        | none =>
            rw [hread] at hne
            exact absurd rfl hne
        | some schemaText =>
            rw [hread] at hschema
            exact ⟨schemaText, schema, text, json, hread, hschema, hbody, hjson,
              .inl ⟨hpath.1, hpath.2, hkind⟩⟩
      · rw [if_neg hpath] at hne
        exact absurd rfl hne
  · rintro ⟨schemaText, schema, text, json, hread, hschema, hbody, hjson, hjudge⟩ hvalid
    refine ⟨schemaText, schema, text, json, hread, hschema, hbody, hjson, ?_⟩
    rcases hjudge with ⟨hmethod, hpath, hkind⟩ | hok
    · rw [if_pos ⟨hmethod, hpath⟩, hread, hbody] at hvalid
      rwa [Option.getD_some, Option.getD_some,
        H.validateBody_judged hschema hjson hkind] at hvalid
    · exact hok

end Host

/-! ### A content type in another letter case -/

/-- The schema of orders: an order has an `id`. -/
def orderSchema : Json := .obj [("required".toList, .arr [.str "id".toList])]

def orderSchemaText : Text := "\x7b\"required\": [\"id\"]\x7d".toList

/-- The fields a schema requires that an object lacks. -/
def missingFields (json schema : Json) : List Text :=
  match schema.get "required".toList, json.asObject with
  | some (.arr names), some fields =>
      (names.filterMap Json.asStr).filter fun name => !(fields.map Prod.fst).contains name
  | _, _ => []

/-- `POST /orders` is an endpoint with a schema. -/
def ordersEntry : SchemaEntry :=
  ⟨1, "orders".toList, "POST".toList, "/orders".toList, "schemas/POST_orders.json".toList⟩

/-- An installation with that schema, on the texts used here. -/
def ordersHost : Host where
  utf8 t := if t.all fun c => c.toNat < 128 then some t else none
  parseJson t :=
    if t = ['{', '}'] then some (.obj [])
    else if t = orderSchemaText then some orderSchema
    else none
  parseJson_nil := by
    rw [if_neg (by decide), if_neg (by decide)]
  printJson _ := []
  debug _ := []
  readFile path :=
    if path = "/app/data/api-armor/schemas/POST_orders.json".toList then some orderSchemaText
    else none
  envVar _ := none
  analyze _ := ⟨[], 0, 0, 0, 0, 0, [], true, []⟩
  validateSchema json schema :=
    let missing := missingFields json schema
    ⟨missing.isEmpty, missing.map ("root: missing required field ".toList ++ ·)⟩
  validateJwt _ _ := ⟨false, .null, "invalid token format".toList⟩
  data := ⟨[ordersEntry], fun _ => none, [], fun _ => none⟩

/-- An order without an `id`, under a content type. -/
def emptyOrder (contentType : Text) : Txn where
  headers := [("Content-Type".toList, contentType)]
  src := "192.0.2.1".toList
  vars n := if n = "txn.api_body".toList then some (.str ['{', '}']) else none
  logLevel := none
  convert _ _ := []
  other fetch :=
    if fetch = "method".toList then [.str "POST".toList]
    else if fetch = "path".toList then [.str "/orders".toList]
    else []

/-- The order is judged under `application/json`. -/
theorem failsClosed_iff_order :
    ordersHost.FailsClosed (emptyOrder "application/json".toList) ordersEntry ↔
      ordersHost.Judged (emptyOrder "application/json".toList) ordersEntry :=
  ordersHost.failsClosed_iff _ _ (by decide +kernel)

/-- **A mixed-case content type passes any body.** -/
theorem mixedCase_passes :
    ordersHost.findEntry (ordersHost.method (emptyOrder "Application/JSON".toList))
        (ordersHost.path (emptyOrder "Application/JSON".toList)) = some ordersEntry ∧
      DeclaresJson (emptyOrder "Application/JSON".toList) ∧
      ¬ ordersHost.FailsClosed (emptyOrder "Application/JSON".toList) ordersEntry := by
  refine ⟨by decide +kernel, by decide +kernel, fun hclosed => ?_⟩
  have hvalid : (ordersHost.parseBodyLua (emptyOrder "Application/JSON".toList)).vars
      schemaValidVar = some (.bool true) := by
    rw [ordersHost.parseBodyLua_schemaValid]
    decide +kernel
  obtain ⟨schemaText, schema, text, json, hread, hschema, hbody, hjson, hok⟩ := hclosed hvalid
  have hfile : ordersHost.readSchemaFile ordersEntry.file = some orderSchemaText := by
    decide +kernel
  have htext : ordersHost.body (emptyOrder "Application/JSON".toList) = some ['{', '}'] := by
    decide +kernel
  cases hfile.symm.trans hread
  cases htext.symm.trans hbody
  have hparsed : ordersHost.parseJson orderSchemaText = some orderSchema := by decide +kernel
  cases hparsed.symm.trans hschema
  have hobject : ordersHost.parseJson ['{', '}'] = some (.obj []) := by decide
  cases hobject.symm.trans hjson
  have hmissing : (ordersHost.validateSchema (.obj []) orderSchema).valid = false := by
    decide +kernel
  exact absurd (hmissing.symm.trans hok) Bool.false_ne_true

end CorexManager.ApiArmor
