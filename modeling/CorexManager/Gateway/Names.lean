import CorexManager.Data.Json
import CorexManager.Rust.Text

/-!
# Names of the virtual registry

What clients see of an upstream item: a tool or a prompt under its name with the namespace of
its server before it, a resource under a URI that wraps its own.
-/

namespace CorexManager.Gateway

open Data (Dict.set Json Text)

/-! ### Percent encoding -/

/-- A hexadecimal digit, in upper case. -/
def hexDigit (n : Nat) : Char := if n < 10 then Char.ofNat (48 + n) else Char.ofNat (55 + n)

/-- The value of a hexadecimal digit. -/
def hexValue (c : Char) : Option Nat :=
  if '0' ≤ c ∧ c ≤ '9' then some (c.toNat - 48)
  else if 'A' ≤ c ∧ c ≤ 'F' then some (c.toNat - 55)
  else if 'a' ≤ c ∧ c ≤ 'f' then some (c.toNat - 87)
  else none

/-- The characters that are not encoded. -/
def unreserved (c : Char) : Bool :=
  c.isAlphanum || c == '-' || c == '_' || c == '.' || c == '~'

/-- `urlencoding::encode`, byte by byte of the UTF-8. -/
def urlEncode (s : Text) : Text :=
  s.flatMap fun c =>
    if unreserved c then [c]
    else (String.utf8EncodeChar c).flatMap fun byte =>
      ['%', hexDigit (byte.toNat / 16), hexDigit (byte.toNat % 16)]

/-- `u8::from_str_radix` of two characters; a sign may stand before a digit. -/
def hexByte (h₁ h₂ : Char) : Option Nat :=
  if h₁ = '+' then hexValue h₂
  else do
    let a ← hexValue h₁
    let b ← hexValue h₂
    some (a * 16 + b)

/-- `urlencoding::decode`: every byte becomes the character of its number.  A percent sign
that introduces no byte swallows the two characters after it. -/
def urlDecode : Text → Text
  | '%' :: h₁ :: h₂ :: t =>
      match hexByte h₁ h₂ with
      | some n => Char.ofNat n :: urlDecode t
      | none => '%' :: urlDecode t
  | '%' :: _ => ['%']
  | c :: t => c :: urlDecode t
  | [] => []

/-! ### Prefixes -/

/-- `prefix_name`. -/
def prefixName (ns name : Text) : Text := ns ++ "__".toList ++ name

/-- `wrap_resource_uri`. -/
def wrapResourceUri (ns uri : Text) : Text := "mcp://".toList ++ ns ++ '/' :: urlEncode uri

/-- `unwrap_resource_uri`. -/
def unwrapResourceUri (wrapped : Text) : Option Text × Text :=
  if "mcp://".toList.isPrefixOf wrapped then
    match Rust.splitOnce '/' (wrapped.drop 6) with
    | some (ns, uri) => (some ns, urlDecode uri)
    | none => (none, wrapped)
  else (none, wrapped)

theorem wrapResourceUri_eq (ns uri : Text) :
    wrapResourceUri ns uri = "mcp://".toList ++ (ns ++ '/' :: urlEncode uri) := by
  show "mcp://".toList ++ ns ++ '/' :: urlEncode uri = _
  exact List.append_assoc ..

/-- A wrapped URI is taken apart at the first slash of the rest. -/
theorem unwrapResourceUri_eq {rest ns uri : Text} (h : Rust.splitOnce '/' rest = some (ns, uri)) :
    unwrapResourceUri ("mcp://".toList ++ rest) = (some ns, urlDecode uri) := by
  have hdrop : ("mcp://".toList ++ rest).drop 6 = rest := rfl
  rw [unwrapResourceUri, if_pos (by simp), hdrop, h]

/-- A field of an object, set; a value that is no object is left alone. -/
def setField (key : Text) (v : Json) : Json → Json
  | .obj fields => .obj (Dict.set fields key v)
  | j => j

/-- An item with a text replaced and what it was noted under `_meta`, if the text is there. -/
def renamed (key metaKey : Text) (rename : Text → Text) (ns : Text) (item : Json) : Json :=
  match (item.get key).bind Json.asStr with
  | some old =>
      let metadata := ((item.get "_meta".toList).bind Json.asObject).getD []
      setField "_meta".toList
        (.obj (Dict.set (Dict.set metadata "mcp_server".toList (.str ns)) metaKey (.str old)))
        (setField key (.str (rename old)) item)
  | none => item

/-- `prefix_list_items`. -/
def prefixListItems (items : List Json) (ns : Text) : List Json :=
  items.map (renamed "name".toList "mcp_original_name".toList (prefixName ns) ns)

/-- The resources of a list, with their URIs wrapped. -/
def wrapListItems (items : List Json) (ns : Text) : List Json :=
  items.map (renamed "uri".toList "mcp_original_uri".toList (wrapResourceUri ns) ns)

end CorexManager.Gateway
