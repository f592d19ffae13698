import CorexManager.Gateway.Routing
import CorexManager.Python.Quote

/-!
# URIs of resources

A URI is wrapped in the same way by both gateways.  The one in Python takes it back; the one in
Rust makes a character of every byte.

`unwrap_wrap_iff` — both take back the URIs of ASCII characters.
-/

namespace CorexManager.Gateway

open Data (Text)

/-- `_wrap_resource_uri`. -/
def wrapResourceUriPython (ns uri : Text) : Text := "mcp://".toList ++ ns ++ '/' :: Python.quote uri

/-- `_unwrap_resource_uri`. -/
def unwrapResourceUriPython (wrapped : Text) : Option Text × Text :=
  if "mcp://".toList.isPrefixOf wrapped then
    match Rust.splitOnce '/' (wrapped.drop 6) with
    | some (ns, uri) => (some ns, Python.unquote uri)
    | none => (none, wrapped)
  else (none, wrapped)

/-- The two ways of quoting are one. -/
theorem quoter_eq (byte : UInt8) : Python.quoter byte = encodeByte byte := by
  have hall : ∀ n : Fin 16, Python.hexUpper n.val = hexDigit n.val := by decide
  have hdigit : ∀ n, n < 16 → Python.hexUpper n = hexDigit n := fun n hn => hall ⟨n, hn⟩
  have hlt := byte.toNat_lt
  have hsafe : Python.alwaysSafe (Char.ofNat byte.toNat) = unreserved (Char.ofNat byte.toNat) := by
    simp only [Python.alwaysSafe, unreserved, Bool.or_assoc]
    rw [Bool.or_left_comm (Char.ofNat byte.toNat == '.'), Bool.or_left_comm (Char.ofNat byte.toNat == '_')]
  rw [Python.quoter, encodeByte, hsafe, hdigit (byte.toNat / 16) (by omega),
    hdigit (byte.toNat % 16) (by omega)]

theorem quote_eq (uri : Text) : Python.quote uri = urlEncode uri := by
  rw [urlEncode_eq, Python.quote, funext quoter_eq]
  rfl

theorem wrapResourceUriPython_eq (ns uri : Text) :
    wrapResourceUriPython ns uri = wrapResourceUri ns uri := by
  show "mcp://".toList ++ ns ++ '/' :: Python.quote uri = _
  rw [quote_eq]
  rfl

section Unwrap

variable {ns : Text} (uri : Text)

theorem splitOnce_wrapped (hns : '/' ∉ ns) :
    "mcp://".toList.isPrefixOf (wrapResourceUri ns uri) = true ∧
      Rust.splitOnce '/' ((wrapResourceUri ns uri).drop 6) = some (ns, urlEncode uri) := by
  rw [wrapResourceUri_eq]
  exact ⟨by simp, Rust.splitOnce_append (urlEncode uri) hns⟩

/-- The gateway in Rust makes a character of every byte. -/
theorem unwrapResourceUri_wrap (hns : '/' ∉ ns) :
    unwrapResourceUri (wrapResourceUri ns uri) =
      (some ns, (Python.encodeUtf8 uri).map fun byte => Char.ofNat byte.toNat) := by
  obtain ⟨hscheme, hsplit⟩ := splitOnce_wrapped uri hns
  rw [unwrapResourceUri, if_pos hscheme, hsplit]
  dsimp only
  rw [urlEncode_eq, urlDecode_encode]
  rfl

/-- The gateway in Python takes the URI back. -/
theorem unwrapResourceUriPython_wrap (hns : '/' ∉ ns) :
    unwrapResourceUriPython (wrapResourceUri ns uri) = (some ns, uri) := by
  obtain ⟨hscheme, hsplit⟩ := splitOnce_wrapped uri hns
  rw [unwrapResourceUriPython, if_pos hscheme, hsplit]
  dsimp only
  rw [← quote_eq, Python.unquote_quote]

end Unwrap

/-- No character is of less than one byte, and those of one are ASCII. -/
theorem length_encodeUtf8 (uri : Text) :
    uri.length ≤ (Python.encodeUtf8 uri).length ∧
      ((Python.encodeUtf8 uri).length = uri.length → ∀ c ∈ uri, c.toNat < 128) := by
  induction uri with
  | nil => exact ⟨Nat.zero_le _, fun _ => nofun⟩
  | cons c uri ih =>
      have hpos := Char.utf8Size_pos c
      have hlength : (Python.encodeUtf8 (c :: uri)).length =
          c.utf8Size + (Python.encodeUtf8 uri).length := by
        rw [Python.encodeUtf8, List.flatMap_cons, List.length_append, String.length_utf8EncodeChar]
        rfl
      rw [hlength, List.length_cons]
      refine ⟨by omega, fun heq => List.forall_mem_cons.mpr ⟨?_, ih.2 (by omega)⟩⟩
      have hone : c.utf8Size = 1 := by omega
      have hle := UInt32.le_iff_toNat_le.mp (Char.utf8Size_eq_one_iff.mp hone)
      exact Nat.lt_succ_of_le hle

/-- A text is that of its bytes when every character is of one byte. -/
theorem map_encodeUtf8_iff (uri : Text) :
    (Python.encodeUtf8 uri).map (fun byte => Char.ofNat byte.toNat) = uri ↔
      ∀ c ∈ uri, c.toNat < 128 := by
  constructor
  · intro h
    have hlength := congrArg List.length h
    rw [List.length_map] at hlength
    exact (length_encodeUtf8 uri).2 hlength
  · intro h
    induction uri with
    | nil => rfl
    | cons c uri ih =>
        have hc := h c List.mem_cons_self
        have hbyte : Char.ofNat (UInt8.ofNat c.toNat).toNat = c := by
          rw [UInt8.toNat_ofNat', Nat.mod_eq_of_lt (by omega), Char.ofNat_toNat]
        have hrest := ih fun d hd => h d (List.mem_cons_of_mem c hd)
        rw [Python.encodeUtf8] at hrest
        rw [Python.encodeUtf8, List.flatMap_cons, Rust.utf8EncodeChar_ascii hc, List.singleton_append,
          List.map_cons, hbyte, hrest]

/-- Each gateway takes back what it wrapped, and what the other wrapped to the same. -/
structure TakesBack (ns uri : Text) : Prop where
  rust : unwrapResourceUri (wrapResourceUri ns uri) = (some ns, uri)
  python : unwrapResourceUriPython (wrapResourceUriPython ns uri) = (some ns, uri)
  rustOfPython : unwrapResourceUri (wrapResourceUriPython ns uri) =
    unwrapResourceUriPython (wrapResourceUriPython ns uri)
  pythonOfRust : unwrapResourceUriPython (wrapResourceUri ns uri) =
    unwrapResourceUri (wrapResourceUri ns uri)

/-- **A URI is taken back by both gateways** when its characters are ASCII, and only then. -/
theorem takesBack_iff {ns : Text} (hns : '/' ∉ ns) (uri : Text) :
    TakesBack ns uri ↔ ∀ c ∈ uri, c.toNat < 128 := by
  have hrust := unwrapResourceUri_wrap uri hns
  have hpython := unwrapResourceUriPython_wrap uri hns
  rw [← map_encodeUtf8_iff]
  constructor
  · intro h
    exact (Prod.mk.inj (hrust.symm.trans h.rust)).2
  · intro h
    rw [h] at hrust
    have hsame : wrapResourceUriPython ns uri = wrapResourceUri ns uri := wrapResourceUriPython_eq ns uri
    exact ⟨hrust, by rw [hsame, hpython], by rw [hsame, hrust, hpython], by rw [hrust, hpython]⟩

/-- A URI with an escape and a slash is taken back. -/
theorem takesBack_escaped : TakesBack "jira".toList "file:///a%20b".toList :=
  (takesBack_iff (by decide) _).mpr (by decide)

/-- **A letter with an accent is not**: the gateway in Rust makes two characters of it. -/
theorem accent_lost :
    unwrapResourceUri (wrapResourceUri "jira".toList ['é']) = (some "jira".toList, ['Ã', '©']) ∧
      unwrapResourceUriPython (wrapResourceUri "jira".toList ['é']) = (some "jira".toList, ['é']) ∧
      ¬ TakesBack "jira".toList ['é'] := by
  have hrust := unwrapResourceUri_wrap ['é'] (show '/' ∉ "jira".toList by decide)
  refine ⟨hrust.trans rfl, unwrapResourceUriPython_wrap ['é'] (by decide), fun h => ?_⟩
  exact absurd (Prod.mk.inj (hrust.symm.trans h.rust)).2 (by decide)

end CorexManager.Gateway
