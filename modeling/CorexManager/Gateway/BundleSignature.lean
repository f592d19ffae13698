import CorexManager.Gateway.ConfigLoad

/-!
# Signing the bundle and verifying it

`write_config_bundle` of `services/mcp_config.py` signs the bundle it builds and writes it;
`ConfigStore` of `core/config.rs` verifies the signature.  Each side spells the document its
own way and derives its own key.

* `ConfigSections` — what `build_config_bundle` puts into the bundle.
* `signedPayload`, `writeConfigBundle` — the backend.
* `signed_ne_verified` — the bytes that are signed are never those that are verified, and a
  bundle is accepted only if their MACs, under two keys, are equal by chance.
-/

namespace CorexManager.Gateway

open Data (Json Text)
open Priority (sortByKey)

/-! ### The backend -/

/-- What `build_config_bundle` reads from the database and the settings. -/
structure ConfigSections where
  servers : List Json
  identities : List Json
  teams : List Json
  policies : List Json
  dlpRules : List Json
  guardrails : List Json
  skills : List Json
  jwtIssuer : Text
  jwtAudience : Text
  jwtJwksUrl : Text
  allowedOrigins : List Text
  logPayloads : Bool
  defaultRpm : Int
  perIpLimit : Int
  concurrentLimit : Int
  catalogRefreshSeconds : Int
  teamRpmOverrides : List (Text × Int)

/-- `build_config_bundle`. -/
def buildConfigBundle (s : ConfigSections) : List (Text × Json) :=
  [("servers".toList, .arr s.servers),
    ("identities".toList, .arr s.identities),
    ("teams".toList, .arr s.teams),
    ("policies".toList, .arr s.policies),
    ("dlp_rules".toList, .arr s.dlpRules),
    ("guardrails".toList, .arr s.guardrails),
    ("skills".toList, .arr s.skills),
    ("jwt_issuer".toList, .str s.jwtIssuer),
    ("jwt_audience".toList, .str s.jwtAudience),
    ("jwt_jwks_url".toList, .str s.jwtJwksUrl),
    ("allowed_origins".toList, .arr (s.allowedOrigins.map .str)),
    ("log_payloads".toList, .bool s.logPayloads),
    ("default_rpm".toList, .num (.int s.defaultRpm)),
    ("per_ip_limit".toList, .num (.int s.perIpLimit)),
    ("concurrent_limit".toList, .num (.int s.concurrentLimit)),
    ("catalog_refresh_seconds".toList, .num (.int s.catalogRefreshSeconds)),
    ("team_rpm_overrides".toList,
      .obj (s.teamRpmOverrides.map fun o => (o.1, .num (.int o.2))))]

/-- What the backend uses of its libraries. -/
structure BackendCodec where
  /-- `hmac.new(key, payload, hashlib.sha256).hexdigest()`, under the key as it is. -/
  hmacHex : Text → Bytes → Text
  /-- The text of a float. -/
  repr : UInt64 → Text
  /-- Nonce and ciphertext, under the encryption key of a secret. -/
  encrypt : Text → Bytes → Bytes

section Backend

variable (B : BackendCodec)

/-- `json.dumps` prints a value, with its default separators. -/
def dumpsStyle : Json.Style := ⟨[',', ' '], [':', ' '], Json.escapeAscii, B.repr⟩

/-- The payload `_sign_bundle` signs. -/
def signedPayload (s : ConfigSections) : Bytes :=
  utf8 ((Json.obj (buildConfigBundle s)).sortKeys.print (dumpsStyle B))

/-- `_sign_bundle`, with a signing key. -/
def signBundle (sk : Text) (s : ConfigSections) : List (Text × Json) :=
  buildConfigBundle s ++ [("_signature".toList, .str (B.hmacHex sk (signedPayload B s)))]

/-- The document that is written. -/
def writtenDocument (sk : Text) (s : ConfigSections) : Json :=
  (Json.obj (signBundle B sk s)).sortKeys

/-- Its text: `json.dumps` with an indent ends a line at every comma. -/
def writtenText (sk : Text) (s : ConfigSections) : Bytes :=
  utf8 ((writtenDocument B sk s).indented ⟨[','], [':', ' '], Json.escapeAscii, B.repr⟩ 0)

/-- The file `write_config_bundle` writes for the Rust gateway. -/
def writeConfigBundle (secretsKey : Option Text) (sk : Text) (s : ConfigSections) : Bytes :=
  match secretsKey with
  | some secret => 0x01 :: B.encrypt secret (writtenText B sk s)
  | none => writtenText B sk s

end Backend

/-- What the gateway's libraries make of a document the backend wrote: it is decrypted and
parsed as it was, and the signatures of the bundle are those of the document. -/
structure Reads (B : BackendCodec) (C : BundleCodec) (secretsKey : Option Text) (sk : Text)
    (s : ConfigSections) : Prop where
  decrypted : decryptBundle C secretsKey (writeConfigBundle B secretsKey sk s) =
    some (writtenText B sk s)
  value : C.value (writtenText B sk s) = some (writtenDocument B sk s)
  bundle : ∀ signed, C.bundle (writtenText B sk s) = some signed →
    signed.sig = none ∧ signed.legacySig = some (utf8 (B.hmacHex sk (signedPayload B s)))

/-! ### The first field -/

section First

variable {fields : List (Text × Json)} {value : Json}

/-- `allowed_origins` is the first key of a bundle that has no other one. -/
def Leads (fields : List (Text × Json)) (value : Json) : Prop :=
  ("allowed_origins".toList, value) ∈ fields ∧
    ∀ f ∈ fields, f = ("allowed_origins".toList, value) ∨ "allowed_origins".toList < f.1

theorem Leads.of_lookup (hdistinct : Data.Dict.Distinct fields)
    (hkeys : ∀ k ∈ fields.map Prod.fst,
      k = "allowed_origins".toList ∨ "allowed_origins".toList < k)
    (h : Data.Dict.lookup fields "allowed_origins".toList = some value) : Leads fields value := by
  refine ⟨Data.Dict.mem_of_lookup h, fun f hf => (hkeys f.1 (List.mem_map_of_mem hf)).imp_left ?_⟩
  intro hkey
  have hvalue := Data.Dict.lookup_of_mem hdistinct hf
  rw [hkey, h] at hvalue
  rw [← hkey, Option.some.inj hvalue]

theorem Leads.sort (h : Leads fields value) :
    ∃ rest, (Json.obj fields).sortKeys =
      .obj (("allowed_origins".toList, value.sortKeys) :: rest) := by
  have hmem : ("allowed_origins".toList, value.sortKeys) ∈ Json.sortFields fields := by
    rw [Json.sortFields_eq]
    exact List.mem_map_of_mem h.1
  have hleast : ∀ g ∈ Json.sortFields fields, g = ("allowed_origins".toList, value.sortKeys) ∨
      "allowed_origins".toList < g.1 := by
    intro g hg
    rw [Json.sortFields_eq] at hg
    obtain ⟨f, hf, rfl⟩ := List.mem_map.mp hg
    exact (h.2 f hf).imp (fun heq => by rw [heq]) id
  have hfirst : ∃ rest, sortByKey Prod.fst (Json.sortFields fields) = _ :: rest :=
    Priority.sortByKey_least hmem hleast
  obtain ⟨rest, hrest⟩ := hfirst
  exact ⟨rest, by rw [Json.sortKeys, hrest]⟩

/-- How the text of such an object begins. -/
theorem Leads.print (h : Leads fields value) (st : Json.Style) :
    ∃ rest, (Json.obj fields).sortKeys.print st =
      '{' :: (Json.quote st "allowed_origins".toList ++
        (st.colon ++ (value.sortKeys.print st ++ rest))) := by
  obtain ⟨rest, hrest⟩ := h.sort
  rw [hrest]
  exact ⟨_, by simp only [Json.print, Json.printFields, List.append_assoc]; rfl⟩

end First

section Bundle

variable (s : ConfigSections)

/-- `allowed_origins` of a bundle. -/
def originsOf : Json := .arr (s.allowedOrigins.map .str)

theorem buildConfigBundle_leads : Leads (buildConfigBundle s) (originsOf s) := by
  have hmap : (buildConfigBundle s).map Prod.fst = ["servers".toList, "identities".toList,
    "teams".toList, "policies".toList, "dlp_rules".toList, "guardrails".toList, "skills".toList,
    "jwt_issuer".toList, "jwt_audience".toList, "jwt_jwks_url".toList, "allowed_origins".toList,
    "log_payloads".toList, "default_rpm".toList, "per_ip_limit".toList,
    "concurrent_limit".toList, "catalog_refresh_seconds".toList,
    "team_rpm_overrides".toList] := rfl
  refine Leads.of_lookup ?_ ?_ rfl
  · rw [Data.Dict.Distinct, hmap]
    decide
  · rw [hmap]
    decide

/-- What is left of the written document without its signature. -/
theorem withoutSig_leads (B : BackendCodec) (sk : Text) :
    ∃ fields, withoutSig (writtenDocument B sk s) = .obj fields ∧
      Leads fields (originsOf s).sortKeys := by
  obtain ⟨hmem, hleast⟩ := buildConfigBundle_leads s
  refine ⟨_, rfl, ?_, ?_⟩
  · have hkept : ("allowed_origins".toList != "_sig".toList &&
        "allowed_origins".toList != "_signature".toList) = true := by decide
    refine List.mem_filter.mpr ⟨Priority.mem_sortByKey.mpr ?_, hkept⟩
    rw [Json.sortFields_eq]
    exact List.mem_map_of_mem (List.mem_append_left _ hmem)
  · intro f hf
    obtain ⟨hf, hkept⟩ := List.mem_filter.mp hf
    rw [Priority.mem_sortByKey, Json.sortFields_eq] at hf
    obtain ⟨g, hg, rfl⟩ := List.mem_map.mp hf
    rcases List.mem_append.mp hg with hg | hg
    · exact (hleast g hg).imp (fun heq => by rw [heq]) id
    · rw [List.mem_singleton.mp hg] at hkept
      cases hkept

/-- The bytes in front of the list of origins differ: a blank follows the colon in one. -/
theorem payload_ne_canonical (B : BackendCodec) (C : BundleCodec) (sk : Text) :
    (Json.obj (buildConfigBundle s)).sortKeys.print (dumpsStyle B) ≠
      (withoutSig (writtenDocument B sk s)).sortKeys.print (serdeStyle C) := by
  obtain ⟨rest, hpayload⟩ := (buildConfigBundle_leads s).print (dumpsStyle B)
  obtain ⟨fields, hfields, hleads⟩ := withoutSig_leads s B sk
  obtain ⟨rest', hcanonical⟩ := hleads.print (serdeStyle C)
  rw [hfields, hpayload, hcanonical]
  have hquote : Json.quote (dumpsStyle B) "allowed_origins".toList =
      Json.quote (serdeStyle C) "allowed_origins".toList := rfl
  rw [hquote]
  intro h
  have hcolon := List.append_cancel_left (List.cons.inj h).2
  have hblank := (List.cons.inj (List.cons.inj hcolon).2).1
  exact absurd hblank (by decide)

end Bundle

/-! ### The signature -/

variable {B : BackendCodec} {C : BundleCodec} {secretsKey : Option Text} {sk : Text}
  {s : ConfigSections}

/-- **The bytes that are signed are not those that are verified**, for any bundle and any keys:
unless MACs of different bytes under the two keys are the same, the bundle is refused. -/
theorem signed_ne_verified (hreads : Reads B C secretsKey sk s) :
    signedPayload B s ≠ canonicalJsonWithoutSig C (writtenText B sk s) ∧
      ((∀ a b, C.hmacHex sk a = utf8 (B.hmacHex sk b) → a = b) →
        ConfigStore.loadFromDisk C ⟨secretsKey, some sk⟩
          (some (writeConfigBundle B secretsKey sk s)) = none) := by
  have hne : signedPayload B s ≠ canonicalJsonWithoutSig C (writtenText B sk s) := by
    rw [signedPayload, canonicalJsonWithoutSig, hreads.value]
    exact utf8_injective.ne (payload_ne_canonical s B C sk)
  refine ⟨hne, fun hmac => ?_⟩
  by_contra hload
  obtain ⟨b, hb⟩ := Option.ne_none_iff_exists'.mp hload
  rcases loadFromDisk_iff.mp hb with
    ⟨content, plaintext, signed, sig, hcontent, hplaintext, hsigned, hsig, hverify, -⟩ |
    ⟨content, plaintext, signed, hcontent, hplaintext, hsigned, hsig, -⟩
  all_goals
    rw [← Option.some.inj hcontent, hreads.decrypted] at hplaintext
    rw [← Option.some.inj hplaintext] at hsigned
    obtain ⟨hnew, hlegacy⟩ := hreads.bundle signed hsigned
    rw [hnew, hlegacy] at hsig
  · rw [← Option.some.inj hsig, ← Option.some.inj hplaintext] at hverify
    exact hne (hmac _ _ hverify).symm
  · cases hsig

/-! ### An empty configuration -/

/-- The configuration of an empty database. -/
def emptySections : ConfigSections where
  servers := []
  identities := []
  teams := []
  policies := []
  dlpRules := []
  guardrails := []
  skills := []
  jwtIssuer := []
  jwtAudience := []
  jwtJwksUrl := []
  allowedOrigins := []
  logPayloads := false
  defaultRpm := 600
  perIpLimit := 0
  concurrentLimit := 0
  catalogRefreshSeconds := 60
  teamRpmOverrides := []

/-- Its HMAC in the backend, under the key `k`. -/
def emptySignature : Text :=
  "a2a2f38894d63cce2a68bb95047e49a8776476d5ee287ad1687a7e0957ffb1c5".toList

/-- Its HMAC in the gateway, under the signing key derived from `k`. -/
def emptyMac : Text := "aa3467bea197c7dcba3a4a919011d85a769125790b11f82b51d1f3f459a92b15".toList

/-- The libraries of the backend, on this configuration. -/
def emptyBackend : BackendCodec := ⟨fun _ _ => emptySignature, fun _ => [], fun _ data => data⟩

/-- The text of its bundle. -/
def emptyText : Bytes := writtenText emptyBackend ['k'] emptySections

/-- The libraries of the gateway, on a file that holds the bundle of this configuration. -/
def emptyCodec (file : Bytes) : BundleCodec where
  decrypt _ _ := none
  hmacHex _ _ := utf8 emptyMac
  bundle raw :=
    if raw = file then
      some ⟨{ ConfigBundle.default with defaultRpm := 600, teamRpmOverrides := .obj [] }, none,
        some (utf8 emptySignature)⟩
    else none
  value raw :=
    if raw = file then some (writtenDocument emptyBackend ['k'] emptySections) else none
  floatText _ := []

theorem emptyCodec_value (file : Bytes) : (emptyCodec file).value file =
    some (writtenDocument emptyBackend ['k'] emptySections) := if_pos rfl

theorem emptyMac_ne : utf8 emptyMac ≠ utf8 emptySignature := utf8_injective.ne (by decide)

/-- A text that begins with a brace is no envelope. -/
theorem decryptBundle_brace (C : BundleCodec) (secret : Option Text) (t : Text) :
    decryptBundle C secret (utf8 ('{' :: t)) = some (utf8 ('{' :: t)) := by
  have hbytes : utf8 ('{' :: t) = 0x7b :: utf8 t := by
    rw [utf8, utf8, String.toByteArray_ofList, String.toByteArray_ofList, List.utf8Encode_cons]
    simp
    rfl
  rw [hbytes]
  rfl

theorem emptyCodec_reads :
    Reads emptyBackend (emptyCodec emptyText) none ['k'] emptySections where
  decrypted := by
    have hbrace : ∃ t, emptyText = utf8 ('{' :: t) := ⟨_, rfl⟩
    obtain ⟨t, ht⟩ := hbrace
    show decryptBundle (emptyCodec emptyText) none emptyText = some emptyText
    rw [ht]
    exact decryptBundle_brace ..
  value := emptyCodec_value emptyText
  bundle := by
    intro signed hsigned
    have hbundle : ∀ file, (emptyCodec file).bundle file = some ⟨{ ConfigBundle.default with
        defaultRpm := 600, teamRpmOverrides := .obj [] }, none, some (utf8 emptySignature)⟩ :=
      fun _ => if_pos rfl
    rw [← Option.some.inj ((hbundle emptyText).symm.trans hsigned)]
    exact ⟨rfl, rfl⟩

/-- The bundle of an empty configuration is refused. -/
theorem empty_refused :
    signedPayload emptyBackend emptySections ≠
        canonicalJsonWithoutSig (emptyCodec emptyText) emptyText ∧
      ConfigStore.loadFromDisk (emptyCodec emptyText) ⟨none, some ['k']⟩
        (some (writeConfigBundle emptyBackend none ['k'] emptySections)) = none :=
  have hboth := signed_ne_verified emptyCodec_reads
  ⟨hboth.1, hboth.2 fun _ _ h => absurd h emptyMac_ne⟩

/-- **The gateway does not take what the backend signed**: the bytes of the signature are not
those it verifies. -/
theorem empty_not_accepted :
    ¬ ((∃ b, ConfigStore.loadFromDisk (emptyCodec emptyText) ⟨none, some ['k']⟩
          (some (writeConfigBundle emptyBackend none ['k'] emptySections)) = some b) ∧
        signedPayload emptyBackend emptySections =
          canonicalJsonWithoutSig (emptyCodec emptyText) emptyText) := by
  rintro ⟨-, h⟩
  rw [signedPayload, canonicalJsonWithoutSig, emptyCodec_value] at h
  exact payload_ne_canonical emptySections emptyBackend (emptyCodec emptyText) ['k']
    (utf8_injective h)

end CorexManager.Gateway
