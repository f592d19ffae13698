import CorexManager.Data.Json
import CorexManager.Gateway.Expiry
import CorexManager.Logic.FirstMatch

/-!
# Identities of JSON web tokens

`verify_jwt` of the gateway in Rust and `_verify_jwt` of the gateway in Python: the first identity
that the claims point to, by subject or by issuer, is the one the token is verified for.

* `Jsonwebtoken`, `PyJwt` — what the two use of their libraries and of the network.
* `verifyJwt_iff` — the identity is the one the token is meant for, in every order of the
  identities, when it is the only one the claims point to and they meet all it asks for.
-/

namespace CorexManager.Gateway

open Data (Json Text)

/-- `IdentityConfig`, without what only other kinds of identity use. -/
structure IdentityConfig where
  id : Int
  teamId : Int
  name : Text
  subject : Text
  kind : Text
  enabled : Bool
  expiresAt : Option Text
  jwtIssuer : Option Text
  jwtAudience : Option Text
  jwtJwksUrl : Option Text
  deriving DecidableEq

/-- The settings that hold for identities without their own. -/
structure JwtSettings where
  issuer : Option Text
  audience : Option Text
  jwksUrl : Option Text

/-- `Jwk`. -/
structure Jwk where
  kty : Text
  kid : Option Text
  n : Option Text
  e : Option Text
  x : Option Text
  y : Option Text

/-- A claim that is a text. -/
def claimText (claims : Json) (name : String) : Option Text :=
  (claims.get name.toList).bind Json.asStr

/-- The subject and the issuer that are configured for an identity are those of the token. -/
structure Meets (ident : IdentityConfig) (claims : Json) : Prop where
  subject : ident.subject ≠ [] → claimText claims "sub" = some ident.subject
  issuer : ∀ issuer, ident.jwtIssuer = some issuer → issuer ≠ [] →
    claimText claims "iss" = some issuer

/-! ### The gateway in Rust -/

/-- What `verify_jwt` uses of other crates and of the network. -/
structure Jsonwebtoken (Key : Type) where
  /-- `decode_header`: the `kid`. -/
  kid : Text → Option (Option Text)
  /-- `decode` without verification. -/
  claims : Text → Option Json
  /-- `JwksCache::fetch`. -/
  fetch : Text → Option (List Jwk)
  rsaComponents : Text → Text → Option Key
  ecComponents : Text → Text → Option Key
  /-- `decode`, with an issuer and an audience that are checked. -/
  decode : Text → Key → Option Text → Option Text → Option Json
  parseFromRfc3339 : Text → Option Int

/-- What is documented of the crate: verification does not change the claims, and an issuer that
is given is that of a token that has one. -/
structure Jsonwebtoken.Documented {Key : Type} (L : Jsonwebtoken Key) : Prop where
  claims : ∀ {token key issuer audience claims},
    L.decode token key issuer audience = some claims → L.claims token = some claims
  issuer : ∀ {token key issuer audience claims},
    L.decode token key (some issuer) audience = some claims →
      ∀ text, claimText claims "iss" = some text → text = issuer

section Rust

variable {Key : Type} (L : Jsonwebtoken Key) (settings : JwtSettings) (now : Int) (token : Text)

/-- `jwk_to_decoding_key`. -/
def jwkToDecodingKey (jwk : Jwk) : Option Key :=
  if jwk.kty = "RSA".toList then do L.rsaComponents (← jwk.n) (← jwk.e)
  else if jwk.kty = "EC".toList then do L.ecComponents (← jwk.x) (← jwk.y)
  else none

/-- The identity is the target of a token; a claim that is missing is an empty text. -/
def isTarget (claims : Json) (ident : IdentityConfig) : Bool :=
  ident.kind == "jwt".toList &&
    ((!ident.subject.isEmpty && ident.subject == (claimText claims "sub").getD []) ||
      ident.jwtIssuer == some ((claimText claims "iss").getD []))

/-- The rest of `verify_jwt`, for its target. -/
def verifyTarget (kid : Option Text) (ident : IdentityConfig) : Option (IdentityConfig × Json) :=
  if !ident.enabled || ident.expiresAt.any (isExpired L.parseFromRfc3339 now) then none
  else do
    let keys ← L.fetch (← ident.jwtJwksUrl.or settings.jwksUrl)
    let jwk ← (keys.find? fun k => kid.isSome && k.kid == kid).or keys.head?
    let key ← jwkToDecodingKey L jwk
    let claims ← L.decode token key (ident.jwtIssuer.or settings.issuer)
      (ident.jwtAudience.or settings.audience)
    some (ident, claims)

/-- `verify_jwt`. -/
def verifyJwt (identities : List IdentityConfig) : Option (IdentityConfig × Json) := do
  let kid ← L.kid token
  let claims ← L.claims token
  FirstMatch.attempt (isTarget claims) (verifyTarget L settings now token kid) identities

end Rust

/-! ### The gateway in Python -/

/-- A text that is there and not empty. -/
def truthy (t : Option Text) : Option Text := t.filter fun t => !t.isEmpty

/-- What `_verify_jwt` uses of its libraries and of the network. -/
structure PyJwt (Key : Type) where
  /-- `get_unverified_header`: the `kid`. -/
  kid : Text → Option (Option Text)
  /-- `decode` without verification. -/
  claims : Text → Option Json
  /-- `_fetch_jwks`. -/
  fetch : Text → Option (List Jwk)
  /-- `PyJWK`. -/
  key : Jwk → Option Key
  /-- `decode`, with an issuer and an audience, and whether they are checked. -/
  decode : Text → Key → Option Text → Option Text → Bool → Bool → Option Json

/-- What is documented of the library: verification does not change the claims, and an issuer
that is checked is that of the token. -/
structure PyJwt.Documented {Key : Type} (L : PyJwt Key) : Prop where
  claims : ∀ {token key issuer audience checkIssuer checkAudience claims},
    L.decode token key issuer audience checkIssuer checkAudience = some claims →
      L.claims token = some claims
  issuer : ∀ {token key issuer audience checkAudience claims},
    L.decode token key (some issuer) audience true checkAudience = some claims →
      claimText claims "iss" = some issuer

section Python

variable {Key : Type} (L : PyJwt Key) (settings : JwtSettings) (now : Int) (token : Text)

/-- The identity is the target of a token. -/
def isTargetPython (claims : Json) (ident : IdentityConfig) : Bool :=
  ident.kind == "jwt".toList &&
    ((!ident.subject.isEmpty && claimText claims "sub" == some ident.subject) ||
      ((truthy ident.jwtIssuer).isSome && claimText claims "iss" == ident.jwtIssuer))

/-- The rest of `_verify_jwt`, for its target; `none` is an exception as well. -/
def verifyTargetPython (kid : Option Text) (ident : IdentityConfig) :
    Option (IdentityConfig × Json) :=
  if !ident.enabled || (truthy ident.expiresAt).any fun t => expiredPython now t != some false then
    none
  else do
    let keys ← L.fetch (← truthy ((truthy ident.jwtJwksUrl).or settings.jwksUrl))
    let key ← L.key (← keys.find? fun k => kid.isNone || k.kid == kid)
    let issuer := (truthy ident.jwtIssuer).or settings.issuer
    let audience := (truthy ident.jwtAudience).or settings.audience
    let claims ← L.decode token key issuer audience (truthy issuer).isSome (truthy audience).isSome
    some (ident, claims)

/-- `_verify_jwt`. -/
def verifyJwtPython (identities : List IdentityConfig) : Option (IdentityConfig × Json) := do
  let kid ← L.kid token
  let claims ← L.claims token
  FirstMatch.attempt (isTargetPython claims) (verifyTargetPython L settings now token kid) identities

end Python

/-! ### The identity of a token -/

section Identity

variable {Key : Type} {settings : JwtSettings} {now : Int} {token : Text} {kid : Option Text}
  {ident : IdentityConfig} {claims : Json} {identities : List IdentityConfig}

/-- The result is the identity that is tried. -/
theorem verifyTarget_eq_some {L : Jsonwebtoken Key} {out : IdentityConfig × Json}
    (h : verifyTarget L settings now token kid ident = some out) :
    out.1 = ident ∧ ∃ key audience,
      L.decode token key (ident.jwtIssuer.or settings.issuer) audience = some out.2 := by
  rw [verifyTarget] at h
  split at h
  · cases h
  · obtain ⟨url, -, h⟩ := Option.bind_eq_some_iff.mp h
    obtain ⟨keys, -, h⟩ := Option.bind_eq_some_iff.mp h
    obtain ⟨jwk, -, h⟩ := Option.bind_eq_some_iff.mp h
    obtain ⟨key, -, h⟩ := Option.bind_eq_some_iff.mp h
    obtain ⟨claims, hdecode, h⟩ := Option.bind_eq_some_iff.mp h
    cases h
    exact ⟨rfl, key, _, hdecode⟩

/-- What a target must still meet: its subject, if the issuer led to it, and an issuer to compare,
if the subject did. -/
structure MeetsTarget (ident : IdentityConfig) (claims : Json) : Prop where
  subject : ident.subject ≠ [] → claimText claims "sub" = some ident.subject
  issuer : (truthy ident.jwtIssuer).isSome → (claimText claims "iss").isSome

/-- The issuer is checked where the token has one. -/
theorem meets_iff {L : Jsonwebtoken Key} (hdoc : L.Documented) {out : IdentityConfig × Json}
    (h : verifyTarget L settings now token kid ident = some out) :
    Meets out.1 out.2 ↔ MeetsTarget ident out.2 := by
  obtain ⟨hident, key, audience, hdecode⟩ := verifyTarget_eq_some h
  rw [hident]
  constructor
  · refine fun hmeets => ⟨hmeets.subject, fun htruthy => ?_⟩
    obtain ⟨issuer, hissuer⟩ := Option.isSome_iff_exists.mp htruthy
    obtain ⟨hissuer, hne⟩ := Option.filter_eq_some_iff.mp hissuer
    rw [hmeets.issuer issuer hissuer (by simpa using hne)]
    rfl
  · refine fun htarget => ⟨htarget.subject, fun issuer hissuer hne => ?_⟩
    rw [hissuer, Option.some_or] at hdecode
    have htruthy : (truthy ident.jwtIssuer).isSome = true := by
      rw [hissuer, truthy, Option.filter_some, if_pos (by simpa using hne)]
      rfl
    obtain ⟨text, htext⟩ := Option.isSome_iff_exists.mp (htarget.issuer htruthy)
    rw [htext, hdoc.issuer hdecode text htext]

theorem verifyTargetPython_eq_some {L : PyJwt Key} {out : IdentityConfig × Json}
    (h : verifyTargetPython L settings now token kid ident = some out) :
    out.1 = ident ∧ ∃ key audience checkAudience,
      L.decode token key ((truthy ident.jwtIssuer).or settings.issuer) audience
        (truthy ((truthy ident.jwtIssuer).or settings.issuer)).isSome checkAudience = some out.2 := by
  rw [verifyTargetPython] at h
  split at h
  · cases h
  · obtain ⟨url, -, h⟩ := Option.bind_eq_some_iff.mp h
    obtain ⟨keys, -, h⟩ := Option.bind_eq_some_iff.mp h
    obtain ⟨jwk, -, h⟩ := Option.bind_eq_some_iff.mp h
    obtain ⟨key, -, h⟩ := Option.bind_eq_some_iff.mp h
    obtain ⟨claims, hdecode, h⟩ := Option.bind_eq_some_iff.mp h
    cases h
    exact ⟨rfl, key, _, _, hdecode⟩

/-- The issuer is always checked. -/
theorem meets_python_iff {L : PyJwt Key} (hdoc : L.Documented) {out : IdentityConfig × Json}
    (h : verifyTargetPython L settings now token kid ident = some out) :
    Meets out.1 out.2 ↔ (ident.subject ≠ [] → claimText out.2 "sub" = some ident.subject) := by
  obtain ⟨hident, key, audience, checkAudience, hdecode⟩ := verifyTargetPython_eq_some h
  rw [hident]
  refine ⟨Meets.subject, fun hsubject => ⟨hsubject, fun issuer hissuer hne => ?_⟩⟩
  have htruthy : truthy ident.jwtIssuer = some issuer := by
    rw [hissuer, truthy, Option.filter_some, if_pos (by simpa using hne)]
  have hsome : truthy (some issuer) = some issuer := hissuer ▸ htruthy
  rw [htruthy, Option.some_or, hsome] at hdecode
  exact hdoc.issuer hdecode

/-- The identity and the claims are the ones the token is meant for, in every order of the
identities. -/
def Intended (verify : List IdentityConfig → Option (IdentityConfig × Json))
    (identities : List IdentityConfig) : Prop :=
  ∀ out, verify identities = some out →
    Meets out.1 out.2 ∧ ∀ identities', identities'.Perm identities → verify identities' = some out

/-- What the two gateways have in common: the first target is tried, under its own claims. -/
theorem intended_iff {decodedKid : Option (Option Text)} {decoded : Option Json}
    {target : Json → IdentityConfig → Bool}
    {tries : Option Text → IdentityConfig → Option (IdentityConfig × Json)}
    {Suits : IdentityConfig → Json → Prop}
    (hown : ∀ {kid ident out}, tries kid ident = some out → out.1 = ident)
    (hclaims : ∀ {kid ident out}, tries kid ident = some out → decoded = some out.2)
    (hmeets : ∀ {kid ident out}, tries kid ident = some out →
      (Meets out.1 out.2 ↔ Suits ident out.2)) :
    Intended (fun identities => do
        let kid ← decodedKid
        let claims ← decoded
        FirstMatch.attempt (target claims) (tries kid) identities) identities ↔
      ∀ kid claims ident out, decodedKid = some kid → decoded = some claims →
        identities.find? (target claims) = some ident → tries kid ident = some out →
        Suits ident claims ∧ ∀ other ∈ identities, target claims other = true → other = ident := by
  cases hkid : decodedKid with
  | none => exact ⟨fun _ kid claims ident out h => (by cases h), fun _ out h => (by cases h)⟩
  | some kid =>
      cases hdecoded : decoded with
      | none => exact ⟨fun _ kid' claims ident out _ h => (by cases h), fun _ out h => (by cases h)⟩
      | some claims =>
          constructor
          · intro h kid' claims' ident out hkid' hclaims' hfind htries
            cases hkid'
            cases hclaims'
            have hattempt : FirstMatch.attempt (target claims) (tries kid) identities = some out := by
              rw [FirstMatch.attempt, hfind, Option.bind_some, htries]
            obtain ⟨hmeet, hperm⟩ := h out hattempt
            have hout : claims = out.2 := Option.some.inj (hdecoded.symm.trans (hclaims htries))
            refine ⟨hout ▸ (hmeets htries).mp hmeet, ?_⟩
            rw [← hown htries]
            exact (FirstMatch.attempt_eq_perm_iff (fun _ _ => hown) hattempt).mp hperm
          · intro h out hattempt
            obtain ⟨ident, -, -, hfind, htries⟩ := FirstMatch.attempt_eq_some hattempt
            obtain ⟨hsuits, hunique⟩ := h kid claims ident out rfl rfl hfind htries
            have hout : claims = out.2 := Option.some.inj (hdecoded.symm.trans (hclaims htries))
            refine ⟨(hmeets htries).mpr (hout ▸ hsuits), ?_⟩
            refine (FirstMatch.attempt_eq_perm_iff (fun _ _ => hown) hattempt).mpr ?_
            rwa [hown htries]

/-- **The identity of a token is the one it is meant for**, in every order of the identities, when
its claims point to no other, and meet what that one asks for: the subject in both gateways, and an
issuer to compare in the one in Rust. -/
theorem verifyJwt_iff {L : Jsonwebtoken Key} (hdoc : L.Documented) {L' : PyJwt Key}
    (hdoc' : L'.Documented) :
    (Intended (verifyJwt L settings now token) identities ↔
      ∀ kid claims ident out, L.kid token = some kid → L.claims token = some claims →
        identities.find? (isTarget claims) = some ident →
        verifyTarget L settings now token kid ident = some out →
        MeetsTarget ident claims ∧
          ∀ other ∈ identities, isTarget claims other = true → other = ident) ∧
    (Intended (verifyJwtPython L' settings now token) identities ↔
      ∀ kid claims ident out, L'.kid token = some kid → L'.claims token = some claims →
        identities.find? (isTargetPython claims) = some ident →
        verifyTargetPython L' settings now token kid ident = some out →
        (ident.subject ≠ [] → claimText claims "sub" = some ident.subject) ∧
          ∀ other ∈ identities, isTargetPython claims other = true → other = ident) := by
  constructor
  · refine intended_iff ?_ ?_ ?_
    · exact fun h => (verifyTarget_eq_some h).1
    · intro kid ident out h
      obtain ⟨-, key, audience, hdecode⟩ := verifyTarget_eq_some h
      exact hdoc.claims hdecode
    · exact meets_iff hdoc
  · refine intended_iff ?_ ?_ ?_
    · exact fun h => (verifyTargetPython_eq_some h).1
    · intro kid ident out h
      obtain ⟨-, key, audience, checkAudience, hdecode⟩ := verifyTargetPython_eq_some h
      exact hdoc'.claims hdecode
    · exact meets_python_iff hdoc'

end Identity

/-! ### Two identities of one issuer -/

/-- An identity of an issuer, for a subject. -/
def ofIssuer (subject : String) : IdentityConfig where
  id := 1
  teamId := 1
  name := subject.toList
  subject := subject.toList
  kind := "jwt".toList
  enabled := true
  expiresAt := none
  jwtIssuer := some "idp".toList
  jwtAudience := none
  jwtJwksUrl := some "https://idp/keys".toList

/-- The claims of a token of that issuer. -/
def bobClaims : Json :=
  .obj [("sub".toList, .str "bob".toList), ("iss".toList, .str "idp".toList)]

/-- A key of that issuer. -/
def idpKey : Jwk := ⟨"RSA".toList, none, some [], some [], none, none⟩

/-- A verification that succeeds with the issuer of the token, or with none. -/
def decodeBob (issuer : Option Text) : Option Json :=
  if issuer = none ∨ issuer = some "idp".toList then some bobClaims else none

/-- A library for which every token is one of `bob`. -/
def rustIdp : Jsonwebtoken Unit where
  kid _ := some none
  claims _ := some bobClaims
  fetch _ := some [idpKey]
  rsaComponents _ _ := some ()
  ecComponents _ _ := none
  decode _ _ issuer _ := decodeBob issuer
  parseFromRfc3339 := Python.readRfc3339

/-- The same in Python. -/
def pythonIdp : PyJwt Unit where
  kid _ := some none
  claims _ := some bobClaims
  fetch _ := some [idpKey]
  key _ := some ()
  decode _ _ issuer _ _ _ := decodeBob issuer

theorem decodeBob_eq_some {issuer : Text} {claims : Json} (h : decodeBob (some issuer) = some claims) :
    claims = bobClaims ∧ claimText claims "iss" = some issuer := by
  rw [decodeBob] at h
  split at h
  · next hissuer =>
      obtain rfl := Option.some.inj h
      obtain rfl := Option.some.inj (hissuer.resolve_left (Option.some_ne_none _))
      exact ⟨rfl, rfl⟩
  · cases h

theorem rustIdp_documented : rustIdp.Documented where
  claims {_ _ issuer _ claims} h := by
    have hdecode : decodeBob issuer = some claims := h
    rw [decodeBob] at hdecode
    split at hdecode
    · exact hdecode
    · cases hdecode
  issuer h text htext := by
    have hissuer := (decodeBob_eq_some h).2
    exact Option.some.inj (htext.symm.trans hissuer)

theorem pythonIdp_documented : pythonIdp.Documented where
  claims {_ _ issuer _ _ _ claims} h := by
    have hdecode : decodeBob issuer = some claims := h
    rw [decodeBob] at hdecode
    split at hdecode
    · exact hdecode
    · cases hdecode
  issuer h := (decodeBob_eq_some h).2

/-- Alone, the identity of the subject is intended. -/
theorem bob_intended :
    Intended (verifyJwt rustIdp ⟨none, none, none⟩ 0 []) [ofIssuer "bob"] ∧
      Intended (verifyJwtPython pythonIdp ⟨none, none, none⟩ 0 []) [ofIssuer "bob"] := by
  have hiff := @verifyJwt_iff Unit ⟨none, none, none⟩ 0 [] [ofIssuer "bob"] rustIdp
    rustIdp_documented pythonIdp pythonIdp_documented
  have hother : ∀ other ∈ [ofIssuer "bob"], other = ofIssuer "bob" := fun _ h =>
    List.mem_singleton.mp h
  constructor
  · refine hiff.1.mpr fun kid claims ident out _ hclaims hfind _ => ?_
    obtain rfl : bobClaims = claims := Option.some.inj hclaims
    obtain rfl := hother ident (List.mem_of_find?_eq_some hfind)
    exact ⟨⟨fun _ => rfl, fun _ => rfl⟩, fun other hmem _ => hother other hmem⟩
  · refine hiff.2.mpr fun kid claims ident out _ hclaims hfind _ => ?_
    obtain rfl : bobClaims = claims := Option.some.inj hclaims
    obtain rfl := hother ident (List.mem_of_find?_eq_some hfind)
    exact ⟨fun _ => rfl, fun other hmem _ => hother other hmem⟩

/-- **A token of one subject authenticates as another** of the same issuer, and who it is depends
on the order of the identities. -/
theorem alice_authenticated :
    verifyJwt rustIdp ⟨none, none, none⟩ 0 [] [ofIssuer "alice", ofIssuer "bob"] =
        some (ofIssuer "alice", bobClaims) ∧
      verifyJwt rustIdp ⟨none, none, none⟩ 0 [] [ofIssuer "bob", ofIssuer "alice"] =
        some (ofIssuer "bob", bobClaims) ∧
      verifyJwtPython pythonIdp ⟨none, none, none⟩ 0 [] [ofIssuer "alice", ofIssuer "bob"] =
        some (ofIssuer "alice", bobClaims) ∧
      ¬ Meets (ofIssuer "alice") bobClaims := by
  refine ⟨rfl, rfl, rfl, fun h => ?_⟩
  exact absurd (h.subject (by decide)) (by decide)

end CorexManager.Gateway
