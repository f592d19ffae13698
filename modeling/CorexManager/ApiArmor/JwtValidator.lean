import CorexManager.ApiArmor.BodyParser
import CorexManager.Rust.Serde
import CorexManager.Rust.Utf8
import Mathlib.Algebra.Order.Field.Rat
import Mathlib.Data.Rat.Cast.Order

/-!
# Tokens of requests

`validate_jwt` and `validate_jwt_with_claims` of `jwt_validator/src/lib.rs`, and what the body parser
publishes of a token.  A token is verified with the algorithm that it names, its expiry is read if it
is an integer of 64 bits, and the claims stay in the result when the issuer or the audience is not
the expected one.

* `JwtCrates.validateJwt` — the function.
* `Authorized` — what a valid token is to be: signed with the configured algorithm, within its time,
  of the issuer and for the audience.
* `Strict` — the accepted tokens meet what the function does not check.
* `jwt_iff` — a token that is reported valid is authorized exactly if `Strict` holds, and claims are
  published of valid tokens only exactly if no genuine token is of another issuer or audience.
-/

namespace CorexManager.ApiArmor

open Data
open HAProxy
open Rust (asBytes)

/-! ### The validator -/

/-- The algorithms that are supported. -/
inductive JwtAlgorithm where
  | hs256
  | hs384
  | hs512
deriving DecidableEq

/-- The name of an algorithm in a header. -/
def JwtAlgorithm.name : JwtAlgorithm → Text
  | .hs256 => "HS256".toList
  | .hs384 => "HS384".toList
  | .hs512 => "HS512".toList

/-- What the validator uses of other crates: the decoder of base64, that of JSON, and the codes of a
message under a key. -/
structure JwtCrates where
  decodeBase64url : Text → Except Text (List UInt8)
  fromSlice : List UInt8 → Except Text Json
  hmac : JwtAlgorithm → (data key : List UInt8) → List UInt8

namespace JwtCrates

variable (C : JwtCrates)

/-- The name of the algorithm in a header. -/
def algName (header : Json) : Text :=
  ((header.get "alg".toList).bind Json.asStr).getD "none".toList

/-- The code that is expected. -/
def expectedSignature (alg : Text) (data key : List UInt8) : Except Text (List UInt8) :=
  if alg = "HS256".toList then .ok (C.hmac .hs256 data key)
  else if alg = "HS384".toList then .ok (C.hmac .hs384 data key)
  else if alg = "HS512".toList then .ok (C.hmac .hs512 data key)
  else if alg = "none".toList then .error "none algorithm not allowed".toList
  else .error ("unsupported algorithm: ".toList ++ alg)

/-- `as_i64` of a claim. -/
def intClaim (claims : Json) (name : String) : Option Int := (claims.get name.toList).bind Rust.i64

/-- An error behind what it is about. -/
def labelled {α : Type} (label : String) : Except Text α → Except Text α :=
  Except.mapError (label.toList ++ ·)

/-- The claims of a token, or an error. -/
def checkJwt (now : Int) (token secret : Text) : Except Text Json :=
  match Rust.split '.' token with
  | [header64, payload64, signature64] => do
      let headerJson ← labelled "invalid header encoding: " (C.decodeBase64url header64)
      let header ← labelled "invalid header JSON: " (C.fromSlice headerJson)
      let signature ← labelled "invalid signature encoding: " (C.decodeBase64url signature64)
      let expected ← C.expectedSignature (algName header) (asBytes (header64 ++ '.' :: payload64))
        (asBytes secret)
      if expected ≠ signature then throw "signature verification failed".toList
      let payloadJson ← labelled "invalid payload encoding: " (C.decodeBase64url payload64)
      let claims ← labelled "invalid payload JSON: " (C.fromSlice payloadJson)
      if (intClaim claims "exp").any (fun exp => exp < now) then throw "token expired".toList
      return claims
  | _ => .error "invalid token format".toList

/-- `validate_jwt`. -/
def validateJwt (now : Int) (token secret : Text) : JwtResult :=
  match C.checkJwt now token secret with
  | .ok claims => ⟨true, claims, []⟩
  | .error e => ⟨false, .null, e⟩

end JwtCrates

/-! ### Authorized tokens -/

/-- The value of a finite `f64`: its sign, its significand and its exponent. -/
def f64Value (bits : UInt64) : ℚ :=
  let n := bits.toNat
  let exponent := n / 4503599627370496 % 2048
  let fraction := n % 4503599627370496
  let magnitude : ℚ :=
    if exponent = 0 then (fraction : ℚ) * (2 : ℚ) ^ (-1074 : Int)
    else ((4503599627370496 + fraction : Nat) : ℚ) * (2 : ℚ) ^ ((exponent : Int) - 1075)
  if n / 9223372036854775808 = 1 then -magnitude else magnitude

/-- The value of a number. -/
def numberValue : Number → ℚ
  | .int n => n
  | .float bits => f64Value bits

/-- A policy, with the algorithm that is configured. -/
structure JwtPolicy where
  policy : AuthPolicy
  jwtAlgorithm : Option Text

/-- **A signed token**: three parts, with a code of the first two under a key, by the algorithm that
the header names. -/
structure Signed (C : JwtCrates) (alg : JwtAlgorithm) (token secret : Text) (claims : Json) : Prop where
  signed : ∃ header64 payload64 signature64 headerJson header payloadJson,
    Rust.split '.' token = [header64, payload64, signature64] ∧
      C.decodeBase64url header64 = .ok headerJson ∧ C.fromSlice headerJson = .ok header ∧
      (header.get "alg".toList).bind Json.asStr = some alg.name ∧
      C.decodeBase64url signature64 =
        .ok (C.hmac alg (asBytes (header64 ++ '.' :: payload64)) (asBytes secret)) ∧
      C.decodeBase64url payload64 = .ok payloadJson ∧ C.fromSlice payloadJson = .ok claims

/-- The issuer and the audience of a policy are those of the claims. -/
structure MeetsPolicy (policy : AuthPolicy) (claims : Json) : Prop where
  issuer iss : policy.jwtIssuer = some iss → claims.get "iss".toList = some (.str iss)
  audience aud : policy.jwtAudience = some aud →
    claims.get "aud".toList = some (.str aud) ∨
      ∃ items, claims.get "aud".toList = some (.arr items) ∧ .str aud ∈ items

/-- The expiry and the beginning that the claims give as numbers admit a time. -/
structure InTime (now : Int) (claims : Json) : Prop where
  exp n : claims.get "exp".toList = some (.num n) → (now : ℚ) < numberValue n
  nbf n : claims.get "nbf".toList = some (.num n) → numberValue n ≤ now

/-- **An authorized token.** -/
def Authorized (C : JwtCrates) (now : Int) (P : JwtPolicy) (token secret : Text) : Prop :=
  ∃ alg claims, Signed C alg token secret claims ∧ (∀ name ∈ P.jwtAlgorithm, alg.name = name) ∧
    InTime now claims ∧ MeetsPolicy P.policy claims

/-- An expiry that is an integer of 64 bits is not over. -/
def NotExpired (now : Int) (claims : Json) : Prop :=
  ∀ exp, JwtCrates.intClaim claims "exp" = some exp → now ≤ exp

/-- **What is not checked**: of a token that is signed by the algorithm that it names, with its
expiry, issuer and audience as they should be as far as they are read, the algorithm is the
configured one, the expiry is in the future if it is this very moment or no integer of 64 bits, and
the time has begun. -/
structure Strict (C : JwtCrates) (now : Int) (P : JwtPolicy) (token secret : Text) : Prop where
  algorithm alg claims : Signed C alg token secret claims → NotExpired now claims →
    MeetsPolicy P.policy claims → ∀ name ∈ P.jwtAlgorithm, alg.name = name
  exp alg claims n : Signed C alg token secret claims → MeetsPolicy P.policy claims →
    claims.get "exp".toList = some (.num n) →
      (∀ i, Rust.i64 (.num n) = some i → i = now) → (now : ℚ) < numberValue n
  nbf alg claims n : Signed C alg token secret claims → NotExpired now claims →
    MeetsPolicy P.policy claims → claims.get "nbf".toList = some (.num n) → numberValue n ≤ now

/-- Claims of a token are published. -/
def Publishes (as : Assignments) : Prop := ∃ claim v, (claimVar claim, v) ∈ as

/-- **No claims of others**: a token with claims that is signed and not expired is of the issuer and
for the audience. -/
def Unmixed (C : JwtCrates) (H : Host) (now : Int) (P : JwtPolicy) (authHeader : Text) : Prop :=
  ∀ token alg claims, extractBearerToken authHeader = some token →
    (P.policy.jwtSecretEnv.bind H.envVar).getD [] ≠ [] →
      Signed C alg token ((P.policy.jwtSecretEnv.bind H.envVar).getD []) claims →
        NotExpired now claims → claims.asObject.getD [] ≠ [] → MeetsPolicy P.policy claims

/-! ### What is checked -/

section Checks

variable {C : JwtCrates} {now : Int} {token secret : Text} {claims : Json}

theorem labelled_eq_ok {α : Type} {label : String} {r : Except Text α} {a : α} :
    JwtCrates.labelled label r = .ok a ↔ r = .ok a := by
  cases r with
  | error e => exact iff_of_false (fun h => by cases h) (fun h => by cases h)
  | ok b => exact Iff.rfl

/-- The name of an algorithm is that of no other. -/
theorem JwtAlgorithm.name_injective {a b : JwtAlgorithm} (h : a.name = b.name) : a = b := by
  revert h
  revert a b
  have hall : ∀ a ∈ [hs256, hs384, hs512], ∀ b ∈ [hs256, hs384, hs512], a.name = b.name → a = b := by
    decide
  intro a b
  exact hall a (by cases a <;> decide) b (by cases b <;> decide)

theorem expectedSignature_eq_ok {name : Text} {data key code : List UInt8} :
    C.expectedSignature name data key = .ok code ↔
      ∃ alg : JwtAlgorithm, alg.name = name ∧ C.hmac alg data key = code := by
  constructor
  · intro h
    unfold JwtCrates.expectedSignature at h
    split_ifs at h with h256 h384 h512
    · exact ⟨.hs256, h256.symm, Except.ok.inj h⟩
    · exact ⟨.hs384, h384.symm, Except.ok.inj h⟩
    · exact ⟨.hs512, h512.symm, Except.ok.inj h⟩
  · rintro ⟨alg, rfl, rfl⟩
    unfold JwtCrates.expectedSignature
    cases alg with
    | hs256 => exact if_pos rfl
    | hs384 => exact (if_neg (by decide)).trans (if_pos rfl)
    | hs512 => exact (if_neg (by decide)).trans ((if_neg (by decide)).trans (if_pos rfl))

theorem bind_eq_ok {α β : Type} {r : Except Text α} {f : α → Except Text β} {b : β} :
    r >>= f = .ok b ↔ ∃ a, r = .ok a ∧ f a = .ok b := by
  cases r with
  | error e => exact iff_of_false (fun h => by cases h) (fun ⟨_, h, _⟩ => by cases h)
  | ok a => exact ⟨fun h => ⟨a, rfl, h⟩, fun ⟨_, ha, h⟩ => by cases ha; exact h⟩

/-- The name in a header is that of an algorithm only if it is there. -/
theorem algName_eq {header : Json} {alg : JwtAlgorithm} :
    alg.name = JwtCrates.algName header ↔
      (header.get "alg".toList).bind Json.asStr = some alg.name := by
  unfold JwtCrates.algName
  cases (header.get "alg".toList).bind Json.asStr with
  | some name => exact ⟨fun h => congrArg some h.symm, fun h => (Option.some.inj h).symm⟩
  | none => exact iff_of_false (by cases alg <;> decide) (fun h => by cases h)

theorem notExpired_iff :
    (JwtCrates.intClaim claims "exp").any (fun exp => exp < now) = false ↔ NotExpired now claims := by
  unfold NotExpired
  cases JwtCrates.intClaim claims "exp" with
  | none => exact iff_of_true rfl fun exp h => by cases h
  | some exp => simp

/-- **What the function checks.** -/
theorem checkJwt_eq_ok : C.checkJwt now token secret = .ok claims ↔
    (∃ alg, Signed C alg token secret claims) ∧ NotExpired now claims := by
  constructor
  · intro h
    unfold JwtCrates.checkJwt at h
    split at h
    next header64 payload64 signature64 hsplit =>
      obtain ⟨headerJson, hheaderJson, h⟩ := bind_eq_ok.mp h
      obtain ⟨header, hheader, h⟩ := bind_eq_ok.mp h
      obtain ⟨signature, hsignature, h⟩ := bind_eq_ok.mp h
      obtain ⟨expected, hexpected, h⟩ := bind_eq_ok.mp h
      obtain ⟨alg, halg, hcode⟩ := expectedSignature_eq_ok.mp hexpected
      split at h
      · cases h
      next hsame =>
        obtain ⟨payloadJson, hpayloadJson, h⟩ := bind_eq_ok.mp h
        obtain ⟨payload, hpayload, h⟩ := bind_eq_ok.mp h
        split at h
        · cases h
        next hexpired =>
          obtain rfl := Except.ok.inj h
          refine ⟨⟨alg, header64, payload64, signature64, headerJson, header, payloadJson, hsplit,
            labelled_eq_ok.mp hheaderJson, labelled_eq_ok.mp hheader, algName_eq.mp halg, ?_,
            labelled_eq_ok.mp hpayloadJson, labelled_eq_ok.mp hpayload⟩,
            notExpired_iff.mp (eq_false_of_ne_true hexpired)⟩
          rw [hcode, not_not.mp hsame]
          exact labelled_eq_ok.mp hsignature
    next => cases h
  · rintro ⟨⟨alg, header64, payload64, signature64, headerJson, header, payloadJson, hsplit,
      hheaderJson, hheader, halg, hsignature, hpayloadJson, hpayload⟩, hexpired⟩
    unfold JwtCrates.checkJwt
    rw [hsplit]
    dsimp only
    refine bind_eq_ok.mpr ⟨headerJson, labelled_eq_ok.mpr hheaderJson, ?_⟩
    refine bind_eq_ok.mpr ⟨header, labelled_eq_ok.mpr hheader, ?_⟩
    refine bind_eq_ok.mpr ⟨_, labelled_eq_ok.mpr hsignature, ?_⟩
    refine bind_eq_ok.mpr ⟨_, expectedSignature_eq_ok.mpr ⟨alg, algName_eq.mpr halg, rfl⟩, ?_⟩
    rw [if_neg (not_not.mpr rfl)]
    refine bind_eq_ok.mpr ⟨payloadJson, labelled_eq_ok.mpr hpayloadJson, ?_⟩
    refine bind_eq_ok.mpr ⟨claims, labelled_eq_ok.mpr hpayload, ?_⟩
    rw [if_neg (ne_true_of_eq_false (notExpired_iff.mpr hexpired))]
    rfl

/-- A token is signed by one algorithm, with one set of claims. -/
theorem Signed.unique {alg alg' : JwtAlgorithm} {claims' : Json} (h : Signed C alg token secret claims)
    (h' : Signed C alg' token secret claims') : alg = alg' ∧ claims = claims' := by
  obtain ⟨header64, payload64, signature64, headerJson, header, payloadJson, hsplit, hheaderJson,
    hheader, halg, -, hpayloadJson, hpayload⟩ := h
  obtain ⟨header64', payload64', signature64', headerJson', header', payloadJson', hsplit',
    hheaderJson', hheader', halg', -, hpayloadJson', hpayload'⟩ := h'
  rw [hsplit, List.cons.injEq, List.cons.injEq] at hsplit'
  obtain ⟨rfl, rfl, -⟩ := hsplit'
  rw [hheaderJson, Except.ok.injEq] at hheaderJson'
  subst hheaderJson'
  rw [hheader, Except.ok.injEq] at hheader'
  subst hheader'
  rw [halg, Option.some.injEq] at halg'
  rw [hpayloadJson, Except.ok.injEq] at hpayloadJson'
  subst hpayloadJson'
  rw [hpayload, Except.ok.injEq] at hpayload'
  exact ⟨JwtAlgorithm.name_injective halg', hpayload'⟩

theorem asStr_eq_some {v : Json} {t : Text} : v.asStr = some t ↔ v = .str t := by
  cases v with
  | str u => exact ⟨fun h => by rw [Option.some.inj h], fun h => by rw [Json.str.inj h]; rfl⟩
  | _ => exact iff_of_false (fun h => by cases h) (fun h => by cases h)

theorem audienceMatches_iff {aud : Text} {v : Option Json} : audienceMatches aud v = true ↔
    v = some (.str aud) ∨ ∃ items, v = some (.arr items) ∧ .str aud ∈ items := by
  constructor
  · intro h
    unfold audienceMatches at h
    split at h
    next s => exact .inl (by rw [beq_iff_eq.mp h])
    next items =>
      obtain ⟨item, hitem, hsame⟩ := List.any_eq_true.mp h
      rw [beq_iff_eq, asStr_eq_some] at hsame
      exact .inr ⟨items, rfl, hsame ▸ hitem⟩
    next => cases h
  · rintro (rfl | ⟨items, rfl, hitem⟩)
    · exact beq_self_eq_true aud
    · exact List.any_eq_true.mpr ⟨_, hitem, beq_self_eq_true _⟩

/-- The issuer and the audience are checked as they should be. -/
theorem meetsPolicy_iff (policy : AuthPolicy) (claims : Json) : MeetsPolicy policy claims ↔
    (policy.jwtIssuer.any fun iss => (claims.get "iss".toList).bind Json.asStr != some iss) = false ∧
      (policy.jwtAudience.any fun aud => !audienceMatches aud (claims.get "aud".toList)) = false := by
  have hissuer : (∀ iss, policy.jwtIssuer = some iss → claims.get "iss".toList = some (.str iss)) ↔
      (policy.jwtIssuer.any fun iss => (claims.get "iss".toList).bind Json.asStr != some iss) = false := by
    cases policy.jwtIssuer with
    | none => exact iff_of_true (fun iss h => by cases h) rfl
    | some iss =>
        have hsame : (claims.get "iss".toList).bind Json.asStr = some iss ↔
            claims.get "iss".toList = some (.str iss) := by
          simp [Option.bind_eq_some_iff, asStr_eq_some]
        rw [Option.any_some, bne_eq_false_iff_eq, hsame]
        exact ⟨fun h => h iss rfl, fun h iss' hiss => Option.some.inj hiss ▸ h⟩
  have haudience : (∀ aud, policy.jwtAudience = some aud → claims.get "aud".toList = some (.str aud) ∨
      ∃ items, claims.get "aud".toList = some (.arr items) ∧ .str aud ∈ items) ↔
      (policy.jwtAudience.any fun aud => !audienceMatches aud (claims.get "aud".toList)) = false := by
    cases policy.jwtAudience with
    | none => exact iff_of_true (fun aud h => by cases h) rfl
    | some aud =>
        rw [Option.any_some, Bool.not_eq_false', audienceMatches_iff]
        exact ⟨fun h => h aud rfl, fun h aud' haud => Option.some.inj haud ▸ h⟩
  exact ⟨fun h => ⟨hissuer.mp h.issuer, haudience.mp h.audience⟩,
    fun h => ⟨hissuer.mpr h.1, haudience.mpr h.2⟩⟩

end Checks

/-! ### The validator in the parser -/

section Parser

variable (C : JwtCrates) (H : Host) (now : Int)

/-- The surroundings of the parser, with the validator. -/
def JwtCrates.host : Host := { H with validateJwt := C.validateJwt now }

variable {C H now} {P : JwtPolicy} {token secret : Text}

/-- Tokens that are refused have no claims. -/
theorem claims_validateJwtWithClaims (iss aud : Option Text) :
    ((C.host H now).validateJwtWithClaims token secret iss aud).claims =
      (C.validateJwt now token secret).claims := by
  unfold Host.validateJwtWithClaims
  dsimp only
  split_ifs <;> rfl

/-- **Which tokens are reported valid.** -/
theorem validateJwtWithClaims_valid :
    ((C.host H now).validateJwtWithClaims token secret P.policy.jwtIssuer
      P.policy.jwtAudience).valid = true ↔
      ∃ claims, C.checkJwt now token secret = .ok claims ∧ MeetsPolicy P.policy claims := by
  unfold Host.validateJwtWithClaims
  dsimp only [JwtCrates.host, JwtCrates.validateJwt]
  cases hcheck : C.checkJwt now token secret with
  | error e => exact iff_of_false (by simp) (fun ⟨_, h, _⟩ => by cases h)
  | ok claims =>
      have hclaims : (∃ c, (.ok claims : Except Text Json) = .ok c ∧ MeetsPolicy P.policy c) ↔
          MeetsPolicy P.policy claims :=
        ⟨fun ⟨c, hc, h⟩ => Except.ok.inj hc ▸ h, fun h => ⟨claims, rfl, h⟩⟩
      rw [hclaims, meetsPolicy_iff]
      dsimp only
      rw [if_neg (by simp)]
      split_ifs with hiss haud
      · exact iff_of_false (by simp) (fun h => absurd hiss (ne_true_of_eq_false h.1))
      · exact iff_of_false (by simp) (fun h => absurd haud (ne_true_of_eq_false h.2))
      · exact iff_of_true rfl ⟨eq_false_of_ne_true hiss, eq_false_of_ne_true haud⟩

/-- The value of an integer that is read is not over. -/
theorem exp_of_notExpired {claims : Json} {n : Number} {i : Int} (h : NotExpired now claims)
    (hexp : claims.get "exp".toList = some (.num n)) (hi : Rust.i64 (.num n) = some i) :
    now ≤ i ∧ numberValue n = i := by
  refine ⟨h i (by rw [JwtCrates.intClaim, hexp]; exact hi), ?_⟩
  cases n with
  | int m =>
      have hread : (if -2 ^ 63 ≤ m ∧ m < 2 ^ 63 then some m else none) = some i := hi
      split at hread
      · rw [← Option.some.inj hread]
        rfl
      · cases hread
  | float bits => cases hi

/-- **Valid tokens** are authorized exactly if what is not checked holds. -/
theorem authorized_iff : (((C.host H now).validateJwtWithClaims token secret P.policy.jwtIssuer
    P.policy.jwtAudience).valid = true → Authorized C now P token secret) ↔
      Strict C now P token secret := by
  rw [validateJwtWithClaims_valid]
  constructor
  · intro h
    have hauthorized : ∀ alg claims, Signed C alg token secret claims → NotExpired now claims →
        MeetsPolicy P.policy claims → (∀ name ∈ P.jwtAlgorithm, alg.name = name) ∧
          InTime now claims := by
      intro alg claims hsigned hexpired hmeets
      obtain ⟨alg', claims', hsigned', halg, htime, -⟩ :=
        h ⟨claims, checkJwt_eq_ok.mpr ⟨⟨alg, hsigned⟩, hexpired⟩, hmeets⟩
      obtain ⟨rfl, rfl⟩ := hsigned.unique hsigned'
      exact ⟨halg, htime⟩
    refine ⟨fun alg claims hsigned hexpired hmeets => (hauthorized alg claims hsigned hexpired hmeets).1,
      fun alg claims n hsigned hmeets hexp hmissed => ?_,
      fun alg claims n hsigned hexpired hmeets => (hauthorized alg claims hsigned hexpired hmeets).2.nbf n⟩
    refine (hauthorized alg claims hsigned (fun i hi => ?_) hmeets).2.exp n hexp
    rw [JwtCrates.intClaim, hexp] at hi
    exact Int.le_of_eq (hmissed i hi).symm
  · rintro h ⟨claims, hcheck, hmeets⟩
    obtain ⟨⟨alg, hsigned⟩, hexpired⟩ := checkJwt_eq_ok.mp hcheck
    refine ⟨alg, claims, hsigned, h.algorithm alg claims hsigned hexpired hmeets, ⟨fun n hexp => ?_,
      fun n => h.nbf alg claims n hsigned hexpired hmeets⟩, hmeets⟩
    by_cases hmissed : ∀ i, Rust.i64 (.num n) = some i → i = now
    · exact h.exp alg claims n hsigned hmeets hexp hmissed
    · -- the expiry is read, and it is not this moment
      obtain ⟨i, hi⟩ := not_forall.mp hmissed
      obtain ⟨hi, hne⟩ := Classical.not_imp.mp hi
      obtain ⟨hle, hvalue⟩ := exp_of_notExpired hexpired hexp hi
      rw [hvalue]
      exact_mod_cast lt_of_le_of_ne hle (Ne.symm hne)

/-! ### Claims that are published -/

theorem claimVar_ne (claim : Text) : ∀ short ∈ ["auth_valid", "auth_type", "auth_error"],
    claimVar claim ≠ short.toList := by
  intro short hshort h
  have hdot : (claimVar claim)[4]? = some '.' := rfl
  rw [h] at hdot
  revert hdot
  simp only [List.mem_cons, List.not_mem_nil, or_false] at hshort
  rcases hshort with rfl | rfl | rfl <;> decide

/-- Claims are published if there are any. -/
theorem publishes_iff (valid : Bool) (type error : Text) (claims : Json) :
    Publishes (authOutcome valid type error ++ H.claimVars claims) ↔ claims.asObject.getD [] ≠ [] := by
  have houtcome : ∀ claim v, (claimVar claim, v) ∉ authOutcome valid type error := by
    intro claim v h
    have hname : claimVar claim ∈ (authOutcome valid type error).map Prod.fst := List.mem_map_of_mem h
    simp only [authOutcome, List.map_cons, List.map_nil, List.mem_cons, List.not_mem_nil,
      or_false] at hname
    rcases hname with hname | hname | hname
    · exact claimVar_ne claim "auth_valid" (by simp) hname
    · exact claimVar_ne claim "auth_type" (by simp) hname
    · exact claimVar_ne claim "auth_error" (by simp) hname
  constructor
  · rintro ⟨claim, v, h⟩ hnone
    rcases List.mem_append.mp h with h | h
    · exact houtcome claim v h
    · rw [Host.claimVars, hnone] at h
      exact absurd h List.not_mem_nil
  · intro h
    obtain ⟨c, rest, hc⟩ := List.exists_cons_of_ne_nil h
    refine ⟨c.1, .str (c.2.asStr.getD (H.printJson c.2)), List.mem_append_right _ ?_⟩
    rw [Host.claimVars, hc]
    exact List.mem_cons_self

theorem reportsValid_iff (valid : Bool) (type error : Text) (claims : Json) :
    ("auth_valid".toList, .bool true) ∈ authOutcome valid type error ++ H.claimVars claims ↔
      valid = true := by
  constructor
  · intro h
    rcases List.mem_append.mp h with h | h
    · simp only [authOutcome, List.mem_cons, Prod.mk.injEq, List.not_mem_nil, or_false] at h
      rcases h with ⟨-, h⟩ | ⟨h, -⟩ | ⟨h, -⟩
      · exact (Sample.bool.inj h).symm
      · exact absurd h (by decide)
      · exact absurd h (by decide)
    · obtain ⟨c, -, hc⟩ := List.mem_map.mp h
      cases congrArg Prod.snd hc
  · rintro rfl
    exact List.mem_append_left _ List.mem_cons_self

/-- **Claims** are published of valid tokens only exactly if none of another issuer or audience are
there. -/
theorem unmixed_iff (authHeader : Text) :
    (Publishes ((C.host H now).validateJwtPolicy P.policy authHeader) →
      ("auth_valid".toList, .bool true) ∈ (C.host H now).validateJwtPolicy P.policy authHeader) ↔
      Unmixed C H now P authHeader := by
  have hrefused : ∀ error, ¬ Publishes (authOutcome false "jwt".toList error) := by
    intro error h
    have happend := @publishes_iff H false "jwt".toList error .null
    rw [Host.claimVars] at happend
    exact happend.mp (by simpa [Json.asObject] using h) rfl
  unfold Host.validateJwtPolicy
  cases htoken : extractBearerToken authHeader with
  | none =>
      exact iff_of_true (fun h => absurd h (hrefused _)) fun token _ _ h => by
        rw [htoken] at h
        cases h
  | some token =>
      dsimp only
      by_cases hsecret : (P.policy.jwtSecretEnv.bind (C.host H now).envVar).getD [] = []
      · rw [if_pos hsecret]
        exact iff_of_true (fun h => absurd h (hrefused _)) fun _ _ _ _ hne => absurd hsecret hne
      · rw [if_neg hsecret, publishes_iff, reportsValid_iff, claims_validateJwtWithClaims,
          validateJwtWithClaims_valid, JwtCrates.validateJwt]
        constructor
        · intro h token' alg claims htoken' _ hsigned hexpired hclaims
          obtain rfl := Option.some.inj (htoken.symm.trans htoken')
          have hcheck := checkJwt_eq_ok.mpr ⟨⟨alg, hsigned⟩, hexpired⟩
          have hok : C.checkJwt now token ((P.policy.jwtSecretEnv.bind (C.host H now).envVar).getD []) =
              .ok claims := hcheck
          rw [hok] at h
          obtain ⟨claims', hclaims', hmeets⟩ := h hclaims
          exact Except.ok.inj hclaims' ▸ hmeets
        · intro h hclaims
          cases hcheck : C.checkJwt now token
              ((P.policy.jwtSecretEnv.bind (C.host H now).envVar).getD []) with
          | error e =>
              rw [hcheck] at hclaims
              exact absurd rfl hclaims
          | ok claims =>
              rw [hcheck] at hclaims
              obtain ⟨⟨alg, hsigned⟩, hexpired⟩ := checkJwt_eq_ok.mp hcheck
              exact ⟨claims, rfl, h token alg claims htoken hsecret hsigned hexpired hclaims⟩

end Parser

/-- The header `{"alg":"HS256"}` and the payload `{"nbf":200,"iss":"b"}`, and the code of both under
the key `k`. -/
def futureCode : List UInt8 :=
  [224, 105, 55, 196, 160, 187, 247, 131, 124, 22, 191, 53, 206, 16, 56, 143, 73, 172, 7, 103, 230,
    130, 22, 9, 101, 25, 16, 88, 114, 7, 109, 165]

def header64 : Text := "eyJhbGciOiJIUzI1NiJ9".toList

def payload64 : Text := "eyJuYmYiOjIwMCwiaXNzIjoiYiJ9".toList

def signature64 : Text := "4Gk3xKC794N8Fr81zhA4j0msB2fmghYJZRkQWHIHbaU".toList

def futureToken : Text := header64 ++ '.' :: payload64 ++ '.' :: signature64

def futureHeader : Json := .obj [("alg".toList, .str "HS256".toList)]

def futureClaims : Json := .obj [("iss".toList, .str ['b']), ("nbf".toList, .num (.int 200))]

/-- Crates that know the token. -/
def futureCrates : JwtCrates where
  decodeBase64url t :=
    if t = header64 then .ok (asBytes "\x7b\"alg\":\"HS256\"\x7d".toList)
    else if t = payload64 then .ok (asBytes "\x7b\"nbf\":200,\"iss\":\"b\"\x7d".toList)
    else if t = signature64 then .ok futureCode
    else .error "Invalid padding".toList
  fromSlice bytes :=
    if bytes = asBytes "\x7b\"alg\":\"HS256\"\x7d".toList then .ok futureHeader
    else if bytes = asBytes "\x7b\"nbf\":200,\"iss\":\"b\"\x7d".toList then .ok futureClaims
    else .error "expected value".toList
  hmac alg data key :=
    if alg = .hs256 ∧ data = asBytes (header64 ++ '.' :: payload64) ∧ key = asBytes ['k'] then
      futureCode
    else []

/-- A policy without an issuer, and one for the issuer `a`. -/
def futurePolicy (issuer : Option Text) : JwtPolicy where
  policy := ⟨1, "p".toList, some "jwt".toList, some "SECRET".toList, issuer, none, none, none⟩
  jwtAlgorithm := some "HS256".toList

/-- An installation with the key. -/
def futureHost : Host where
  utf8 := some
  parseJson _ := none
  parseJson_nil := parseNothing_nil
  printJson v := if v = .num (.int 200) then "200".toList else []
  debug t := t.getD "None".toList
  readFile _ := none
  envVar name := if name = "SECRET".toList then some ['k'] else none
  analyze _ := ⟨[], 0, 0, 0, 0, 0, [], true, []⟩
  validateSchema _ _ := ⟨true, []⟩
  validateJwt _ _ := ⟨false, .null, []⟩
  data := ⟨[], fun _ => none, [], fun _ => none⟩

theorem futureToken_signed : Signed futureCrates .hs256 futureToken ['k'] futureClaims :=
  ⟨header64, payload64, signature64, _, futureHeader, _, by decide +kernel, rfl, by decide +kernel,
    by decide +kernel, by decide +kernel, rfl, by decide +kernel⟩

end CorexManager.ApiArmor
