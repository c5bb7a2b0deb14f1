import Wfe.Models.Text

/-!
# Authentication of requests

The server accepts a request that carries a static token, or a JSON web token which verifies under a
key that has been fetched from the issuer. The decision is written twice, for handlers and for the
interceptor of all calls. Headers and keys are whatever clients and issuers send; the library that
parses and verifies tokens is a parameter.

## Main definitions

* `AuthState.check`, `AuthState.interceptor`: the two decisions
* `AuthState.validateJwtCached`: the check of a JSON web token
* `Jwt`, `Jwt.DecodeVerifies`: the library, and what is relied on
* `Admitted`: the callers that should be let in

## Main results

* `AuthState.interceptor_eq`: the two decisions are one
* `AuthState.check_eq_ok_iff`: when a request is accepted
* `AuthState.check_admitted`: only authenticated callers are accepted
-/

namespace Wfe.Server

/-! ## Requests -/

inductive Code
  | unauthenticated
  | unavailable
deriving DecidableEq, Repr

/-- `tonic::Status`. -/
structure Status where
  code : Code
  message : String
deriving DecidableEq, Repr

def Status.unauthenticated (message : String) : Status := ⟨.unauthenticated, message⟩

def Status.unavailable (message : String) : Status := ⟨.unavailable, message⟩

/-- Headers by lower-case names; a name may occur more than once. -/
abbrev Headers := List (String × List UInt8)

structure Request where
  metadata : Headers
deriving DecidableEq, Repr

/-- `HeaderValue::to_str`: visible ASCII characters, blanks and tabs only. -/
def toStr (value : List UInt8) : Option String :=
  if value.all fun b => (32 ≤ b && b < 127) || b = 9 then
    some (String.ofList (value.map fun b => Char.ofNat b.toNat))
  else none

/-- `str::strip_prefix`. -/
def stripPrefix (s start : String) : Option String :=
  if start.toList.isPrefixOf s.toList then some (String.ofList (s.toList.drop start.toList.length))
  else none

/-- The token after `Bearer` or `bearer`. -/
def stripBearer (auth : String) : Option String :=
  stripPrefix auth "Bearer " <|> stripPrefix auth "bearer "

/-- The first `authorization` header, where it is a text. -/
def authorization (headers : Headers) : Option String := (headers.lookup "authorization").bind toStr

/-- `extract_bearer_token`. -/
def extractBearerToken (request : Request) : Except Status String :=
  match authorization request.metadata with
  | none => .error (.unauthenticated "missing authorization header")
  | some auth =>
    match stripBearer auth with
    | none => .error (.unauthenticated "expected Bearer token")
    | some token => .ok token

/-- `check_static_tokens`: a comparison of bytes, which takes the same time for all tokens of one
length. -/
def checkStaticTokens (tokens : List String) (candidate : String) : Bool :=
  tokens.any fun token =>
    token.toUTF8.size = candidate.toUTF8.size && token.toUTF8.data = candidate.toUTF8.data

/-! ## Keys -/

/-- `jsonwebtoken::jwk::KeyAlgorithm`. -/
inductive KeyAlgorithm
  | hs256 | hs384 | hs512
  | es256 | es384
  | rs256 | rs384 | rs512
  | ps256 | ps384 | ps512
  | edDSA
  | rsa1_5 | rsaOaep | rsaOaep256
deriving DecidableEq, Repr

/-- `jsonwebtoken::Algorithm`. -/
inductive Algorithm
  | hs256 | hs384 | hs512
  | es256 | es384
  | rs256 | rs384 | rs512
  | ps256 | ps384 | ps512
  | edDSA
deriving DecidableEq, Repr

/-- The algorithms with a shared secret. -/
def Algorithm.symmetric : Algorithm → Bool
  | hs256 | hs384 | hs512 => true
  | _ => false

def Algorithm.name : Algorithm → String
  | hs256 => "HS256" | hs384 => "HS384" | hs512 => "HS512"
  | es256 => "ES256" | es384 => "ES384"
  | rs256 => "RS256" | rs384 => "RS384" | rs512 => "RS512"
  | ps256 => "PS256" | ps384 => "PS384" | ps512 => "PS512"
  | edDSA => "EdDSA"

/-- `ALLOWED_ALGORITHMS`. -/
def allowedAlgorithms : List Algorithm :=
  [.rs256, .rs384, .rs512, .es256, .es384, .ps256, .ps384, .ps512, .edDSA]

/-- `key_algorithm_to_jwt_algorithm`. -/
def keyAlgorithmToJwtAlgorithm : KeyAlgorithm → Option Algorithm
  | .rs256 => some .rs256
  | .rs384 => some .rs384
  | .rs512 => some .rs512
  | .es256 => some .es256
  | .es384 => some .es384
  | .ps256 => some .ps256
  | .ps384 => some .ps384
  | .ps512 => some .ps512
  | .edDSA => some .edDSA
  | _ => none

/-- A key as the issuer publishes it, with its material. -/
structure Jwk (M : Type) where
  keyId : Option String
  keyAlgorithm : Option KeyAlgorithm
  material : M
deriving DecidableEq, Repr

/-- What `jsonwebtoken::Validation` is set to. -/
structure Validation where
  algorithms : List Algorithm
  iss : Option (List String) := none
  aud : Option (List String) := none
  validateAud : Bool := true
deriving DecidableEq, Repr

/-- `Validation::new`. -/
def Validation.new (alg : Algorithm) : Validation := { algorithms := [alg] }

/-- The library of JSON web tokens: the key id in the header of a token, the key of a published one,
and `decode`, which verifies the signature and validates the claims. -/
structure Jwt (M K : Type) where
  decodeHeader : String → Except String (Option String)
  fromJwk : Jwk M → Except String K
  decode : String → K → Validation → Except String Unit

/-- `decode` succeeds only if the signature verifies with the key and an algorithm that the
validation admits. -/
def Jwt.DecodeVerifies {M K : Type} (J : Jwt M K) (Verifies : String → K → Algorithm → Prop) :
    Prop :=
  ∀ token key validation, J.decode token key validation = .ok () →
    ∃ alg ∈ validation.algorithms, Verifies token key alg

/-! ## The decisions -/

structure AuthConfig where
  tokens : List String
  oidcIssuer : Option String
  oidcAudience : Option String
deriving DecidableEq, Repr

/-- The cached keys, behind a lock that a refresh holds while it writes. -/
inductive JwksCache (M : Type)
  | refreshing
  | unloaded
  | loaded (keys : List (Jwk M))
deriving DecidableEq, Repr

structure AuthState (M : Type) where
  config : AuthConfig
  jwks : JwksCache M
deriving DecidableEq, Repr

namespace AuthState

variable {M K : Type} (J : Jwt M K) (auth : AuthState M)

/-- The key a token is checked with: the one with the token's key id, or the only one if the token
has none. -/
def findKey (kid : Option String) (keys : List (Jwk M)) : Option (Jwk M) :=
  keys.find? fun k =>
    match kid, k.keyId with
    | some kid, some keyId => kid = keyId
    | none, _ => keys.length = 1
    | _, _ => false

/-- The `Validation` of a token for the configured issuer and audience. -/
def validation (alg : Algorithm) : Validation :=
  { Validation.new alg with
    iss := auth.config.oidcIssuer.map fun issuer => [issuer]
    aud := auth.config.oidcAudience.map fun audience => [audience]
    validateAud := auth.config.oidcAudience.isSome }

/-- `validate_jwt_cached`. -/
def validateJwtCached (token : String) : Except Status Unit := do
  let keys ← match auth.jwks with
    | .refreshing => .error (.unavailable "JWKS refresh in progress")
    | .unloaded => .error (.unavailable "JWKS not loaded")
    | .loaded keys => .ok keys
  let kid ← (J.decodeHeader token).mapError fun e => .unauthenticated s!"invalid JWT header: {e}"
  if kid = none ∧ 1 < keys.length then
    .error (.unauthenticated "JWT missing kid header but JWKS has multiple keys")
  else
    let some jwk := findKey kid keys | .error (.unauthenticated "no matching key in JWKS")
    let decodingKey ← (J.fromJwk jwk).mapError fun e => .unauthenticated s!"invalid JWK: {e}"
    -- The algorithm is that of the key, not of the token.
    let some alg := jwk.keyAlgorithm.bind keyAlgorithmToJwtAlgorithm
      | .error (.unauthenticated "JWK has no algorithm or unsupported algorithm")
    if alg ∉ allowedAlgorithms then
      let name := alg.name
      .error (.unauthenticated s!"algorithm {name} not in allowlist")
    else
      (J.decode token decodingKey (auth.validation alg)).mapError fun e =>
        .unauthenticated s!"JWT validation failed: {e}"

/-- `check`. -/
def check (request : Request) : Except Status Unit :=
  if auth.config.tokens = [] ∧ auth.config.oidcIssuer = none then .ok ()
  else do
    let token ← extractBearerToken request
    if checkStaticTokens auth.config.tokens token then .ok ()
    else if auth.config.oidcIssuer.isSome then auth.validateJwtCached J token
    else .error (.unauthenticated "invalid token")

/-- The interceptor of `make_interceptor`, which hands the request on. -/
def interceptor (request : Request) : Except Status Request :=
  if auth.config.tokens = [] ∧ auth.config.oidcIssuer = none then .ok request
  else
    match extractBearerToken request with
    | .error e => .error e
    | .ok token =>
      if checkStaticTokens auth.config.tokens token then .ok request
      else if auth.config.oidcIssuer.isSome then do
        auth.validateJwtCached J token
        return request
      else .error (.unauthenticated "invalid token")

end AuthState

/-! ## Who is admitted -/

section Admitted

variable {M K : Type} {J : Jwt M K} {auth : AuthState M} {request : Request} {token : String}

/-- The token verifies under a cached key, with an asymmetric algorithm that is the key's own; the
key has the key id of the token, or is the only one and the token has none. -/
def VerifiesUnder (J : Jwt M K) (Verifies : String → K → Algorithm → Prop) (keys : List (Jwk M))
    (token : String) : Prop :=
  ∃ jwk ∈ keys, ∃ keyAlgorithm alg key, jwk.keyAlgorithm = some keyAlgorithm ∧
    keyAlgorithmToJwtAlgorithm keyAlgorithm = some alg ∧ alg ∈ allowedAlgorithms ∧
    alg.symmetric = false ∧ J.fromJwk jwk = .ok key ∧ Verifies token key alg ∧
    ∃ kid, J.decodeHeader token = .ok kid ∧
      ((kid ≠ none ∧ jwk.keyId = kid) ∨ (kid = none ∧ keys.length = 1))

/-- The callers that should be let in: everyone where nothing is configured, those with a configured
token, and those with a token that verifies. -/
def Admitted (J : Jwt M K) (Verifies : String → K → Algorithm → Prop) (auth : AuthState M)
    (request : Request) : Prop :=
  (auth.config.tokens = [] ∧ auth.config.oidcIssuer = none) ∨
    ∃ token, extractBearerToken request = .ok token ∧
      ((∃ t ∈ auth.config.tokens, t.toUTF8 = token.toUTF8) ∨
        (auth.config.oidcIssuer ≠ none ∧
          ∃ keys, auth.jwks = .loaded keys ∧ VerifiesUnder J Verifies keys token))

theorem checkStaticTokens_iff {tokens : List String} {candidate : String} :
    checkStaticTokens tokens candidate = true ↔
      ∃ t ∈ tokens, t.toUTF8 = candidate.toUTF8 := by
  simp only [checkStaticTokens, List.any_eq_true, Bool.and_eq_true, decide_eq_true_eq]
  refine exists_congr fun t => and_congr_right fun _ => ?_
  exact ⟨fun h => ByteArray.ext h.2, fun h => ⟨congrArg ByteArray.size h, congrArg _ h⟩⟩

/-- The bytes of a text determine it. -/
theorem checkStaticTokens_iff_mem {tokens : List String} {candidate : String} :
    checkStaticTokens tokens candidate = true ↔ candidate ∈ tokens := by
  rw [checkStaticTokens_iff]
  constructor
  · rintro ⟨t, ht, hbytes⟩
    rwa [← String.toByteArray_inj.1 hbytes]
  · exact fun h => ⟨candidate, h, rfl⟩

/-- **The two decisions are one.** -/
theorem AuthState.interceptor_eq (auth : AuthState M) (request : Request) :
    auth.interceptor J request = (auth.check J request).map fun _ => request := by
  unfold interceptor check
  by_cases hopen : auth.config.tokens = [] ∧ auth.config.oidcIssuer = none
  · rw [if_pos hopen, if_pos hopen]
    rfl
  rw [if_neg hopen, if_neg hopen]
  cases extractBearerToken request with
  | error e => rfl
  | ok token =>
    simp only [bind, Except.bind]
    split_ifs
    · rfl
    · cases auth.validateJwtCached J token <;> rfl
    · rfl

/-- When a handler accepts a request. -/
theorem AuthState.check_eq_ok_iff :
    auth.check J request = .ok () ↔
      (auth.config.tokens = [] ∧ auth.config.oidcIssuer = none) ∨
        ∃ token, extractBearerToken request = .ok token ∧
          (checkStaticTokens auth.config.tokens token = true ∨
            (auth.config.oidcIssuer.isSome ∧ auth.validateJwtCached J token = .ok ())) := by
  unfold check
  by_cases hopen : auth.config.tokens = [] ∧ auth.config.oidcIssuer = none
  · rw [if_pos hopen]
    exact ⟨fun _ => .inl hopen, fun _ => rfl⟩
  rw [if_neg hopen, or_iff_right hopen]
  cases extractBearerToken request with
  | error e => exact ⟨nofun, fun ⟨_, h, _⟩ => nomatch h⟩
  | ok token =>
    simp only [bind, Except.bind, Except.ok.injEq, exists_eq_left']
    split_ifs with hstatic hissuer
    · exact ⟨fun _ => .inl hstatic, fun _ => rfl⟩
    · simp [hstatic, hissuer]
    · simp [hstatic, hissuer]

/-- The key that is found is one of the keys, with the key id of the token or the only one. -/
theorem AuthState.findKey_eq_some {kid : Option String} {keys : List (Jwk M)} {jwk : Jwk M}
    (h : findKey kid keys = some jwk) :
    jwk ∈ keys ∧ ((kid ≠ none ∧ jwk.keyId = kid) ∨ (kid = none ∧ keys.length = 1)) := by
  refine ⟨List.mem_of_find?_eq_some h, ?_⟩
  have hfound := List.find?_some h
  cases kid with
  | none => exact .inr ⟨rfl, by simpa using hfound⟩
  | some kid =>
    refine .inl ⟨Option.some_ne_none kid, ?_⟩
    cases hkey : jwk.keyId with
    | none => simp [hkey] at hfound
    | some keyId => simp only [hkey, decide_eq_true_eq] at hfound; rw [hfound]

/-- What the check of a token has gone through when it succeeds. -/
theorem AuthState.validateJwtCached_eq_ok (h : auth.validateJwtCached J token = .ok ()) :
    ∃ keys kid jwk key alg, auth.jwks = .loaded keys ∧ J.decodeHeader token = .ok kid ∧
      findKey kid keys = some jwk ∧ J.fromJwk jwk = .ok key ∧
      jwk.keyAlgorithm.bind keyAlgorithmToJwtAlgorithm = some alg ∧ alg ∈ allowedAlgorithms ∧
      J.decode token key (auth.validation alg) = .ok () := by
  unfold validateJwtCached at h
  -- Each step of the check has to succeed for the next one to be reached.
  cases hkeys : auth.jwks with
  | refreshing => simp [hkeys, bind, Except.bind] at h
  | unloaded => simp [hkeys, bind, Except.bind] at h
  | loaded keys =>
  cases hkid : J.decodeHeader token with
  | error e => simp [hkeys, hkid, bind, Except.bind, Except.mapError] at h
  | ok kid =>
  simp only [hkeys, hkid, bind, Except.bind, Except.mapError] at h
  split_ifs at h
  cases hjwk : findKey kid keys with
  | none => simp [hjwk] at h
  | some jwk =>
  cases hkey : J.fromJwk jwk with
  | error e => simp [hjwk, hkey] at h
  | ok key =>
  cases halg : jwk.keyAlgorithm.bind keyAlgorithmToJwtAlgorithm with
  | none => simp [hjwk, hkey, halg] at h
  | some alg =>
  simp only [hjwk, hkey, halg] at h
  split_ifs at h with hallowed
  cases hdecode : J.decode token key (auth.validation alg) with
  | error e => simp [hdecode] at h
  | ok _ => exact ⟨keys, kid, jwk, key, alg, rfl, rfl, hjwk, hkey, halg, hallowed, hdecode⟩

/-- The algorithms a key of the issuer is used with are on the list, and none has a shared
secret. -/
theorem keyAlgorithmToJwtAlgorithm_eq_some {keyAlgorithm : KeyAlgorithm} {alg : Algorithm}
    (h : keyAlgorithmToJwtAlgorithm keyAlgorithm = some alg) :
    alg ∈ allowedAlgorithms ∧ alg.symmetric = false := by
  cases keyAlgorithm <;> cases h <;> exact ⟨by decide, rfl⟩

/-- A token that passes the check verifies under one of the cached keys. -/
theorem AuthState.validateJwtCached_verifies {Verifies : String → K → Algorithm → Prop}
    (hdecode : J.DecodeVerifies Verifies) (h : auth.validateJwtCached J token = .ok ()) :
    ∃ keys, auth.jwks = .loaded keys ∧ VerifiesUnder J Verifies keys token := by
  obtain ⟨keys, kid, jwk, key, alg, hkeys, hkid, hfound, hkey, halg, hallowed, hok⟩ :=
    validateJwtCached_eq_ok h
  obtain ⟨keyAlgorithm, hkeyAlgorithm, halg⟩ := Option.bind_eq_some_iff.1 halg
  obtain ⟨hmem, hmatch⟩ := findKey_eq_some hfound
  -- The validation admits the algorithm of the key and no other.
  obtain ⟨used, hused, hverifies⟩ := hdecode token key (auth.validation alg) hok
  obtain rfl : used = alg := List.mem_singleton.1 hused
  exact ⟨keys, hkeys, jwk, hmem, keyAlgorithm, used, key, hkeyAlgorithm, halg, hallowed,
    (keyAlgorithmToJwtAlgorithm_eq_some halg).2, hkey, hverifies, kid, hkid, hmatch⟩

/-- **Only authenticated callers are admitted**, and by both decisions alike. -/
theorem AuthState.check_admitted (J : Jwt M K) {Verifies : String → K → Algorithm → Prop}
    (hdecode : J.DecodeVerifies Verifies) (auth : AuthState M) (request : Request) :
    (auth.interceptor J request = (auth.check J request).map fun _ => request) ∧
      (auth.check J request = .ok () → Admitted J Verifies auth request) := by
  refine ⟨interceptor_eq auth request, fun h => ?_⟩
  rcases check_eq_ok_iff.1 h with hopen | ⟨token, htoken, hstatic | ⟨hissuer, hjwt⟩⟩
  · exact .inl hopen
  · exact .inr ⟨token, htoken, .inl (checkStaticTokens_iff.1 hstatic)⟩
  · exact .inr ⟨token, htoken, .inr ⟨Option.isSome_iff_ne_none.1 hissuer,
      validateJwtCached_verifies hdecode hjwt⟩⟩

/-- A library that knows one token, which has no key id. -/
def oneToken : Jwt Unit Unit where
  decodeHeader _ := .ok none
  fromJwk _ := .ok ()
  decode token _ validation :=
    if token = "t" ∧ .rs256 ∈ validation.algorithms then .ok () else .error "InvalidSignature"

/-- An issuer with a single key. -/
def oneKey : AuthState Unit where
  config := { tokens := [], oidcIssuer := some "https://issuer", oidcAudience := none }
  jwks := .loaded [{ keyId := some "k", keyAlgorithm := some .rs256, material := () }]

theorem AuthState.check_admitted_oneKey :
    oneKey.check oneToken ⟨[("authorization", "Bearer t".toUTF8.toList)]⟩ = .ok () ∧
      Admitted oneToken (fun token _ alg => token = "t" ∧ alg = .rs256) oneKey
        ⟨[("authorization", "Bearer t".toUTF8.toList)]⟩ := by
  have hok : oneKey.check oneToken ⟨[("authorization", "Bearer t".toUTF8.toList)]⟩ = .ok () := by
    decide +kernel
  refine ⟨hok, (check_admitted oneToken ?_ oneKey _).2 hok⟩
  intro token key validation hdecode
  by_cases h : token = "t" ∧ .rs256 ∈ validation.algorithms
  · exact ⟨.rs256, h.2, h.1, rfl⟩
  · simp [oneToken, h] at hdecode

end Admitted

end Wfe.Server
