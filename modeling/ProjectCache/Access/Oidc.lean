import ProjectCache.Core.Auth
import ProjectCache.Db.Retention
import ProjectCache.Lib.Rely

namespace Oidc

open Textual Auth Db Programs

-- What serde_json reads; an object has each name once.
inductive Value where
  | null
  | bool (value : Bool)
  | number (text : Text)
  | string (value : Text)
  | array (values : List Value)
  | object (fields : List (Text × Value))

namespace Value

def asStr : Value → Option Text
  | string value => some value
  | _ => none

def asObject : Value → Option (List (Text × Value))
  | object fields => some fields
  | _ => none

end Value

abbrev Claims := List (Text × Value)

namespace Claims

def get (claims : Claims) (name : Text) : Option Value :=
  (claims.find? (fun field => field.1 = name)).map Prod.snd

end Claims

class JsonText where
  toText : Value → Text

inductive OidcClaimsError where
  | missingClaim (claim : Text)
  | claimMismatch (claim : Text) (values allowedPatterns : List Text)
  | subjectMismatch (subject : Text) (allowedPatterns : List Text)
  deriving DecidableEq

def descend (current : Value) : List Text → Option Value
  | [] => some current
  | part :: parts => do
    let fields ← current.asObject
    let value ← Claims.get fields part
    descend value parts

def getClaim (claims : Claims) (name : Text) : Option Value :=
  match claims.get name with
  | some value => some value
  | none =>
    match name.splitOn '.' with
    | first :: second :: rest => do
      let current ← claims.get first
      descend current (second :: rest)
    | _ => none

def getStringClaim (claims : Claims) (name : Text) : Option Text :=
  (getClaim claims name).bind Value.asStr

section

variable [JsonText] [WildMatch]

def normalizeToStringVec : Value → List Text
  | .string value => [value]
  | .array values => values.filterMap Value.asStr
  | .null => []
  | other => [JsonText.toText other]

def validateBoundClaims (claims : Claims) : List (Text × List Text) → Except OidcClaimsError Unit
  | [] => .ok ()
  | (claimName, allowedPatterns) :: rest =>
    match getClaim claims claimName with
    | none => .error (.missingClaim claimName)
    | some value =>
      let values := normalizeToStringVec value
      if values = [] then .error (.missingClaim claimName)
      else if values.any (fun value =>
          allowedPatterns.any (fun pattern => WildMatch.isMatch pattern value)) then
        validateBoundClaims claims rest
      else .error (.claimMismatch claimName values allowedPatterns)

omit [JsonText] in
def validateBoundSubject (claims : Claims) (boundSubject : List Text) :
    Except OidcClaimsError Unit :=
  if boundSubject = [] then .ok ()
  else
    match getStringClaim claims "sub".toList with
    | none => .error (.missingClaim "sub".toList)
    | some subject =>
      if boundSubject.any (fun pattern => WildMatch.isMatch pattern subject) then .ok ()
      else .error (.subjectMismatch subject boundSubject)

end

structure OidcProviderConfig where
  issuer : Text
  audience : Text
  repositoryClaim : Option Text
  refClaim : Option Text
  boundClaims : List (Text × List Text)
  boundSubject : List Text
  deriving DecidableEq

structure OidcConfig where
  providers : List (Text × OidcProviderConfig)
  allowInsecure : Bool
  ordered : providers.Pairwise (fun a b => a.1 < b.1)

theorem OidcConfig.provider_unique (config : OidcConfig) {name : Text} {a b : OidcProviderConfig}
    (ha : (name, a) ∈ config.providers) (hb : (name, b) ∈ config.providers) : a = b := by
  have hinj := List.inj_on_of_nodup_map
    (List.pairwise_map.mpr (config.ordered.imp (fun h => ne_of_lt h)) :
      (config.providers.map Prod.fst).Nodup)
  exact (Prod.mk.inj (hinj ha hb rfl)).2

structure Url where
  scheme : Text
  host : Option Text
  deriving DecidableEq

-- The parser of the url crate, with the text of its error.
class UrlParser where
  parse : Text → Except Text Url

inductive OidcConfigError where
  | noProviders
  | missingIssuer (provider : Text)
  | invalidIssuer (provider issuer message : Text)
  | relativeIssuer (provider issuer : Text)
  | insecureIssuer (provider issuer : Text)
  | missingAudience (provider : Text)
  | emptyClaimName (provider field : Text)
  | duplicateIssuer (provider existing : Text)
  deriving DecidableEq

namespace OidcConfig

def checkClaimName (name field : Text) (claimName : Option Text) : Except OidcConfigError Unit :=
  if claimName.any (fun claimName => trim claimName = []) then .error (.emptyClaimName name field)
  else .ok ()

section

variable [UrlParser]

def checkProvider (allowInsecure : Bool) (name : Text) (provider : OidcProviderConfig) :
    Except OidcConfigError Unit := do
  if trim provider.issuer = [] then throw (.missingIssuer name)
  let issuer ← (UrlParser.parse provider.issuer).mapError (.invalidIssuer name provider.issuer)
  if issuer.scheme = [] ∨ issuer.host = none then throw (.relativeIssuer name provider.issuer)
  if issuer.scheme ≠ "https".toList ∧ ¬ allowInsecure then
    throw (.insecureIssuer name provider.issuer)
  if trim provider.audience = [] then throw (.missingAudience name)
  checkClaimName name "repository_claim".toList provider.repositoryClaim
  checkClaimName name "ref_claim".toList provider.refClaim

def checkProviders (allowInsecure : Bool) (issuers : List (Text × Text)) :
    List (Text × OidcProviderConfig) → Except OidcConfigError Unit
  | [] => .ok ()
  | (name, provider) :: rest => do
    checkProvider allowInsecure name provider
    match issuers.find? (fun seen => seen.1 = provider.issuer) with
    | some (_, existing) => throw (.duplicateIssuer name existing)
    | none => checkProviders allowInsecure ((provider.issuer, name) :: issuers) rest

def validate (config : OidcConfig) : Except OidcConfigError Unit :=
  if config.providers = [] then .error .noProviders
  else checkProviders config.allowInsecure [] config.providers

end

def providerForIssuer (config : OidcConfig) (issuer : Text) : Option (Text × OidcProviderConfig) :=
  config.providers.find? (fun p => p.2.issuer = issuer)

end OidcConfig

structure DiscoveryDocument where
  issuer : Text
  jwksUri : Text
  deriving DecidableEq

structure Jwk where
  keyId : Option Text
  members : Text
  deriving DecidableEq

structure CachedProviderState where
  discovery : DiscoveryDocument
  jwks : List Jwk
  deriving DecidableEq

structure Validation where
  audience : List Text
  issuer : List Text
  validateExp : Bool
  validateNbf : Bool
  deriving DecidableEq

-- What the base64, serde_json and jsonwebtoken crates decode; a token is decoded with RS256 and
-- at a moment, in seconds.
class Jose where
  DecodingKey : Type
  urlSafeNoPad : Text → Option (List UInt8)
  urlSafe : Text → Option (List UInt8)
  parseValue : List UInt8 → Option Value
  parseDiscovery : Text → Option DiscoveryDocument
  parseJwks : Text → Option (List Jwk)
  decodeHeader : Text → Option (Option Text)
  fromJwk : Jwk → Option DecodingKey
  decode : Text → DecodingKey → Validation → Nat → Option Value

inductive Call where
  | readCache (provider : Text)
  | writeCache (provider : Text) (state : CachedProviderState)
  | fetchText (url : Text)
  | now
  deriving DecidableEq

@[reducible] def Call.Reply : Call → Type
  | readCache _ => Option CachedProviderState
  | writeCache _ _ => Unit
  | fetchText _ => Text
  | now => Nat

@[reducible] def Interface : Programs.Interface where
  Call := Call
  Reply := Call.Reply
  Error := AuthError

abbrev Action (A : Type) := Prog Interface A

def perform (c : Call) : Action c.Reply := Prog.perform (I := Interface) c

def orFail {A : Type} (value : Option A) (error : AuthError) : Action A :=
  .done (value.elim (.error error) .ok)

section

variable [Jose]

def decodeClaimsUnverified (token : Text) : Option Claims :=
  match token.splitOn '.' with
  | _ :: claims :: _ :: _ => do
    let decoded ← (Jose.urlSafeNoPad claims).orElse (fun _ => Jose.urlSafe claims)
    let value ← Jose.parseValue decoded
    value.asObject
  | _ => none

def selectJwk (jwks : List Jwk) (kid : Text) : Option Jwk :=
  jwks.find? (fun jwk => jwk.keyId = some kid)

def discoveryUrl (provider : OidcProviderConfig) : Text :=
  trimEndMatches (· = '/') provider.issuer ++ "/.well-known/openid-configuration".toList

def fetchDiscovery (provider : OidcProviderConfig) : Action DiscoveryDocument := do
  let body ← perform (.fetchText (discoveryUrl provider))
  let discovery ← orFail (Jose.parseDiscovery body) .unavailable
  if discovery.issuer ≠ provider.issuer then Prog.fail .invalidToken
  else return discovery

def fetchJwks (jwksUri : Text) : Action (List Jwk) := do
  let body ← perform (.fetchText jwksUri)
  orFail (Jose.parseJwks body) .unavailable

def refreshProviderState (name : Text) (provider : OidcProviderConfig) :
    Action CachedProviderState := do
  let discovery ← fetchDiscovery provider
  let jwks ← fetchJwks discovery.jwksUri
  perform (.writeCache name ⟨discovery, jwks⟩)
  return ⟨discovery, jwks⟩

def cachedOrFetchProviderState (name : Text) (provider : OidcProviderConfig) :
    Action CachedProviderState := do
  match ← perform (.readCache name) with
  | some state => return state
  | none => refreshProviderState name provider

def providerStateFor (name : Text) (provider : OidcProviderConfig) (kid : Text) :
    Action CachedProviderState := do
  let cached ← cachedOrFetchProviderState name provider
  if (selectJwk cached.jwks kid).isNone then refreshProviderState name provider
  else return cached

def identityOf [JsonText] [WildMatch] (name : Text) (provider : OidcProviderConfig) (issuer : Text)
    (claims : Claims) : Option AuthenticatedIdentity := do
  (validateBoundSubject claims provider.boundSubject).toOption
  (validateBoundClaims claims provider.boundClaims).toOption
  let subject ← getStringClaim claims "sub".toList
  let repository := getStringClaim claims (provider.repositoryClaim.getD "repository".toList)
  let refName := getStringClaim claims (provider.refClaim.getD "ref".toList)
  return ⟨subject, some name, .oidc ⟨issuer, repository, refName⟩⟩

def keyValidation (provider : OidcProviderConfig) (discovery : DiscoveryDocument) : Validation :=
  ⟨[provider.audience], [discovery.issuer], true, true⟩

def OidcAuthorizer.authorizeBearer [JsonText] [WildMatch] (config : OidcConfig)
    (bearerToken : Option Text) : Action AuthenticatedIdentity := do
  let token ← orFail bearerToken .missingToken
  let unverifiedClaims ← orFail (decodeClaimsUnverified token) .invalidToken
  let issuer ← orFail (getStringClaim unverifiedClaims "iss".toList) .invalidToken
  let (name, provider) ← orFail (config.providerForIssuer issuer) .invalidToken
  let header ← orFail (Jose.decodeHeader token) .invalidToken
  let kid ← orFail header .invalidToken
  let providerState ← providerStateFor name provider kid
  let jwk ← orFail (selectJwk providerState.jwks kid) .invalidToken
  let decodingKey ← orFail (Jose.fromJwk jwk) .invalidToken
  let now ← perform .now
  let verified ← orFail
    (Jose.decode token decodingKey (keyValidation provider providerState.discovery) now)
    .invalidToken
  let claims ← orFail verified.asObject .invalidToken
  orFail (identityOf name provider providerState.discovery.issuer claims) .invalidToken

end

def StaticTokenAuthorizer.authorizeBearer (configuredToken bearerToken : Option Text) :
    Action AuthenticatedIdentity := do
  let configured ← orFail configuredToken .disabled
  let provided ← orFail bearerToken .missingToken
  if provided = configured then return AuthenticatedIdentity.bootstrapAdmin
  else Prog.fail .invalidToken

structure Seen where
  enabled : Bool
  missing : Bool
  invalid : Bool
  unavailable : Bool
  deriving DecidableEq

namespace Seen

def nothing : Seen := ⟨false, false, false, false⟩

def meet (seen : Seen) : AuthError → Seen
  | .disabled => seen
  | .missingToken => { seen with enabled := true, missing := true }
  | .invalidToken => { seen with enabled := true, invalid := true }
  | .unavailable => { seen with enabled := true, unavailable := true }

def error (seen : Seen) : AuthError :=
  if ¬ seen.enabled then .disabled
  else if seen.unavailable then .unavailable
  else if seen.invalid then .invalidToken
  else if seen.missing then .missingToken
  else .disabled

end Seen

def ChainAuthorizer.authorizeBearer (bearerToken : Option Text) (seen : Seen) :
    List (Option Text → Action AuthenticatedIdentity) → Action AuthenticatedIdentity
  | [] => Prog.fail seen.error
  | authorizer :: rest => do
    match ← (authorizer bearerToken).attempt with
    | .ok identity => return identity
    | .error x => authorizeBearer bearerToken (seen.meet x) rest

def buildDefaultAuthorizer [Jose] [JsonText] [WildMatch] (writeToken : Option Text)
    (oidc : Option OidcConfig) (bearerToken : Option Text) : Action AuthenticatedIdentity :=
  ChainAuthorizer.authorizeBearer bearerToken .nothing
    (StaticTokenAuthorizer.authorizeBearer writeToken ::
      oidc.toList.map OidcAuthorizer.authorizeBearer)

structure Env where
  response : Text → Option Text
  now : Nat

structure World where
  cache : Text → Option CachedProviderState
  served : List (Text × Text)

def World.empty : World := ⟨fun _ => none, []⟩

def answer : (c : Call) → Env → World → World × Except AuthError c.Reply
  | .readCache provider, _, w => (w, .ok (w.cache provider))
  | .writeCache provider state, _, w =>
    ({ w with cache := fun name => if name = provider then some state else w.cache name }, .ok ())
  | .fetchText url, e, w =>
    match e.response url with
    | some body => ({ w with served := w.served ++ [(url, body)] }, .ok body)
    | none => (w, .error .unavailable)
  | .now, e, w => (w, .ok e.now)

@[reducible] def machine : Machine Interface where
  State := World
  Env := Env
  answer := answer

end Oidc
