import ProjectCache.Depot.Permitted

namespace Access

open Textual Nix Project Calendar Tables Store Db Programs Auth Depot SqliteDatabase

structure Authorizer where
  authorizeBearer : Option Text → Action AuthenticatedIdentity
  reads : ∀ bearerToken, (authorizeBearer bearerToken).Uses (fun c : Call => c.reads = true)

inductive AuthorizedScope where
  | admin
  | project (project : ProjectSlug) (refPatterns : List Text)
  deriving DecidableEq

structure AuthorizedPrincipal where
  identity : AuthenticatedIdentity
  scope : AuthorizedScope
  deriving DecidableEq

def refuse {A : Type} (error : AuthorizationServiceError) : Action A := fail (.authorization error)

def bearerFromHeaders (authorization : Option Text) : Option Text :=
  (authorization.bind (stripPrefix "Bearer ".toList)).map trim

def authenticationError : Error → Error
  | .auth .missingToken | .auth .invalidToken => .authorization .unauthorized
  | _ => .authorization .serviceUnavailable

def authenticateHeaders (authorizer : Authorizer) (authorization : Option Text) :
    Action AuthenticatedIdentity :=
  (authorizer.authorizeBearer (bearerFromHeaders authorization)).mapError authenticationError

def sortedRefPatterns (patterns : List Text) : List Text := (sortTexts patterns).dedup

def refPatternsFromOidcBindings (bindings : List ProjectOidcIdentityRecord) : List Text :=
  if bindings.any (fun binding => binding.refPattern.isNone) then []
  else sortedRefPatterns (bindings.filterMap ProjectOidcIdentityRecord.refPattern)

def refPatternsFromAccessTokenRecords (records : List AccessTokenRecord) : List Text :=
  if records.any (fun record => record.refPattern.isNone) then []
  else sortedRefPatterns (records.filterMap AccessTokenRecord.refPattern)

def matchingOidcBindings (identity : AuthenticatedIdentity) (oidc : OidcIdentity) :
    Action (List ProjectOidcIdentityRecord) := do
  let provider ← orFail identity.provider (.authorization .forbidden)
  let repository ← orFail oidc.repository (.authorization .forbidden)
  (listMatchingProjectOidcIdentities provider repository).mapError
    (fun _ => .authorization .serviceUnavailable)

def activeAccessTokenRecords (tokenId : Uuid) : Action (List AccessTokenRecord) := do
  let records ← (listActiveAccessTokenRecordsById tokenId).mapError
    (fun _ => .authorization .serviceUnavailable)
  if records = [] then refuse .unauthorized
  else return records

def principalOfBindings (identity : AuthenticatedIdentity) (project : ProjectSlug)
    (bindings : List ProjectOidcIdentityRecord) : Action AuthorizedPrincipal :=
  if bindings = [] then refuse .forbidden
  else return ⟨identity, .project project (refPatternsFromOidcBindings bindings)⟩

def principalOfRecords (identity : AuthenticatedIdentity) (project : ProjectSlug)
    (records : List AccessTokenRecord) : Action AuthorizedPrincipal :=
  if records = [] then refuse .forbidden
  else return ⟨identity, .project project (refPatternsFromAccessTokenRecords records)⟩

def authorizeAdmin (identity : AuthenticatedIdentity) : Action AuthorizedPrincipal :=
  match identity.kind with
  | .bootstrapAdmin => return ⟨identity, .admin⟩
  | .oidc _ | .accessToken _ => refuse .forbidden

def authorizeOidcProject (identity : AuthenticatedIdentity) (oidc : OidcIdentity)
    (project : ProjectSlug) : Action AuthorizedPrincipal := do
  let bindings ← matchingOidcBindings identity oidc
  principalOfBindings identity project
    (bindings.filter (fun binding => binding.projectSlug = project))

def authorizeAccessTokenProject (identity : AuthenticatedIdentity) (tokenId : Uuid)
    (project : ProjectSlug) : Action AuthorizedPrincipal := do
  let records ← activeAccessTokenRecords tokenId
  principalOfRecords identity project (records.filter (fun record => record.projectSlug = project))

def authorizeProject (identity : AuthenticatedIdentity) (project : ProjectSlug) :
    Action AuthorizedPrincipal :=
  match identity.kind with
  | .bootstrapAdmin => return ⟨identity, .admin⟩
  | .oidc oidc => authorizeOidcProject identity oidc project
  | .accessToken token => authorizeAccessTokenProject identity token.tokenId project

section

variable [WildMatch]

def refPatternMatches (pattern refName : Option Text) : Bool :=
  match pattern with
  | none => true
  | some pattern => refName.any (WildMatch.isMatch pattern)

def authorizeOidcProjectRef (identity : AuthenticatedIdentity) (oidc : OidcIdentity)
    (project : ProjectSlug) (refName : Text) : Action AuthorizedPrincipal :=
  if oidc.refName.any (· ≠ refName) then refuse .forbidden
  else do
    let bindings ← matchingOidcBindings identity oidc
    principalOfBindings identity project
      ((bindings.filter (fun binding => binding.projectSlug = project)).filter
        (fun binding => refPatternMatches binding.refPattern oidc.refName))

def authorizeAccessTokenProjectRef (identity : AuthenticatedIdentity) (tokenId : Uuid)
    (project : ProjectSlug) (refName : Text) : Action AuthorizedPrincipal := do
  let records ← activeAccessTokenRecords tokenId
  principalOfRecords identity project
    ((records.filter (fun record => record.projectSlug = project)).filter
      (fun record => refPatternMatches record.refPattern (some refName)))

def authorizeProjectRef (identity : AuthenticatedIdentity) (project : ProjectSlug)
    (refName : Text) : Action AuthorizedPrincipal :=
  match identity.kind with
  | .bootstrapAdmin => return ⟨identity, .admin⟩
  | .oidc oidc => authorizeOidcProjectRef identity oidc project refName
  | .accessToken token => authorizeAccessTokenProjectRef identity token.tokenId project refName

end

variable (authorizer : Authorizer) (authorization : Option Text)

def requireAdminHeaders : Action Unit := do
  let identity ← authenticateHeaders authorizer authorization
  let _ ← authorizeAdmin identity
  return ()

def requireProjectOrAdminHeaders (project : Option ProjectSlug) : Action Unit := do
  let identity ← authenticateHeaders authorizer authorization
  let _ ← match project with
    | some project => authorizeProject identity project
    | none => authorizeAdmin identity
  return ()

def requireProjectRefHeaders [WildMatch] (project : ProjectSlug) (refName : Text) :
    Action Unit := do
  let identity ← authenticateHeaders authorizer authorization
  let _ ← authorizeProjectRef identity project refName
  return ()

def requireBuildAccess [WildMatch] (buildId : Uuid) : Action Unit := do
  let context ← getBuildContext buildId
  let context ← orFail context (.buildNotFound buildId)
  requireProjectRefHeaders authorizer authorization context.projectSlug context.refName

end Access
