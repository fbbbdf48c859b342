import ProjectCache.Core.Project

namespace Auth

open Textual Project

inductive AuthError where
  | disabled
  | unavailable
  | missingToken
  | invalidToken
  deriving DecidableEq, Repr

structure OidcIdentity where
  issuer : Text
  repository : Option Text
  refName : Option Text
  deriving DecidableEq

structure AccessTokenIdentity where
  tokenId : Uuid
  deriving DecidableEq

inductive IdentityKind where
  | bootstrapAdmin
  | oidc (identity : OidcIdentity)
  | accessToken (identity : AccessTokenIdentity)
  deriving DecidableEq

structure AuthenticatedIdentity where
  subject : Text
  provider : Option Text
  kind : IdentityKind
  deriving DecidableEq

def AuthenticatedIdentity.bootstrapAdmin : AuthenticatedIdentity :=
  ⟨"static-token".toList, some "static-token".toList, .bootstrapAdmin⟩

def AuthenticatedIdentity.accessToken (tokenId : Uuid) (subject : Text) : AuthenticatedIdentity :=
  ⟨subject, some "access-token".toList, .accessToken ⟨tokenId⟩⟩

inductive AuthorizationServiceError where
  | serviceUnavailable
  | unauthorized
  | forbidden
  deriving DecidableEq, Repr

end Auth
