import ProjectCache.Access.Authz

namespace Access

open Textual Nix Project Calendar Tables Store Db Programs Auth Ingest Depot SqliteDatabase

inductive WriteRequest where
  | service (request : Server.Request)
  | createAccessToken (name : Text) (project : ProjectSlug) (refPatterns : List Text)
    (expiresAt : Option OffsetDateTime)
  | revokeAccessToken (tokenId : Uuid)
  | upsertProjectOidcIdentity (project : ProjectSlug) (provider repository : Text)
    (refPatterns : List Text)
  | deleteProjectOidcIdentity (project : ProjectSlug) (provider repository : Text)

structure HttpRequest where
  authorization : Option Text
  request : WriteRequest

inductive WriteResponse where
  | service (response : Server.Response)
  | created (token : CreatedAccessToken)
  | ok
  | found (found : Bool)

structure WriteServer where
  server : Server
  authorizer : Authorizer

namespace WriteServer

variable [Base64] [WildMatch] [Sha256] (api : WriteServer)

def require (authorization : Option Text) : WriteRequest → Action Unit
  | .service (.beginBuild project refName _) => do
    let slug ← ofExcept (fun _ => .invalidProjectSlug project) (ProjectSlug.parse project)
    requireProjectRefHeaders api.authorizer authorization slug refName
  | .service (.registerPaths buildId _) | .service (.uploadObject buildId _ _ _)
  | .service (.completeMultipartUpload buildId _ _ _ _ _) | .service (.finalizeBuild buildId) =>
    requireBuildAccess api.authorizer authorization buildId
  | .service (.upsertPin _ project _ _) | .service (.deletePin _ project) =>
    requireProjectOrAdminHeaders api.authorizer authorization project
  | _ => requireAdminHeaders api.authorizer authorization

def carryOut : WriteRequest → Action WriteResponse
  | .service request => .service <$> api.server.program request
  | .createAccessToken name project refPatterns expiresAt =>
    .created <$> createAccessToken name project refPatterns expiresAt
  | .revokeAccessToken tokenId => .found <$> revokeAccessToken tokenId
  | .upsertProjectOidcIdentity project provider repository refPatterns =>
    (fun _ => .ok) <$> replaceProjectOidcIdentity project provider repository refPatterns
  | .deleteProjectOidcIdentity project provider repository =>
    .found <$> deleteProjectOidcIdentity project provider repository

def program (q : HttpRequest) : Action WriteResponse := do
  api.require q.authorization q.request
  api.carryOut q.request

end WriteServer

end Access
