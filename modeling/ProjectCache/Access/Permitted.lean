import ProjectCache.Access.Api

namespace Access

open Textual Nix Project Calendar Tables Store Db Programs Auth Ingest Depot SqliteDatabase

section

variable [WildMatch] {allowed : Call → Prop} (hr : ∀ c : Call, c.reads = true → allowed c)

include hr

omit [WildMatch] in
theorem uses_authenticateHeaders (authorizer : Authorizer) (authorization : Option Text) :
    (authenticateHeaders authorizer authorization).Uses allowed :=
  ((authorizer.reads _).mono (fun c h => hr c h)).mapError _

omit [WildMatch] in
theorem uses_matchingOidcBindings (identity : AuthenticatedIdentity) (oidc : OidcIdentity) :
    (matchingOidcBindings identity oidc).Uses allowed :=
  (uses_orFail _ _).bind (fun _ => (uses_orFail _ _).bind (fun _ => (uses_select hr _).mapError _))

omit [WildMatch] in
theorem uses_activeAccessTokenRecords (tokenId : Uuid) :
    (activeAccessTokenRecords tokenId).Uses allowed := by
  have hlist : (listActiveAccessTokenRecordsById tokenId).Uses allowed :=
    (uses_reading hr rfl).bind (fun _ => uses_select hr _)
  refine (hlist.mapError _).bind (fun records => ?_)
  split <;> trivial

omit [WildMatch] hr in
theorem uses_principalOfBindings (identity : AuthenticatedIdentity) (project : ProjectSlug)
    (bindings : List ProjectOidcIdentityRecord) :
    (principalOfBindings identity project bindings).Uses allowed := by
  unfold principalOfBindings
  split <;> trivial

omit [WildMatch] hr in
theorem uses_principalOfRecords (identity : AuthenticatedIdentity) (project : ProjectSlug)
    (records : List AccessTokenRecord) :
    (principalOfRecords identity project records).Uses allowed := by
  unfold principalOfRecords
  split <;> trivial

omit [WildMatch] hr in
theorem uses_authorizeAdmin (identity : AuthenticatedIdentity) :
    (authorizeAdmin identity).Uses allowed := by
  unfold authorizeAdmin
  split <;> trivial

omit [WildMatch] in
theorem uses_authorizeProject (identity : AuthenticatedIdentity) (project : ProjectSlug) :
    (authorizeProject identity project).Uses allowed := by
  unfold authorizeProject
  split
  · trivial
  · exact (uses_matchingOidcBindings hr _ _).bind (fun _ => uses_principalOfBindings _ _ _)
  · exact (uses_activeAccessTokenRecords hr _).bind (fun _ => uses_principalOfRecords _ _ _)

theorem uses_authorizeProjectRef (identity : AuthenticatedIdentity) (project : ProjectSlug)
    (refName : Text) : (authorizeProjectRef identity project refName).Uses allowed := by
  unfold authorizeProjectRef
  split
  · trivial
  · unfold authorizeOidcProjectRef
    split
    · trivial
    · exact (uses_matchingOidcBindings hr _ _).bind (fun _ => uses_principalOfBindings _ _ _)
  · exact (uses_activeAccessTokenRecords hr _).bind (fun _ => uses_principalOfRecords _ _ _)

theorem uses_requireProjectRefHeaders (authorizer : Authorizer) (authorization : Option Text)
    (project : ProjectSlug) (refName : Text) :
    (requireProjectRefHeaders authorizer authorization project refName).Uses allowed :=
  (uses_authenticateHeaders hr _ _).bind (fun _ =>
    (uses_authorizeProjectRef hr _ _ _).bind (fun _ => trivial))

theorem uses_requireBuildAccess (authorizer : Authorizer) (authorization : Option Text)
    (buildId : Uuid) : (requireBuildAccess authorizer authorization buildId).Uses allowed :=
  (uses_select hr _).bind (fun _ => (uses_orFail _ _).bind (fun _ =>
    uses_requireProjectRefHeaders hr _ _ _ _))

theorem uses_require [Base64] [Sha256] (api : WriteServer) (authorization : Option Text)
    (request : WriteRequest) : (api.require authorization request).Uses allowed := by
  have hadmin : (requireAdminHeaders api.authorizer authorization).Uses allowed :=
    (uses_authenticateHeaders hr _ _).bind (fun _ =>
      (uses_authorizeAdmin _).bind (fun _ => trivial))
  have hpin : ∀ project,
      (requireProjectOrAdminHeaders api.authorizer authorization project).Uses allowed := by
    intro project
    refine (uses_authenticateHeaders hr _ _).bind (fun identity => ?_)
    cases project with
    | none => exact (uses_authorizeAdmin _).bind (fun _ => trivial)
    | some project => exact (uses_authorizeProject hr _ _).bind (fun _ => trivial)
  have hbuild : ∀ b, (requireBuildAccess api.authorizer authorization b).Uses allowed :=
    fun b => uses_requireBuildAccess hr _ _ b
  cases request with
  | service request =>
    cases request with
    | beginBuild project refName revision =>
      exact (uses_ofExcept _ _).bind (fun _ => uses_requireProjectRefHeaders hr _ _ _ _)
    | registerPaths b _ | uploadObject b _ _ _ | completeMultipartUpload b _ _ _ _ _
    | finalizeBuild b => exact hbuild b
    | upsertPin _ project _ _ | deletePin _ project => exact hpin project
    | _ => exact hadmin
  | _ => exact hadmin

end

namespace WriteServer

variable [Base64] [WildMatch] [Sha256] (api : WriteServer)

inductive Makes : WriteRequest → Call → Prop
  | reads {request : WriteRequest} {c : Call} (h : c.reads = true) : Makes request c
  | service {request : Server.Request} {c : Call} (h : api.server.Makes request c) :
    Makes (.service request) c
  | insertAccessToken {name : Text} {project : ProjectSlug} {refPatterns : List Text}
    {expiresAt : Option OffsetDateTime} (id : Uuid) (tokenHash : Text) (projectId : Uuid) :
    Makes (.createAccessToken name project refPatterns expiresAt)
      (.insertAccessToken id tokenHash (trim name) projectId expiresAt
        (normalizePatterns refPatterns))
  | revokeAccessToken {tokenId : Uuid} (revokedAt : UtcDateTime) :
    Makes (.revokeAccessToken tokenId) (.revokeAccessToken tokenId revokedAt)
  | replaceOidcIdentity {project : ProjectSlug} {provider repository : Text}
    {refPatterns : List Text} (projectId : Uuid) :
    Makes (.upsertProjectOidcIdentity project provider repository refPatterns)
      (.replaceOidcIdentity projectId (trim provider) (trim repository)
        (normalizedPatterns refPatterns))
  | deleteOidcIdentity {project : ProjectSlug} {provider repository : Text} (projectId : Uuid) :
    Makes (.deleteProjectOidcIdentity project provider repository)
      (.deleteOidcIdentity projectId (trim provider) (trim repository))

theorem carryOut_uses (request : WriteRequest) :
    (api.carryOut request).Uses (api.Makes request) := by
  have hr : ∀ c : Call, c.reads = true → api.Makes request c := fun _ => .reads
  cases request with
  | service request =>
    refine Prog.Uses.bind ?_ (fun _ => trivial)
    exact (api.server.program_uses request).mono (fun _ => .service)
  | createAccessToken name project refPatterns expiresAt =>
    refine Prog.Uses.bind ?_ (fun _ => trivial)
    unfold createAccessToken
    split
    · trivial
    refine (uses_projectIdBySlug hr project).bind
      (fun _ => (uses_reading hr rfl).bind (fun _ => ?_))
    have hgenerate : generateAccessToken.Uses
        (api.Makes (.createAccessToken name project refPatterns expiresAt)) :=
      (uses_reading hr rfl).bind (fun _ => (uses_reading hr rfl).bind (fun _ => trivial))
    refine hgenerate.bind (fun _ => ?_)
    exact (Prog.uses_perform (.insertAccessToken _ _ _)).bind (fun _ =>
      (uses_select hr _).bind (fun _ => trivial))
  | revokeAccessToken tokenId =>
    refine Prog.Uses.bind ?_ (fun _ => trivial)
    exact (uses_reading hr rfl).bind (fun _ => Prog.uses_perform (.revokeAccessToken _))
  | upsertProjectOidcIdentity project provider repository refPatterns =>
    refine Prog.Uses.bind ?_ (fun _ => trivial)
    unfold replaceProjectOidcIdentity
    split
    · trivial
    split
    · trivial
    exact (uses_projectIdBySlug hr project).bind (fun _ =>
      Prog.uses_perform (.replaceOidcIdentity _))
  | deleteProjectOidcIdentity project provider repository =>
    refine Prog.Uses.bind ?_ (fun _ => trivial)
    exact (uses_projectIdBySlug hr project).bind (fun _ =>
      Prog.uses_perform (.deleteOidcIdentity _))

theorem program_uses (q : HttpRequest) : (api.program q).Uses (api.Makes q.request) :=
  (uses_require (fun _ => .reads) api _ _).bind (fun _ => api.carryOut_uses q.request)

variable {api}

omit [WildMatch] [Sha256] in
theorem Makes.publishes {request : WriteRequest} {p b : Uuid} {name : Text} {t : UtcDateTime}
    (h : api.Makes request (.publishBuild p name b t)) :
    request = .service (.finalizeBuild b) := by
  cases h with
  | reads h => cases h
  | service h =>
    cases h with
    | reads h => cases h
    | publishBuild => rfl

end WriteServer

end Access
