import ProjectCache.Lib.Table
import ProjectCache.Store.Backend

namespace Db

open Textual Nix Project Calendar Tables Store

-- The texts of strftime('%Y-%m-%dT%H:%M:%fZ', 'now').
structure SqliteTime where
  civil : CivilTime
  millisecond : Nat
  millisecond_lt : millisecond < 1000
  deriving DecidableEq

namespace SqliteTime

def whole (civil : CivilTime) : SqliteTime := ⟨civil, 0, by decide⟩

def text (t : SqliteTime) : Text := t.civil.format ++ '.' :: (pad 3 t.millisecond ++ ['Z'])

def instant (t : SqliteTime) : Int := (t.civil.seconds * 1000 + t.millisecond) * 1000000

-- Counted from year 0, where SQLite counts from 1970; only differences are used.
def unixepoch (t : SqliteTime) : Int := t.civil.seconds

end SqliteTime

inductive BuildStatus where
  | pending
  | finalized
  deriving DecidableEq, Repr

structure ProjectRow where
  id : Uuid
  slug : ProjectSlug
  displayName : Text
  isPublic : Bool
  storageId : StorageId
  deriving DecidableEq

structure UpstreamCacheRow where
  id : Uuid
  name : Text
  baseUrl : Text
  priority : UInt32
  enabled : Bool
  deriving DecidableEq

structure ProjectUpstreamRow where
  projectId : Uuid
  upstreamId : Uuid
  deriving DecidableEq

-- The rows of path_references and path_signatures belong to one row of path_infos and are
-- written with it; they stand here in the order of their ordinals.
structure PathInfoRow where
  storePathHash : StorePathHash
  storePath : Text
  url : Text
  compression : Text
  narHash : Text
  narSize : UInt64
  deriver : Option Text
  ca : Option Text
  references : List Text
  signatures : List Text
  deriving DecidableEq

structure StorageObjectRow where
  storageId : StorageId
  objectPath : Text
  metadata : BlobMetadata
  deletedAt : Option SqliteTime
  firstDeletedAt : Option SqliteTime
  deriving DecidableEq

structure BuildRow where
  id : Uuid
  projectId : Uuid
  refName : Text
  revision : Option Text
  status : BuildStatus
  createdAt : SqliteTime
  finalizedAt : Option UtcDateTime
  deriving DecidableEq

structure BuildPathRow where
  buildId : Uuid
  storePathHash : StorePathHash
  deriving DecidableEq

structure ProjectRefRow where
  projectId : Uuid
  refName : Text
  buildId : Uuid
  updatedAt : SqliteTime
  deriving DecidableEq

structure PathObjectRow where
  storePathHash : StorePathHash
  objectPath : Text
  kind : PathObjectKind
  deriving DecidableEq

-- The key of a project's pins is the project's id; GLOBAL_SCOPE_KEY is no project's id.
inductive PinScope where
  | global
  | project (id : Uuid)
  deriving DecidableEq

structure PinRow where
  scopeKey : PinScope
  name : Text
  projectId : Option Uuid
  storePathHash : StorePathHash
  storePath : Text
  deriving DecidableEq

structure RetentionPolicyRow where
  projectId : Uuid
  keepLatestBuildsPerRef : UInt32
  objectDeleteGraceSeconds : UInt64
  deriving DecidableEq

structure RetentionRuleRow where
  id : Uuid
  projectId : Uuid
  priority : UInt32
  refPattern : Text
  ttlSeconds : Option UInt64
  keepBuilds : Option UInt32
  deriving DecidableEq

structure AccessTokenRow where
  id : Uuid
  tokenHash : Text
  name : Text
  projectId : Uuid
  createdAt : SqliteTime
  expiresAt : Option OffsetDateTime
  revokedAt : Option UtcDateTime
  deriving DecidableEq

structure AccessTokenRefPatternRow where
  tokenId : Uuid
  refPattern : Text
  deriving DecidableEq

structure ProjectOidcIdentityRow where
  projectId : Uuid
  provider : Text
  repository : Text
  refPattern : Text
  deriving DecidableEq

structure ProjectSigningKeyRow where
  id : Uuid
  projectId : Uuid
  name : Text
  publicKey : Text
  encryptedPrivateKey : Text
  nonce : Text
  retiredAt : Option SqliteTime
  deriving DecidableEq

instance : Keyed ProjectRow where
  clash := fun a b => a.id = b.id || a.slug = b.slug
  clash_comm := fun a b => by simp [eq_comm]
  clash_self := fun a => by simp

instance : Keyed UpstreamCacheRow where
  clash := fun a b => a.id = b.id || a.name = b.name
  clash_comm := fun a b => by simp [eq_comm]
  clash_self := fun a => by simp

instance : Keyed ProjectUpstreamRow where
  clash := fun a b => a.projectId = b.projectId && a.upstreamId = b.upstreamId
  clash_comm := fun a b => by simp [eq_comm]
  clash_self := fun a => by simp

instance : Keyed PathInfoRow where
  clash := fun a b => a.storePathHash = b.storePathHash || a.storePath = b.storePath
  clash_comm := fun a b => by simp [eq_comm]
  clash_self := fun a => by simp

instance : Keyed StorageObjectRow where
  clash := fun a b => a.storageId = b.storageId && a.objectPath = b.objectPath
  clash_comm := fun a b => by simp [eq_comm]
  clash_self := fun a => by simp

instance : Keyed BuildRow where
  clash := fun a b => a.id = b.id
  clash_comm := fun a b => by simp [eq_comm]
  clash_self := fun a => by simp

instance : Keyed BuildPathRow where
  clash := fun a b => a.buildId = b.buildId && a.storePathHash = b.storePathHash
  clash_comm := fun a b => by simp [eq_comm]
  clash_self := fun a => by simp

instance : Keyed ProjectRefRow where
  clash := fun a b => a.projectId = b.projectId && a.refName = b.refName
  clash_comm := fun a b => by simp [eq_comm]
  clash_self := fun a => by simp

instance : Keyed PathObjectRow where
  clash := fun a b => a.storePathHash = b.storePathHash && a.objectPath = b.objectPath &&
    a.kind = b.kind
  clash_comm := fun a b => by simp [eq_comm]
  clash_self := fun a => by simp

instance : Keyed PinRow where
  clash := fun a b => a.scopeKey = b.scopeKey && a.name = b.name
  clash_comm := fun a b => by simp [eq_comm]
  clash_self := fun a => by simp

instance : Keyed RetentionPolicyRow where
  clash := fun a b => a.projectId = b.projectId
  clash_comm := fun a b => by simp [eq_comm]
  clash_self := fun a => by simp

instance : Keyed RetentionRuleRow where
  clash := fun a b => a.id = b.id || (a.projectId = b.projectId && a.priority = b.priority)
  clash_comm := fun a b => by simp [eq_comm]
  clash_self := fun a => by simp

instance : Keyed AccessTokenRow where
  clash := fun a b => a.id = b.id || a.tokenHash = b.tokenHash
  clash_comm := fun a b => by simp [eq_comm]
  clash_self := fun a => by simp

instance : Keyed AccessTokenRefPatternRow where
  clash := fun a b => a.tokenId = b.tokenId && a.refPattern = b.refPattern
  clash_comm := fun a b => by simp [eq_comm]
  clash_self := fun a => by simp

instance : Keyed ProjectOidcIdentityRow where
  clash := fun a b => a.projectId = b.projectId && a.provider = b.provider &&
    a.repository = b.repository && a.refPattern = b.refPattern
  clash_comm := fun a b => by simp [eq_comm]
  clash_self := fun a => by simp

instance : Keyed ProjectSigningKeyRow where
  clash := fun a b => a.id = b.id ||
    (a.projectId = b.projectId && a.retiredAt.isNone && b.retiredAt.isNone)
  clash_comm := fun a b => by
    cases a.retiredAt <;> cases b.retiredAt <;> simp [eq_comm]
  clash_self := fun a => by simp

structure Database where
  projects : Table ProjectRow := .empty
  upstreamCaches : Table UpstreamCacheRow := .empty
  projectUpstreams : Table ProjectUpstreamRow := .empty
  pathInfos : Table PathInfoRow := .empty
  storageObjects : Table StorageObjectRow := .empty
  builds : Table BuildRow := .empty
  buildPaths : Table BuildPathRow := .empty
  projectRefs : Table ProjectRefRow := .empty
  pathObjects : Table PathObjectRow := .empty
  pins : Table PinRow := .empty
  retentionPolicies : Table RetentionPolicyRow := .empty
  retentionRules : Table RetentionRuleRow := .empty
  accessTokens : Table AccessTokenRow := .empty
  accessTokenRefPatterns : Table AccessTokenRefPatternRow := .empty
  projectOidcIdentities : Table ProjectOidcIdentityRow := .empty
  projectSigningKeys : Table ProjectSigningKeyRow := .empty

end Db
