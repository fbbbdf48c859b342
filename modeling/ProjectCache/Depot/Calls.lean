import ProjectCache.Core.Auth
import ProjectCache.Core.KeyCrypto
import ProjectCache.Core.Validation
import ProjectCache.Db.Schema
import ProjectCache.Lib.Program

namespace Depot

open Textual Nix Project Calendar Store Db Programs Validation Signing Narinfo KeyCrypto Auth

inductive Error where
  | io (message : Text)
  | constraint (table : Text)
  | storage (message : Text)
  | projectNotFound (slug : ProjectSlug)
  | invalidProjectSlug (input : Text)
  | buildNotFound (buildId : Uuid)
  | buildNotPending (buildId : Uuid)
  | noRegisteredPaths (buildId : Uuid)
  | objectUnavailable (buildId : Uuid) (objectPath : Text) (storePathHash : StorePathHash)
  | storePathHash (source : StorePathHashError)
  | narHash (source : NixHashError)
  | sizeOverflow
  | pathInfoDisappeared
  | conflictingNarinfo (storePath : Text)
  | validation (source : PublishNarInfoValidationError)
  | parseNarinfo (source : ParseNarInfoError)
  | fingerprint (source : FingerprintError)
  | storageNotConfigured (storageId : StorageId)
  | narinfoUpload
  | invalidUploadObjectPath (objectPath : Text)
  | buildLacksPath (buildId : Uuid) (storePathHash : StorePathHash)
  | objectPathMismatch (objectPath narUrl : Text) (storePathHash : StorePathHash)
  | unknownPinnedPath (storePathHash : StorePathHash)
  | pinnedPathMismatch (storePath existing : Text)
  | emptyAccessTokenName
  | keepLatestBuildsPerRef
  | noRetentionRules
  | retentionRulePriority
  | retentionRulePattern
  | durationOverflow
  | emptyProvider
  | emptyRepository
  | parseSigningKey (source : ParseSigningKeyError)
  | generateSigningKey (source : GenerateSigningKeyError)
  | keyEncryption (source : KeyEncryptionError)
  | auth (source : AuthError)
  | authorization (source : AuthorizationServiceError)
  deriving DecidableEq

inductive Call : Type 1 where
  | select {B : Type} (query : SqliteTime → Database → B)
  | insertProject (row : ProjectRow)
  | insertBuild (id projectId : Uuid) (refName : Text) (revision : Option Text)
  | insertPathInfo (row : PathInfoRow)
  | attachBuildPath (buildId : Uuid) (storePathHash : StorePathHash)
  | publishBuild (projectId : Uuid) (refName : Text) (buildId : Uuid) (finalizedAt : UtcDateTime)
  | upsertStorageObject (storageId : StorageId) (objectPath : Text) (metadata : BlobMetadata)
  | linkPathObject (storePathHash : StorePathHash) (objectPath : Text) (kind : PathObjectKind)
  | upsertPin (row : PinRow)
  | deletePin (scopeKey : PinScope) (name : Text)
  | replaceRetentionPolicy (policy : RetentionPolicyRow) (rules : List RetentionRuleRow)
  | deleteRetentionPolicy (projectId : Uuid)
  | clearDeletedState (roots : List StorePathHash)
  | markStale (roots : List StorePathHash)
  | deleteStorageObjects (objects : List (StorageId × Text))
  | upsertUpstreamCache (row : UpstreamCacheRow)
  | setUpstreamEnabled (name : Text) (enabled : Bool)
  | linkProjectUpstream (projectId upstreamId : Uuid)
  | unlinkProjectUpstream (projectId : Uuid) (name : Text)
  | insertAccessToken (id : Uuid) (tokenHash name : Text) (projectId : Uuid)
    (expiresAt : Option OffsetDateTime) (refPatterns : List Text)
  | revokeAccessToken (id : Uuid) (revokedAt : UtcDateTime)
  | replaceOidcIdentity (projectId : Uuid) (provider repository : Text) (refPatterns : List Text)
  | deleteOidcIdentity (projectId : Uuid) (provider repository : Text)
  | replaceSigningKey (row : ProjectSigningKeyRow)
  | head (storage : DepotStorage) (objectPath : Text)
  | getBytes (storage : DepotStorage) (objectPath : Text)
  | putStream (storage : DepotStorage) (objectPath : Text) (body : BlobBytes)
  | createMultipartUpload (storage : DepotStorage) (objectPath : Text)
  | completeMultipartUpload (storage : DepotStorage) (objectPath uploadId : Text)
    (parts : List CompletedMultipartUploadPart) (contentLength : Nat)
  | deleteObject (storage : DepotStorage) (objectPath : Text)
  | fetchNarinfoText (upstream : UpstreamCache) (storePathHash : StorePathHash)
  | headUpstreamObject (upstream : UpstreamCache) (objectPath : Text)
  | getUpstreamObject (upstream : UpstreamCache) (objectPath : Text)
  | now
  | uuid
  | fill (length : Nat)

@[reducible] def Call.Reply : Call → Type
  | @Call.select B _ => B
  | insertPathInfo _ | deletePin _ _ | deleteRetentionPolicy _ | setUpstreamEnabled _ _
  | unlinkProjectUpstream _ _ | revokeAccessToken _ _ | deleteOidcIdentity _ _ _ => Bool
  | insertProject _ | insertBuild _ _ _ _ | attachBuildPath _ _ | publishBuild _ _ _ _
  | upsertStorageObject _ _ _ | linkPathObject _ _ _ | upsertPin _ | replaceRetentionPolicy _ _
  | clearDeletedState _ | markStale _ | deleteStorageObjects _ | upsertUpstreamCache _
  | linkProjectUpstream _ _ | insertAccessToken _ _ _ _ _ _ | replaceOidcIdentity _ _ _ _
  | replaceSigningKey _ | deleteObject _ _ => Unit
  | head _ _ => Option BlobMetadata
  | getBytes _ _ => Option BlobBytes
  | putStream _ _ _ => Nat
  | createMultipartUpload _ _ => Option (Text × Nat)
  | completeMultipartUpload _ _ _ _ _ => CompletedMultipartUpload
  | fetchNarinfoText _ _ => Option Text
  | headUpstreamObject _ _ => Option BlobMetadata
  | getUpstreamObject _ _ => Option (BlobMetadata × BlobBytes)
  | now => UtcDateTime
  | uuid => Uuid
  | fill length => RandomBytes length

@[reducible] def Interface : Programs.Interface where
  Call := Call
  Reply := Call.Reply
  Error := Error

abbrev Action (A : Type) := Prog Interface A

def perform (c : Call) : Action c.Reply := Prog.perform (I := Interface) c

def select {B : Type} (query : Database → B) : Action B :=
  perform (.select (fun _ db => query db))

def fail {A : Type} (error : Error) : Action A := .done (.error error)

def orFail {A : Type} (value : Option A) (error : Error) : Action A :=
  match value with
  | some a => return a
  | none => fail error

def ofExcept {E A : Type} (wrap : E → Error) : Except E A → Action A
  | .ok a => return a
  | .error e => fail (wrap e)

end Depot
