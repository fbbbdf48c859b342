import ProjectCache.Db.AccessTokens
import ProjectCache.Db.Gc
import ProjectCache.Db.Identities
import ProjectCache.Db.Pins
import ProjectCache.Db.SigningKeys
import ProjectCache.Db.Upstreams
import ProjectCache.Lib.Pool

namespace Depot

open Textual Nix Project Calendar Tables Store Db Programs KeyCrypto

structure World where
  db : Database
  blobs : StorageId → Text → Option Blob

-- A request may fail without an effect, or take effect and have its answer lost.
inductive Outcome where
  | answered
  | refused (message : Text)
  | lost (message : Text)
  deriving DecidableEq

structure Env where
  now : UtcDateTime
  sqliteNow : SqliteTime
  uuid : Uuid
  outcome : Outcome
  etag : Option Text
  uploadId : Text
  assembled : Option BlobBytes
  upstream : UpstreamCacheClient
  random : (length : Nat) → RandomBytes length

def Env.quiet (civil : CivilTime) (uuid : Uuid) : Env where
  now := .whole civil
  sqliteNow := .whole civil
  uuid := uuid
  outcome := .answered
  etag := none
  uploadId := []
  assembled := none
  upstream := .silent
  random := fun length => ⟨List.replicate length 0, List.length_replicate⟩

namespace World

variable (w : World)

def putBlob (storageId : StorageId) (objectPath : Text) (blob : Option Blob) : World :=
  { w with blobs := fun s o => if s = storageId ∧ o = objectPath then blob else w.blobs s o }

def written (table : Text) (db : Option Database) : World × Except Error Unit :=
  match db with
  | some db => ({ w with db }, .ok ())
  | none => (w, .error (.constraint table))

def answering {A : Type} (result : A × Database) : World × Except Error A :=
  ({ w with db := result.2 }, .ok result.1)

def createMultipartUpload (storage : DepotStorage) (uploadId : Text) :
    World × Except Error (Option (Text × Nat)) :=
  match storage.kind with
  | .filesystem => (w, .ok none)
  | .s3 => (w, .ok (some (uploadId, DEFAULT_MULTIPART_PART_SIZE)))

def putStream (storage : DepotStorage) (objectPath : Text) (body : BlobBytes)
    (etag : Option Text) : World × Except Error Nat :=
  if storage.accepts body then
    (w.putBlob storage.id objectPath (some (storage.stored body etag)), .ok body.length)
  else (w, .error (.storage "cannot upload stream as multipart object".toList))

-- The parts went to S3 directly, so the assembled object is not known to the caller.
def completeMultipartUpload (storage : DepotStorage) (objectPath : Text)
    (parts : List CompletedMultipartUploadPart) (contentLength : Nat)
    (assembled : Option BlobBytes) (etag : Option Text) :
    World × Except Error CompletedMultipartUpload :=
  match storage.kind with
  | .filesystem =>
    (w, .error (.storage "storage backend does not support multipart uploads".toList))
  | .s3 =>
    if parts = [] then
      (w, .error (.storage "cannot complete multipart upload without parts".toList))
    else if ¬ parts.all (fun part => validPartNumber part.partNumber) then
      (w, .error (.storage "invalid multipart upload part number".toList))
    else
      match assembled with
      | none => (w, .error (.storage "completing multipart upload".toList))
      | some bytes =>
        (w.putBlob storage.id objectPath (some (storage.stored bytes etag)),
          .ok { contentLength, etag })

end World

def carryOut : (c : Call) → Env → World → World × Except Error c.Reply
  | .select query, e, w => (w, .ok (query e.sqliteNow w.db))
  | .insertProject row, _, w => w.written "projects".toList (w.db.insertProject row)
  | .insertBuild id projectId refName revision, e, w =>
    w.written "builds".toList (w.db.insertBuild id projectId refName revision e.sqliteNow)
  | .insertPathInfo row, _, w => w.answering (w.db.insertPathInfo row)
  | .attachBuildPath buildId h, _, w =>
    w.written "build_paths".toList (w.db.attachBuildPath buildId h)
  | .publishBuild projectId refName buildId finalizedAt, e, w =>
    w.written "project_refs".toList
      (w.db.publishBuild projectId refName buildId finalizedAt e.sqliteNow)
  | .upsertStorageObject storageId objectPath metadata, _, w =>
    w.answering ((), w.db.upsertStorageObject storageId objectPath metadata)
  | .linkPathObject h objectPath kind, _, w =>
    w.written "path_objects".toList (w.db.linkPathObject h objectPath kind)
  | .upsertPin row, _, w => w.written "pins".toList (w.db.upsertPin row)
  | .deletePin scopeKey name, _, w => w.answering (w.db.deletePin scopeKey name)
  | .replaceRetentionPolicy policy rules, _, w =>
    w.written "project_ref_retention_rules".toList (w.db.replaceRetentionPolicy policy rules)
  | .deleteRetentionPolicy projectId, _, w => w.answering (w.db.deleteRetentionPolicy projectId)
  | .clearDeletedState roots, _, w => w.answering ((), w.db.clearDeletedState roots)
  | .markStale roots, e, w => w.answering ((), w.db.markStale roots e.sqliteNow)
  | .deleteStorageObjects objects, _, w => w.answering ((), w.db.deleteStorageObjects objects)
  | .upsertUpstreamCache row, _, w =>
    w.written "upstream_caches".toList (w.db.upsertUpstreamCache row)
  | .setUpstreamEnabled name enabled, _, w => w.answering (w.db.setUpstreamEnabled name enabled)
  | .linkProjectUpstream projectId upstreamId, _, w =>
    w.written "project_upstreams".toList (w.db.linkProjectUpstream projectId upstreamId)
  | .unlinkProjectUpstream projectId name, _, w =>
    w.answering (w.db.unlinkProjectUpstream projectId name)
  | .insertAccessToken id tokenHash name projectId expiresAt refPatterns, e, w =>
    w.written "access_tokens".toList (w.db.insertAccessToken
      { id, tokenHash, name, projectId, createdAt := e.sqliteNow, expiresAt, revokedAt := none }
      refPatterns)
  | .revokeAccessToken id revokedAt, _, w => w.answering (w.db.revokeAccessToken id revokedAt)
  | .replaceOidcIdentity projectId provider repository refPatterns, _, w =>
    w.written "project_oidc_identities".toList
      (w.db.replaceOidcIdentity projectId provider repository refPatterns)
  | .deleteOidcIdentity projectId provider repository, _, w =>
    w.answering (w.db.deleteOidcIdentity projectId provider repository)
  | .replaceSigningKey row, e, w =>
    w.written "project_signing_keys".toList (w.db.replaceSigningKey row e.sqliteNow)
  | .head storage objectPath, _, w =>
    (w, .ok ((w.blobs storage.id objectPath).map Blob.metadata))
  | .getBytes storage objectPath, _, w =>
    (w, .ok ((w.blobs storage.id objectPath).map Blob.bytes))
  | .putStream storage objectPath body, e, w => w.putStream storage objectPath body e.etag
  | .createMultipartUpload storage _, e, w => w.createMultipartUpload storage e.uploadId
  | .completeMultipartUpload storage objectPath _ parts contentLength, e, w =>
    w.completeMultipartUpload storage objectPath parts contentLength e.assembled e.etag
  | .deleteObject storage objectPath, _, w => (w.putBlob storage.id objectPath none, .ok ())
  | .fetchNarinfoText upstream h, e, w => (w, .ok (e.upstream.fetchNarinfoText upstream h))
  | .headUpstreamObject upstream objectPath, e, w =>
    (w, .ok (e.upstream.headObject upstream objectPath))
  | .getUpstreamObject upstream objectPath, e, w =>
    (w, .ok (e.upstream.getObject upstream objectPath))
  | .now, e, w => (w, .ok e.now)
  | .uuid, e, w => (w, .ok e.uuid)
  | .fill length, e, w => (w, .ok (e.random length))

-- The clock and the generator of identifiers do not fail.
def Call.local : Call → Bool
  | .now | .uuid => true
  | _ => false

def answer (c : Call) (e : Env) (w : World) : World × Except Error c.Reply :=
  if c.local then carryOut c e w
  else
    match e.outcome with
    | .answered => carryOut c e w
    | .refused message => (w, .error (.io message))
    | .lost message => ((carryOut c e w).1, .error (.io message))

@[reducible] def machine : Machine Interface where
  State := World
  Env := Env
  answer := answer

end Depot
