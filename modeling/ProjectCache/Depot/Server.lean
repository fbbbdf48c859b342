import ProjectCache.Depot.Rules
import ProjectCache.Ingest.Gc
import ProjectCache.Ingest.Service

namespace Depot

open Textual Nix Project Calendar Tables Store Db Programs Ingest SqliteDatabase

structure Server where
  storeDir : StoreDir
  storageCatalog : StorageCatalog

namespace Server

inductive Request where
  | insertProject (slug : ProjectSlug) (displayName : Text) (isPublic : Bool)
    (storageId : StorageId)
  | beginBuild (project refName : Text) (revision : Option Text)
  | registerPaths (buildId : Uuid) (paths : List NarInfoPayload)
  | uploadObject (buildId : Uuid) (h : StorePathHash) (objectPath : Text) (body : BlobBytes)
  | completeMultipartUpload (buildId : Uuid) (h : StorePathHash) (objectPath uploadId : Text)
    (parts : List CompletedMultipartUploadPart) (contentLength : Nat)
  | finalizeBuild (buildId : Uuid)
  | upsertPin (name : Text) (project : Option ProjectSlug) (h : StorePathHash) (storePath : Text)
  | deletePin (name : Text) (project : Option ProjectSlug)
  | replaceRetentionPolicy (project : ProjectSlug) (keepLatestBuildsPerRef : UInt32)
    (objectDeleteGraceSeconds : UInt64) (rules : List ProjectRetentionRuleRecord)
  | deleteRetentionPolicy (project : ProjectSlug)
  | runLocalGc (dryRun : Bool) (gracePeriodSeconds : Int)
  | upsertUpstreamCache (name baseUrl : Text) (priority : UInt32) (enabled : Bool)
  | setUpstreamEnabled (name : Text) (enabled : Bool)
  | linkProjectUpstream (project : ProjectSlug) (name : Text)
  | unlinkProjectUpstream (project : ProjectSlug) (name : Text)
  deriving DecidableEq

inductive Response where
  | ok
  | found (found : Bool)
  | beganBuild (buildId : Uuid)
  | requiredUploads (uploads : List RequiredUpload)
  | ranGc (response : RunGcResponse)
  deriving DecidableEq

variable [Base64] [WildMatch] (server : Server)

def ingestService : IngestService := ⟨server.storeDir, server.storageCatalog⟩

def gcService : GcService := ⟨server.storageCatalog⟩

def program : Request → Action Response
  | .insertProject slug displayName isPublic storageId =>
    (fun _ => .ok) <$> insertProject slug displayName isPublic storageId
  | .beginBuild project refName revision =>
    .beganBuild <$> IngestService.beginBuild project refName revision
  | .registerPaths buildId paths =>
    .requiredUploads <$> server.ingestService.registerPaths buildId paths
  | .uploadObject buildId h objectPath body =>
    (fun _ => .ok) <$> server.ingestService.uploadObject buildId h objectPath body
  | .completeMultipartUpload buildId h objectPath uploadId parts contentLength =>
    (fun _ => .ok) <$> server.ingestService.completeMultipartUpload buildId h objectPath uploadId
      parts contentLength
  | .finalizeBuild buildId => (fun _ => .ok) <$> server.ingestService.finalizeBuild buildId
  | .upsertPin name project h storePath => (fun _ => .ok) <$> upsertPin name project h storePath
  | .deletePin name project => .found <$> deletePin name project
  | .replaceRetentionPolicy project keepLatestBuildsPerRef objectDeleteGraceSeconds rules =>
    (fun _ => .ok) <$> replaceProjectRetentionPolicy project keepLatestBuildsPerRef
      objectDeleteGraceSeconds rules
  | .deleteRetentionPolicy project => .found <$> deleteProjectRetentionPolicy project
  | .runLocalGc dryRun gracePeriodSeconds =>
    .ranGc <$> server.gcService.runLocalGcWithGracePeriod dryRun gracePeriodSeconds
  | .upsertUpstreamCache name baseUrl priority enabled =>
    (fun _ => .ok) <$> upsertUpstreamCacheByName name baseUrl priority enabled
  | .setUpstreamEnabled name enabled => .found <$> setUpstreamEnabled name enabled
  | .linkProjectUpstream project name => .found <$> linkProjectUpstreamByName project name
  | .unlinkProjectUpstream project name => .found <$> unlinkProjectUpstreamByName project name

end Server

end Depot
