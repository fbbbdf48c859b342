import ProjectCache.Db.Objects
import ProjectCache.Db.Upstreams
import ProjectCache.Ingest.Planner

namespace Ingest

open Textual Nix Project DepotPath Narinfo Validation Store Db Depot Programs SqliteDatabase

structure NarInfoPayload where
  storePath : Text
  url : Text
  compression : Text
  narHash : Text
  narSize : UInt64
  references : List Text
  deriver : Option Text
  signatures : List Text
  ca : Option Text
  deriving DecidableEq

def NarInfoPayload.intoNarinfo (value : NarInfoPayload) : NarInfo where
  storePath := value.storePath
  url := value.url
  compression := value.compression
  narHash := .raw value.narHash
  narSize := value.narSize
  references := value.references
  deriver := value.deriver
  signatures := value.signatures
  ca := value.ca.map NixContentAddress.raw

structure IngestService where
  storeDir : StoreDir
  storageCatalog : StorageCatalog

namespace IngestService

def projectUpstreams (project : ProjectSlug) : Action (List UpstreamCache) := do
  let records ← listEnabledUpstreamsForProject project
  return records.map UpstreamCacheRow.intoRuntimeConfig

def pendingBuildContext (buildId : Uuid) : Action BuildContextRecord := do
  let context ← getBuildContext buildId
  let context ← orFail context (.buildNotFound buildId)
  if context.status ≠ .pending then fail (.buildNotPending buildId)
  else return context

def recordNarObject (storageId : StorageId) (h : StorePathHash) (objectPath : Text)
    (metadata : BlobMetadata) : Action Unit := do
  upsertStorageObject storageId objectPath metadata
  linkPathObject h objectPath .nar

def recordIfStored (storageId : StorageId) (storage : DepotStorage) (h : StorePathHash)
    (objectPath : Text) : Action Bool := do
  match ← perform (.head storage objectPath) with
  | some metadata => do
    recordNarObject storageId h objectPath metadata
    return true
  | none => return false

def linkStoredObjects (storageId : StorageId) (storage : DepotStorage) :
    List NarInfo → Action Unit
  | [] => return ()
  | narinfo :: rest => do
    let h ← ofExcept .storePathHash (StorePathHash.parseFromStorePath narinfo.storePath)
    if ¬ isNarObject narinfo.url then linkStoredObjects storageId storage rest
    else do
      let _ ← recordIfStored storageId storage h narinfo.url
      linkStoredObjects storageId storage rest

def requireUploads (storage : DepotStorage) : List PlannedUpload → Action (List RequiredUpload)
  | [] => return []
  | planned :: rest => do
    let upload ← perform (.createMultipartUpload storage planned.objectPath)
    let method := match upload with
      | some (uploadId, partSize) => UploadMethod.s3Multipart uploadId partSize
      | none => UploadMethod.proxy
    let required ← requireUploads storage rest
    return planned.toApiRequiredUpload method :: required

def persistOrDelete (storageId : StorageId) (storage : DepotStorage) (h : StorePathHash)
    (objectPath : Text) (metadata : BlobMetadata) : Action Unit := do
  match ← (recordNarObject storageId h objectPath metadata).attempt with
  | .ok _ => return ()
  | .error error => do
    let _ ← (perform (.deleteObject storage objectPath)).attempt
    fail error

def finalizePaths (buildId : Uuid) (storageId : StorageId) (storage : DepotStorage)
    (upstreams : List UpstreamCache) : List (StorePathHash × Text) → Action Unit
  | [] => return ()
  | (h, objectPath) :: rest => do
    let stored ← recordIfStored storageId storage h objectPath
    if stored then finalizePaths buildId storageId storage upstreams rest
    else do
      let existsUpstream ← objectExistsUpstream objectPath upstreams
      if existsUpstream then finalizePaths buildId storageId storage upstreams rest
      else fail (.objectUnavailable buildId objectPath h)

variable (service : IngestService)

def storageForProject (project : ProjectSlug) : Action (StorageId × DepotStorage) := do
  let storageId ← getProjectStorageId project
  let storage ← orFail (service.storageCatalog.storage storageId) (.storageNotConfigured storageId)
  return (storageId, storage)

def beginBuild (project refName : Text) (revision : Option Text) : Action Uuid := do
  let slug ← ofExcept (fun _ => .invalidProjectSlug project) (ProjectSlug.parse project)
  let build ← SqliteDatabase.beginBuild slug refName revision
  return build.id

variable [Base64]

def registerNarinfos (buildId : Uuid) : List NarInfoPayload → Action (List NarInfo)
  | [] => return []
  | path :: rest => do
    let h ← ofExcept .validation (validatePublishNarinfo service.storeDir path.intoNarinfo)
    upsertPathInfo path.intoNarinfo
    attachBuildPath buildId h
    let narinfos ← registerNarinfos buildId rest
    return path.intoNarinfo :: narinfos

def registerPaths (buildId : Uuid) (paths : List NarInfoPayload) :
    Action (List RequiredUpload) := do
  let context ← pendingBuildContext buildId
  let narinfos ← service.registerNarinfos buildId paths
  let (storageId, storage) ← service.storageForProject context.projectSlug
  let upstreams ← projectUpstreams context.projectSlug
  let planned ← planRequiredUploads storage upstreams narinfos
  linkStoredObjects storageId storage narinfos
  requireUploads storage planned

omit [Base64]

def validateUploadTarget (buildId : Uuid) (h : StorePathHash) (objectPath : Text) :
    Action (StorageId × DepotStorage) := do
  let context ← pendingBuildContext buildId
  match parseDepotObjectPath objectPath with
  | some (.nar _ _) => do
    let narinfo ← getBuildPathNarinfo buildId h
    let narinfo ← orFail narinfo (.buildLacksPath buildId h)
    if objectPath ≠ narinfo.url then fail (.objectPathMismatch objectPath narinfo.url h)
    else service.storageForProject context.projectSlug
  | some (.narInfo _) => fail .narinfoUpload
  | _ => fail (.invalidUploadObjectPath objectPath)

def uploadObject (buildId : Uuid) (h : StorePathHash) (objectPath : Text) (body : BlobBytes) :
    Action Unit := do
  let (storageId, storage) ← service.validateUploadTarget buildId h objectPath
  let written ← perform (.putStream storage objectPath body)
  persistOrDelete storageId storage h objectPath ⟨octetStream, some written, none, none⟩

def completeMultipartUpload (buildId : Uuid) (h : StorePathHash) (objectPath uploadId : Text)
    (parts : List CompletedMultipartUploadPart) (contentLength : Nat) : Action Unit := do
  let (storageId, storage) ← service.validateUploadTarget buildId h objectPath
  let completed ← perform
    (.completeMultipartUpload storage objectPath uploadId parts contentLength)
  persistOrDelete storageId storage h objectPath
    ⟨octetStream, some completed.contentLength, completed.etag, none⟩

def finalizeBuild (buildId : Uuid) : Action Unit := do
  let context ← pendingBuildContext buildId
  let buildPaths ← listBuildPathNarObjects buildId
  if buildPaths = [] then fail (.noRegisteredPaths buildId)
  else do
    let upstreams ← projectUpstreams context.projectSlug
    let (storageId, storage) ← service.storageForProject context.projectSlug
    finalizePaths buildId storageId storage upstreams buildPaths
    publishBuildToRef context.projectSlug context.refName buildId

end IngestService

end Ingest
