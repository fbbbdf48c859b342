import ProjectCache.Core.Project
import ProjectCache.Lib.Calendar

namespace Store

open Textual Nix Project Calendar

structure BlobMetadata where
  contentType : Text
  contentLength : Option Nat
  etag : Option Text
  lastModified : Option OffsetDateTime
  deriving DecidableEq

abbrev BlobBytes := List UInt8

structure Blob where
  bytes : BlobBytes
  metadata : BlobMetadata
  deriving DecidableEq

inductive BackendKind where
  | filesystem
  | s3
  deriving DecidableEq, Repr

structure DepotStorage where
  id : StorageId
  kind : BackendKind
  deriving DecidableEq

def DEFAULT_MULTIPART_PART_SIZE : Nat := 16 * 1024 * 1024

def MAX_MULTIPART_PARTS : Nat := 10000

def octetStream : Text := "application/octet-stream".toList

namespace DepotStorage

def accepts (storage : DepotStorage) (body : BlobBytes) : Bool :=
  match storage.kind with
  | .filesystem => true
  | .s3 => 0 < body.length && body.length ≤ DEFAULT_MULTIPART_PART_SIZE * MAX_MULTIPART_PARTS

def stored (storage : DepotStorage) (body : BlobBytes) (etag : Option Text) : Blob where
  bytes := body
  metadata :=
    { contentType := octetStream
      contentLength := some body.length
      etag := match storage.kind with
        | .filesystem => none
        | .s3 => etag
      lastModified := none }

end DepotStorage

inductive StorageCatalogError where
  | noBackends
  | defaultNotConfigured (id : StorageId)
  deriving DecidableEq

structure StorageCatalog where
  defaultStorageId : StorageId
  backends : List DepotStorage
  distinct : (backends.map DepotStorage.id).Nodup
  configured : defaultStorageId ∈ backends.map DepotStorage.id

namespace StorageCatalog

def new (defaultStorageId : StorageId) (backends : List DepotStorage)
    (distinct : (backends.map DepotStorage.id).Nodup) :
    Except StorageCatalogError StorageCatalog :=
  if backends = [] then .error .noBackends
  else if h : defaultStorageId ∈ backends.map DepotStorage.id then
    .ok ⟨defaultStorageId, backends, distinct, h⟩
  else .error (.defaultNotConfigured defaultStorageId)

def storage (catalog : StorageCatalog) (storageId : StorageId) : Option DepotStorage :=
  catalog.backends.find? (fun b => b.id = storageId)

theorem storage_id {catalog : StorageCatalog} {storageId : StorageId} {storage : DepotStorage}
    (h : catalog.storage storageId = some storage) : storage.id = storageId := by
  simpa using List.find?_some h

end StorageCatalog

structure UpstreamCache where
  id : Uuid
  name : Text
  baseUrl : Text
  priority : UInt32
  deriving DecidableEq

def UpstreamCache.new (id : Uuid) (name baseUrl : Text) (priority : UInt32) : UpstreamCache :=
  ⟨id, name, trimEndMatches (· = '/') baseUrl, priority⟩

structure UpstreamCacheClient where
  fetchNarinfoText : UpstreamCache → StorePathHash → Option Text
  headObject : UpstreamCache → Text → Option BlobMetadata
  getObject : UpstreamCache → Text → Option (BlobMetadata × BlobBytes)

def UpstreamCacheClient.silent : UpstreamCacheClient where
  fetchNarinfoText := fun _ _ => none
  headObject := fun _ _ => none
  getObject := fun _ _ => none

inductive UploadMethod where
  | s3Multipart (uploadId : Text) (partSize : Nat)
  | proxy
  deriving DecidableEq

structure CompletedMultipartUploadPart where
  partNumber : Int
  etag : Text
  deriving DecidableEq

structure CompletedMultipartUpload where
  contentLength : Nat
  etag : Option Text
  deriving DecidableEq

def validPartNumber (partNumber : Int) : Bool := 1 ≤ partNumber && partNumber ≤ MAX_MULTIPART_PARTS

end Store
