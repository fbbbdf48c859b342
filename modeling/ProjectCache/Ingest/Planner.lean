import ProjectCache.Depot.Calls
import ProjectCache.Core.DepotPath

namespace Ingest

open Textual Nix Project DepotPath Narinfo Store Db Depot Programs

structure PlannedUpload where
  storePathHash : StorePathHash
  objectPath : Text
  contentType : Text
  deriving DecidableEq

structure RequiredUpload where
  storePathHash : StorePathHash
  objectPath : Text
  contentType : Text
  method : UploadMethod
  deriving DecidableEq

def PlannedUpload.toApiRequiredUpload (planned : PlannedUpload) (method : UploadMethod) :
    RequiredUpload :=
  ⟨planned.storePathHash, planned.objectPath, planned.contentType, method⟩

def isNarObject (objectPath : Text) : Bool :=
  match parseDepotObjectPath objectPath with
  | some (.nar _ _) => true
  | _ => false

def objectExistsUpstream (objectPath : Text) : List UpstreamCache → Action Bool
  | [] => return false
  | upstream :: rest => do
    let found ← perform (.headUpstreamObject upstream objectPath)
    if found.isSome then return true
    else objectExistsUpstream objectPath rest

def planRequiredUploads (storage : DepotStorage) (upstreams : List UpstreamCache) :
    List NarInfo → Action (List PlannedUpload)
  | [] => return []
  | narinfo :: rest => do
    let storePathHash ← ofExcept .storePathHash
      (StorePathHash.parseFromStorePath narinfo.storePath)
    if ¬ isNarObject narinfo.url then planRequiredUploads storage upstreams rest
    else do
      let stored ← perform (.head storage narinfo.url)
      if stored.isSome then planRequiredUploads storage upstreams rest
      else do
        let existsUpstream ← objectExistsUpstream narinfo.url upstreams
        if existsUpstream then planRequiredUploads storage upstreams rest
        else do
          let planned ← planRequiredUploads storage upstreams rest
          return ⟨storePathHash, narinfo.url, octetStream⟩ :: planned

end Ingest
