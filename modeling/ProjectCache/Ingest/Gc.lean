import ProjectCache.Db.Gc

namespace Ingest

open Textual Nix Project Store Db Depot Programs SqliteDatabase

def DEFAULT_GC_GRACE_PERIOD_SECONDS : Int := 6 * 60 * 60

structure RunGcResponse where
  deletedCount : Nat
  deletedObjects : List Text
  deriving DecidableEq

def RunGcResponse.of (objects : List (StorageId × Text)) : RunGcResponse where
  deletedCount := objects.length
  deletedObjects := objects.map Prod.snd

structure GcService where
  storageCatalog : StorageCatalog

namespace GcService

variable (service : GcService)

-- An object in a storage backend that is not configured is skipped.
def deleteReadyObjects : List (StorageId × Text) → Action (List (StorageId × Text))
  | [] => return []
  | (storageId, objectPath) :: rest =>
    match service.storageCatalog.storage storageId with
    | none => deleteReadyObjects rest
    | some storage => do
      perform (.deleteObject storage objectPath)
      let deleted ← deleteReadyObjects rest
      return (storageId, objectPath) :: deleted

variable [WildMatch]

def runLocalGcWithGracePeriod (dryRun : Bool) (gracePeriodSeconds : Int) :
    Action RunGcResponse :=
  if dryRun then do
    let staleObjects ← listStaleStorageObjects
    return .of staleObjects
  else do
    clearDeletedStateForLiveStorageObjects
    markStaleStorageObjects
    let readyObjects ← listStorageObjectsReadyForDeletion gracePeriodSeconds
    let deleted ← service.deleteReadyObjects readyObjects
    deleteStorageObjects deleted
    return .of deleted

def runLocalGc (dryRun : Bool) : Action RunGcResponse :=
  service.runLocalGcWithGracePeriod dryRun DEFAULT_GC_GRACE_PERIOD_SECONDS

end GcService

end Ingest
