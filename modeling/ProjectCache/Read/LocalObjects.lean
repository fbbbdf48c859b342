import ProjectCache.Db.Objects

namespace Read

open Textual Nix Project Store Db Depot Programs SqliteDatabase

structure DbBackedObjectStore where
  catalog : StorageCatalog

-- The preferred storage comes first, the others in the order of their ids.
def PreferredOrder (preferred : StorageId) (a b : StorageObjectRecord) : Prop :=
  a.storageId = preferred ∨ b.storageId ≠ preferred ∧ a.storageId ≤ b.storageId

instance (preferred : StorageId) : DecidableRel (PreferredOrder preferred) := fun a b => by
  unfold PreferredOrder
  infer_instance

namespace DbBackedObjectStore

variable (store : DbBackedObjectStore)

def preferredStorageId : DepotView → Action StorageId
  | .aggregate => return store.catalog.defaultStorageId
  | .project project => getProjectStorageId project

def readFirst (objectPath : Text) :
    List StorageObjectRecord → Action (Option (BlobMetadata × BlobBytes))
  | [] => return none
  | record :: rest =>
    match store.catalog.storage record.storageId with
    | none => readFirst objectPath rest
    | some storage => do
      match ← perform (.getBytes storage objectPath) with
      | some bytes => return some (record.metadata, bytes)
      | none => readFirst objectPath rest

def getUnscoped (preferredStorageId : StorageId) (objectPath : Text) :
    Action (Option (BlobMetadata × BlobBytes)) := do
  let records ← listStorageObjects objectPath
  store.readFirst objectPath (records.insertionSort (PreferredOrder preferredStorageId))

def getVisible (view : DepotView) (objectPath : Text) :
    Action (Option (BlobMetadata × BlobBytes)) := do
  let visible ← storageObjectVisibleInView view objectPath
  if ¬ visible then return none
  else do
    let preferredStorageId ← store.preferredStorageId view
    store.getUnscoped preferredStorageId objectPath

end DbBackedObjectStore

end Read
