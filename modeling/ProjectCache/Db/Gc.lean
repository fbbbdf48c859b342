import ProjectCache.Db.Objects
import ProjectCache.Db.Retention
import ProjectCache.Lib.Closure

namespace Db

open Textual Nix Project Calendar Tables Store Depot Programs Closure

namespace Database

variable (db : Database)

def pendingPaths : List StorePathHash :=
  (db.buildPaths.rows.filter (fun bp =>
    db.builds.rows.any (fun b => b.id = bp.buildId && b.status = .pending))).map
      BuildPathRow.storePathHash

def pinnedPaths : List StorePathHash := db.pins.rows.map PinRow.storePathHash

def referencedPaths (pi : PathInfoRow) : List PathInfoRow :=
  pi.references.flatMap (fun r => db.pathInfos.rows.filter (fun p => p.storePath = r))

def rootPathInfos (roots : List StorePathHash) : List PathInfoRow :=
  db.pathInfos.rows.filter (fun pi => pi.storePathHash ∈ roots)

def livePaths (roots : List StorePathHash) : List PathInfoRow :=
  recursiveUnion db.referencedPaths db.pathInfos.rows.length [] (db.rootPathInfos roots).dedup

def liveObjects (roots : List StorePathHash) : List Text :=
  (db.livePaths roots).flatMap (fun pi =>
    (db.pathObjects.rows.filter (fun po => po.storePathHash = pi.storePathHash)).map
      PathObjectRow.objectPath)

def StorageObjectKeyLe (a b : StorageObjectRow) : Prop :=
  a.storageId < b.storageId ∨ a.storageId = b.storageId ∧ a.objectPath ≤ b.objectPath

instance : DecidableRel StorageObjectKeyLe := fun a b => by
  unfold StorageObjectKeyLe
  infer_instance

def keysOf (rows : List StorageObjectRow) : List (StorageId × Text) :=
  (rows.insertionSort StorageObjectKeyLe).map (fun so => (so.storageId, so.objectPath))

def staleStorageObjects (roots : List StorePathHash) : List (StorageId × Text) :=
  keysOf (db.storageObjects.rows.filter (fun so => so.objectPath ∉ db.liveObjects roots))

def clearDeletedState (roots : List StorePathHash) : Database :=
  let storageObjects := db.storageObjects.update
    (fun so => (so.deletedAt.isSome || so.firstDeletedAt.isSome) &&
      (db.liveObjects roots).contains so.objectPath)
    (fun so => { so with deletedAt := none, firstDeletedAt := none }) ⟨fun _ _ => rfl⟩
  { db with storageObjects }

def markStale (roots : List StorePathHash) (now : SqliteTime) : Database :=
  let storageObjects := db.storageObjects.update
    (fun so => !(db.liveObjects roots).contains so.objectPath)
    (fun so => { so with deletedAt := some (so.deletedAt.getD now)
                         firstDeletedAt := some (so.firstDeletedAt.getD now) })
    ⟨fun _ _ => rfl⟩
  { db with storageObjects }

def ReadyForDeletion (gracePeriodSeconds : Int) (now : SqliteTime) (so : StorageObjectRow) : Prop :=
  so.deletedAt.isSome ∧
    ∃ t ∈ so.firstDeletedAt, t.unixepoch ≤ now.unixepoch - gracePeriodSeconds

instance (gracePeriodSeconds : Int) (now : SqliteTime) (so : StorageObjectRow) :
    Decidable (ReadyForDeletion gracePeriodSeconds now so) := by
  unfold ReadyForDeletion
  infer_instance

def readyForDeletion (gracePeriodSeconds : Int) (now : SqliteTime) : List (StorageId × Text) :=
  keysOf (db.storageObjects.rows.filter
    (fun so => ReadyForDeletion gracePeriodSeconds now so))

def deleteStorageObjects (objects : List (StorageId × Text)) : Database :=
  { db with
    storageObjects := db.storageObjects.delete (fun so => (so.storageId, so.objectPath) ∈ objects) }

end Database

end Db

namespace SqliteDatabase

open Textual Nix Project Calendar Tables Store Db Depot Programs

def pathsOfBuilds : List Uuid → Action (List StorePathHash)
  | [] => return []
  | buildId :: rest => do
    let paths ← select (fun db => db.attachedPaths buildId)
    let others ← pathsOfBuilds rest
    return paths ++ others

variable [WildMatch]

def listRootStorePathHashes : Action (List StorePathHash) := do
  let retainedBuildIds ← listRetainedBuildIdsForGc
  let retained ← pathsOfBuilds retainedBuildIds
  let pending ← select Database.pendingPaths
  let pinned ← select Database.pinnedPaths
  return ((retained ++ pending ++ pinned).insertionSort (· ≤ ·)).dedup

def listStaleStorageObjects : Action (List (StorageId × Text)) := do
  let roots ← listRootStorePathHashes
  select (fun db => db.staleStorageObjects roots)

def clearDeletedStateForLiveStorageObjects : Action Unit := do
  let roots ← listRootStorePathHashes
  perform (.clearDeletedState roots)

def markStaleStorageObjects : Action Unit := do
  let roots ← listRootStorePathHashes
  perform (.markStale roots)

omit [WildMatch] in
def listStorageObjectsReadyForDeletion (gracePeriodSeconds : Int) :
    Action (List (StorageId × Text)) :=
  perform (.select (fun now db => db.readyForDeletion gracePeriodSeconds now))

omit [WildMatch] in
def deleteStorageObjects (objects : List (StorageId × Text)) : Action Unit :=
  perform (.deleteStorageObjects objects)

end SqliteDatabase
