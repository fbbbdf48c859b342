import ProjectCache.Db.Paths

namespace Db

open Textual Nix Project Calendar Tables Store Depot Programs Narinfo

structure StorageObjectRecord where
  storageId : StorageId
  metadata : BlobMetadata
  deriving DecidableEq

namespace Database

variable (db : Database)

def storageObject (storageId : StorageId) (objectPath : Text) : Option StorageObjectRow :=
  db.storageObjects.rows.find? (fun so => so.storageId = storageId && so.objectPath = objectPath)

-- ON CONFLICT on the primary key, so the statement always succeeds.
def upsertStorageObject (storageId : StorageId) (objectPath : Text) (metadata : BlobMetadata) :
    Database :=
  { db with
    storageObjects :=
      if db.storageObjects.Free ⟨storageId, objectPath, metadata, none, none⟩ then
        db.storageObjects.insertOrIgnore ⟨storageId, objectPath, metadata, none, none⟩
      else
        db.storageObjects.update (fun so => so.storageId = storageId && so.objectPath = objectPath)
          (fun so => { so with metadata, deletedAt := none, firstDeletedAt := none })
          ⟨fun _ _ => rfl⟩ }

def listStorageObjects (objectPath : Text) : List StorageObjectRecord :=
  ((db.storageObjects.rows.filter (fun so => so.objectPath = objectPath &&
    so.deletedAt.isNone)).insertionSort (fun a b => a.storageId ≤ b.storageId)).map
      (fun so => ⟨so.storageId, so.metadata⟩)

def storageObjectVisibleInView (view : DepotView) (objectPath : Text) : Bool :=
  db.pathObjects.rows.any (fun po => po.objectPath = objectPath &&
    db.visiblePath view po.storePathHash)

def linkPathObject (h : StorePathHash) (objectPath : Text) (kind : PathObjectKind) :
    Option Database :=
  if (db.pathInfo h).isSome then
    some { db with pathObjects := db.pathObjects.insertOrIgnore ⟨h, objectPath, kind⟩ }
  else none

theorem storageObject_eq_some {db : Database} {s : StorageId} {o : Text} {so : StorageObjectRow} :
    db.storageObject s o = some so ↔
      so ∈ db.storageObjects.rows ∧ so.storageId = s ∧ so.objectPath = o := by
  rw [storageObject, Table.find?_eq_some_iff]
  · simp
  · intro a b ha hb
    simp only [Bool.and_eq_true, decide_eq_true_eq] at ha hb
    simp [Keyed.clash, ha, hb]

theorem mem_upsertStorageObject {db : Database} {s : StorageId} {o : Text} {m : BlobMetadata}
    {so : StorageObjectRow} : so ∈ (db.upsertStorageObject s o m).storageObjects.rows ↔
      so = ⟨s, o, m, none, none⟩ ∨
        so ∈ db.storageObjects.rows ∧ ¬ (so.storageId = s ∧ so.objectPath = o) := by
  have hclash : ∀ x : StorageObjectRow, Keyed.clash x (⟨s, o, m, none, none⟩ : StorageObjectRow) =
      (decide (x.storageId = s) && decide (x.objectPath = o)) := fun x => rfl
  unfold upsertStorageObject
  by_cases hf : db.storageObjects.Free ⟨s, o, m, none, none⟩
  · simp only [hf, if_true, Table.mem_insertOrIgnore, true_and]
    constructor
    · rintro (hm | rfl)
      · refine Or.inr ⟨hm, fun hk => ?_⟩
        simpa [hclash, hk] using hf so hm
      · exact Or.inl rfl
    · rintro (rfl | ⟨hm, -⟩)
      · exact Or.inr rfl
      · exact Or.inl hm
  · simp only [hf, if_false, Table.mem_update]
    simp only [Table.Free, not_forall, hclash, Bool.not_eq_false, Bool.and_eq_true,
      decide_eq_true_eq] at hf
    obtain ⟨x, hx, hxs, hxo⟩ := hf
    constructor
    · rintro ⟨r, hr, hso⟩
      split at hso
      · rename_i hk
        simp only [Bool.and_eq_true, decide_eq_true_eq] at hk
        subst hso
        exact Or.inl (by simp [hk])
      · rename_i hk
        subst hso
        exact Or.inr ⟨hr, by simpa using hk⟩
    · rintro (rfl | ⟨hm, hk⟩)
      · exact ⟨x, hx, by simp [hxs, hxo]⟩
      · exact ⟨so, hm, by simp [hk]⟩

theorem mem_listStorageObjects {db : Database} {o : Text} {record : StorageObjectRecord} :
    record ∈ db.listStorageObjects o ↔ ∃ so ∈ db.storageObjects.rows, so.objectPath = o ∧
      so.deletedAt = none ∧ record = ⟨so.storageId, so.metadata⟩ := by
  simp only [Database.listStorageObjects, List.mem_map, List.mem_insertionSort, List.mem_filter,
    Bool.and_eq_true, decide_eq_true_eq, Option.isNone_iff_eq_none]
  exact exists_congr (fun so => by tauto)

end Database

end Db

namespace SqliteDatabase

open Textual Nix Project Calendar Tables Store Db Depot Programs Narinfo

def upsertStorageObject (storageId : StorageId) (objectPath : Text) (metadata : BlobMetadata) :
    Action Unit :=
  if metadata.contentLength.any (fun length => 2 ^ 63 ≤ length) then fail .sizeOverflow
  else perform (.upsertStorageObject storageId objectPath metadata)

def listStorageObjects (objectPath : Text) : Action (List StorageObjectRecord) :=
  select (fun db => db.listStorageObjects objectPath)

def storageObjectVisibleInView (view : DepotView) (objectPath : Text) : Action Bool :=
  select (fun db => db.storageObjectVisibleInView view objectPath)

def linkPathObject (h : StorePathHash) (objectPath : Text) (kind : PathObjectKind) : Action Unit :=
  perform (.linkPathObject h objectPath kind)

end SqliteDatabase
