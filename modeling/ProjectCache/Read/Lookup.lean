import ProjectCache.Depot.Rules
import ProjectCache.Read.LocalObjects

namespace Lookup

open Textual Nix Project Store Db Programs Depot Read SqliteDatabase

def heldAt (catalog : StorageCatalog) (w : World) (o : Text) (record : StorageObjectRecord) :
    Option (BlobMetadata × BlobBytes) :=
  (catalog.storage record.storageId).bind (fun storage =>
    (w.blobs storage.id o).map (fun blob => (record.metadata, blob.bytes)))

def asked (db : Database) (preferred : StorageId) (o : Text) : List StorageObjectRecord :=
  (db.listStorageObjects o).insertionSort (PreferredOrder preferred)

def preferredIn (catalog : StorageCatalog) (db : Database) : DepotView → Option StorageId
  | .aggregate => some catalog.defaultStorageId
  | .project slug => (db.projectBySlug slug).map ProjectRow.storageId

def Reads {A : Type} (admits : Env → Prop) (w : World) (a : A) (r : Except Error A) (v : World) :
    Prop :=
  v = w ∧ (r = .ok a ∨ (∃ e, admits e ∧ e.outcome ≠ .answered) ∧ ∃ x, r = .error x)

section

variable {A : Type} {admits : Env → Prop} {w v : World} {a : A} {r : Except Error A}

theorem Reads.ok (h : Reads admits w a r v) (ha : ∀ e, admits e → e.outcome = .answered) :
    r = .ok a :=
  h.2.resolve_right (fun ⟨⟨e, he, hne⟩, _⟩ => hne (ha e he))

theorem Reads.eq {b : A} (h : Reads admits w a r v) (hr : r = .ok b) : b = a := by
  rcases h.2 with hok | ⟨-, x, hx⟩
  · exact Except.ok.inj (hr.symm.trans hok)
  · rw [hr] at hx
    cases hx

theorem wp_select_bind {B : Type} {query : Database → B} {f : B → Action A}
    (h : machine.wp admits (Reads admits w a) (f (query w.db)) w) :
    machine.wp admits (Reads admits w a) (do f (← select query)) w := by
  refine Machine.wp_bind.mpr (wp_select ?_ (fun e he hne x => ?_))
  · rwa [onOk_ok]
  · exact ⟨rfl, Or.inr ⟨⟨e, he, hne⟩, x, rfl⟩⟩

end

section

variable {catalog : StorageCatalog} {admits : Env → Prop} {w : World} {o : Text}
  {preferred : StorageId} {metadata : BlobMetadata} {bytes : BlobBytes}
  {record : StorageObjectRecord}

theorem heldAt_eq_some : heldAt catalog w o record = some (metadata, bytes) ↔
    (catalog.storage record.storageId).isSome = true ∧
      (w.blobs record.storageId o).map Blob.bytes = some bytes ∧ record.metadata = metadata := by
  unfold heldAt
  cases hs : catalog.storage record.storageId with
  | none => simp
  | some storage =>
    rw [Option.bind_some, StorageCatalog.storage_id hs]
    cases w.blobs record.storageId o with
    | none => simp
    | some blob => simp [and_comm]

theorem isSome_heldAt : (heldAt catalog w o record).isSome = true ↔
    (catalog.storage record.storageId).isSome = true ∧
      (w.blobs record.storageId o).isSome = true := by
  unfold heldAt
  cases hs : catalog.storage record.storageId with
  | none => simp
  | some storage =>
    rw [Option.bind_some, StorageCatalog.storage_id hs, Option.isSome_map]
    simp

theorem wp_readFirst (records : List StorageObjectRecord) :
    machine.wp admits (Reads admits w (records.findSome? (heldAt catalog w o)))
      (DbBackedObjectStore.readFirst ⟨catalog⟩ o records) w := by
  induction records with
  | nil => exact ⟨rfl, Or.inl rfl⟩
  | cons record rest ih =>
    rw [DbBackedObjectStore.readFirst, List.findSome?_cons]
    cases hs : catalog.storage record.storageId with
    | none => simpa [heldAt, hs] using ih
    | some storage =>
      refine Machine.wp_bind.mpr (wp_perform_of (fun e _ found hfound => ?_)
        (fun e he x hx v hv => ?_))
      · obtain rfl : (w.blobs storage.id o).map Blob.bytes = found := Except.ok.inj hfound
        cases hblob : w.blobs storage.id o with
        | none => simpa [carryOut, heldAt, hs, hblob] using ih
        | some blob =>
          simp only [carryOut, heldAt, hs, hblob, Option.bind_some, Option.map_some, onOk_ok]
          exact ⟨rfl, Or.inl rfl⟩
      · refine ⟨hv.elim id id, Or.inr ⟨⟨e, he, fun hok => ?_⟩, x, rfl⟩⟩
        cases hx hok

theorem wp_getUnscoped (preferred : StorageId) :
    machine.wp admits
      (Reads admits w ((asked w.db preferred o).findSome? (heldAt catalog w o)))
      (DbBackedObjectStore.getUnscoped ⟨catalog⟩ preferred o) w :=
  wp_select_bind (wp_readFirst _)

theorem exists_preferred {db : Database} {view : DepotView}
    (h : ∀ slug, view = .project slug → ∃ p, db.projectBySlug slug = some p) :
    ∃ preferred, preferredIn catalog db view = some preferred := by
  cases view with
  | aggregate => exact ⟨_, rfl⟩
  | project slug =>
    obtain ⟨p, hp⟩ := h slug rfl
    exact ⟨p.storageId, by rw [preferredIn, hp]; rfl⟩

theorem wp_getVisible {view : DepotView} (hp : preferredIn catalog w.db view = some preferred) :
    machine.wp admits (Reads admits w
      (if w.db.storageObjectVisibleInView view o then
        (asked w.db preferred o).findSome? (heldAt catalog w o)
      else none)) (DbBackedObjectStore.getVisible ⟨catalog⟩ view o) w := by
  refine wp_select_bind ?_
  cases w.db.storageObjectVisibleInView view o with
  | false => exact ⟨rfl, Or.inl rfl⟩
  | true =>
    rw [if_pos rfl, if_neg (by simp)]
    cases view with
    | aggregate =>
      cases hp
      exact Machine.wp_bind.mpr (wp_getUnscoped _)
    | project slug =>
      obtain ⟨p, hproject, rfl⟩ := Option.map_eq_some_iff.mp hp
      refine Machine.wp_bind.mpr (Machine.wp_bind.mpr (wp_select ?_ (fun e he hne x => ?_)))
      · rw [onOk_ok, hproject]
        exact wp_getUnscoped _
      · exact ⟨rfl, Or.inr ⟨⟨e, he, hne⟩, x, rfl⟩⟩

theorem mem_asked : record ∈ asked w.db preferred o ↔ ∃ so ∈ w.db.storageObjects.rows,
    so.objectPath = o ∧ so.deletedAt = none ∧ record = ⟨so.storageId, so.metadata⟩ :=
  (List.mem_insertionSort _).trans Database.mem_listStorageObjects

theorem mem_of_found {found : BlobMetadata × BlobBytes}
    (h : (asked w.db preferred o).findSome? (heldAt catalog w o) = some found) :
    ∃ so ∈ w.db.storageObjects.rows, so.objectPath = o ∧ so.deletedAt = none ∧
      heldAt catalog w o ⟨so.storageId, so.metadata⟩ = some found := by
  obtain ⟨record, hm, hheld⟩ := List.exists_of_findSome?_eq_some h
  obtain ⟨so, hso, ho, hd, rfl⟩ := mem_asked.mp hm
  exact ⟨so, hso, ho, hd, hheld⟩

theorem isSome_found : ((asked w.db preferred o).findSome? (heldAt catalog w o)).isSome = true ↔
    ∃ so ∈ w.db.storageObjects.rows, so.objectPath = o ∧ so.deletedAt = none ∧
      (catalog.storage so.storageId).isSome = true ∧ (w.blobs so.storageId o).isSome = true := by
  rw [List.findSome?_isSome_iff]
  constructor
  · rintro ⟨record, hm, hheld⟩
    obtain ⟨so, hso, ho, hd, rfl⟩ := mem_asked.mp hm
    exact ⟨so, hso, ho, hd, isSome_heldAt.mp hheld⟩
  · rintro ⟨so, hso, ho, hd, hheld⟩
    exact ⟨_, mem_asked.mpr ⟨so, hso, ho, hd, rfl⟩, isSome_heldAt.mpr hheld⟩

end

end Lookup
