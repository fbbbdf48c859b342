import ProjectCache.Gc.Roots

namespace Gc

open Textual Nix Project Calendar Tables Store Db Programs Depot Ingest SqliteDatabase

def dropBlobs (w : World) (gone : List (StorageId × Text)) : World :=
  { w with blobs := fun s o => if (s, o) ∈ gone then none else w.blobs s o }

theorem dropBlobs_nil (w : World) : dropBlobs w [] = w := by
  simp [dropBlobs]

theorem putBlob_none (w : World) (s : StorageId) (o : Text) :
    w.putBlob s o none = dropBlobs w [(s, o)] := by
  simp [World.putBlob, dropBlobs]

theorem dropBlobs_cons (w : World) (key : StorageId × Text) (gone : List (StorageId × Text)) :
    dropBlobs (dropBlobs w [key]) gone = dropBlobs w (key :: gone) := by
  unfold dropBlobs
  congr 1
  funext s o
  by_cases h : (s, o) = key <;> by_cases hg : (s, o) ∈ gone <;> simp [h, hg]

def configured (catalog : StorageCatalog) (key : StorageId × Text) : Bool :=
  (catalog.storage key.1).isSome

section

variable {admits : Env → Prop} {faults : Prop} {w : World} (service : GcService)

theorem wp_deleteReadyObjects (hfaults : ∀ e, admits e → e.outcome ≠ .answered → faults)
    (keys : List (StorageId × Text)) :
    machine.wp admits (fun r v => ∃ gone, v = dropBlobs w gone ∧
      (∀ key ∈ gone, key ∈ keys.filter (configured service.storageCatalog)) ∧
        match r with
        | .ok deleted => deleted = keys.filter (configured service.storageCatalog) ∧ gone = deleted
        | .error _ => faults)
      (service.deleteReadyObjects keys) w := by
  induction keys generalizing w with
  | nil =>
    exact ⟨[], (dropBlobs_nil w).symm, by simp, rfl, rfl⟩
  | cons key rest ih =>
    obtain ⟨storageId, objectPath⟩ := key
    unfold GcService.deleteReadyObjects
    cases hs : service.storageCatalog.storage storageId with
    | none =>
      have hfilter : ((storageId, objectPath) :: rest).filter
          (configured service.storageCatalog) =
            rest.filter (configured service.storageCatalog) := by
        simp [configured, hs]
      rw [hfilter]
      exact ih
    | some storage =>
      have hid := StorageCatalog.storage_id hs
      have hfilter : ((storageId, objectPath) :: rest).filter
          (configured service.storageCatalog) =
            (storageId, objectPath) :: rest.filter (configured service.storageCatalog) := by
        simp [configured, hs]
      have hput : w.putBlob storage.id objectPath none = dropBlobs w [(storageId, objectPath)] := by
        rw [putBlob_none, hid]
      rw [hfilter]
      refine Machine.wp_bind.mpr (wp_perform_of (fun e _ r _ => ?_) (fun e he x hx v hv => ?_))
      · rw [onOk_ok]
        change machine.wp admits _ _ (w.putBlob storage.id objectPath none)
        rw [hput]
        refine Machine.wp_bind.mpr (Machine.wp_mono ih ?_)
        rintro r v ⟨gone, rfl, hgone, hok⟩
        cases r with
        | error x =>
          refine ⟨(storageId, objectPath) :: gone, dropBlobs_cons _ _ _, ?_, hok⟩
          intro key hkey
          rcases List.mem_cons.mp hkey with rfl | hkey
          · exact List.mem_cons_self
          · exact List.mem_cons_of_mem _ (hgone key hkey)
        | ok deleted =>
          obtain ⟨rfl, rfl⟩ := hok
          exact ⟨_, dropBlobs_cons _ _ _, fun key hkey => hkey, rfl, rfl⟩
      · have hfault : faults := hfaults e he (fun ha => by cases hx ha)
        rcases hv with rfl | rfl
        · exact ⟨[], (dropBlobs_nil v).symm, by simp, hfault⟩
        · exact ⟨[(storageId, objectPath)], hput, by simp, hfault⟩

end

def tidied (db : Database) (live stale : List StorePathHash) (t : SqliteTime) : Database :=
  (db.clearDeletedState live).markStale stale t

theorem mem_readyForDeletion {db : Database} {g : Int} {t : SqliteTime}
    {key : StorageId × Text} : key ∈ db.readyForDeletion g t ↔
      ∃ so ∈ db.storageObjects.rows, (so.storageId, so.objectPath) = key ∧
        Database.ReadyForDeletion g t so := by
  simp only [Database.readyForDeletion, Database.keysOf, List.mem_map, List.mem_insertionSort,
    List.mem_filter, decide_eq_true_eq]
  exact exists_congr (fun so => by tauto)

theorem mem_staleStorageObjects {db : Database} {roots : List StorePathHash}
    {key : StorageId × Text} : key ∈ db.staleStorageObjects roots ↔
      ∃ so ∈ db.storageObjects.rows, (so.storageId, so.objectPath) = key ∧
        so.objectPath ∉ db.liveObjects roots := by
  simp only [Database.staleStorageObjects, Database.keysOf, List.mem_map, List.mem_insertionSort,
    List.mem_filter, decide_eq_true_eq]
  exact exists_congr (fun so => by tauto)

def untombed (so : StorageObjectRow) : StorageObjectRow :=
  { so with deletedAt := none, firstDeletedAt := none }

def tombed (t : SqliteTime) (so : StorageObjectRow) : StorageObjectRow :=
  { so with deletedAt := some (so.deletedAt.getD t)
            firstDeletedAt := some (so.firstDeletedAt.getD t) }

theorem mem_clearDeletedState {db : Database} {live : List StorePathHash}
    {so' : StorageObjectRow} : so' ∈ (db.clearDeletedState live).storageObjects.rows ↔
      ∃ so ∈ db.storageObjects.rows,
        so' = if so.objectPath ∈ db.liveObjects live then untombed so else so := by
  have hclear : ∀ so : StorageObjectRow,
      (if ((so.deletedAt.isSome || so.firstDeletedAt.isSome) &&
        (db.liveObjects live).contains so.objectPath) = true then untombed so else so) =
      if so.objectPath ∈ db.liveObjects live then untombed so else so := by
    intro so
    by_cases hl : so.objectPath ∈ db.liveObjects live
    · obtain ⟨s, o, m, d, f⟩ := so
      cases d <;> cases f <;> simp_all [untombed]
    · simp [hl]
  have hk : Table.KeepsKey untombed := ⟨fun _ _ => rfl⟩
  change so' ∈ (db.storageObjects.update _ untombed hk).rows ↔ _
  rw [Table.mem_update]
  exact exists_congr (fun so => and_congr_right (fun _ => by rw [← hclear, eq_comm]))

def tidiedRow (live stale : Bool) (t : SqliteTime) (so : StorageObjectRow) : StorageObjectRow :=
  match live, stale with
  | true, true => tombed t (untombed so)
  | true, false => untombed so
  | false, true => tombed t so
  | false, false => so

@[simp] theorem tidiedRow_storageId (live stale : Bool) (t : SqliteTime) (so : StorageObjectRow) :
    (tidiedRow live stale t so).storageId = so.storageId := by
  cases live <;> cases stale <;> rfl

@[simp] theorem tidiedRow_objectPath (live stale : Bool) (t : SqliteTime)
    (so : StorageObjectRow) : (tidiedRow live stale t so).objectPath = so.objectPath := by
  cases live <;> cases stale <;> rfl

theorem mem_tidied {db : Database} {live stale : List StorePathHash} {t : SqliteTime}
    {so' : StorageObjectRow} : so' ∈ (tidied db live stale t).storageObjects.rows ↔
      ∃ so ∈ db.storageObjects.rows, so' = tidiedRow (so.objectPath ∈ db.liveObjects live)
        (so.objectPath ∉ db.liveObjects stale) t so := by
  have hk : Table.KeepsKey (tombed t) := ⟨fun _ _ => rfl⟩
  have hrow : ∀ so : StorageObjectRow, (if (!(db.liveObjects stale).contains so.objectPath) = true
      then tombed t so else so) = tidiedRow false (so.objectPath ∉ db.liveObjects stale) t so := by
    intro so
    by_cases hs : so.objectPath ∈ db.liveObjects stale <;> simp [hs, tidiedRow]
  have hboth : ∀ so : StorageObjectRow,
      tidiedRow (so.objectPath ∈ db.liveObjects live) (so.objectPath ∉ db.liveObjects stale) t so =
        let so' := if so.objectPath ∈ db.liveObjects live then untombed so else so
        tidiedRow false (so'.objectPath ∉ db.liveObjects stale) t so' := by
    intro so
    by_cases hl : so.objectPath ∈ db.liveObjects live <;>
      by_cases hs : so.objectPath ∈ db.liveObjects stale <;> simp [hl, hs, tidiedRow, untombed]
  change so' ∈ ((db.clearDeletedState live).storageObjects.update
    (fun so => !(db.liveObjects stale).contains so.objectPath) (tombed t) hk).rows ↔ _
  rw [Table.mem_update]
  constructor
  · rintro ⟨so₁, hm₁, rfl⟩
    obtain ⟨so, hm, rfl⟩ := mem_clearDeletedState.mp hm₁
    exact ⟨so, hm, by rw [hrow, hboth]⟩
  · rintro ⟨so, hm, rfl⟩
    exact ⟨_, mem_clearDeletedState.mpr ⟨so, hm, rfl⟩, by rw [hrow, hboth]⟩

section

variable (catalog : StorageCatalog) (g : Int) (faults : Prop)
  (clear mark : List StorePathHash → Prop) (clock : SqliteTime → Prop)

inductive Stops (w : World) : Except Error RunGcResponse → World → Prop
  | failed (x : Error) : Stops w (.error x) w
  | cleared {live : List StorePathHash} (hl : clear live) (x : Error) :
    Stops w (.error x) { w with db := w.db.clearDeletedState live }
  | marked {live stale : List StorePathHash} (hl : clear live) (hs : mark stale) {t : SqliteTime}
    (ht : clock t) (x : Error) : Stops w (.error x) { w with db := tidied w.db live stale t }
  | deleting {live stale : List StorePathHash} (hl : clear live) (hs : mark stale)
    {t t' : SqliteTime} (ht : clock t) (ht' : clock t') {gone : List (StorageId × Text)}
    (hgone : ∀ key ∈ gone, key ∈ ((tidied w.db live stale t).readyForDeletion g t').filter
      (configured catalog)) (hf : faults) (x : Error) :
    Stops w (.error x) (dropBlobs { w with db := tidied w.db live stale t } gone)
  | deleted {live stale : List StorePathHash} (hl : clear live) (hs : mark stale)
    {t t' : SqliteTime} (ht : clock t) (ht' : clock t') {deleted : List (StorageId × Text)}
    (hd : deleted = ((tidied w.db live stale t).readyForDeletion g t').filter
      (configured catalog)) {result : Except Error RunGcResponse}
    (hr : ∀ response, result = .ok response → response = .of deleted) :
    Stops w result
      (dropBlobs { w with db := (tidied w.db live stale t).deleteStorageObjects deleted } deleted)

end

section

variable [WildMatch] (service : GcService) (g : Int)

def sweepFrom (live : List StorePathHash) : Action RunGcResponse := do
  perform (.clearDeletedState live)
  markStaleStorageObjects
  let readyObjects ← listStorageObjectsReadyForDeletion g
  let deleted ← service.deleteReadyObjects readyObjects
  deleteStorageObjects deleted
  return .of deleted

theorem runLocalGc_eq : service.runLocalGcWithGracePeriod false g =
    listRootStorePathHashes.bind (sweepFrom service g) := Prog.bind_assoc _ _ _

variable {admits : Env → Prop} {w : World} (faults : Prop)
  (clear mark : List StorePathHash → Prop) (clock : SqliteTime → Prop)

theorem wp_sweepFrom {live : List StorePathHash} (hl : clear live)
    (hmark : ∀ storageObjects, machine.wp admits
      (fun r v => v = { w with db := { w.db with storageObjects } } ∧
        ∀ roots, r = .ok roots → mark roots) listRootStorePathHashes
      { w with db := { w.db with storageObjects } })
    (hclock : ∀ e, admits e → clock e.sqliteNow)
    (hfaults : ∀ e, admits e → e.outcome ≠ .answered → faults) :
    machine.wp admits (Stops service.storageCatalog g faults clear mark clock w)
      (sweepFrom service g live) w := by
  refine Machine.wp_bind.mpr (wp_perform_of (fun e _ r _ => ?_) (fun e _ x _ v hv => ?_))
  swap
  · rcases hv with rfl | rfl
    · exact .failed x
    · exact .cleared hl x
  rw [onOk_ok]
  refine Machine.wp_bind.mpr (Machine.wp_bind.mpr (Machine.wp_mono (hmark _) ?_))
  rintro r v ⟨rfl, hr⟩
  cases r with
  | error x => exact .cleared hl x
  | ok stale =>
    have hs := hr stale rfl
    rw [onOk_ok]
    refine wp_perform_of (fun e he r _ => ?_) (fun e he x _ v hv => ?_)
    swap
    · rcases hv with rfl | rfl
      · exact .cleared hl x
      · exact .marked hl hs (hclock e he) x
    rw [onOk_ok]
    have ht := hclock e he
    change machine.wp admits _ _ { w with db := tidied w.db live stale e.sqliteNow }
    generalize e.sqliteNow = t at ht ⊢
    refine Machine.wp_bind.mpr (wp_perform_of (fun e he ready hready => ?_)
      (fun e he x _ v hv => ?_))
    swap
    · obtain rfl := hv.elim id id
      exact .marked hl hs ht x
    have ht' := hclock e he
    simp only [carryOut, Except.ok.injEq] at hready ⊢
    subst hready
    generalize e.sqliteNow = t' at ht' ⊢
    rw [onOk_ok]
    refine Machine.wp_bind.mpr (Machine.wp_mono (wp_deleteReadyObjects service hfaults _) ?_)
    rintro r v ⟨gone, rfl, hgone, hok⟩
    cases r with
    | error x => exact .deleting hl hs ht ht' hgone hok x
    | ok deleted =>
      obtain ⟨hd, rfl⟩ := hok
      rw [onOk_ok]
      refine Machine.wp_bind.mpr (wp_perform_of (fun e _ r _ => ?_) (fun e he x hx v hv => ?_))
      · refine .deleted hl hs ht ht' hd ?_
        rintro _ ⟨⟩
        rfl
      · rcases hv with rfl | rfl
        · exact .deleting hl hs ht ht' hgone (hfaults e he (fun ha => by cases hx ha)) x
        · exact .deleted hl hs ht ht' hd (fun _ h => by cases h)

theorem wp_runLocalGc (hclear : machine.wp admits
      (fun r v => v = w ∧ ∀ roots, r = .ok roots → clear roots) listRootStorePathHashes w)
    (hmark : ∀ storageObjects, machine.wp admits
      (fun r v => v = { w with db := { w.db with storageObjects } } ∧
        ∀ roots, r = .ok roots → mark roots) listRootStorePathHashes
      { w with db := { w.db with storageObjects } })
    (hclock : ∀ e, admits e → clock e.sqliteNow)
    (hfaults : ∀ e, admits e → e.outcome ≠ .answered → faults) :
    machine.wp admits (Stops service.storageCatalog g faults clear mark clock w)
      (service.runLocalGcWithGracePeriod false g) w := by
  rw [runLocalGc_eq]
  refine Machine.wp_bind.mpr (Machine.wp_mono hclear ?_)
  rintro r v ⟨rfl, hr⟩
  cases r with
  | error x => exact .failed x
  | ok live =>
    exact wp_sweepFrom service g faults clear mark clock (hr live rfl) hmark hclock hfaults

end

end Gc
