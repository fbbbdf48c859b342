import ProjectCache.Gc.Sweep

namespace Gc

open Textual Nix Project Calendar Tables Store Db Programs Depot Ingest SqliteDatabase

section

variable [WildMatch]

def LiveAt (now : UtcDateTime) (db : Database) (o : Text) : Prop :=
  ∃ retained, retainedBuilds now db = .ok retained ∧ Live db (IsRoot db retained) o

def RootsAt (now : UtcDateTime) (db : Database) (roots : List StorePathHash) : Prop :=
  ∃ retained, retainedBuilds now db = .ok retained ∧ ∀ h, h ∈ roots ↔ IsRoot db retained h

variable {now : UtcDateTime} {db : Database} {roots : List StorePathHash} {o : Text}

theorem RootsAt.mem_liveObjects (h : RootsAt now db roots) :
    o ∈ db.liveObjects roots ↔ LiveAt now db o := by
  obtain ⟨retained, hr, hroots⟩ := h
  rw [Gc.mem_liveObjects]
  constructor
  · exact fun hl => ⟨retained, hr, hl.mono (fun p hp => (hroots p).mp hp)⟩
  · rintro ⟨retained', hr', hl⟩
    obtain rfl : retained = retained' := by simpa [hr] using hr'
    exact hl.mono (fun p hp => (hroots p).mpr hp)

theorem wp_rootsAt {admits : Env → Prop} (ha : ∀ e, admits e → e.now = now) (w : World)
    (storageObjects : Table StorageObjectRow) :
    machine.wp admits (fun r v => v = { w with db := { w.db with storageObjects } } ∧
      ∀ roots, r = .ok roots → RootsAt now w.db roots) listRootStorePathHashes
      { w with db := { w.db with storageObjects } } := by
  refine Machine.wp_mono (wp_listRootStorePathHashes (wp_retainedBuilds ha)) ?_
  rintro r v ⟨rfl, hr⟩
  refine ⟨rfl, fun roots hroots => ?_⟩
  obtain ⟨retained, hretained, hmem⟩ := hr roots hroots
  refine ⟨retained, ?_, fun h => (hmem h).trans ?_⟩
  · rw [← hretained]
    exact (lookedUp_storageObjects looks_listRetainedBuildIdsForGc now _ _).symm
  · constructor
    · rintro (⟨b, hb, hp⟩ | ⟨b, hb, hs, hp⟩ | ⟨pin, hb, hp⟩)
      · exact .retained b hb hp
      · exact .pending b hb hs hp
      · exact .pinned pin hb hp
    · rintro (⟨b, hb, hp⟩ | ⟨b, hb, hs, hp⟩ | ⟨pin, hb, hp⟩)
      · exact .retained b hb hp
      · exact .pending b hb hs hp
      · exact .pinned pin hb hp

def Gone (w v : World) (s : StorageId) (o : Text) : Prop :=
  v.blobs s o ≠ w.blobs s o ∨ ∃ so ∈ w.db.storageObjects.rows, so.storageId = s ∧
    so.objectPath = o ∧ ∀ so' ∈ v.db.storageObjects.rows, ¬ (so'.storageId = s ∧ so'.objectPath = o)

variable {catalog : StorageCatalog} {g : Int} {faults : Prop} {clock : SqliteTime → Prop}
  {w v : World}
  {live stale : List StorePathHash} {t t' : SqliteTime}

theorem of_ready (hl : RootsAt now db live) (hs : RootsAt now db stale) {key : StorageId × Text}
    (h : key ∈ (tidied db live stale t).readyForDeletion g t') :
    ∃ so ∈ db.storageObjects.rows, (so.storageId, so.objectPath) = key ∧
      ¬ LiveAt now db so.objectPath ∧
        (so.firstDeletedAt.getD t).unixepoch ≤ t'.unixepoch - g := by
  obtain ⟨so', hm', hkey, hdeleted, first, hfirst, hage⟩ := mem_readyForDeletion.mp h
  obtain ⟨so, hm, rfl⟩ := mem_tidied.mp hm'
  by_cases hlive : LiveAt now db so.objectPath
  · simp [hl.mem_liveObjects.mpr hlive, hs.mem_liveObjects.mpr hlive, tidiedRow, untombed]
      at hdeleted
  · have hnl := mt hl.mem_liveObjects.mp hlive
    have hns := mt hs.mem_liveObjects.mp hlive
    simp only [hnl, hns, not_false_eq_true, decide_true, decide_false, tidiedRow, tombed,
      Option.mem_def, Option.some.injEq] at hkey hfirst
    subst hfirst
    exact ⟨so, hm, hkey, hlive, hage⟩

omit [WildMatch] in
theorem exists_tidied {so : StorageObjectRow} (h : so ∈ db.storageObjects.rows) :
    ∃ so' ∈ (tidied db live stale t).storageObjects.rows,
      so'.storageId = so.storageId ∧ so'.objectPath = so.objectPath :=
  ⟨_, mem_tidied.mpr ⟨so, h, rfl⟩, by simp, by simp⟩

theorem untombed_mem_tidied (hl : RootsAt now db live) (hs : RootsAt now db stale)
    {so : StorageObjectRow} (h : so ∈ db.storageObjects.rows)
    (hlive : LiveAt now db so.objectPath) :
    untombed so ∈ (tidied db live stale t).storageObjects.rows :=
  mem_tidied.mpr ⟨so, h, by
    simp [hl.mem_liveObjects.mpr hlive, hs.mem_liveObjects.mpr hlive, tidiedRow]⟩

omit [WildMatch] in
theorem blobs_dropBlobs {w : World} {gone : List (StorageId × Text)} {s : StorageId} {o : Text}
    (h : (dropBlobs w gone).blobs s o ≠ w.blobs s o) : (s, o) ∈ gone := by
  by_contra hno
  exact h (by simp [dropBlobs, hno])

variable {result : Except Error RunGcResponse}

theorem gone_of_stops
    (h : Stops catalog g faults (RootsAt now w.db) (RootsAt now w.db) clock w result v)
    {s : StorageId} (hg : Gone w v s o) :
    ∃ so ∈ w.db.storageObjects.rows, so.storageId = s ∧ so.objectPath = o ∧
      ¬ LiveAt now w.db o ∧ ∃ t t', clock t ∧ clock t' ∧
        (so.firstDeletedAt.getD t).unixepoch ≤ t'.unixepoch - g ∧
          ∀ response, result = .ok response → o ∈ response.deletedObjects := by
  have hready : ∀ {live stale t t'}, RootsAt now w.db live → RootsAt now w.db stale → clock t →
      clock t' → (s, o) ∈ ((tidied w.db live stale t).readyForDeletion g t').filter
        (configured catalog) →
      (∀ response, result = .ok response → o ∈ response.deletedObjects) →
      ∃ so ∈ w.db.storageObjects.rows, so.storageId = s ∧ so.objectPath = o ∧
        ¬ LiveAt now w.db o ∧ ∃ t t', clock t ∧ clock t' ∧
          (so.firstDeletedAt.getD t).unixepoch ≤ t'.unixepoch - g ∧
            ∀ response, result = .ok response → o ∈ response.deletedObjects := by
    intro live stale t t' hl hs ht ht' hkey hresponse
    obtain ⟨so, hm, hso, hno, hage⟩ := of_ready hl hs (List.mem_filter.mp hkey).1
    obtain ⟨rfl, rfl⟩ := Prod.mk.inj hso
    exact ⟨so, hm, rfl, rfl, hno, t, t', ht, ht', hage, hresponse⟩
  cases h with
  | failed x =>
    rcases hg with hb | ⟨so, hm, hs, ho, hno⟩
    · exact absurd rfl hb
    · exact absurd ⟨hs, ho⟩ (hno so hm)
  | @cleared live hl x =>
    rcases hg with hb | ⟨so, hm, hs, ho, hno⟩
    · exact absurd rfl hb
    · refine absurd ?_ (hno _ (mem_clearDeletedState.mpr ⟨so, hm, rfl⟩))
      constructor <;> split <;> assumption
  | marked hl hs ht x =>
    rcases hg with hb | ⟨so, hm, hsid, ho, hno⟩
    · exact absurd rfl hb
    · obtain ⟨so', hm', hs', ho'⟩ := exists_tidied hm
      exact absurd ⟨hs'.trans hsid, ho'.trans ho⟩ (hno so' hm')
  | deleting hl hs ht ht' hgone hf x =>
    refine hready hl hs ht ht' ?_ (fun _ h => nomatch h)
    rcases hg with hb | ⟨so, hm, hsid, ho, hno⟩
    · exact hgone _ (blobs_dropBlobs hb)
    · obtain ⟨so', hm', hs', ho'⟩ := exists_tidied hm
      exact absurd ⟨hs'.trans hsid, ho'.trans ho⟩ (hno so' hm')
  | @deleted live stale hl hs t t' ht ht' deleted hd result hr =>
    have hkey : (s, o) ∈ deleted := by
      rcases hg with hb | ⟨so, hm, hsid, ho, hno⟩
      · exact blobs_dropBlobs hb
      · obtain ⟨so', hm', hs', ho'⟩ := exists_tidied hm
        by_contra hkey
        refine hno so' (Table.mem_delete.mpr ⟨hm', decide_eq_false ?_⟩)
          ⟨hs'.trans hsid, ho'.trans ho⟩
        rwa [hs'.trans hsid, ho'.trans ho]
    refine hready hl hs ht ht' (hd ▸ hkey) (fun response hresponse => ?_)
    rw [hr response hresponse]
    exact List.mem_map_of_mem hkey

theorem live_of_stops
    (h : Stops catalog g faults (RootsAt now w.db) (RootsAt now w.db) clock w result v)
    (hlive : LiveAt now w.db o) : (∀ s, v.blobs s o = w.blobs s o) ∧
      ((∃ response, result = .ok response) → ∀ so ∈ w.db.storageObjects.rows,
        so.objectPath = o → untombed so ∈ v.db.storageObjects.rows) := by
  refine ⟨fun s => ?_, ?_⟩
  · by_contra hne
    obtain ⟨-, -, -, -, hno, -⟩ := gone_of_stops h (Or.inl hne)
    exact hno hlive
  · rintro ⟨response, rfl⟩ so hm rfl
    cases h with
    | @deleted live stale hl hs t t' ht ht' deleted hd =>
      refine Table.mem_delete.mpr ⟨untombed_mem_tidied hl hs hm hlive, decide_eq_false ?_⟩
      intro hkey
      obtain ⟨so', -, hso, hno, -⟩ := of_ready hl hs (List.mem_filter.mp (hd ▸ hkey)).1
      obtain ⟨-, ho⟩ := Prod.mk.inj hso
      exact hno (ho ▸ hlive)

theorem gone_of_response
    (h : Stops catalog g faults (RootsAt now w.db) (RootsAt now w.db) clock w result v)
    {response : RunGcResponse} (hr : result = .ok response) (ho : o ∈ response.deletedObjects) :
    ∃ s, Gone w v s o := by
  subst hr
  cases h with
  | @deleted live stale hl hs t t' ht ht' deleted hd result hr =>
    rw [hr response rfl] at ho
    obtain ⟨⟨s, o⟩, hkey, rfl⟩ := List.mem_map.mp ho
    obtain ⟨so, hm, hso, -⟩ := of_ready hl hs (List.mem_filter.mp (hd ▸ hkey)).1
    obtain ⟨rfl, rfl⟩ := Prod.mk.inj hso
    refine ⟨so.storageId, Or.inr ⟨so, hm, rfl, rfl, ?_⟩⟩
    rintro so' hm' ⟨hs', ho'⟩
    obtain ⟨-, hno⟩ := Table.mem_delete.mp hm'
    simp [hs', ho', hkey] at hno

variable (service : GcService)

theorem wp_dryRun {admits : Env → Prop} (ha : ∀ e, admits e → e.now = now) (g : Int) (w : World) :
    machine.wp admits (fun r _ => ∀ listed, r = .ok listed → ∀ o, o ∈ listed.deletedObjects ↔
      (∃ so ∈ w.db.storageObjects.rows, so.objectPath = o) ∧ ¬ LiveAt now w.db o)
      (service.runLocalGcWithGracePeriod true g) w := by
  refine Machine.wp_bind.mpr (Machine.wp_bind.mpr (Machine.wp_mono
    (wp_rootsAt ha w w.db.storageObjects) ?_))
  rintro r v ⟨rfl, hr⟩
  cases r with
  | error x => exact fun _ h => nomatch h
  | ok roots =>
    rw [onOk_ok]
    refine wp_select ?_ (fun _ _ _ _ _ h => nomatch h)
    rw [onOk_ok]
    rintro _ ⟨⟩ o
    simp only [RunGcResponse.of, List.mem_map, Prod.exists, exists_eq_right]
    constructor
    · rintro ⟨s, hkey⟩
      obtain ⟨so, hm, hso, hno⟩ := mem_staleStorageObjects.mp hkey
      obtain ⟨rfl, rfl⟩ := Prod.mk.inj hso
      exact ⟨⟨so, hm, rfl⟩, mt (hr roots rfl).mem_liveObjects.mpr hno⟩
    · rintro ⟨⟨so, hm, rfl⟩, hno⟩
      exact ⟨so.storageId, mem_staleStorageObjects.mpr
        ⟨so, hm, rfl, mt (hr roots rfl).mem_liveObjects.mp hno⟩⟩

theorem sweep_spares_live (g : Int) (w : World) {es : Nat → Env} (hnow : ∀ n, (es n).now = now) :
    ∃ v result, machine.exec (service.runLocalGcWithGracePeriod false g) es w = (v, result) ∧
      (∀ o, LiveAt now w.db o → (∀ s, v.blobs s o = w.blobs s o) ∧
        ((∃ response, result = .ok response) → ∀ so ∈ w.db.storageObjects.rows,
          so.objectPath = o → untombed so ∈ v.db.storageObjects.rows)) ∧
      (∀ response, result = .ok response → ∀ o, o ∈ response.deletedObjects ↔ ∃ s, Gone w v s o) ∧
      ∀ s o, Gone w v s o →
        (∀ es' listed, (∀ n, (es' n).now = now) →
          (machine.exec (service.runLocalGcWithGracePeriod true g) es' w).2 = .ok listed →
            o ∈ listed.deletedObjects) ∧
        ∃ so ∈ w.db.storageObjects.rows, so.storageId = s ∧ so.objectPath = o ∧ ∃ m n,
          (so.firstDeletedAt.getD (es m).sqliteNow).unixepoch ≤
            (es n).sqliteNow.unixepoch - g := by
  have hadmits : ∀ e, (∃ n, e = es n) → e.now = now := by
    rintro _ ⟨n, rfl⟩
    exact hnow n
  have hclock : ∀ e, (∃ n, e = es n) → ∃ n, e.sqliteNow = (es n).sqliteNow := by
    rintro _ ⟨n, rfl⟩
    exact ⟨n, rfl⟩
  have hstops := Machine.exec_of_wp (wp_runLocalGc service g True (RootsAt now w.db)
    (RootsAt now w.db) (fun t => ∃ n, t = (es n).sqliteNow)
    (wp_rootsAt hadmits w w.db.storageObjects) (wp_rootsAt hadmits w) hclock
    (fun _ _ _ => trivial)) (fun n => ⟨n, rfl⟩)
  refine ⟨_, _, rfl, fun o hlive => live_of_stops hstops hlive, fun response hr o =>
    ⟨gone_of_response hstops hr, ?_⟩, fun s o hg => ?_⟩
  · rintro ⟨s, hg⟩
    obtain ⟨-, -, -, -, -, -, -, -, -, -, hdeleted⟩ := gone_of_stops hstops hg
    exact hdeleted response hr
  · obtain ⟨so, hm, hs, ho, hno, t, t', ⟨m, rfl⟩, ⟨n, rfl⟩, hage, -⟩ := gone_of_stops hstops hg
    refine ⟨fun es' listed hnow' hlisted => ?_, so, hm, hs, ho, m, n, hage⟩
    exact (Machine.exec_of_wp (wp_dryRun service (fun e he => he) g w) hnow' listed hlisted o).mpr
      ⟨⟨so, hm, ho⟩, hno⟩

end

section Examples

open Depot.Server

attribute [local instance] standardBase64 standardWildMatch

def morning : SqliteTime := .whole (.newYear 2030 6)

def almostNoon : SqliteTime :=
  ⟨{ noon with hour := 11, minute := 59, second := 59, hour_lt := by decide,
               minute_lt := by decide, second_lt := by decide }, 900, by decide⟩

def tombedRow (objectPath : Text) (t : SqliteTime) : StorageObjectRow :=
  ⟨.main, objectPath, ⟨[], some 5, none, none⟩, some t, some t⟩

def sweptWorld : World where
  db := {
    pathInfos := ⟨[⟨helloHash, helloPayload.storePath, helloPayload.url, helloPayload.compression,
      helloPayload.narHash, helloPayload.narSize, none, none, [helloPayload.storePath], []⟩],
      by decide⟩
    pathObjects := .single ⟨helloHash, helloPayload.url, .nar⟩
    pins := .single ⟨.global, "kept".toList, none, helloHash, helloPayload.storePath⟩
    storageObjects := ⟨[tombedRow helloPayload.url morning, tombedRow "nar/old".toList morning],
      by decide⟩ }
  blobs := fun _ _ => some (DepotStorage.stored ⟨.main, .filesystem⟩ [1, 2, 3, 4, 5] none)

theorem swept_spares_live :
    (machine.exec (exampleServer.gcService.runLocalGcWithGracePeriod false 21600)
      (fun _ => moment 0) sweptWorld).1.db.storageObjects.rows =
        [untombed (tombedRow helloPayload.url morning)] ∧
    ∃ v result, machine.exec (exampleServer.gcService.runLocalGcWithGracePeriod false 21600)
      (fun _ => moment 0) sweptWorld = (v, result) ∧
      ∀ o, LiveAt (moment 0).now sweptWorld.db o → ∀ s, v.blobs s o = sweptWorld.blobs s o := by
  refine ⟨by decide +kernel, ?_⟩
  obtain ⟨v, result, hexec, hlive, -⟩ := sweep_spares_live exampleServer.gcService 21600 sweptWorld
    (fun _ => rfl : ∀ n : Nat, ((fun _ => moment 0 : Nat → Env) n).now = (moment 0).now)
  exact ⟨v, result, hexec, fun o ho => (hlive o ho).1⟩

theorem young_object_swept : ∃ so ∈ [tombedRow "nar/old".toList almostNoon],
    ∃ w : World, w.db.storageObjects.rows = [so] ∧
      Gone w (machine.exec (exampleServer.gcService.runLocalGcWithGracePeriod false 1)
        (fun _ => moment 0) w).1 so.storageId so.objectPath ∧
      ∀ t ∈ so.firstDeletedAt, (moment 0).sqliteNow.instant - t.instant < 1 * 1000000000 := by
  refine ⟨_, List.mem_singleton_self _,
    ⟨{ storageObjects := .single (tombedRow "nar/old".toList almostNoon) },
      fun _ _ => none⟩, rfl, Or.inr ⟨_, List.mem_singleton_self _, rfl, rfl, ?_⟩, ?_⟩ <;>
    decide +kernel

end Examples

end Gc
