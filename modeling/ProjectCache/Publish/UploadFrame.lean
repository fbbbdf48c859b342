import ProjectCache.Ingest.Multipart
import ProjectCache.Publish.Uploads

namespace UploadFrame

open Textual Nix Project DepotPath Tables Store Db Programs Depot Ingest

inductive Request where
  | uploadObject (body : BlobBytes)
  | presignMultipartUploadPart (uploadId : Text) (partNumber : Int) (contentLength : UInt64)
  | completeMultipartUpload (uploadId : Text) (parts : List CompletedMultipartUploadPart)
    (contentLength : Nat)
  | abortMultipartUpload (uploadId : Text)

inductive Response where
  | done
  | presigned (url : PresignedUploadPartUrl)
  deriving DecidableEq

def program (service : IngestService) (buildId : Uuid) (h : StorePathHash) (o : Text) :
    Request → UploadAction Response
  | .uploadObject body =>
    (fun _ => .done) <$> (service.uploadObject buildId h o body).lift Multipart
  | .presignMultipartUploadPart uploadId partNumber contentLength =>
    .presigned <$> service.presignMultipartUploadPart buildId h partNumber o uploadId contentLength
  | .completeMultipartUpload uploadId parts contentLength =>
    (fun _ => .done) <$>
      (service.completeMultipartUpload buildId h o uploadId parts contentLength).lift Multipart
  | .abortMultipartUpload uploadId =>
    (fun _ => .done) <$> service.abortMultipartUpload buildId h o uploadId

structure Validated (service : IngestService) (db : Database) (buildId : Uuid) (h : StorePathHash)
    (o : Text) (s : StorageId) (storage : DepotStorage) : Prop where
  pending : ∃ b ∈ db.builds.rows, b.id = buildId ∧ b.status = .pending ∧
    ∃ p ∈ db.projects.rows, p.id = b.projectId ∧ p.storageId = s
  attached : ⟨buildId, h⟩ ∈ db.buildPaths.rows
  registered : ∃ pi ∈ db.pathInfos.rows, pi.storePathHash = h ∧ pi.url = o
  nar : ∃ digest compression, parseDepotObjectPath o = some (.nar digest compression)
  storage : service.storageCatalog.storage s = some storage

structure Touched (s : StorageId) (h : StorePathHash) (o : Text) (w v : World) : Prop where
  tables : Frame [.storageObjects, .pathObjects] w.db v.db
  storageObjects : w.db.storageObjects.Agree v.db.storageObjects
    (fun so => ¬ (so.storageId = s ∧ so.objectPath = o))
  pathObjects : w.db.pathObjects.Agree v.db.pathObjects (fun po => po ≠ ⟨h, o, .nar⟩)
  blobs : ∀ s' o', ¬ (s' = s ∧ o' = o) → v.blobs s' o' = w.blobs s' o'

section

variable {service : IngestService} {db : Database} {buildId : Uuid} {h : StorePathHash} {o : Text}
  {s : StorageId} {storage : DepotStorage} {u v w : World}

theorem Touched.refl (w : World) : Touched s h o w w :=
  ⟨Frame.refl _ _, Table.agree_refl _ _, Table.agree_refl _ _, fun _ _ _ => rfl⟩

theorem Touched.trans (huv : Touched s h o u v) (hvw : Touched s h o v w) : Touched s h o u w where
  tables := huv.tables.trans hvw.tables
  storageObjects := huv.storageObjects.trans hvw.storageObjects
  pathObjects := huv.pathObjects.trans hvw.pathObjects
  blobs := fun s' o' hne => (hvw.blobs s' o' hne).trans (huv.blobs s' o' hne)

inductive Touches (s : StorageId) (storage : DepotStorage) (h : StorePathHash) (o : Text) :
    Call → Prop
  | putStream (body : BlobBytes) : Touches s storage h o (.putStream storage o body)
  | completeMultipartUpload (uploadId : Text) (parts : List CompletedMultipartUploadPart)
    (contentLength : Nat) :
    Touches s storage h o (.completeMultipartUpload storage o uploadId parts contentLength)
  | upsertStorageObject (metadata : BlobMetadata) :
    Touches s storage h o (.upsertStorageObject s o metadata)
  | linkPathObject : Touches s storage h o (.linkPathObject h o .nar)
  | deleteObject : Touches s storage h o (.deleteObject storage o)

theorem touched_putBlob (hs : storage.id = s) (blob : Option Blob) :
    Touched s h o w (w.putBlob storage.id o blob) where
  tables := Frame.refl _ _
  storageObjects := Table.agree_refl _ _
  pathObjects := Table.agree_refl _ _
  blobs := fun _ _ hne => if_neg (hs ▸ hne)

theorem agree_upsertStorageObject (metadata : BlobMetadata) : db.storageObjects.Agree
    (db.upsertStorageObject s o metadata).storageObjects
    (fun so => ¬ (so.storageId = s ∧ so.objectPath = o)) := by
  refine ⟨fun so hso hne => Database.mem_upsertStorageObject.mpr (Or.inr ⟨hso, hne⟩),
    fun so hso hne => ?_⟩
  rcases Database.mem_upsertStorageObject.mp hso with rfl | ⟨hold, -⟩
  · exact absurd ⟨rfl, rfl⟩ hne
  · exact hold

theorem agree_linkPathObject : db.pathObjects.Agree
    (db.pathObjects.insertOrIgnore ⟨h, o, .nar⟩) (fun po => po ≠ ⟨h, o, .nar⟩) := by
  refine ⟨fun po hpo _ => Table.mem_insertOrIgnore_of_mem hpo, fun po hpo hne => ?_⟩
  rcases Table.mem_insertOrIgnore.mp hpo with hold | ⟨-, rfl⟩
  · exact hold
  · exact absurd rfl hne

theorem carryOut_touches (hs : storage.id = s) {c : Call} (hc : Touches s storage h o c) (e : Env)
    (w : World) : Touched s h o w (carryOut c e w).1 := by
  have htables : Frame c.writes w.db (carryOut c e w).1.db := carryOut_frame c e w
  cases hc with
  | putStream body =>
    simp only [carryOut, World.putStream]
    split
    · exact touched_putBlob hs _
    · exact .refl w
  | completeMultipartUpload uploadId parts contentLength =>
    simp only [carryOut, World.completeMultipartUpload]
    split
    · exact .refl w
    split
    · exact .refl w
    split
    · exact .refl w
    split
    · exact .refl w
    · exact touched_putBlob hs _
  | upsertStorageObject metadata =>
    exact ⟨htables.mono (by simp [Call.writes]), agree_upsertStorageObject metadata,
      Table.agree_refl _ _, fun _ _ _ => rfl⟩
  | linkPathObject =>
    refine ⟨htables.mono (by simp [Call.writes]), ?_, ?_, fun s' o' _ => ?_⟩
    · rw [htables.storageObjects (by simp [Call.writes])]
      exact Table.agree_refl _ _
    · simp only [carryOut, World.written]
      cases hl : w.db.linkPathObject h o .nar with
      | none => exact Table.agree_refl _ _
      | some db' =>
        obtain ⟨-, rfl⟩ := linkPathObject_eq_some.mp hl
        exact agree_linkPathObject
    · simp only [carryOut, written_blobs]
  | deleteObject => exact touched_putBlob hs none

theorem answer_touches (hs : storage.id = s) {c : Call} (hc : Touches s storage h o c) (e : Env)
    (w : World) : Touched s h o w (answer c e w).1 := by
  rcases answer_state c e w with ha | ha
  · rw [ha]
    exact .refl w
  · rw [ha]
    exact carryOut_touches hs hc e w

theorem uses_persistOrDelete (metadata : BlobMetadata) :
    (IngestService.persistOrDelete s storage h o metadata).Uses (Touches s storage h o) := by
  have hrecord : (IngestService.recordNarObject s h o metadata).Uses (Touches s storage h o) := by
    refine Prog.Uses.bind ?_ (fun _ => Prog.uses_perform .linkPathObject)
    unfold SqliteDatabase.upsertStorageObject
    split
    · trivial
    · exact Prog.uses_perform (.upsertStorageObject metadata)
  refine hrecord.attempt.bind (fun r => ?_)
  cases r with
  | ok _ => trivial
  | error x => exact (Prog.uses_perform .deleteObject).attempt.bind (fun _ => trivial)

theorem uses_upload (u : Uploads.Upload) : ((u.store storage o).bind
    (IngestService.persistOrDelete s storage h o)).Uses (Touches s storage h o) := by
  refine Prog.Uses.bind ?_ uses_persistOrDelete
  cases u with
  | object body => exact (Prog.uses_perform (.putStream body)).bind (fun _ => trivial)
  | multipart uploadId parts contentLength =>
    exact (Prog.uses_perform (.completeMultipartUpload uploadId parts contentLength)).bind
      (fun _ => trivial)

theorem validated_of_target (ht : Uploads.Target service db buildId h o s storage) :
    Validated service db buildId h o s storage := by
  obtain ⟨context, hcontext, hp, ht⟩ := ht
  obtain ⟨pi, hpi, hurl⟩ := ht.registered
  obtain ⟨hinfo, hattached⟩ := Option.filter_eq_some_iff.mp hpi
  obtain ⟨hm, hh⟩ := Database.pathInfo_eq_some.mp hinfo
  refine ⟨?_, by simpa using hattached, ⟨pi, hm, hh, hurl⟩, ht.nar, ht.storage⟩
  unfold Database.buildContext at hcontext
  simp only [Option.bind_eq_bind, Option.bind_eq_some_iff, Option.pure_def,
    Option.some.injEq] at hcontext
  obtain ⟨b, hb, p, hproject, rfl⟩ := hcontext
  obtain ⟨hbm, hid⟩ := Database.build_eq_some.mp hb
  have hpm := List.mem_of_find?_eq_some hproject
  have hpid := List.find?_some hproject
  obtain ⟨q, hq, hs⟩ := Option.map_eq_some_iff.mp ht.project
  rw [Database.projectBySlug_of_mem hpm] at hq
  cases hq
  exact ⟨b, hbm, hid, hp, p, hpm, of_decide_eq_true hpid, hs⟩

theorem exec_validateUploadTarget (es : Nat → Env) (w : World) :
    let v := Depot.machine.exec (service.validateUploadTarget buildId h o) es w
    v.1 = w ∧ ∀ s storage, v.2 = .ok (s, storage) →
      Validated service w.db buildId h o s storage := by
  intro v
  have hmap := Machine.exec_map (M := Depot.machine) (service.validateUploadTarget buildId h o)
    id es w
  rcases Uploads.validate_cases es w service buildId h o (fun t => .done (.ok t))
    with ⟨s, storage, ht, -, hl⟩ | ⟨⟨x, hx⟩, -⟩
  · have hv := hmap.symm.trans hl
    have hok : v.2.map id = .ok (s, storage) := congrArg Prod.snd hv
    refine ⟨congrArg Prod.fst hv, fun s' storage' hr => ?_⟩
    rw [hr] at hok
    cases hok
    exact validated_of_target ht
  · have hv := hmap.symm.trans hx
    have herror : v.2.map id = .error x := congrArg Prod.snd hv
    refine ⟨congrArg Prod.fst hv, fun s' storage' hr => ?_⟩
    rw [hr] at herror
    cases herror

def carry (h : StorePathHash) (o : Text) (target : StorageId × DepotStorage) :
    Request → UploadAction Response
  | .uploadObject body => (((Uploads.Upload.object body).store target.2 o).bind
      (IngestService.persistOrDelete target.1 target.2 h o)).lift Multipart |>.bind
        (fun _ => .done (.ok .done))
  | .completeMultipartUpload uploadId parts contentLength =>
    (((Uploads.Upload.multipart uploadId parts contentLength).store target.2 o).bind
      (IngestService.persistOrDelete target.1 target.2 h o)).lift Multipart |>.bind
        (fun _ => .done (.ok .done))
  | .presignMultipartUploadPart uploadId partNumber contentLength =>
    (Prog.added (J := Multipart) (.presignMultipartUploadPart target.2 o uploadId partNumber
      contentLength PRESIGNED_MULTIPART_PART_TTL)).bind (fun url =>
        match url with
        | some url => .done (.ok (.presigned url))
        | none =>
          .done (.error (.storage "storage backend does not support multipart uploads".toList)))
  | .abortMultipartUpload uploadId =>
    (Prog.added (J := Multipart) (.abortMultipartUpload target.2 o uploadId)).bind
      (fun _ => .done (.ok .done))

theorem program_eq (q : Request) : program service buildId h o q =
    ((service.validateUploadTarget buildId h o).lift Multipart).bind
      (fun target => carry h o target q) := by
  cases q with
  | uploadObject body =>
    change ((((Uploads.Upload.object body).run service buildId h o).lift Multipart).bind _) = _
    rw [Uploads.Upload.run_eq, Prog.lift_bind, Prog.bind_assoc]
    rfl
  | completeMultipartUpload uploadId parts contentLength =>
    change ((((Uploads.Upload.multipart uploadId parts contentLength).run service buildId h o).lift
      Multipart).bind _) = _
    rw [Uploads.Upload.run_eq, Prog.lift_bind, Prog.bind_assoc]
    rfl
  | presignMultipartUploadPart uploadId partNumber contentLength =>
    refine (Prog.bind_assoc _ _ _).trans (congrArg _ (funext fun target => ?_))
    refine (Prog.bind_assoc _ _ _).trans (congrArg _ (funext fun url => ?_))
    cases url <;> rfl
  | abortMultipartUpload uploadId => exact Prog.bind_assoc _ _ _

theorem exec_store (hs : storage.id = s) (u : Uploads.Upload) (es : Nat → Env × Text) (w : World) :
    Touched s h o w (multipartMachine.exec ((((u.store storage o).bind
      (IngestService.persistOrDelete s storage h o)).lift Multipart).bind
        (fun _ => .done (.ok Response.done))) es w).1 := by
  rw [Machine.exec_map, exec_lift]
  exact Machine.exec_of_wp_any (M := Depot.machine) _
    (wp_of_uses (fun v => Touched s h o w v) (uses_upload u)
      (fun c e v hc hv => hv.trans (answer_touches hs hc e v)) (.refl w))

theorem answer_multipart (c : MultipartCall) (e : Env) (url : Text) (w : World) :
    (c.answer e url w).1 = w := by
  unfold MultipartCall.answer
  cases e.outcome <;> rfl

def Request.Asks : Request → Prop
  | .presignMultipartUploadPart _ _ _ | .abortMultipartUpload _ => True
  | .uploadObject _ | .completeMultipartUpload _ _ _ => False

theorem exec_asked {c : MultipartCall} (f : c.Reply → UploadAction Response)
    (hf : ∀ r, ∃ result, f r = .done result) (es : Nat → Env × Text) (w : World) :
    (multipartMachine.exec ((Prog.added (J := Multipart) c).bind f) es w).1 = w := by
  have hexec := @exec_added _ Multipart _ Depot.machine Text MultipartCall.answer c f es w
  rw [answer_multipart] at hexec
  rw [hexec]
  cases (c.answer (es 0).1 (es 0).2 w).2 with
  | error x => rfl
  | ok r =>
    obtain ⟨result, hr⟩ := hf r
    simp only [hr]
    rfl

theorem exec_carry_asks {q : Request} (hq : q.Asks) (target : StorageId × DepotStorage)
    (es : Nat → Env × Text) (w : World) :
    (multipartMachine.exec (carry h o target q) es w).1 = w := by
  cases q with
  | uploadObject body => exact hq.elim
  | completeMultipartUpload uploadId parts contentLength => exact hq.elim
  | presignMultipartUploadPart uploadId partNumber contentLength =>
    exact exec_asked _ (fun url => by cases url <;> exact ⟨_, rfl⟩) es w
  | abortMultipartUpload uploadId => exact exec_asked _ (fun _ => ⟨_, rfl⟩) es w

theorem exec_carry (hs : storage.id = s) (q : Request) (es : Nat → Env × Text) (w : World) :
    Touched s h o w (multipartMachine.exec (carry h o (s, storage) q) es w).1 := by
  cases q with
  | uploadObject body => exact exec_store hs (.object body) es w
  | completeMultipartUpload uploadId parts contentLength =>
    exact exec_store hs (.multipart uploadId parts contentLength) es w
  | presignMultipartUploadPart uploadId partNumber contentLength =>
    rw [exec_carry_asks (q := .presignMultipartUploadPart uploadId partNumber contentLength)
      trivial]
    exact .refl w
  | abortMultipartUpload uploadId =>
    rw [exec_carry_asks (q := .abortMultipartUpload uploadId) trivial]
    exact .refl w

end

theorem requests_touch_own_object (service : IngestService) (buildId : Uuid) (h : StorePathHash)
    (o : Text) (q : Request) (w : World) (es : Nat → Env × Text) :
    let validation := Depot.machine.exec (service.validateUploadTarget buildId h o)
      (fun n => (es n).1) w
    let r := multipartMachine.exec (program service buildId h o q) es w
    (∀ x, validation.2 = .error x → r = (w, .error x)) ∧
      (∀ s storage, validation.2 = .ok (s, storage) →
        Validated service w.db buildId h o s storage ∧ Touched s h o w r.1) ∧
      (q.Asks → r.1 = w) := by
  intro validation r
  obtain ⟨hw, hvalid⟩ := @exec_validateUploadTarget service buildId h o (fun n => (es n).1) w
  obtain ⟨count, hexec⟩ := @exec_lift_bind _ Multipart _ _ Depot.machine Text MultipartCall.answer
    (service.validateUploadTarget buildId h o) (fun target => carry h o target q) es w
  rw [← program_eq, hw] at hexec
  have hr : r = _ := hexec
  cases hv : (Depot.machine.exec (service.validateUploadTarget buildId h o)
      (fun n => (es n).1) w).2 with
  | error x =>
    rw [hv] at hr
    refine ⟨fun y hy => ?_, fun s storage hok => ?_, fun _ => ?_⟩
    · rw [hr, Except.error.inj hy]
    · cases hok
    · rw [hr]
  | ok target =>
    obtain ⟨s, storage⟩ := target
    rw [hv] at hr
    refine ⟨fun y hy => ?_, fun s' storage' hok => ?_, fun hq => ?_⟩
    · cases hy
    · cases hok
      have htarget := hvalid s storage hv
      rw [hr]
      exact ⟨htarget, exec_carry (StorageCatalog.storage_id htarget.storage) q _ w⟩
    · rw [hr]
      exact exec_carry_asks hq _ _ w

end UploadFrame
