import ProjectCache.Gc.Sweep

namespace Gc

open Textual Nix Project Calendar Tables Store Db Programs Depot Ingest SqliteDatabase DepotPath

def HasBlob (w : World) (so : StorageObjectRow) : Prop :=
  (w.blobs so.storageId so.objectPath).isSome = true

def Backed (catalog : StorageCatalog) (kept : StorageObjectRow → Prop) (w : World) : Prop :=
  ∀ so ∈ w.db.storageObjects.rows,
    (catalog.storage so.storageId).isSome = true ∧ (kept so → HasBlob w so)

def LeavesObjects : Call → Bool
  | .upsertStorageObject _ _ _ | .clearDeletedState _ | .markStale _ | .deleteStorageObjects _
  | .deleteObject _ _ => false
  | _ => true

theorem leavesObjects_of_reads {c : Call} (h : c.reads = true) : LeavesObjects c = true := by
  cases c <;> first | rfl | cases h

theorem answer_blobs {c : Call} (hc : LeavesObjects c = true) (e : Env) {w : World}
    {s : StorageId} {o : Text} (h : (w.blobs s o).isSome = true) :
    ((answer c e w).1.blobs s o).isSome = true := by
  rcases answer_state c e w with hs | hs
  · rwa [hs]
  rw [hs]
  cases c with
  | putStream storage objectPath body =>
    simp only [carryOut, World.putStream]
    split
    · exact putBlob_some h
    · exact h
  | completeMultipartUpload storage objectPath uploadId parts contentLength =>
    simp only [carryOut, World.completeMultipartUpload]
    repeat' split
    all_goals first | exact h | exact putBlob_some h
  | createMultipartUpload storage objectPath =>
    rw [carryOut_of_reads rfl]
    exact h
  | upsertStorageObject _ _ _ | clearDeletedState _ | markStale _ | deleteStorageObjects _
  | deleteObject _ _ => cases hc
  | _ => simpa [carryOut] using h

theorem answer_storageObjects {c : Call} (hc : LeavesObjects c = true) (e : Env) (w : World) :
    (answer c e w).1.db.storageObjects = w.db.storageObjects := by
  refine (answer_frame c e w).storageObjects ?_
  cases c <;> first | simp [Call.writes]; done | cases hc

section

variable {catalog : StorageCatalog} {kept : StorageObjectRow → Prop} {w : World}
  {admits : Env → Prop}

theorem Backed.answer {c : Call} (hc : LeavesObjects c = true) (e : Env)
    (h : Backed catalog kept w) : Backed catalog kept (answer c e w).1 := by
  intro so hm
  rw [answer_storageObjects hc] at hm
  exact ⟨(h so hm).1, fun hk => answer_blobs hc e ((h so hm).2 hk)⟩

theorem Backed.upsert (h : Backed catalog kept w) {s : StorageId} {o : Text} (m : BlobMetadata)
    (hs : (catalog.storage s).isSome = true) (hb : (w.blobs s o).isSome = true) :
    Backed catalog kept { w with db := w.db.upsertStorageObject s o m } := by
  intro so hm
  rcases Database.mem_upsertStorageObject.mp hm with rfl | ⟨hm, -⟩
  · exact ⟨hs, fun _ => hb⟩
  · exact h so hm

theorem Backed.of_rows (h : Backed catalog kept w) (db : Database)
    (hrows : ∀ so' ∈ db.storageObjects.rows, ∃ so ∈ w.db.storageObjects.rows,
      so.storageId = so'.storageId ∧ so.objectPath = so'.objectPath ∧
        (kept so' → kept so ∨ HasBlob w so)) : Backed catalog kept { w with db } := by
  intro so' hm'
  obtain ⟨so, hm, hs, ho, hkept⟩ := hrows so' hm'
  obtain ⟨hstorage, hblob⟩ := h so hm
  refine ⟨hs ▸ hstorage, fun hk => ?_⟩
  have hb : HasBlob w so := (hkept hk).elim hblob id
  unfold HasBlob at hb ⊢
  rwa [← hs, ← ho]

theorem Backed.drop (h : Backed catalog kept w) {gone : List (StorageId × Text)}
    (hgone : ∀ so ∈ w.db.storageObjects.rows, kept so → (so.storageId, so.objectPath) ∉ gone) :
    Backed catalog kept (dropBlobs w gone) := by
  intro so hm
  obtain ⟨hstorage, hblob⟩ := h so hm
  refine ⟨hstorage, fun hk => ?_⟩
  have hb := hblob hk
  unfold HasBlob at hb ⊢
  simpa [dropBlobs, hgone so hm hk] using hb

theorem uses_leaving {c : Call} (h : LeavesObjects c = true) :
    (perform c).Uses (fun c => LeavesObjects c = true) := Prog.uses_perform h

theorem wp_leaves {A : Type} {p : Action A} (hp : p.Uses (fun c => LeavesObjects c = true))
    (h : Backed catalog kept w) : machine.wp admits (fun _ v => Backed catalog kept v) p w :=
  wp_of_uses (Backed catalog kept) hp (fun _ e _ hc hv => hv.answer hc e) h

theorem wp_reading {A : Type} {p : Action A} (hp : p.Uses (fun c : Call => c.reads = true)) :
    machine.wp admits (fun _ v => v = w) p w :=
  wp_of_uses (fun v => v = w) hp (fun c e v hc hv => by rw [answer_of_reads hc, hv]) rfl

theorem exec_reading {A : Type} {p : Action A} (hp : p.Uses (fun c : Call => c.reads = true))
    (es : Nat → Env) (w : World) : (machine.exec p es w).1 = w := by
  have hw : machine.wp (fun _ => True) (fun _ v => v = w) p w := wp_reading hp
  exact Machine.exec_of_wp hw (fun _ => trivial)

theorem wp_recordNarObject (h : Backed catalog kept w) {s : StorageId} {o : Text}
    (p : StorePathHash) (m : BlobMetadata) (hs : (catalog.storage s).isSome = true)
    (hb : (w.blobs s o).isSome = true) :
    machine.wp admits (fun _ v => Backed catalog kept v)
      (IngestService.recordNarObject s p o m) w := by
  refine Machine.wp_seq ?_ (fun _ v hv => wp_leaves (Prog.uses_perform rfl) hv)
  unfold upsertStorageObject
  split
  · exact h
  · change machine.wp admits (fun _ v => Backed catalog kept v)
      (perform (.upsertStorageObject s o m)) w
    refine wp_perform.mpr (fun e _ => ?_)
    rcases answer_state (.upsertStorageObject s o m) e w with hv | hv
    · rwa [hv]
    · rw [hv]
      exact h.upsert m hs hb

theorem wp_recordIfStored (h : Backed catalog kept w) {s : StorageId} {storage : DepotStorage}
    (hs : catalog.storage s = some storage) (p : StorePathHash) (o : Text) :
    machine.wp admits (fun _ v => Backed catalog kept v)
      (IngestService.recordIfStored s storage p o) w := by
  refine Machine.wp_bind.mpr (wp_perform_of (fun e _ r hr => ?_) (fun e _ x _ v hv => ?_))
  · simp only [carryOut, Except.ok.injEq] at hr ⊢
    rw [onOk_ok]
    cases r with
    | none => exact h
    | some m =>
      refine Machine.wp_seq (wp_recordNarObject h p m (by simp [hs]) ?_) (fun _ v hv => hv)
      rw [StorageCatalog.storage_id hs] at hr
      obtain ⟨blob, hblob, -⟩ := Option.map_eq_some_iff.mp hr
      simp [hblob]
  · obtain rfl : v = w := hv.elim id id
    exact h

theorem wp_linkStoredObjects (h : Backed catalog kept w) {s : StorageId} {storage : DepotStorage}
    (hs : catalog.storage s = some storage) (narinfos : List Narinfo.NarInfo) :
    machine.wp admits (fun _ v => Backed catalog kept v)
      (IngestService.linkStoredObjects s storage narinfos) w := by
  induction narinfos generalizing w with
  | nil => exact h
  | cons narinfo rest ih =>
    refine Machine.wp_seq (wp_leaves (uses_ofExcept _ _) h) (fun p v hv => ?_)
    split
    · exact ih hv
    · exact Machine.wp_seq (wp_recordIfStored hv hs p _) (fun _ u hu => ih hu)

theorem wp_finalizePaths (h : Backed catalog kept w) {s : StorageId} {storage : DepotStorage}
    (hs : catalog.storage s = some storage) (b : Uuid) (upstreams : List UpstreamCache)
    (paths : List (StorePathHash × Text)) :
    machine.wp admits (fun _ v => Backed catalog kept v)
      (IngestService.finalizePaths b s storage upstreams paths) w := by
  induction paths generalizing w with
  | nil => exact h
  | cons path rest ih =>
    refine Machine.wp_seq (wp_recordIfStored h hs path.1 path.2) (fun stored v hv => ?_)
    split
    · exact ih hv
    refine Machine.wp_seq (wp_leaves (uses_objectExistsUpstream (fun _ => leavesObjects_of_reads)
      path.2 upstreams) hv) (fun existsUpstream u hu => ?_)
    split
    · exact ih hu
    · exact hu

end

theorem completed_ok {w v : World} {storage : DepotStorage} {o : Text}
    {parts : List CompletedMultipartUploadPart} {contentLength : Nat}
    {assembled : Option BlobBytes} {etag : Option Text} {completed : CompletedMultipartUpload}
    (h : w.completeMultipartUpload storage o parts contentLength assembled etag =
      (v, .ok completed)) : completed.contentLength = contentLength ∧
        (v.blobs storage.id o).isSome = true ∧ v.db = w.db := by
  unfold World.completeMultipartUpload at h
  repeat' split at h
  all_goals simp only [Prod.mk.injEq, reduceCtorEq, and_false, Except.ok.injEq] at h
  obtain ⟨rfl, rfl⟩ := h
  exact ⟨rfl, by simp [World.putBlob], rfl⟩

section

variable {service : IngestService} {kept : StorageObjectRow → Prop} {w : World}
  {admits : Env → Prop}

theorem wp_storageForProject (project : ProjectSlug) :
    machine.wp admits (fun r v => v = w ∧ ∀ p, r = .ok p →
      service.storageCatalog.storage p.1 = some p.2) (service.storageForProject project) w := by
  refine Machine.wp_bind.mpr (Machine.wp_mono (wp_reading
    (uses_getProjectStorageId (fun _ h => h) project)) (fun r v hv => ?_))
  subst hv
  cases r with
  | error x => exact ⟨rfl, fun _ h => nomatch h⟩
  | ok s =>
    refine Machine.wp_bind.mpr (wp_orFail (fun storage hs => ⟨rfl, ?_⟩)
      (fun _ => ⟨rfl, fun _ h => nomatch h⟩))
    rintro _ ⟨⟩
    exact hs

theorem wp_withStorage {A : Type} (project : ProjectSlug)
    {f : StorageId × DepotStorage → Action A} (h : Backed service.storageCatalog kept w)
    (hf : ∀ s storage v, service.storageCatalog.storage s = some storage →
      Backed service.storageCatalog kept v →
        machine.wp admits (fun _ v => Backed service.storageCatalog kept v) (f (s, storage)) v) :
    machine.wp admits (fun _ v => Backed service.storageCatalog kept v)
      ((service.storageForProject project).bind f) w := by
  refine Machine.wp_bind.mpr (Machine.wp_mono (wp_storageForProject project) ?_)
  rintro r v ⟨rfl, hr⟩
  cases r with
  | error x => exact h
  | ok p => exact hf p.1 p.2 v (hr p rfl) h

theorem wp_registerPaths [Base64] (service : IngestService)
    (h : Backed service.storageCatalog kept w) (b : Uuid)
    (paths : List NarInfoPayload) :
    machine.wp admits (fun _ v => Backed service.storageCatalog kept v)
      (service.registerPaths b paths) w := by
  have hr := @leavesObjects_of_reads
  have hregister : ∀ paths, (service.registerNarinfos b paths).Uses
      (fun c => LeavesObjects c = true) := by
    intro paths
    induction paths with
    | nil => trivial
    | cons path rest ih =>
      exact (uses_ofExcept _ _).bind (fun h => (uses_upsertPathInfo (fun _ => hr) (fun _ => rfl)
        _).bind (fun _ => (uses_leaving (c := .attachBuildPath b h) rfl).bind
          (fun _ => ih.bind (fun _ => Prog.uses_done _))))
  refine Machine.wp_seq (wp_leaves (uses_pendingBuildContext (fun _ => hr) b) h)
    (fun context w h => Machine.wp_seq (wp_leaves (hregister paths) h) (fun narinfos w h => ?_))
  refine wp_withStorage _ h (fun s storage w hs h => ?_)
  refine Machine.wp_seq (wp_leaves (uses_projectUpstreams (fun _ => hr) _) h)
    (fun upstreams w h => Machine.wp_seq
      (wp_leaves (uses_planRequiredUploads (fun _ => hr) _ _ _) h)
      (fun planned w h => ?_))
  exact Machine.wp_seq (wp_linkStoredObjects h hs _) (fun _ w h =>
    wp_leaves (uses_requireUploads (fun _ => hr) _ _) h)

theorem wp_finalizeBuild (service : IngestService) (h : Backed service.storageCatalog kept w)
    (b : Uuid) :
    machine.wp admits (fun _ v => Backed service.storageCatalog kept v)
      (service.finalizeBuild b) w := by
  have hr := @leavesObjects_of_reads
  refine Machine.wp_seq (wp_leaves (uses_pendingBuildContext (fun _ => hr) b) h)
    (fun context w h => Machine.wp_seq (wp_leaves (uses_select (fun _ => hr) _) h)
      (fun buildPaths w h => ?_))
  split
  · exact h
  refine Machine.wp_seq (wp_leaves (uses_projectUpstreams (fun _ => hr) _) h)
    (fun upstreams w h => wp_withStorage _ h (fun s storage w hs h => ?_))
  refine Machine.wp_seq (wp_finalizePaths h hs b upstreams _) (fun _ w h => wp_leaves ?_ h)
  exact (uses_projectIdBySlug (fun _ => hr) _).bind (fun projectId =>
    (uses_leaving (c := .now) rfl).bind (fun finalizedAt =>
      uses_leaving (c := .publishBuild projectId context.refName b finalizedAt) rfl))

theorem wp_persistOrDelete {catalog : StorageCatalog} (ha : ∀ e, admits e → e.outcome = .answered)
    (h : Backed catalog kept w) {s : StorageId} {storage : DepotStorage}
    (hs : catalog.storage s = some storage) {p : StorePathHash} {o : Text} {m : BlobMetadata}
    (hb : (w.blobs s o).isSome = true) (hp : ∃ pi, w.db.pathInfo p = some pi)
    (hm : m.contentLength.any (fun length => 2 ^ 63 ≤ length) = false) :
    machine.wp admits (fun _ v => Backed catalog kept v)
      (IngestService.persistOrDelete s storage p o m) w := by
  refine Machine.wp_bind.mpr (Machine.wp_attempt ?_)
  unfold IngestService.recordNarObject upsertStorageObject
  rw [if_neg (Bool.eq_false_iff.mp hm)]
  refine Machine.wp_bind.mpr (wp_perform.mpr (fun e he => ?_))
  rw [answer_of_answered (ha e he)]
  simp only [carryOut, World.answering, onOk_ok]
  refine (wp_perform (c := .linkPathObject p o .nar)).mpr (fun e' he' => ?_)
  obtain ⟨pi, hpi⟩ := hp
  have hlink : (w.db.upsertStorageObject s o m).linkPathObject p o .nar =
      some { w.db.upsertStorageObject s o m with
        pathObjects := w.db.pathObjects.insertOrIgnore ⟨p, o, .nar⟩ } :=
    linkPathObject_eq_some.mpr ⟨⟨pi, hpi⟩, rfl⟩
  rw [answer_of_answered (ha e' he')]
  simp only [carryOut, World.written, hlink]
  exact h.upsert m (by simp [hs]) hb

theorem wp_validateUploadTarget (b : Uuid) (p : StorePathHash) (o : Text) :
    machine.wp admits (fun r v => v = w ∧ ∀ target, r = .ok target →
      service.storageCatalog.storage target.1 = some target.2 ∧
        ∃ pi, w.db.pathInfo p = some pi) (service.validateUploadTarget b p o) w := by
  refine Machine.wp_bind.mpr (Machine.wp_mono (wp_reading
    (uses_pendingBuildContext (fun _ h => h) b)) (fun r v hv => ?_))
  subst hv
  cases r with
  | error x => exact ⟨rfl, fun _ h => nomatch h⟩
  | ok context =>
    rw [onOk_ok]
    split
    · refine Machine.wp_bind.mpr (Machine.wp_bind.mpr (wp_select ?_
        (fun _ _ _ x => ⟨rfl, fun _ h => nomatch h⟩)))
      rw [onOk_ok]
      cases hrow : v.db.buildPathInfo b p with
      | none => exact ⟨rfl, fun _ h => nomatch h⟩
      | some row =>
        have hpi : ∃ pi, v.db.pathInfo p = some pi := ⟨row, (Option.filter_eq_some_iff.mp hrow).1⟩
        refine Machine.wp_mono (wp_reading (uses_inflateOptional (fun _ h => h) _))
          (fun r u hu => ?_)
        subst hu
        cases r with
        | error x => exact ⟨rfl, fun _ h => nomatch h⟩
        | ok narinfo =>
          refine Machine.wp_bind.mpr (wp_orFail (fun n _ => ?_)
            (fun _ => ⟨rfl, fun _ h => nomatch h⟩))
          rw [onOk_ok]
          split
          · exact ⟨rfl, fun _ h => nomatch h⟩
          · exact Machine.wp_mono (wp_storageForProject _)
              (fun r t ht => ⟨ht.1, fun target hr => ⟨ht.2 target hr, hpi⟩⟩)
    · exact ⟨rfl, fun _ h => nomatch h⟩
    · exact ⟨rfl, fun _ h => nomatch h⟩

theorem wp_uploadObject (service : IngestService) (ha : ∀ e, admits e → e.outcome = .answered)
    (h : Backed service.storageCatalog kept w) (b : Uuid) (p : StorePathHash) (o : Text)
    {body : BlobBytes} (hbody : body.length < 2 ^ 63) :
    machine.wp admits (fun _ v => Backed service.storageCatalog kept v)
      (service.uploadObject b p o body) w := by
  refine Machine.wp_bind.mpr (Machine.wp_mono (wp_validateUploadTarget b p o) ?_)
  rintro r v ⟨rfl, hr⟩
  cases r with
  | error x => exact h
  | ok target =>
    obtain ⟨s, storage⟩ := target
    obtain ⟨hs, hp⟩ : service.storageCatalog.storage s = some storage ∧ _ := hr _ rfl
    refine Machine.wp_bind.mpr (wp_perform.mpr (fun e he => ?_))
    have hv := h.answer (c := .putStream storage o body) rfl e
    rw [answer_of_answered (ha e he)] at hv ⊢
    simp only [carryOut, World.putStream] at hv ⊢
    split
    · rename_i haccepts
      rw [if_pos haccepts] at hv
      rw [onOk_ok]
      refine wp_persistOrDelete ha hv hs ?_ hp ?_
      · simp [World.putBlob, StorageCatalog.storage_id hs]
      · simpa using hbody
    · exact h

theorem wp_completeMultipartUpload (service : IngestService)
    (ha : ∀ e, admits e → e.outcome = .answered) (h : Backed service.storageCatalog kept w)
    (b : Uuid) (p : StorePathHash) (o uploadId : Text)
    (parts : List CompletedMultipartUploadPart) {contentLength : Nat}
    (hlength : contentLength < 2 ^ 63) :
    machine.wp admits (fun _ v => Backed service.storageCatalog kept v)
      (service.completeMultipartUpload b p o uploadId parts contentLength) w := by
  refine Machine.wp_bind.mpr (Machine.wp_mono (wp_validateUploadTarget b p o) ?_)
  rintro r v ⟨rfl, hr⟩
  cases r with
  | error x => exact h
  | ok target =>
    obtain ⟨s, storage⟩ := target
    obtain ⟨hs, hp⟩ : service.storageCatalog.storage s = some storage ∧ _ := hr _ rfl
    refine Machine.wp_bind.mpr (wp_perform.mpr (fun e he => ?_))
    have hv := h.answer (c := .completeMultipartUpload storage o uploadId parts contentLength)
      rfl e
    rw [answer_of_answered (ha e he)] at hv ⊢
    simp only [carryOut] at hv ⊢
    generalize hput : v.completeMultipartUpload storage o parts contentLength e.assembled e.etag =
      result at hv ⊢
    obtain ⟨v', r⟩ := result
    cases r with
    | error x => exact hv
    | ok completed =>
      obtain ⟨hlen, hblob, hdb⟩ := completed_ok hput
      rw [onOk_ok]
      refine wp_persistOrDelete ha hv hs ?_ (hdb ▸ hp) ?_
      · rw [← StorageCatalog.storage_id hs]
        exact hblob
      · simpa [hlen] using hlength

end

section

open Depot.Server

def FitsColumn : Request → Prop
  | .uploadObject _ _ _ body => body.length < 2 ^ 63
  | .completeMultipartUpload _ _ _ _ _ contentLength => contentLength < 2 ^ 63
  | _ => True

instance : DecidablePred FitsColumn := fun q => by
  unfold FitsColumn
  split <;> infer_instance

variable [Base64] [WildMatch] {server : Server} {kept : StorageObjectRow → Prop} {w : World}
  {admits : Env → Prop}

theorem wp_dryGc (h : Backed server.storageCatalog kept w) (g : Int) :
    machine.wp admits (fun _ v => Backed server.storageCatalog kept v)
      (server.program (.runLocalGc true g)) w :=
  wp_leaves ((server.program_uses _).mono (fun c hc => by
    cases hc <;>
      first | exact leavesObjects_of_reads ‹_› | cases ‹_ = true› | cases ‹_ = some _›)) h

theorem wp_request (ha : ∀ e, admits e → e.outcome = .answered) {q : Request} (hq : FitsColumn q)
    (hgc : ∀ g, q ≠ .runLocalGc false g) (h : Backed server.storageCatalog kept w) :
    machine.wp admits (fun _ v => Backed server.storageCatalog kept v) (server.program q) w := by
  have hdone : ∀ (r : Response) (v : World), Backed server.storageCatalog kept v →
      machine.wp admits (fun _ v => Backed server.storageCatalog kept v) (.done (.ok r)) v :=
    fun _ _ hv => hv
  cases q with
  | registerPaths b paths =>
    exact Machine.wp_seq (wp_registerPaths server.ingestService h b paths)
      (fun _ => hdone _)
  | uploadObject b p o body =>
    exact Machine.wp_seq (wp_uploadObject server.ingestService ha h b p o hq)
      (fun _ => hdone _)
  | completeMultipartUpload b p o uploadId parts contentLength =>
    exact Machine.wp_seq (wp_completeMultipartUpload server.ingestService ha h b p o uploadId
      parts hq) (fun _ => hdone _)
  | finalizeBuild b =>
    exact Machine.wp_seq (wp_finalizeBuild server.ingestService h b) (fun _ => hdone _)
  | runLocalGc dryRun g =>
    cases dryRun with
    | true => exact wp_dryGc h g
    | false => exact absurd rfl (hgc g)
  | _ =>
    refine wp_leaves ((server.program_uses _).mono (fun c hc => ?_)) h
    cases hc <;> first
      | rfl
      | exact leavesObjects_of_reads ‹_›
      | cases ‹_ = true›
      | cases ‹_ = some _›

end

end Gc
