import ProjectCache.Depot.Server

namespace Depot

open Textual Nix Project Calendar Tables Store Db Programs Validation Narinfo Ingest SqliteDatabase

def Call.reads : Call → Bool
  | .select _ | .head _ _ | .getBytes _ _ | .createMultipartUpload _ _ | .fetchNarinfoText _ _
  | .headUpstreamObject _ _ | .getUpstreamObject _ _ | .now | .uuid | .fill _ => true
  | _ => false

theorem carryOut_of_reads {c : Call} (h : c.reads = true) (e : Env) (w : World) :
    (carryOut c e w).1 = w := by
  cases c with
  | createMultipartUpload storage o =>
    simp only [carryOut, World.createMultipartUpload]
    split <;> rfl
  | select _ | head _ _ | getBytes _ _ | fetchNarinfoText _ _ | headUpstreamObject _ _
  | getUpstreamObject _ _ | now | uuid | fill _ => rfl
  | _ => cases h

theorem answer_of_reads {c : Call} (h : c.reads = true) (e : Env) (w : World) :
    (answer c e w).1 = w := by
  rcases answer_state c e w with hs | hs
  · exact hs
  · rw [hs, carryOut_of_reads h]

theorem writes_of_reads {c : Call} (h : c.reads = true) : c.writes = [] := by
  cases c <;> first | rfl | cases h

inductive Call.LooksUp : Call → Prop
  | select {B : Type} (query : Database → B)
    (h : ∀ db storageObjects, query { db with storageObjects } = query db) :
    LooksUp (.select (fun _ db => query db))
  | now : LooksUp .now

theorem Call.LooksUp.reads {c : Call} (h : c.LooksUp) : c.reads = true := by
  cases h <;> rfl

theorem looks_select {B : Type} {query : Database → B}
    (h : ∀ db storageObjects, query { db with storageObjects } = query db) :
    (select query).Direct Call.LooksUp := Prog.direct_perform (.select query h)

theorem looks_orFail {A : Type} (value : Option A) (error : Error) :
    (orFail value error).Direct Call.LooksUp := by
  cases value <;> trivial

theorem looks_projectIdBySlug (slug : ProjectSlug) :
    (projectIdBySlug slug).Direct Call.LooksUp :=
  (looks_select (fun _ _ => rfl)).bind (fun _ => looks_orFail _ _)

theorem looks_getProjectRetentionPolicy (project : ProjectSlug) :
    (getProjectRetentionPolicy project).Direct Call.LooksUp := by
  refine (looks_projectIdBySlug project).bind
    (fun _ => (looks_select (fun _ _ => rfl)).bind (fun row => ?_))
  cases row with
  | none => trivial
  | some policy => exact (looks_select (fun _ _ => rfl)).bind (fun _ => trivial)

theorem looks_refIsActive (updatedAt : SqliteTime) (ttlSeconds : Option UInt64) :
    (refIsActive updatedAt ttlSeconds).Direct Call.LooksUp := by
  cases ttlSeconds with
  | none => trivial
  | some ttlSeconds =>
    refine (Prog.direct_perform .now).bind (fun _ => ?_)
    split <;> trivial

section

variable [WildMatch]

theorem looks_retainedBuildIdsOfRef (project : ProjectSlug) (refName : Text)
    (updatedAt : SqliteTime) :
    (retainedBuildIdsOfRef project refName updatedAt).Direct Call.LooksUp := by
  refine (looks_getProjectRetentionPolicy project).bind (fun policy => ?_)
  split
  · trivial
  · refine (looks_refIsActive _ _).bind (fun active => ?_)
    split
    · trivial
    · exact (looks_projectIdBySlug project).bind (fun _ => looks_select (fun _ _ => rfl))

theorem looks_retainedBuildIdsOfRefs (refs : List (ProjectSlug × Text × SqliteTime)) :
    (retainedBuildIdsOfRefs refs).Direct Call.LooksUp := by
  induction refs with
  | nil => trivial
  | cons r rest ih =>
    exact (looks_retainedBuildIdsOfRef _ _ _).bind (fun _ => ih.bind (fun _ => trivial))

theorem looks_listRetainedBuildIdsForGc : listRetainedBuildIdsForGc.Direct Call.LooksUp :=
  (looks_select (fun _ _ => rfl)).bind (fun refs =>
    (looks_retainedBuildIdsOfRefs refs).bind (fun _ => trivial))

omit [WildMatch] in
theorem looks_pathsOfBuilds (ids : List Uuid) : (pathsOfBuilds ids).Direct Call.LooksUp := by
  induction ids with
  | nil => trivial
  | cons id rest ih =>
    exact (looks_select (fun _ _ => rfl)).bind (fun _ => ih.bind (fun _ => trivial))

theorem looks_listRootStorePathHashes : listRootStorePathHashes.Direct Call.LooksUp :=
  looks_listRetainedBuildIdsForGc.bind (fun ids => (looks_pathsOfBuilds ids).bind
    (fun _ => (looks_select (fun _ _ => rfl)).bind
      (fun _ => (looks_select (fun _ _ => rfl)).bind (fun _ => trivial))))

end

section

variable {A E : Type} {allowed : Call → Prop} (hr : ∀ c : Call, c.reads = true → allowed c)

include hr

theorem uses_reading {c : Call} (h : c.reads = true) : (perform c).Uses allowed :=
  Prog.uses_perform (hr c h)

theorem uses_select {B : Type} (query : Database → B) : (select query).Uses allowed :=
  uses_reading hr rfl

omit hr

theorem uses_orFail (value : Option A) (error : Error) : (orFail value error).Uses allowed := by
  cases value <;> trivial

theorem uses_ofExcept (wrap : E → Error) (result : Except E A) :
    (ofExcept wrap result).Uses allowed := by
  cases result <;> trivial

include hr

theorem uses_looking {p : Action A} (h : p.Direct Call.LooksUp) : p.Uses allowed :=
  h.uses.mono (fun c hc => hr c hc.reads)

theorem uses_projectIdBySlug (slug : ProjectSlug) : (projectIdBySlug slug).Uses allowed :=
  uses_looking hr (looks_projectIdBySlug slug)

theorem uses_getProjectStorageId (slug : ProjectSlug) : (getProjectStorageId slug).Uses allowed :=
  (uses_select hr _).bind (fun _ => uses_orFail _ _)

theorem uses_inflateOptional (row : Option PathInfoRow) : (inflateOptional row).Uses allowed := by
  cases row with
  | none => trivial
  | some row =>
    have hinflate : (inflateNarinfo row).Uses allowed :=
      (uses_select hr _).bind (fun _ => (uses_select hr _).bind (fun _ => trivial))
    exact hinflate.bind (fun _ => trivial)

theorem uses_upsertPathInfo [Base64] (hi : ∀ row, allowed (.insertPathInfo row))
    (narinfo : NarInfo) : (upsertPathInfo narinfo).Uses allowed := by
  refine (uses_ofExcept _ _).bind (fun h => (uses_ofExcept _ _).bind (fun narHash => ?_))
  split
  · trivial
  refine (Prog.uses_perform (hi _)).bind (fun inserted => ?_)
  split
  · trivial
  · exact ((uses_select hr _).bind (fun _ => uses_inflateOptional hr _)).bind
      (fun _ => (uses_orFail _ _).bind (fun _ => uses_ofExcept _ _))

theorem uses_listRootStorePathHashes [WildMatch] : listRootStorePathHashes.Uses allowed :=
  uses_looking hr looks_listRootStorePathHashes

theorem uses_pendingBuildContext (buildId : Uuid) :
    (IngestService.pendingBuildContext buildId).Uses allowed := by
  refine (uses_select hr _).bind (fun _ => (uses_orFail _ _).bind (fun context => ?_))
  split <;> trivial

theorem uses_projectUpstreams (project : ProjectSlug) :
    (IngestService.projectUpstreams project).Uses allowed :=
  (uses_select hr _).bind (fun _ => trivial)

theorem uses_storageForProject (service : IngestService) (project : ProjectSlug) :
    (service.storageForProject project).Uses allowed :=
  (uses_getProjectStorageId hr project).bind (fun _ => (uses_orFail _ _).bind (fun _ => trivial))

theorem uses_objectExistsUpstream (objectPath : Text) (upstreams : List UpstreamCache) :
    (objectExistsUpstream objectPath upstreams).Uses allowed := by
  induction upstreams with
  | nil => trivial
  | cons u rest ih =>
    refine (uses_reading hr rfl).bind (fun found => ?_)
    split
    · trivial
    · exact ih

theorem uses_planRequiredUploads (storage : DepotStorage) (upstreams : List UpstreamCache)
    (narinfos : List NarInfo) : (planRequiredUploads storage upstreams narinfos).Uses allowed := by
  induction narinfos with
  | nil => trivial
  | cons narinfo rest ih =>
    refine (uses_ofExcept _ _).bind (fun h => ?_)
    split
    · exact ih
    refine (uses_reading hr rfl).bind (fun stored => ?_)
    split
    · exact ih
    refine (uses_objectExistsUpstream hr _ _).bind (fun existsUpstream => ?_)
    split
    · exact ih
    · exact ih.bind (fun _ => trivial)

theorem uses_requireUploads (storage : DepotStorage) (planned : List PlannedUpload) :
    (IngestService.requireUploads storage planned).Uses allowed := by
  induction planned with
  | nil => trivial
  | cons p rest ih => exact (uses_reading hr rfl).bind (fun _ => ih.bind (fun _ => trivial))

theorem uses_validateUploadTarget (service : IngestService) (buildId : Uuid) (h : StorePathHash)
    (objectPath : Text) : (service.validateUploadTarget buildId h objectPath).Uses allowed := by
  refine (uses_pendingBuildContext hr buildId).bind (fun context => ?_)
  split
  · refine ((uses_select hr _).bind (fun row => uses_inflateOptional hr row)).bind
      (fun narinfo => (uses_orFail _ _).bind (fun narinfo => ?_))
    split
    · trivial
    · exact uses_storageForProject hr service _
  · trivial
  · trivial

end

section

variable {allowed : Call → Prop} (hr : ∀ c : Call, c.reads = true → allowed c)
  (hu : ∀ s o m, allowed (.upsertStorageObject s o m))
  (hl : ∀ h o, allowed (.linkPathObject h o .nar))

include hu hl

theorem uses_recordNarObject (storageId : StorageId) (h : StorePathHash) (objectPath : Text)
    (metadata : BlobMetadata) :
    (IngestService.recordNarObject storageId h objectPath metadata).Uses allowed := by
  refine Prog.Uses.bind ?_ (fun _ => Prog.uses_perform (hl _ _))
  unfold upsertStorageObject
  split
  · trivial
  · exact Prog.uses_perform (hu _ _ _)

theorem uses_persistOrDelete (storageId : StorageId) (storage : DepotStorage) (h : StorePathHash)
    (objectPath : Text) (metadata : BlobMetadata)
    (hd : allowed (.deleteObject storage objectPath)) :
    (IngestService.persistOrDelete storageId storage h objectPath metadata).Uses allowed := by
  refine (uses_recordNarObject hu hl _ _ _ _).attempt.bind (fun r => ?_)
  cases r with
  | ok _ => trivial
  | error x => exact (Prog.uses_perform hd).attempt.bind (fun _ => trivial)

include hr

theorem uses_recordIfStored (storageId : StorageId) (storage : DepotStorage) (h : StorePathHash)
    (objectPath : Text) :
    (IngestService.recordIfStored storageId storage h objectPath).Uses allowed := by
  refine (uses_reading hr rfl).bind (fun found => ?_)
  cases found with
  | none => trivial
  | some metadata => exact (uses_recordNarObject hu hl _ _ _ _).bind (fun _ => trivial)

theorem uses_linkStoredObjects (storageId : StorageId) (storage : DepotStorage)
    (narinfos : List NarInfo) :
    (IngestService.linkStoredObjects storageId storage narinfos).Uses allowed := by
  induction narinfos with
  | nil => trivial
  | cons narinfo rest ih =>
    refine (uses_ofExcept _ _).bind (fun h => ?_)
    split
    · exact ih
    · exact (uses_recordIfStored hr hu hl _ _ _ _).bind (fun _ => ih)

theorem uses_finalizePaths (buildId : Uuid) (storageId : StorageId) (storage : DepotStorage)
    (upstreams : List UpstreamCache) (paths : List (StorePathHash × Text)) :
    (IngestService.finalizePaths buildId storageId storage upstreams paths).Uses allowed := by
  induction paths with
  | nil => trivial
  | cons path rest ih =>
    refine (uses_recordIfStored hr hu hl _ _ _ _).bind (fun stored => ?_)
    split
    · exact ih
    refine (uses_objectExistsUpstream hr _ _).bind (fun existsUpstream => ?_)
    split
    · exact ih
    · trivial

end

namespace Server

def Request.ingests : Request → Bool
  | .registerPaths _ _ | .uploadObject _ _ _ _ | .completeMultipartUpload _ _ _ _ _ _
  | .finalizeBuild _ => true
  | _ => false

def Request.uploads : Request → Option Text
  | .uploadObject _ _ objectPath _ | .completeMultipartUpload _ _ objectPath _ _ _ =>
    some objectPath
  | _ => none

variable [Base64]

inductive Makes (server : Server) : Request → Call → Prop
  | reads {q : Request} {c : Call} : c.reads = true → Makes server q c
  | insertProject {slug : ProjectSlug} {displayName : Text} {isPublic : Bool}
    {storageId : StorageId} (id : Uuid) :
    Makes server (.insertProject slug displayName isPublic storageId)
      (.insertProject ⟨id, slug, displayName, isPublic, storageId⟩)
  | insertBuild {project refName : Text} {revision : Option Text} (id projectId : Uuid) :
    Makes server (.beginBuild project refName revision)
      (.insertBuild id projectId refName revision)
  | insertPathInfo {buildId : Uuid} {paths : List NarInfoPayload} {path : NarInfoPayload}
    {h : StorePathHash} {narHash : NormalizedNarHash} (hp : path ∈ paths)
    (hv : validatePublishNarinfo server.storeDir path.intoNarinfo = .ok h)
    (hn : path.intoNarinfo.normalizedNarHash = .ok narHash) :
    Makes server (.registerPaths buildId paths)
      (.insertPathInfo (pathInfoRow path.intoNarinfo h narHash))
  | attachBuildPath {buildId : Uuid} {paths : List NarInfoPayload} (h : StorePathHash) :
    Makes server (.registerPaths buildId paths) (.attachBuildPath buildId h)
  | upsertStorageObject {q : Request} (hq : q.ingests = true) (storageId : StorageId)
    (objectPath : Text) (metadata : BlobMetadata) :
    Makes server q (.upsertStorageObject storageId objectPath metadata)
  | linkPathObject {q : Request} (hq : q.ingests = true) (h : StorePathHash) (objectPath : Text) :
    Makes server q (.linkPathObject h objectPath .nar)
  | publishBuild {buildId : Uuid} (projectId : Uuid) (refName : Text) (finalizedAt : UtcDateTime) :
    Makes server (.finalizeBuild buildId) (.publishBuild projectId refName buildId finalizedAt)
  | putStream {buildId : Uuid} {h : StorePathHash} {objectPath : Text} {body : BlobBytes}
    (storage : DepotStorage) :
    Makes server (.uploadObject buildId h objectPath body) (.putStream storage objectPath body)
  | completeMultipartUpload {buildId : Uuid} {h : StorePathHash} {objectPath uploadId : Text}
    {parts : List CompletedMultipartUploadPart} {contentLength : Nat} (storage : DepotStorage) :
    Makes server (.completeMultipartUpload buildId h objectPath uploadId parts contentLength)
      (.completeMultipartUpload storage objectPath uploadId parts contentLength)
  | deleteUploaded {q : Request} {objectPath : Text} (hq : q.uploads = some objectPath)
    (storage : DepotStorage) : Makes server q (.deleteObject storage objectPath)
  | upsertPin {name : Text} {project : Option ProjectSlug} {h : StorePathHash} {storePath : Text}
    (scopeKey : PinScope) (projectId : Option Uuid) :
    Makes server (.upsertPin name project h storePath)
      (.upsertPin ⟨scopeKey, name, projectId, h, storePath⟩)
  | deletePin {name : Text} {project : Option ProjectSlug} (scopeKey : PinScope) :
    Makes server (.deletePin name project) (.deletePin scopeKey name)
  | replaceRetentionPolicy {project : ProjectSlug} {keepLatestBuildsPerRef : UInt32}
    {objectDeleteGraceSeconds : UInt64} {rules : List ProjectRetentionRuleRecord}
    (policy : RetentionPolicyRow) (rows : List RetentionRuleRow) :
    Makes server (.replaceRetentionPolicy project keepLatestBuildsPerRef objectDeleteGraceSeconds
      rules) (.replaceRetentionPolicy policy rows)
  | deleteRetentionPolicy {project : ProjectSlug} (projectId : Uuid) :
    Makes server (.deleteRetentionPolicy project) (.deleteRetentionPolicy projectId)
  | clearDeletedState {g : Int} (roots : List StorePathHash) :
    Makes server (.runLocalGc false g) (.clearDeletedState roots)
  | markStale {g : Int} (roots : List StorePathHash) :
    Makes server (.runLocalGc false g) (.markStale roots)
  | deleteReady {g : Int} (storage : DepotStorage) (objectPath : Text) :
    Makes server (.runLocalGc false g) (.deleteObject storage objectPath)
  | deleteStorageObjects {g : Int} (objects : List (StorageId × Text)) :
    Makes server (.runLocalGc false g) (.deleteStorageObjects objects)
  | upsertUpstreamCache {name baseUrl : Text} {priority : UInt32} {enabled : Bool}
    (row : UpstreamCacheRow) :
    Makes server (.upsertUpstreamCache name baseUrl priority enabled) (.upsertUpstreamCache row)
  | setUpstreamEnabled {name : Text} {enabled : Bool} :
    Makes server (.setUpstreamEnabled name enabled) (.setUpstreamEnabled name enabled)
  | linkProjectUpstream {project : ProjectSlug} {name : Text} (projectId upstreamId : Uuid) :
    Makes server (.linkProjectUpstream project name) (.linkProjectUpstream projectId upstreamId)
  | unlinkProjectUpstream {project : ProjectSlug} {name : Text} (projectId : Uuid) :
    Makes server (.unlinkProjectUpstream project name) (.unlinkProjectUpstream projectId name)

variable (server : Server)

theorem uses_registerNarinfos {buildId : Uuid} {paths rest : List NarInfoPayload}
    (hs : ∀ path ∈ rest, path ∈ paths) :
    (server.ingestService.registerNarinfos buildId rest).Uses
      (Makes server (.registerPaths buildId paths)) := by
  induction rest with
  | nil => trivial
  | cons path rest ih =>
    unfold IngestService.registerNarinfos
    cases hv : validatePublishNarinfo server.ingestService.storeDir path.intoNarinfo with
    | error x => trivial
    | ok h =>
      have hupsert : (upsertPathInfo path.intoNarinfo).Uses
          (Makes server (.registerPaths buildId paths)) := by
        unfold upsertPathInfo
        rw [(validatePublishNarinfo_ok hv).hash]
        cases hn : path.intoNarinfo.normalizedNarHash with
        | error x => trivial
        | ok narHash =>
          simp only [ofExcept, Prog.bind_eq, Prog.pure_eq]
          split
          · trivial
          · refine (Prog.uses_perform (.insertPathInfo (hs path (by simp)) hv hn)).bind
              (fun inserted => ?_)
            split
            · trivial
            · exact ((uses_select (fun _ => .reads) _).bind
                (fun _ => uses_inflateOptional (fun _ => .reads) _)).bind
                  (fun _ => (uses_orFail _ _).bind (fun _ => uses_ofExcept _ _))
      refine (hupsert.bind (fun _ => (Prog.uses_perform (.attachBuildPath h)).bind (fun _ =>
        (ih (fun p hp => hs p (by simp [hp]))).bind (fun _ => trivial))))

omit [Base64] in
theorem uses_retentionRuleRows {allowed : Call → Prop}
    (hr : ∀ c : Call, c.reads = true → allowed c) (projectId : Uuid)
    (rules : List ProjectRetentionRuleRecord) :
    (retentionRuleRows projectId rules).Uses allowed := by
  induction rules with
  | nil => trivial
  | cons rule rest ih =>
    unfold retentionRuleRows
    split
    · trivial
    split
    · trivial
    split
    · trivial
    · exact (uses_reading hr rfl).bind (fun _ => ih.bind (fun _ => trivial))

omit [Base64] in
theorem uses_pinScope {allowed : Call → Prop} (hr : ∀ c : Call, c.reads = true → allowed c)
    (project : Option ProjectSlug) : (pinScope project).Uses allowed := by
  cases project with
  | none => trivial
  | some project => exact (uses_projectIdBySlug hr project).bind (fun _ => trivial)

theorem uses_deleteReadyObjects {g : Int} (objects : List (StorageId × Text)) :
    (server.gcService.deleteReadyObjects objects).Uses (Makes server (.runLocalGc false g)) := by
  induction objects with
  | nil => trivial
  | cons object rest ih =>
    unfold GcService.deleteReadyObjects
    split
    · exact ih
    · exact (Prog.uses_perform (.deleteReady _ _)).bind (fun _ => ih.bind (fun _ => trivial))

variable [WildMatch]

theorem uses_runLocalGc (dryRun : Bool) (g : Int) :
    (server.gcService.runLocalGcWithGracePeriod dryRun g).Uses
      (Makes server (.runLocalGc dryRun g)) := by
  have hroots : listRootStorePathHashes.Uses (Makes server (.runLocalGc dryRun g)) :=
    uses_listRootStorePathHashes (fun _ => .reads)
  cases dryRun with
  | true => exact (hroots.bind (fun _ => uses_select (fun _ => .reads) _)).bind (fun _ => trivial)
  | false =>
    have hclear : clearDeletedStateForLiveStorageObjects.Uses
        (Makes server (.runLocalGc false g)) :=
      hroots.bind (fun roots => Prog.uses_perform (.clearDeletedState roots))
    have hmark : markStaleStorageObjects.Uses (Makes server (.runLocalGc false g)) :=
      hroots.bind (fun roots => Prog.uses_perform (.markStale roots))
    refine hclear.bind (fun _ => hmark.bind (fun _ => ?_))
    refine (uses_reading (fun _ => .reads) rfl).bind (fun ready => ?_)
    exact (server.uses_deleteReadyObjects ready).bind (fun _ =>
      (Prog.uses_perform (.deleteStorageObjects _)).bind (fun _ => trivial))

theorem program_uses (q : Request) : (server.program q).Uses (Makes server q) := by
  have hr : ∀ {q : Request} (c : Call), c.reads = true → Makes server q c := fun _ => .reads
  cases q with
  | insertProject slug displayName isPublic storageId =>
    refine Prog.Uses.bind ?_ (fun _ => trivial)
    exact (uses_reading hr rfl).bind (fun id => Prog.uses_perform (.insertProject id))
  | beginBuild project refName revision =>
    refine Prog.Uses.bind ?_ (fun _ => trivial)
    refine (uses_ofExcept _ _).bind (fun slug => Prog.Uses.bind ?_ (fun _ => trivial))
    refine (uses_projectIdBySlug hr slug).bind (fun projectId => ?_)
    refine (uses_reading hr rfl).bind (fun id => ?_)
    exact (Prog.uses_perform (.insertBuild id projectId)).bind (fun _ =>
      (uses_select hr _).bind (fun _ => uses_orFail _ _))
  | registerPaths buildId paths =>
    refine Prog.Uses.bind ?_ (fun _ => trivial)
    refine (uses_pendingBuildContext hr buildId).bind (fun context => ?_)
    refine (server.uses_registerNarinfos (fun _ hp => hp)).bind (fun narinfos => ?_)
    refine (uses_storageForProject hr _ _).bind (fun (storageId, storage) => ?_)
    refine (uses_projectUpstreams hr _).bind (fun upstreams => ?_)
    refine (uses_planRequiredUploads hr _ _ _).bind (fun planned => ?_)
    exact (uses_linkStoredObjects hr (.upsertStorageObject rfl) (.linkPathObject rfl) _ _ _).bind
      (fun _ => uses_requireUploads hr _ _)
  | uploadObject buildId h objectPath body =>
    refine Prog.Uses.bind ?_ (fun _ => trivial)
    refine (uses_validateUploadTarget hr _ _ _ _).bind (fun (storageId, storage) => ?_)
    exact (Prog.uses_perform (.putStream storage)).bind (fun written =>
      uses_persistOrDelete (.upsertStorageObject rfl) (.linkPathObject rfl) _ _ _ _ _
        (.deleteUploaded rfl storage))
  | completeMultipartUpload buildId h objectPath uploadId parts contentLength =>
    refine Prog.Uses.bind ?_ (fun _ => trivial)
    refine (uses_validateUploadTarget hr _ _ _ _).bind (fun (storageId, storage) => ?_)
    exact (Prog.uses_perform (.completeMultipartUpload storage)).bind (fun completed =>
      uses_persistOrDelete (.upsertStorageObject rfl) (.linkPathObject rfl) _ _ _ _ _
        (.deleteUploaded rfl storage))
  | finalizeBuild buildId =>
    refine Prog.Uses.bind ?_ (fun _ => trivial)
    refine (uses_pendingBuildContext hr buildId).bind (fun context => ?_)
    refine (uses_select hr _).bind (fun paths => ?_)
    split
    · trivial
    refine (uses_projectUpstreams hr _).bind (fun upstreams => ?_)
    refine (uses_storageForProject hr _ _).bind (fun (storageId, storage) => ?_)
    refine (uses_finalizePaths hr (.upsertStorageObject rfl) (.linkPathObject rfl) _ _ _ _ _).bind
      (fun _ => ?_)
    exact (uses_projectIdBySlug hr _).bind (fun _ => (uses_reading hr rfl).bind
      (fun _ => Prog.uses_perform (.publishBuild _ _ _)))
  | upsertPin name project h storePath =>
    refine Prog.Uses.bind ?_ (fun _ => trivial)
    refine (uses_pinScope hr project).bind (fun (scopeKey, projectId) => ?_)
    refine (uses_select hr _).bind (fun _ => (uses_orFail _ _).bind (fun existing => ?_))
    split
    · trivial
    · exact Prog.uses_perform (.upsertPin scopeKey projectId)
  | deletePin name project =>
    refine Prog.Uses.bind ?_ (fun _ => trivial)
    exact (uses_pinScope hr project).bind (fun (scopeKey, _) =>
      Prog.uses_perform (.deletePin scopeKey))
  | replaceRetentionPolicy project keepLatestBuildsPerRef objectDeleteGraceSeconds rules =>
    refine Prog.Uses.bind ?_ (fun _ => trivial)
    unfold replaceProjectRetentionPolicy
    split
    · trivial
    split
    · trivial
    refine (uses_projectIdBySlug hr project).bind (fun projectId => ?_)
    split
    · trivial
    · exact (uses_retentionRuleRows hr _ _).bind (fun rows =>
        Prog.uses_perform (.replaceRetentionPolicy _ rows))
  | deleteRetentionPolicy project =>
    refine Prog.Uses.bind ?_ (fun _ => trivial)
    exact (uses_projectIdBySlug hr project).bind (fun projectId =>
      Prog.uses_perform (.deleteRetentionPolicy projectId))
  | runLocalGc dryRun g => exact (server.uses_runLocalGc dryRun g).bind (fun _ => trivial)
  | upsertUpstreamCache name baseUrl priority enabled =>
    refine Prog.Uses.bind ?_ (fun _ => trivial)
    refine (uses_select hr _).bind (fun existing => ?_)
    cases existing with
    | some id => exact Prog.uses_perform (.upsertUpstreamCache _)
    | none => exact (uses_reading hr rfl).bind (fun id =>
        Prog.uses_perform (.upsertUpstreamCache _))
  | setUpstreamEnabled name enabled =>
    exact (Prog.uses_perform .setUpstreamEnabled).bind (fun _ => trivial)
  | linkProjectUpstream project name =>
    refine Prog.Uses.bind ?_ (fun _ => trivial)
    refine (uses_select hr _).bind (fun upstream => ?_)
    split
    · trivial
    · exact (uses_projectIdBySlug hr project).bind (fun projectId =>
        (Prog.uses_perform (.linkProjectUpstream projectId _)).bind (fun _ => trivial))
  | unlinkProjectUpstream project name =>
    refine Prog.Uses.bind ?_ (fun _ => trivial)
    exact (uses_projectIdBySlug hr project).bind (fun projectId =>
      Prog.uses_perform (.unlinkProjectUpstream projectId))

end Server

end Depot
