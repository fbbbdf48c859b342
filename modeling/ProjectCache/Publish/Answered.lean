import ProjectCache.Publish.Registration
import ProjectCache.Publish.Served
import ProjectCache.Publish.Uploads
import ProjectCache.Publish.WriteOnce

namespace Answered

open Textual Nix Project Calendar Tables DepotPath Narinfo Validation Store Db Programs Ingest Depot
  Depot.Server Read Vouching Answering Isolation Served Registration SqliteDatabase
open PathTables (StoredAs Agrees recorded_storedAs ensureCompatiblePathInfo_eq_ok)

inductive Registers : Call → Prop
  | reads {c : Call} (h : c.reads = true) : Registers c
  | insertPathInfo (row : PathInfoRow) : Registers (.insertPathInfo row)
  | attachBuildPath (b : Uuid) (h : StorePathHash) : Registers (.attachBuildPath b h)
  | upsertStorageObject (s : StorageId) (o : Text) (metadata : BlobMetadata) :
    Registers (.upsertStorageObject s o metadata)
  | linkPathObject (h : StorePathHash) (o : Text) (kind : PathObjectKind) :
    Registers (.linkPathObject h o kind)

structure Quiet (w v : World) : Prop where
  blobs : v.blobs = w.blobs
  frame : Frame [.pathInfos, .buildPaths, .storageObjects, .pathObjects] w.db v.db
  grows : Grows w.db v.db
  listed : ∀ s o, Listed s o w → Listed s o v

theorem Quiet.refl (w : World) : Quiet w w where
  blobs := rfl
  frame := Frame.refl _ _
  grows := Grows.refl _
  listed := fun _ _ h => h

theorem Quiet.trans {u v w : World} (h : Quiet u v) (k : Quiet v w) : Quiet u w where
  blobs := k.blobs.trans h.blobs
  frame := h.frame.trans k.frame
  grows := h.grows.trans k.grows
  listed := fun s o hl => k.listed s o (h.listed s o hl)

section

variable {c : Call} {w : World}

theorem Registers.blobs (h : Registers c) (e : Env) : (answer c e w).1.blobs = w.blobs := by
  cases h with
  | reads hr => rw [answer_of_reads hr]
  | _ =>
    apply (answer_state _ e w).elim
    · exact congrArg World.blobs
    · intro hs
      simp [hs, carryOut]

theorem Registers.writes (h : Registers c) :
    ∀ t ∈ c.writes, t ∈ [TableName.pathInfos, .buildPaths, .storageObjects, .pathObjects] := by
  cases h with
  | reads hr => simp [writes_of_reads hr]
  | _ => simp [Call.writes]

theorem Registers.quiet (h : Registers c) (e : Env) : Quiet w (answer c e w).1 where
  blobs := h.blobs e
  frame := (answer_frame c e w).mono h.writes
  grows := answer_grows c e w
  listed := by
    intro s o hl
    apply listed_answer _ e hl
    cases h with
    | reads hr =>
      intro hremoves
      cases c <;> first | exact hremoves | cases hr
    | _ => exact id

variable {A : Type} {p : Action A} {admits : Env → Prop} {post : Except Error A → World → Prop}

theorem wp_quiet (hp : p.Uses Registers)
    (h : machine.wp admits post p w) :
    machine.wp admits (fun r v => post r v ∧ Quiet w v) p w :=
  Machine.wp_keeping (Quiet w) (fun _ e _ hc _ hv => hv.trans (hc.quiet e)) hp
    (Quiet.refl w) h

theorem wp_still (hp : p.Uses (fun c : Call => c.reads = true)) (h : machine.wp admits post p w) :
    machine.wp admits (fun r v => post r v ∧ v = w) p w :=
  Machine.wp_keeping (· = w) (fun _ e v hc _ hv => (answer_of_reads hc e v).trans hv) hp rfl h

end

def Recordable (metadata : BlobMetadata) : Prop :=
  metadata.contentLength.any (fun length => 2 ^ 63 ≤ length) = false

def Available (s : StorageId) (upstreams : List UpstreamCache) (client : UpstreamCacheClient)
    (o : Text) (w : World) : Prop :=
  match w.blobs s o with
  | some blob => Recordable blob.metadata
  | none => ∃ upstream ∈ upstreams, (client.headObject upstream o).isSome = true

structure Setting (b : Uuid) (context : BuildContextRecord) (project : ProjectRow)
    (upstreams : List UpstreamCache) (db : Database) : Prop where
  buildContext : db.buildContext b = some context
  pending : context.status = .pending
  projectBySlug : db.projectBySlug context.projectSlug = some project
  upstreams : upstreamsIn db (.project context.projectSlug) = upstreams

section

variable {b : Uuid} {context : BuildContextRecord} {project : ProjectRow}
  {upstreams : List UpstreamCache} {client : UpstreamCacheClient} {w v : World} {o : Text}
  {h : StorePathHash} {s : StorageId} {storage : DepotStorage} {service : IngestService}

theorem Available.of_blobs (hb : v.blobs = w.blobs) (h : Available s upstreams client o w) :
    Available s upstreams client o v := by
  unfold Available
  rw [hb]
  exact h

theorem Setting.of_frame {tables : List TableName} {db db' : Database}
    (hs : Setting b context project upstreams db) (hf : Frame tables db db')
    (hp : .projects ∉ tables) (hb : .builds ∉ tables) (hc : .upstreamCaches ∉ tables)
    (hu : .projectUpstreams ∉ tables) : Setting b context project upstreams db' where
  buildContext := by
    rw [Database.buildContext, Database.build, hf.projects hp, hf.builds hb]
    exact hs.buildContext
  pending := hs.pending
  projectBySlug := by
    rw [Database.projectBySlug, hf.projects hp]
    exact hs.projectBySlug
  upstreams := by
    rw [← hs.upstreams]
    simp only [upstreamsIn, Database.enabledUpstreamsForProject, hf.projects hp,
      hf.upstreamCaches hc, hf.projectUpstreams hu]

theorem Setting.quiet (hs : Setting b context project upstreams w.db) (hq : Quiet w v) :
    Setting b context project upstreams v.db :=
  hs.of_frame hq.frame (by decide) (by decide) (by decide) (by decide)

variable (hs : Setting b context project upstreams w.db)

include hs

theorem wp_pendingBuildContext : machine.wp (AnswersFrom client)
    (fun r v => r = .ok context ∧ v = w) (IngestService.pendingBuildContext b) w := by
  apply Machine.wp_bind.mpr
  apply wp_select
  · rw [onOk_ok, hs.buildContext]
    change machine.wp _ _
      (if context.status ≠ .pending then fail (.buildNotPending b) else .done (.ok context)) w
    rw [if_neg (not_not.mpr hs.pending)]
    exact ⟨rfl, rfl⟩
  · exact fun e he hne => absurd he.1 hne

theorem wp_projectUpstreams : machine.wp (AnswersFrom client)
    (fun r v => r = .ok upstreams ∧ v = w)
    (IngestService.projectUpstreams context.projectSlug) w := by
  apply Machine.wp_bind.mpr
  apply wp_select
  · exact ⟨congrArg Except.ok hs.upstreams, rfl⟩
  · exact fun e he hne => absurd he.1 hne

theorem wp_storageForProject : machine.wp (AnswersFrom client)
    (fun r v => v = w ∧
      ((∃ storage, service.storageCatalog.storage project.storageId = some storage ∧
          r = .ok (project.storageId, storage)) ∨
        service.storageCatalog.storage project.storageId = none ∧ ∃ x, r = .error x))
    (service.storageForProject context.projectSlug) w := by
  apply Machine.wp_bind.mpr
  apply Machine.wp_bind.mpr
  apply wp_select
  · rw [onOk_ok, hs.projectBySlug]
    change machine.wp (AnswersFrom client) _
      ((orFail (service.storageCatalog.storage project.storageId)
        (.storageNotConfigured project.storageId)).bind
          (fun storage => .done (.ok (project.storageId, storage)))) w
    cases hc : service.storageCatalog.storage project.storageId with
    | none => exact ⟨rfl, Or.inr ⟨rfl, _, rfl⟩⟩
    | some storage => exact ⟨rfl, Or.inl ⟨storage, rfl, rfl⟩⟩
  · exact fun e he hne => absurd he.1 hne

end


section

variable {b : Uuid} {w v : World} {h : StorePathHash} {o : Text} {s : StorageId}
  {client : UpstreamCacheClient} {metadata : BlobMetadata} {storage : DepotStorage}
  {upstreams : List UpstreamCache}

theorem upsertStorageObject_of_recordable (hm : Recordable metadata) :
    SqliteDatabase.upsertStorageObject s o metadata =
      perform (.upsertStorageObject s o metadata) := by
  unfold SqliteDatabase.upsertStorageObject
  rw [if_neg (by simpa [Recordable] using hm)]

theorem upsertStorageObject_of_not_recordable (hm : ¬ Recordable metadata) :
    SqliteDatabase.upsertStorageObject s o metadata = fail .sizeOverflow := by
  unfold SqliteDatabase.upsertStorageObject
  rw [if_pos (by simpa [Recordable] using hm)]

theorem uses_recordNarObject :
    (IngestService.recordNarObject s h o metadata).Uses Registers :=
  Depot.uses_recordNarObject .upsertStorageObject (fun h o => .linkPathObject h o .nar) s h o
    metadata

theorem wp_linkPathObject : machine.wp (AnswersFrom client)
    (fun r v => (r = .ok () → ⟨h, o, .nar⟩ ∈ v.db.pathObjects.rows) ∧
      ((∃ row, w.db.pathInfo h = some row) → r = .ok ())) (linkPathObject h o .nar) w := by
  apply (wp_perform (c := .linkPathObject h o .nar)).mpr
  intro e he
  rw [answer_of_answered he.1]
  simp only [carryOut]
  cases hl : w.db.linkPathObject h o .nar with
  | none =>
    constructor
    · intro hr
      cases hr
    · intro hrow
      rw [linkPathObject_eq_some.mpr ⟨hrow, rfl⟩] at hl
      cases hl
  | some db' => exact ⟨fun _ => mem_linkPathObject hl, fun _ => rfl⟩

theorem wp_recordNarObject : machine.wp (AnswersFrom client)
    (fun r v => (r = .ok () → Recordable metadata ∧ Listed s o v ∧
        ⟨h, o, .nar⟩ ∈ v.db.pathObjects.rows) ∧
      (Recordable metadata → (∃ row, w.db.pathInfo h = some row) → r = .ok ()))
    (IngestService.recordNarObject s h o metadata) w := by
  unfold IngestService.recordNarObject
  apply Machine.wp_bind.mpr
  by_cases hm : Recordable metadata
  · rw [upsertStorageObject_of_recordable hm]
    apply wp_perform.mpr
    intro e he
    rw [answer_of_answered he.1]
    have hlisted : Listed s o { w with db := w.db.upsertStorageObject s o metadata } :=
      ⟨_, Database.mem_upsertStorageObject.mpr (Or.inl rfl), rfl, rfl, rfl⟩
    apply Machine.wp_mono (wp_quiet (Prog.uses_perform (.linkPathObject h o .nar))
      wp_linkPathObject)
    rintro r v ⟨⟨hlinked, hsucceeds⟩, hquiet⟩
    exact ⟨fun hr => ⟨hm, hquiet.listed s o hlisted, hlinked hr⟩, fun _ hrow => hsucceeds hrow⟩
  · rw [upsertStorageObject_of_not_recordable hm]
    constructor
    · intro hr
      cases hr
    · exact fun hr => absurd hr hm

end

section

variable [Base64] {b : Uuid} {context : BuildContextRecord} {project : ProjectRow}
  {upstreams : List UpstreamCache} {client : UpstreamCacheClient} {w v : World} {o : Text}
  {g h : StorePathHash} {s : StorageId} {storage : DepotStorage} {service : IngestService}
  {n m : NarInfo} {row : PathInfoRow} {path : NarInfoPayload} {paths : List NarInfoPayload}

theorem agrees_of_storedAs (hs : StoredAs m n) : Agrees m n where
  storePath := hs.storePath
  url := hs.url
  compression := hs.compression
  narHash := hs.narHash
  narSize := hs.narSize
  references := .of_eq hs.references
  deriver := hs.deriver
  ca := hs.ca

theorem agrees_of_compatible {narHash : NormalizedNarHash} (hn : n.normalizedNarHash = .ok narHash)
    (hc : ensureCompatiblePathInfo m n = .ok ()) : Agrees m n := by
  cases hm : m.normalizedNarHash with
  | ok a => exact (ensureCompatiblePathInfo_eq_ok hm hn).mp hc
  | error x =>
    unfold ensureCompatiblePathInfo at hc
    rw [hm] at hc
    split at hc <;> cases hc

def FirstStored (db : Database) (paths : List NarInfoPayload) (h : StorePathHash)
    (row : PathInfoRow) : Prop :=
  db.pathInfo h = some row ∨
    ∃ path ∈ paths, HashOf path h ∧ StoredAs (narinfoOf row) path.intoNarinfo

structure RegisteredAs (b : Uuid) (path : NarInfoPayload) (h : StorePathHash) (row : PathInfoRow)
    (w : World) : Prop where
  hash : HashOf path h
  attached : Attached w b h
  stored : w.db.pathInfo h = some row
  agrees : Agrees (narinfoOf row) path.intoNarinfo

theorem RegisteredAs.grows (hr : RegisteredAs b path h row w) (hg : Grows w.db v.db) :
    RegisteredAs b path h row v where
  hash := hr.hash
  attached := hg.buildPaths _ hr.attached
  stored := hg.pathInfo hr.stored
  agrees := hr.agrees

omit [Base64] in
theorem wp_getPathInfoByHash : machine.wp (AnswersFrom client)
    (fun r v => r = .ok ((w.db.pathInfo h).map narinfoOf) ∧ v = w) (getPathInfoByHash h) w := by
  apply Machine.wp_bind.mpr
  apply wp_select
  · rw [onOk_ok]
    cases hrow : w.db.pathInfo h with
    | none => exact ⟨rfl, rfl⟩
    | some row =>
      obtain ⟨-, rfl⟩ := Database.pathInfo_eq_some.mp hrow
      apply Machine.wp_mono (wp_inflateOptional hrow)
      rintro r v ⟨rfl, rfl⟩
      exact ⟨rfl, rfl⟩
  · exact fun e he hne => absurd he.1 hne

theorem storedAs_pathInfoRow {narHash : NormalizedNarHash}
    (hn : n.normalizedNarHash = .ok narHash) (hl : narHash.digest.length = 52) :
    StoredAs (narinfoOf (pathInfoRow n h narHash)) n := recorded_storedAs hn hl

theorem wp_upsertPathInfo {storeDir : StoreDir} (ha : Accepted storeDir n h) :
    machine.wp (AnswersFrom client)
      (fun r v => (∀ g row, v.db.pathInfo g = some row →
          w.db.pathInfo g = some row ∨ g = h ∧ StoredAs (narinfoOf row) n) ∧
        (r = .ok () → ∃ row, v.db.pathInfo h = some row ∧ Agrees (narinfoOf row) n))
      (upsertPathInfo n) w := by
  obtain ⟨-, -, narHash, hn, hl, -⟩ := ha.compression
  have hstored : StoredAs (narinfoOf (pathInfoRow n h narHash)) n := storedAs_pathInfoRow hn hl
  unfold upsertPathInfo
  rw [ha.hash, hn]
  change machine.wp (AnswersFrom client) _ (if 2 ^ 63 ≤ n.narSize.toNat then fail .sizeOverflow
    else (perform (.insertPathInfo (pathInfoRow n h narHash))).bind (fun inserted =>
      if inserted then .done (.ok ()) else (getPathInfoByHash h).bind (fun existing =>
        (orFail existing .pathInfoDisappeared).bind (fun existing =>
          ofExcept id (ensureCompatiblePathInfo existing n))))) w
  split
  · exact ⟨fun g row hrow => Or.inl hrow, fun hx => by cases hx⟩
  apply Machine.wp_bind.mpr
  apply wp_perform.mpr
  intro e he
  rw [answer_of_answered he.1]
  change machine.wp (AnswersFrom client) _
    (if decide (w.db.pathInfos.Free (pathInfoRow n h narHash)) then _ else _)
    { w with db := (w.db.insertPathInfo (pathInfoRow n h narHash)).2 }
  by_cases hfree : w.db.pathInfos.Free (pathInfoRow n h narHash)
  · rw [if_pos (decide_eq_true hfree)]
    constructor
    · intro g row hrow
      obtain ⟨hm, rfl⟩ := Database.pathInfo_eq_some.mp hrow
      rcases Table.mem_insertOrIgnore.mp hm with hold | ⟨-, rfl⟩
      · exact Or.inl (Database.pathInfo_eq_some.mpr ⟨hold, rfl⟩)
      · exact Or.inr ⟨rfl, hstored⟩
    · intro _
      exact ⟨_, Database.pathInfo_eq_some.mpr
        ⟨Table.mem_insertOrIgnore.mpr (Or.inr ⟨hfree, rfl⟩), rfl⟩, agrees_of_storedAs hstored⟩
  · have hsame : { w with db := (w.db.insertPathInfo (pathInfoRow n h narHash)).2 } = w := by
      simp only [Database.insertPathInfo, Table.insertOrIgnore_of_not_free hfree]
    rw [if_neg (by simpa using hfree), hsame]
    apply Machine.wp_bind.mpr
    apply Machine.wp_mono wp_getPathInfoByHash
    rintro r w ⟨rfl, rfl⟩
    rw [onOk_ok]
    cases hrow : w.db.pathInfo h with
    | none => exact ⟨fun g row hg => Or.inl hg, fun hx => by cases hx⟩
    | some row =>
      apply wp_ofExcept
      · intro _ hc
        exact ⟨fun g row hg => Or.inl hg,
          fun _ => ⟨row, hrow, agrees_of_compatible hn hc⟩⟩
      · exact fun _ _ => ⟨fun g row hg => Or.inl hg, fun hx => by cases hx⟩

omit [Base64] in
theorem wp_attachBuildPath : machine.wp (AnswersFrom client)
    (fun r v => v.db.pathInfos = w.db.pathInfos ∧ (r = .ok () → Attached v b h))
    (attachBuildPath b h) w := by
  apply (wp_perform (c := .attachBuildPath b h)).mpr
  intro e he
  constructor
  · exact (answer_frame (.attachBuildPath b h) e w).pathInfos (by simp [Call.writes])
  · intro hr
    rcases attach_cases (w := w) b h e with ⟨-, ha⟩ | ⟨x, hx, -⟩
    · exact (ha b h).mpr (Or.inr ⟨rfl, rfl⟩)
    · rw [hx] at hr
      cases hr

end

section

variable [Base64] {b : Uuid} {context : BuildContextRecord} {project : ProjectRow}
  {upstreams : List UpstreamCache} {client : UpstreamCacheClient} {w v : World} {o : Text}
  {g h : StorePathHash} {s : StorageId} {storage : DepotStorage} {service : IngestService}
  {paths : List NarInfoPayload}

theorem FirstStored.grows {db db' : Database} {row : PathInfoRow}
    (hg : ∀ g row, db'.pathInfo g = some row → FirstStored db paths g row)
    {more : List NarInfoPayload} (hf : FirstStored db' more h row) :
    FirstStored db (paths ++ more) h row := by
  rcases hf with hrow | ⟨path, hm, hp⟩
  · rcases hg h row hrow with hold | ⟨path, hm, hp⟩
    · exact Or.inl hold
    · exact Or.inr ⟨path, List.mem_append_left _ hm, hp⟩
  · exact Or.inr ⟨path, List.mem_append_right _ hm, hp⟩

theorem uses_registerNarinfos :
    (service.registerNarinfos b paths).Uses Registers := by
  have hr : ∀ c : Call, c.reads = true → Registers c := fun _ => .reads
  induction paths with
  | nil => trivial
  | cons path rest ih =>
    apply (uses_ofExcept _ _).bind
    intro h
    apply (uses_upsertPathInfo hr .insertPathInfo _).bind
    intro _
    apply (Prog.uses_perform (.attachBuildPath _ _)).bind
    intro _
    exact ih.bind (fun _ => trivial)

theorem wp_registerNarinfos : machine.wp (AnswersFrom client)
    (fun r v => (∀ g row, v.db.pathInfo g = some row → FirstStored w.db paths g row) ∧
      ∀ narinfos, r = .ok narinfos → narinfos = paths.map NarInfoPayload.intoNarinfo ∧
        ∀ path ∈ paths, ∃ h row,
          validatePublishNarinfo service.storeDir path.intoNarinfo = .ok h ∧
            RegisteredAs b path h row v)
    (service.registerNarinfos b paths) w := by
  induction paths generalizing w with
  | nil =>
    refine ⟨fun g row hrow => Or.inl hrow, fun narinfos hr => ?_⟩
    cases hr
    exact ⟨rfl, by simp⟩
  | cons path rest ih =>
    unfold IngestService.registerNarinfos
    apply Machine.wp_bind.mpr
    apply wp_ofExcept
    · intro h hv
      have hhash : HashOf path h := (validatePublishNarinfo_ok hv).hash
      rw [onOk_ok]
      apply Machine.wp_bind.mpr
      apply Machine.wp_mono (wp_upsertPathInfo (validatePublishNarinfo_ok hv))
      rintro r u ⟨hfirst, hrecorded⟩
      have hfirst : ∀ g row, u.db.pathInfo g = some row → FirstStored w.db [path] g row := by
        intro g row hrow
        rcases hfirst g row hrow with hold | ⟨rfl, hs⟩
        · exact Or.inl hold
        · exact Or.inr ⟨path, List.mem_singleton_self path, hhash, hs⟩
      have hwiden : ∀ g row, FirstStored w.db [path] g row →
          FirstStored w.db (path :: rest) g row := by
        intro g row hf
        apply hf.imp_right
        rintro ⟨p, hp, hrow⟩
        exact ⟨p, List.mem_cons.mpr (Or.inl (List.mem_singleton.mp hp)), hrow⟩
      cases r with
      | error x => exact ⟨fun g row hrow => hwiden g row (hfirst g row hrow),
          fun _ hr => by cases hr⟩
      | ok _ =>
        obtain ⟨row, hrow, hagrees⟩ := hrecorded rfl
        rw [onOk_ok]
        apply Machine.wp_bind.mpr
        apply Machine.wp_mono (wp_quiet (Prog.uses_perform (.attachBuildPath _ _))
          wp_attachBuildPath)
        rintro r t ⟨⟨hinfos, hattached⟩, hquiet⟩
        have hfirst : ∀ g row, t.db.pathInfo g = some row → FirstStored w.db [path] g row := by
          intro g row hrow
          apply hfirst
          rwa [Database.pathInfo, hinfos] at hrow
        cases r with
        | error x => exact ⟨fun g row hrow => hwiden g row (hfirst g row hrow),
            fun _ hr => by cases hr⟩
        | ok _ =>
          rw [onOk_ok]
          apply Machine.wp_bind.mpr
          apply Machine.wp_mono (wp_quiet uses_registerNarinfos ih)
          rintro r v ⟨⟨hrest, hall⟩, hlater⟩
          have hstored : ∀ g row, v.db.pathInfo g = some row →
              FirstStored w.db (path :: rest) g row :=
            fun g row hrow => (hrest g row hrow).grows hfirst
          cases r with
          | error x => exact ⟨hstored, fun _ hr => by cases hr⟩
          | ok others =>
            obtain ⟨rfl, hothers⟩ := hall others rfl
            refine ⟨hstored, fun narinfos hr => ?_⟩
            cases hr
            refine ⟨rfl, List.forall_mem_cons.mpr ⟨⟨h, row, hv, ?_⟩, hothers⟩⟩
            have hregistered : RegisteredAs b path h row t :=
              ⟨hhash, hattached rfl, hquiet.grows.pathInfo hrow, hagrees⟩
            exact hregistered.grows hlater.grows
    · exact fun x _ => ⟨fun g row hrow => Or.inl hrow, fun _ hr => by cases hr⟩

omit [Base64] in
theorem wp_linkStoredObjects {narinfos : List NarInfo} (hid : storage.id = s) :
    machine.wp (AnswersFrom client) (fun r _ => (r = .ok () → ∀ n ∈ narinfos,
        isNarObject n.url = true → ∀ blob, w.blobs s n.url = some blob → Recordable blob.metadata))
      (IngestService.linkStoredObjects s storage narinfos) w := by
  induction narinfos generalizing w with
  | nil => exact fun _ => by simp
  | cons n rest ih =>
    unfold IngestService.linkStoredObjects
    apply Machine.wp_bind.mpr
    apply wp_ofExcept
    · intro h _
      rw [onOk_ok]
      split
      · rename_i hnar
        apply Machine.wp_mono ih
        intro r v hrest hr
        exact List.forall_mem_cons.mpr ⟨fun hn => absurd hn hnar, hrest hr⟩
      · apply Machine.wp_bind.mpr
        unfold IngestService.recordIfStored
        apply Machine.wp_bind.mpr
        apply Machine.wp_mono (wp_head n.url)
        rintro r u ⟨rfl, rfl⟩
        rw [onOk_ok, hid]
        cases hblob : u.blobs s n.url with
        | none =>
          apply Machine.wp_mono ih
          intro r v hrest hr
          refine List.forall_mem_cons.mpr ⟨fun _ blob hb => ?_, hrest hr⟩
          rw [hblob] at hb
          cases hb
        | some blob =>
          apply Machine.wp_bind.mpr
          apply Machine.wp_mono (wp_quiet uses_recordNarObject wp_recordNarObject)
          rintro r t ⟨⟨hrecorded, -⟩, hquiet⟩
          cases r with
          | error x => exact fun hr => by cases hr
          | ok _ =>
            apply Machine.wp_mono ih
            intro r v hrest hr
            rw [hquiet.blobs] at hrest
            refine List.forall_mem_cons.mpr ⟨fun _ blob' hb => ?_, hrest hr⟩
            rw [hblob] at hb
            cases hb
            exact (hrecorded rfl).1
    · exact fun x _ hr => by cases hr

omit [Base64] in
theorem wp_requireUploads {plan : List PlannedUpload} : machine.wp (AnswersFrom client)
    (fun r _ => ∀ uploads, r = .ok uploads →
      uploads.map (fun upload => (upload.storePathHash, upload.objectPath)) =
        plan.map (fun planned => (planned.storePathHash, planned.objectPath)))
    (IngestService.requireUploads storage plan) w := by
  induction plan generalizing w with
  | nil =>
    intro uploads hr
    cases hr
    rfl
  | cons planned rest ih =>
    apply Machine.wp_bind.mpr
    apply wp_perform.mpr
    intro e he
    cases hcreated : (answer (.createMultipartUpload storage planned.objectPath) e w).2 with
    | error x => exact fun _ hr => by cases hr
    | ok upload =>
      apply Machine.wp_bind.mpr
      apply Machine.wp_mono ih
      intro r v hrest
      cases r with
      | error x => exact fun _ hr => by cases hr
      | ok required =>
        intro uploads hr
        cases hr
        rw [List.map_cons, List.map_cons, hrest required rfl]
        rfl

end

section

variable [Base64] {b : Uuid} {context : BuildContextRecord} {project : ProjectRow}
  {upstreams : List UpstreamCache} {client : UpstreamCacheClient} {w v : World} {o : Text}
  {h : StorePathHash} {s : StorageId} {storage : DepotStorage} {service : IngestService}
  {paths : List NarInfoPayload} {path : NarInfoPayload} {narinfos : List NarInfo}

omit [Base64] in
theorem planned_of_missing {plan : List PlannedUpload} {n : NarInfo}
    (hplan : List.Forall₂ PlannedFor narinfos plan) (hn : n ∈ narinfos)
    (hh : StorePathHash.parseFromStorePath n.storePath = .ok h) :
    (h, n.url) ∈ plan.map (fun planned => (planned.storePathHash, planned.objectPath)) := by
  induction hplan with
  | nil => cases hn
  | cons hp _ ih =>
    rcases List.mem_cons.mp hn with rfl | hn
    · have hhash := Except.ok.inj (hh.symm.trans hp.storePathHash)
      rw [List.map_cons, hhash, hp.objectPath]
      exact List.mem_cons_self
    · exact List.mem_cons_of_mem _ (ih hn)

omit [Base64] in
theorem available_of_not_missing (hid : storage.id = s)
    (hm : ¬ Missing w client storage upstreams o)
    (hr : ∀ blob, w.blobs s o = some blob → Recordable blob.metadata) :
    Available s upstreams client o w := by
  unfold Available
  cases hblob : w.blobs s o with
  | some blob => exact hr blob hblob
  | none =>
    unfold Missing at hm
    rw [hid, hblob] at hm
    simpa [Option.ne_none_iff_isSome] using hm

def Planned (uploads : List RequiredUpload) (h : StorePathHash) (o : Text) : Prop :=
  ∃ upload ∈ uploads, upload.storePathHash = h ∧ upload.objectPath = o

omit [Base64] in
theorem uses_linkRequired {plan : List PlannedUpload} :
    ((IngestService.linkStoredObjects s storage narinfos).bind
      (fun _ => IngestService.requireUploads storage plan)).Uses
        Registers :=
  (uses_linkStoredObjects (fun _ => .reads) .upsertStorageObject
    (fun h o => .linkPathObject h o .nar)
    _ _ _).bind (fun _ => uses_requireUploads (fun _ => .reads) _ _)

omit [Base64] in
theorem uses_linkRequired_infos {plan : List PlannedUpload} :
    ((IngestService.linkStoredObjects s storage narinfos).bind
      (fun _ => IngestService.requireUploads storage plan)).Uses
        (fun c : Call => .pathInfos ∉ c.writes) := by
  have hr : ∀ c : Call, c.reads = true → .pathInfos ∉ c.writes := by
    intro c hc
    cases c <;> first | simp [Call.writes]; done | cases hc
  exact (uses_linkStoredObjects hr (fun _ _ _ => by simp [Call.writes])
    (fun _ _ => by simp [Call.writes]) _ _ _).bind (fun _ => uses_requireUploads hr _ _)

omit [Base64] in
theorem wp_linkRequired {plan : List PlannedUpload} (hid : storage.id = s) :
    machine.wp (AnswersFrom client) (fun r _ => ∀ uploads, r = .ok uploads →
        (∀ n ∈ narinfos, isNarObject n.url = true → ∀ blob, w.blobs s n.url = some blob →
          Recordable blob.metadata) ∧
        uploads.map (fun upload => (upload.storePathHash, upload.objectPath)) =
          plan.map (fun planned => (planned.storePathHash, planned.objectPath)))
      ((IngestService.linkStoredObjects s storage narinfos).bind
        (fun _ => IngestService.requireUploads storage plan)) w := by
  apply Machine.wp_bind.mpr
  apply Machine.wp_mono (wp_linkStoredObjects hid)
  intro r t hlinked
  cases r with
  | error x => exact fun _ hr => by cases hr
  | ok _ =>
    apply Machine.wp_mono wp_requireUploads
    exact fun r v hrequired uploads hr => ⟨hlinked rfl, hrequired uploads hr⟩

omit [Base64] in
theorem wp_infos {A : Type} {p : Action A} {admits : Env → Prop}
    {post : Except Error A → World → Prop} (hp : p.Uses (fun c : Call => .pathInfos ∉ c.writes))
    (h : machine.wp admits post p w) :
    machine.wp admits (fun r v => post r v ∧ v.db.pathInfos = w.db.pathInfos) p w :=
  Machine.wp_keeping (fun v : World => v.db.pathInfos = w.db.pathInfos)
    (fun c e v hc _ hv => ((answer_frame c e v).pathInfos hc).trans hv) hp rfl h

variable (hs : Setting b context project upstreams w.db)

include hs

theorem wp_registerPaths : machine.wp (AnswersFrom client)
    (fun r v => (∀ g row, v.db.pathInfo g = some row → FirstStored w.db paths g row) ∧
      ∀ uploads, r = .ok uploads →
        (service.storageCatalog.storage project.storageId).isSome = true ∧
        ∀ path ∈ paths, ∃ h row, RegisteredAs b path h row v ∧
          (Available project.storageId upstreams client path.url v ∨ Planned uploads h path.url))
    (service.registerPaths b paths) w := by
  apply Machine.wp_bind.mpr
  apply Machine.wp_mono (wp_pendingBuildContext hs)
  rintro r w ⟨rfl, rfl⟩
  rw [onOk_ok]
  apply Machine.wp_bind.mpr
  apply Machine.wp_mono (wp_quiet uses_registerNarinfos wp_registerNarinfos)
  rintro r u ⟨⟨hfirst, hall⟩, hquiet⟩
  cases r with
  | error x => exact ⟨hfirst, fun _ hr => by cases hr⟩
  | ok narinfos =>
    obtain ⟨rfl, hregistered⟩ := hall narinfos rfl
    have hsu := hs.quiet hquiet
    rw [onOk_ok]
    apply Machine.wp_bind.mpr
    apply Machine.wp_mono (wp_storageForProject hsu)
    rintro r u ⟨rfl, ⟨storage, hstorage, rfl⟩ | ⟨-, x, rfl⟩⟩
    · have hid : storage.id = project.storageId := StorageCatalog.storage_id hstorage
      rw [onOk_ok]
      apply Machine.wp_bind.mpr
      apply Machine.wp_mono (wp_projectUpstreams hsu)
      rintro r u ⟨rfl, rfl⟩
      rw [onOk_ok]
      have hvalid : ∀ n ∈ paths.map NarInfoPayload.intoNarinfo,
          ∃ h, validatePublishNarinfo service.storeDir n = .ok h := by
        intro n hn
        obtain ⟨path, hp, rfl⟩ := List.mem_map.mp hn
        obtain ⟨h, row, hv, -⟩ := hregistered path hp
        exact ⟨h, hv⟩
      apply Machine.wp_bind.mpr
      apply Machine.wp_mono (wp_planRequiredUploads hvalid)
      rintro r u ⟨⟨plan, rfl, hplan⟩, rfl⟩
      rw [onOk_ok]
      apply Machine.wp_mono (wp_infos uses_linkRequired_infos (wp_quiet uses_linkRequired
        (wp_linkRequired hid)))
      rintro r v ⟨⟨hrequired, hvquiet⟩, hinfos⟩
      constructor
      · intro g row hrow
        rw [Database.pathInfo, hinfos] at hrow
        exact hfirst g row hrow
      · intro uploads hr
        obtain ⟨hrecordable, huploads⟩ := hrequired uploads hr
        refine ⟨by rw [hstorage]; rfl, fun path hp => ?_⟩
        obtain ⟨h, row, hv, hrow⟩ := hregistered path hp
        have hmem : path.intoNarinfo ∈ paths.map NarInfoPayload.intoNarinfo :=
          List.mem_map_of_mem hp
        refine ⟨h, row, hrow.grows hvquiet.grows, ?_⟩
        by_cases hm : Missing u client storage upstreams path.url
        · have hplanned := planned_of_missing hplan
            (List.mem_filter.mpr ⟨hmem, decide_eq_true hm⟩) hrow.hash
          rw [← huploads] at hplanned
          obtain ⟨upload, hu, heq⟩ := List.mem_map.mp hplanned
          injection heq with hhash hobject
          exact Or.inr ⟨upload, hu, hhash, hobject⟩
        · have havailable := available_of_not_missing hid hm
            (hrecordable path.intoNarinfo hmem (isNarObject_of_valid hv))
          exact Or.inl (havailable.of_blobs hvquiet.blobs)
    · exact ⟨hfirst, fun _ hr => by cases hr⟩

end

section

variable {b : Uuid} {context : BuildContextRecord} {project : ProjectRow}
  {upstreams : List UpstreamCache} {client : UpstreamCacheClient} {w v : World} {o : Text}
  {h : StorePathHash} {s : StorageId} {storage : DepotStorage} {service : IngestService}
  {body : BlobBytes} {metadata : BlobMetadata}

theorem wp_persistOrDelete : machine.wp (AnswersFrom client)
    (fun r v => r = .ok () → Recordable metadata ∧ v.blobs = w.blobs)
    (IngestService.persistOrDelete s storage h o metadata) w := by
  rw [Uploads.persistOrDelete_eq]
  apply Machine.wp_bind.mpr
  apply Machine.wp_attempt
  apply Machine.wp_mono (wp_quiet uses_recordNarObject wp_recordNarObject)
  rintro r u ⟨⟨hrecorded, -⟩, hquiet⟩
  cases r with
  | ok _ => exact fun _ => ⟨(hrecorded rfl).1, hquiet.blobs⟩
  | error x =>
    apply Machine.wp_bind.mpr
    apply Machine.wp_of_forall
    intro r v
    cases r with
    | ok _ => exact fun hr => by cases hr
    | error y => exact fun hr => by cases hr

theorem Available.putBlob {blob : Blob} {o' : Text} (hb : Recordable blob.metadata)
    (ha : Available s upstreams client o' w) :
    Available s upstreams client o' (w.putBlob s o (some blob)) := by
  unfold Available World.putBlob
  by_cases ho : o' = o
  · simpa [ho] using hb
  · simpa [ho, Available] using ha

theorem available_putBlob {blob : Blob} (hb : Recordable blob.metadata) :
    Available s upstreams client o (w.putBlob s o (some blob)) := by
  unfold Available World.putBlob
  simpa using hb

variable (hs : Setting b context project upstreams w.db)

include hs

theorem wp_validateUploadTarget : machine.wp (AnswersFrom client)
    (fun r v => v = w ∧ ∀ target, r = .ok target → target.2.id = project.storageId)
    (service.validateUploadTarget b h o) w := by
  have hreads : (service.validateUploadTarget b h o).Uses (fun c : Call => c.reads = true) :=
    uses_validateUploadTarget (fun _ hc => hc) service b h o
  apply Machine.wp_mono (wp_still hreads _) (fun r v hv => ⟨hv.2, hv.1⟩)
  rw [Uploads.validateUploadTarget_eq]
  apply Machine.wp_bind.mpr
  apply Machine.wp_mono (wp_pendingBuildContext hs)
  rintro r w ⟨rfl, rfl⟩
  rw [onOk_ok]
  unfold Uploads.findTarget
  split
  · apply Machine.wp_bind.mpr
    apply Machine.wp_mono (wp_still _ (Machine.wp_of_forall (fun _ _ => trivial)))
    · rintro r w ⟨-, rfl⟩
      cases r with
      | error x => exact fun _ hr => by cases hr
      | ok narinfo =>
        rw [onOk_ok]
        apply Machine.wp_bind.mpr
        apply wp_orFail
        · intro narinfo _
          rw [onOk_ok]
          split
          · exact fun _ hr => by cases hr
          · apply Machine.wp_mono (wp_storageForProject hs)
            rintro r w ⟨rfl, ⟨storage, hstorage, rfl⟩ | ⟨-, x, rfl⟩⟩
            · intro target hr
              cases hr
              exact StorageCatalog.storage_id hstorage
            · exact fun _ hr => by cases hr
        · exact fun _ _ hr => by cases hr
    · exact (uses_select (fun _ hc => hc) _).bind (fun _ => uses_inflateOptional (fun _ hc => hc) _)
  · exact fun _ hr => by cases hr
  · exact fun _ hr => by cases hr

theorem wp_uploadObject : machine.wp (AnswersFrom client)
    (fun r v => r = .ok () → Available project.storageId upstreams client o v ∧
      ∀ o', Available project.storageId upstreams client o' w →
        Available project.storageId upstreams client o' v)
    (service.uploadObject b h o body) w := by
  apply Machine.wp_bind.mpr
  apply Machine.wp_mono (wp_validateUploadTarget hs)
  rintro r w ⟨rfl, htarget⟩
  cases r with
  | error x => exact fun hr => by cases hr
  | ok target =>
    obtain ⟨s, storage⟩ := target
    have hid : storage.id = project.storageId := htarget _ rfl
    apply Machine.wp_bind.mpr
    apply wp_perform.mpr
    intro e he
    rw [answer_of_answered he.1]
    by_cases haccepts : storage.accepts body = true
    · rw [Uploads.putStream_ok e haccepts, onOk_ok]
      apply Machine.wp_mono wp_persistOrDelete
      intro r v hpersisted hr
      obtain ⟨hrecordable, hblobs⟩ := hpersisted hr
      have hblob : Recordable (storage.stored body e.etag).metadata := hrecordable
      rw [hid] at hblobs
      exact ⟨(available_putBlob hblob).of_blobs hblobs,
        fun o' ha => (ha.putBlob hblob).of_blobs hblobs⟩
    · obtain ⟨x, hx⟩ := Uploads.putStream_error (w := w) (o := o) e haccepts
      rw [hx]
      exact fun hr => by cases hr

end

section

variable {b : Uuid} {context : BuildContextRecord} {project : ProjectRow}
  {upstreams : List UpstreamCache} {client : UpstreamCacheClient} {w v : World} {o : Text}
  {h : StorePathHash} {s : StorageId} {storage : DepotStorage} {service : IngestService}
  {path : StorePathHash × Text} {paths : List (StorePathHash × Text)}

inductive Found (s : StorageId) (upstreams : List UpstreamCache) (client : UpstreamCacheClient)
    (path : StorePathHash × Text) (w : World) : Prop
  | stored (hlink : ⟨path.1, path.2, .nar⟩ ∈ w.db.pathObjects.rows) (hlisted : Listed s path.2 w)
    (hpresent : Present s path.2 w)
  | upstream (upstream : UpstreamCache) (hm : upstream ∈ upstreams)
    (hfound : (client.headObject upstream path.2).isSome = true)

theorem Found.quiet (hf : Found s upstreams client path w) (hq : Quiet w v) :
    Found s upstreams client path v := by
  cases hf with
  | stored hlink hlisted hpresent =>
    apply Found.stored (hq.grows.pathObjects _ hlink) (hq.listed _ _ hlisted)
    unfold Present
    rwa [hq.blobs]
  | upstream u hm hfound => exact .upstream u hm hfound

theorem wp_finalizePaths (hid : storage.id = s)
    (hready : ∀ path ∈ paths, (∃ row, w.db.pathInfo path.1 = some row) ∧
      Available s upstreams client path.2 w) :
    machine.wp (AnswersFrom client)
      (fun r v => (r = .ok () ∧ ∀ path ∈ paths, Found s upstreams client path v) ∧ Quiet w v)
      (IngestService.finalizePaths b s storage upstreams paths) w := by
  apply wp_quiet (uses_finalizePaths (fun _ => .reads) .upsertStorageObject
    (fun h o => .linkPathObject h o .nar) _ _ _ _ _)
  induction paths generalizing w with
  | nil => exact ⟨rfl, by simp⟩
  | cons path rest ih =>
    obtain ⟨h, o⟩ := path
    obtain ⟨⟨⟨row, hrow⟩, havailable⟩, hrest⟩ := List.forall_mem_cons.mp hready
    have hlater : ∀ {u}, Quiet w u → Found s upstreams client (h, o) u →
        machine.wp (AnswersFrom client)
          (fun r v => r = .ok () ∧ ∀ path ∈ (h, o) :: rest, Found s upstreams client path v)
          (IngestService.finalizePaths b s storage upstreams rest) u := by
      intro u hq hf
      have hready' : ∀ path ∈ rest, (∃ row, u.db.pathInfo path.1 = some row) ∧
          Available s upstreams client path.2 u := by
        intro path hp
        obtain ⟨⟨row, hrow⟩, ha⟩ := hrest path hp
        exact ⟨⟨row, hq.grows.pathInfo hrow⟩, ha.of_blobs hq.blobs⟩
      apply Machine.wp_mono (wp_quiet (uses_finalizePaths (fun _ => .reads)
        .upsertStorageObject
    (fun h o => .linkPathObject h o .nar) _ _ _ _ _) (ih hready'))
      rintro r v ⟨⟨rfl, hall⟩, hquiet⟩
      exact ⟨rfl, List.forall_mem_cons.mpr ⟨hf.quiet hquiet, hall⟩⟩
    unfold IngestService.finalizePaths IngestService.recordIfStored
    apply Machine.wp_bind.mpr
    apply Machine.wp_bind.mpr
    apply Machine.wp_mono (wp_head o)
    rintro r u ⟨rfl, rfl⟩
    rw [onOk_ok, hid]
    unfold Available at havailable
    cases hblob : u.blobs s o with
    | some blob =>
      rw [hblob] at havailable
      apply Machine.wp_bind.mpr
      apply Machine.wp_mono (wp_quiet uses_recordNarObject wp_recordNarObject)
      rintro r t ⟨⟨hrecorded, hsucceeds⟩, hquiet⟩
      obtain rfl := hsucceeds havailable ⟨row, hrow⟩
      obtain ⟨-, hlisted, hlink⟩ := hrecorded rfl
      apply hlater hquiet
      apply Found.stored hlink hlisted
      unfold Present
      rw [hquiet.blobs, hblob]
      rfl
    | none =>
      rw [hblob] at havailable
      obtain ⟨upstream, hm, hfound⟩ := havailable
      apply Machine.wp_bind.mpr
      apply Machine.wp_mono (wp_objectExistsUpstream o)
      rintro r t ⟨rfl, rfl⟩
      rw [onOk_ok, if_pos (List.any_eq_true.mpr ⟨upstream, hm, hfound⟩)]
      exact hlater (Quiet.refl t) (.upstream upstream hm hfound)

theorem exists_publishBuild {db : Database} (hs : Setting b context project upstreams db)
    (t : UtcDateTime) (now : SqliteTime) :
    ∃ db', db.publishBuild project.id context.refName b t now = some db' := by
  have hproject := Database.projectBySlug_eq_some.mp hs.projectBySlug
  have hbuild : ∃ row, db.build b = some row := by
    have hc := hs.buildContext
    simp only [Database.buildContext, Option.bind_eq_bind, Option.bind_eq_some_iff] at hc
    obtain ⟨row, hrow, -⟩ := hc
    exact ⟨row, hrow⟩
  cases hany : db.projectRefs.rows.any
      (fun r => r.projectId = project.id && r.refName = context.refName) with
  | true =>
    exact ⟨_, publishBuild_eq_some.mpr
      ⟨⟨project, hproject.1, rfl⟩, hbuild, _, Table.upsert_of_any hany, rfl⟩⟩
  | false =>
    have hfree : db.projectRefs.Free ⟨project.id, context.refName, b, now⟩ := by
      intro ref hm
      exact List.any_eq_false.mp hany ref hm |> Bool.eq_false_iff.mpr
    exact ⟨_, publishBuild_eq_some.mpr ⟨⟨project, hproject.1, rfl⟩, hbuild, _,
      (Table.upsert_of_not_any hany).trans (Table.insert_of_free hfree), rfl⟩⟩

structure Finalized (b : Uuid) (context : BuildContextRecord) (project : ProjectRow)
    (upstreams : List UpstreamCache) (client : UpstreamCacheClient)
    (paths : List (StorePathHash × Text)) (v : World) : Prop where
  points : ∃ ref ∈ v.db.projectRefs.rows, ref.projectId = project.id ∧
    ref.refName = context.refName ∧ ref.buildId = b
  found : ∀ path ∈ paths, Found project.storageId upstreams client path v
  projectBySlug : v.db.projectBySlug context.projectSlug = some project
  upstreams : upstreamsIn v.db (.project context.projectSlug) = upstreams

theorem wp_finalizeBuild (hs : Setting b context project upstreams w.db)
    (hstorage : service.storageCatalog.storage project.storageId = some storage)
    (hne : w.db.buildPathNarObjects b ≠ [])
    (hready : ∀ path ∈ w.db.buildPathNarObjects b,
      Available project.storageId upstreams client path.2 w) :
    machine.wp (AnswersFrom client) (fun r v => r = .ok () ∧
      Finalized b context project upstreams client (w.db.buildPathNarObjects b) v)
      (service.finalizeBuild b) w := by
  apply Machine.wp_bind.mpr
  apply Machine.wp_mono (wp_pendingBuildContext hs)
  rintro r w ⟨rfl, rfl⟩
  rw [onOk_ok]
  apply Machine.wp_bind.mpr
  apply wp_select
  swap
  · exact fun e he hne => absurd he.1 hne
  rw [onOk_ok, if_neg hne]
  apply Machine.wp_bind.mpr
  apply Machine.wp_mono (wp_projectUpstreams hs)
  rintro r w ⟨rfl, rfl⟩
  rw [onOk_ok]
  apply Machine.wp_bind.mpr
  apply Machine.wp_mono (wp_storageForProject hs)
  rintro r w ⟨rfl, ⟨storage', hstorage', rfl⟩ | ⟨hnone, -⟩⟩
  swap
  · rw [hstorage] at hnone
    cases hnone
  obtain rfl := Option.some.inj (hstorage.symm.trans hstorage')
  rw [onOk_ok]
  apply Machine.wp_bind.mpr
  apply Machine.wp_mono (wp_finalizePaths (StorageCatalog.storage_id hstorage) _)
  swap
  · intro path hp
    obtain ⟨h, o⟩ := path
    obtain ⟨-, row, hrow, -⟩ := Database.mem_buildPathNarObjects.mp hp
    exact ⟨⟨row, hrow⟩, hready _ hp⟩
  rintro r u ⟨⟨rfl, hfound⟩, hquiet⟩
  have hsu := hs.quiet hquiet
  rw [onOk_ok]
  apply Machine.wp_bind.mpr
  apply Machine.wp_bind.mpr
  apply wp_select
  swap
  · exact fun e he hne => absurd he.1 hne
  rw [onOk_ok, hsu.projectBySlug]
  apply Machine.wp_bind.mpr
  apply wp_now
  intro e he
  rw [onOk_ok]
  apply (wp_perform (c := .publishBuild project.id context.refName b e.now)).mpr
  intro e' he'
  obtain ⟨db', hd⟩ := exists_publishBuild hsu e.now e'.sqliteNow
  have hanswer : answer (.publishBuild project.id context.refName b e.now) e' u =
      ({ u with db := db' }, .ok ()) := by
    rw [answer_of_answered he'.1]
    simp only [carryOut, World.written, hd]
  have hframe : Frame [.projectRefs, .builds] u.db db' := by
    have := answer_frame (.publishBuild project.id context.refName b e.now) e' u
    rwa [hanswer] at this
  obtain ⟨-, -, t, ht, rfl⟩ := publishBuild_eq_some.mp hd
  rw [hanswer]
  refine ⟨rfl, ?_, ?_, hsu.projectBySlug, hsu.upstreams⟩
  · rcases Table.upsert_mem ht with hm | ⟨ref, -, hkey, hm⟩
    · exact ⟨_, hm, rfl, rfl, rfl⟩
    · simp only [Bool.and_eq_true, decide_eq_true_eq] at hkey
      exact ⟨_, hm, hkey.1, hkey.2, rfl⟩
  · intro path hp
    cases hfound path hp with
    | stored hlink hlisted hpresent => exact .stored hlink hlisted hpresent
    | upstream upstream hm hf => exact .upstream upstream hm hf

end
end Answered
