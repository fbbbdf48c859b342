import ProjectCache.Gc.Stored
import ProjectCache.Publish.Publisher
import ProjectCache.Read.Answering

namespace Served

open Textual Nix Project Calendar Tables DepotPath Narinfo Signing Validation KeyCrypto Store Db
  Programs Ingest Depot Depot.Server Read ContentLength Vouching Isolation Announced FrozenBuild
  Answering SqliteDatabase

def Removes (s : StorageId) (o : Text) (db : Database) : Call → Prop
  | .deleteObject storage objectPath => storage.id = s ∧ objectPath = o
  | .markStale roots => o ∉ db.liveObjects roots
  | .deleteStorageObjects objects => (s, o) ∈ objects
  | _ => False

def Present (s : StorageId) (o : Text) (w : World) : Prop := (w.blobs s o).isSome = true

def Listed (s : StorageId) (o : Text) (w : World) : Prop :=
  ∃ so ∈ w.db.storageObjects.rows, so.storageId = s ∧ so.objectPath = o ∧ so.deletedAt = none

theorem mem_linkPathObject {db db' : Database} {h : StorePathHash} {o : Text}
    {kind : PathObjectKind} (hd : db.linkPathObject h o kind = some db') :
    ⟨h, o, kind⟩ ∈ db'.pathObjects.rows := by
  obtain ⟨-, rfl⟩ := linkPathObject_eq_some.mp hd
  by_cases hfree : db.pathObjects.Free ⟨h, o, kind⟩
  · exact Table.mem_insertOrIgnore.mpr (Or.inr ⟨hfree, rfl⟩)
  · simp only [Table.Free, not_forall, Bool.not_eq_false] at hfree
    obtain ⟨⟨h', o', kind'⟩, hm, hclash⟩ := hfree
    simp only [Keyed.clash, Bool.and_eq_true, decide_eq_true_eq] at hclash
    obtain ⟨⟨rfl, rfl⟩, rfl⟩ := hclash
    exact Table.mem_insertOrIgnore_of_mem hm

theorem stocked {catalog : StorageCatalog} {storage : DepotStorage} {s : StorageId} {o : Text}
    {w : World} (hs : catalog.storage s = some storage) (hp : Present storage.id o w)
    (hl : Listed s o w) : Stocked catalog w o := by
  obtain ⟨so, hm, rfl, ho, hd⟩ := hl
  exact ⟨so, hm, ho, hd, storage, hs, hp⟩

section

variable {s : StorageId} {o : Text} {w : World} {c : Call}

theorem present_answer (hc : ∀ storage, storage.id = s → c ≠ .deleteObject storage o) (e : Env)
    (h : Present s o w) : Present s o (answer c e w).1 := by
  by_cases hleaves : Gc.LeavesObjects c = true
  · exact Gc.answer_blobs hleaves e h
  rcases answer_state c e w with hs | hs
  · rwa [hs]
  rw [hs]
  cases c with
  | deleteObject storage objectPath =>
    have hne : ¬ (s = storage.id ∧ o = objectPath) := by
      rintro ⟨rfl, rfl⟩
      exact hc storage rfl rfl
    simpa [Present, carryOut, World.putBlob, hne] using h
  | upsertStorageObject _ _ _ | clearDeletedState _ | markStale _ | deleteStorageObjects _ =>
    exact h
  | _ => exact absurd rfl hleaves

theorem listed_answer (hc : ¬ Removes s o w.db c) (e : Env) (h : Listed s o w) :
    Listed s o (answer c e w).1 := by
  by_cases hleaves : Gc.LeavesObjects c = true
  · unfold Listed
    rwa [Gc.answer_storageObjects hleaves]
  rcases answer_state c e w with hs | hs
  · rwa [hs]
  rw [hs]
  obtain ⟨so, hm, rfl, rfl, hd⟩ := h
  cases c with
  | deleteObject storage objectPath => exact ⟨so, hm, rfl, rfl, hd⟩
  | upsertStorageObject storageId objectPath metadata =>
    by_cases hkey : so.storageId = storageId ∧ so.objectPath = objectPath
    · exact ⟨_, Database.mem_upsertStorageObject.mpr (Or.inl rfl), hkey.1.symm, hkey.2.symm, rfl⟩
    · exact ⟨so, Database.mem_upsertStorageObject.mpr (Or.inr ⟨hm, hkey⟩), rfl, rfl, hd⟩
  | clearDeletedState roots =>
    refine ⟨_, Gc.mem_clearDeletedState.mpr ⟨so, hm, rfl⟩, ?_⟩
    split
    · exact ⟨rfl, rfl, rfl⟩
    · exact ⟨rfl, rfl, hd⟩
  | markStale roots =>
    have hlive : so.objectPath ∈ w.db.liveObjects roots := not_not.mp hc
    have hk : Table.KeepsKey (Gc.tombed e.sqliteNow) := ⟨fun _ _ => rfl⟩
    exact ⟨so, Table.mem_update_of_neg _ _ hk hm (by simp [hlive]), rfl, rfl, hd⟩
  | deleteStorageObjects objects =>
    have hkey : (so.storageId, so.objectPath) ∉ objects := hc
    exact ⟨so, Table.mem_delete.mpr ⟨hm, by simp [hkey]⟩, rfl, rfl, hd⟩
  | _ => exact absurd rfl hleaves

end

section

variable {Q A : Type} {program : Q → Action A} {start : Pool machine Q A}
  {schedule : Pool.Schedule machine Q} {i m n : Nat} {s : StorageId} {storage : DepotStorage}

inductive FoundAt (program : Q → Action A) (start : Pool machine Q A)
    (schedule : Pool.Schedule machine Q) (i : Nat) (s : StorageId) (storage : DepotStorage)
    (path : StorePathHash × Text) (l n : Nat) : Prop
  | stored (metadata : BlobMetadata) (j k : Nat)
    (hl : Pool.Happens program start schedule i l ⟨.head storage path.2, .ok (some metadata)⟩)
    (hj : Pool.Happens program start schedule i j
      ⟨.upsertStorageObject s path.2 metadata, .ok ()⟩)
    (hk : Pool.Happens program start schedule i k ⟨.linkPathObject path.1 path.2 .nar, .ok ()⟩)
    (hlj : l < j) (hjk : j < k) (hkn : k < n)
  | upstream (upstream : UpstreamCache) (metadata : BlobMetadata)
    (hl : Pool.Happens program start schedule i l
      ⟨.headUpstreamObject upstream path.2, .ok (some metadata)⟩) (hln : l < n)

theorem FoundAt.later {path : StorePathHash × Text} {l o : Nat} (hno : n ≤ o)
    (h : FoundAt program start schedule i s storage path l n) :
    FoundAt program start schedule i s storage path l o := by
  cases h with
  | stored metadata j k hl hj hk hlj hjk hkn =>
    exact .stored metadata j k hl hj hk hlj hjk (by omega)
  | upstream u metadata hl hln => exact .upstream u metadata hl (by omega)

theorem ran_recordIfStored {h : StorePathHash} {o : Text}
    (hr : Pool.Ran program start schedule i m n (IngestService.recordIfStored s storage h o)
      (.done (.ok true))) :
    ∃ l, m ≤ l ∧ FoundAt program start schedule i s storage (h, o) l n := by
  obtain ⟨k₁, found, h₁, h₂⟩ := Pool.Ran.finished hr
  obtain ⟨l, hml, hlk, hhead⟩ := Pool.Ran.performed h₁
  cases found with
  | none => cases h₂
  | some metadata =>
    obtain ⟨k₂, u, h₃, h₄⟩ := Pool.Ran.finished h₂
    obtain ⟨k₃, u', h₅, h₆⟩ := Pool.Ran.finished h₃
    unfold upsertStorageObject at h₅
    split at h₅
    · cases h₅
    obtain ⟨j, hj₁, hj₂, hupsert⟩ := Pool.Ran.performed h₅
    obtain ⟨k, hk₁, hk₂, hlink⟩ := Pool.Ran.performed h₆
    have := h₄.le
    exact ⟨l, hml, .stored metadata j k hhead hupsert hlink (by omega) (by omega) (by omega)⟩

theorem ran_objectExistsUpstream {h : StorePathHash} {o : Text} {upstreams : List UpstreamCache}
    (hr : Pool.Ran program start schedule i m n (objectExistsUpstream o upstreams)
      (.done (.ok true))) :
    ∃ l, m ≤ l ∧ FoundAt program start schedule i s storage (h, o) l n := by
  induction upstreams generalizing m with
  | nil => cases hr
  | cons u rest ih =>
    obtain ⟨k, found, h₁, h₂⟩ := Pool.Ran.finished hr
    obtain ⟨l, hml, hlk, hhead⟩ := Pool.Ran.performed h₁
    have := h₂.le
    cases found with
    | some metadata => exact ⟨l, hml, .upstream u metadata hhead (by omega)⟩
    | none =>
      obtain ⟨l', hkl, hfound⟩ := ih h₂
      exact ⟨l', by omega, hfound⟩

theorem ran_finalizePaths {b : Uuid} {upstreams : List UpstreamCache}
    {paths : List (StorePathHash × Text)}
    (h : Pool.Ran program start schedule i m n
      (IngestService.finalizePaths b s storage upstreams paths) (.done (.ok ()))) :
    ∀ path ∈ paths, ∃ l, m ≤ l ∧ FoundAt program start schedule i s storage path l n := by
  induction paths generalizing m with
  | nil => simp
  | cons path rest ih =>
    obtain ⟨k, stored, h₁, h₂⟩ := Pool.Ran.finished h
    have := h₁.le
    cases stored with
    | true =>
      obtain ⟨l, hml, hfound⟩ := ran_recordIfStored h₁
      refine List.forall_mem_cons.mpr ⟨⟨l, hml, hfound.later h₂.le⟩, fun other ho => ?_⟩
      obtain ⟨l', hkl, hother⟩ := ih h₂ other ho
      exact ⟨l', by omega, hother⟩
    | false =>
      obtain ⟨k', exists', h₃, h₄⟩ := Pool.Ran.finished h₂
      have := h₃.le
      cases exists' with
      | false => cases h₄
      | true =>
        obtain ⟨l, hkl, hfound⟩ := ran_objectExistsUpstream h₃
        refine List.forall_mem_cons.mpr
          ⟨⟨l, by omega, hfound.later h₄.le⟩, fun other ho => ?_⟩
        obtain ⟨l', hkl', hother⟩ := ih h₄ other ho
        exact ⟨l', by omega, hother⟩

theorem ran_finalizeBuild {service : IngestService} {b : Uuid} {c : Call}
    {resume : Except Error c.Reply → Action Unit}
    (h : Pool.Ran program start schedule i m n (service.finalizeBuild b) (.call c resume))
    (hc : isPublish c = true) :
    ∃ l, m ≤ l ∧ l < n ∧ ∃ (paths : List (StorePathHash × Text)) (s : StorageId)
      (storage : DepotStorage), service.storageCatalog.storage s = some storage ∧
      (∃ k < n, ∃ context,
        (Pool.run program start schedule k).state.db.buildContext b = some context ∧
          ∃ t, l < t ∧ t < n ∧ ∃ row,
            (Pool.run program start schedule t).state.db.projectBySlug context.projectSlug =
              some row ∧ row.storageId = s) ∧
      Pool.Happens program start schedule i l ⟨listing b, .ok paths⟩ ∧ paths ≠ [] ∧
      ∀ path ∈ paths, ∃ k, l < k ∧ FoundAt program start schedule i s storage path k n := by
  have hr : ∀ d : Call, d.reads = true → isPublish d = false := reads_not_isPublish
  have hno : ¬ isPublish c = false := by simp [hc]
  obtain ⟨k₁, context, h₁, h₂⟩ := Pool.Ran.after h (uses_pendingBuildContext hr b) hno
  obtain ⟨k₂, paths, h₃, h₄⟩ := Pool.Ran.after h₂ (uses_select hr _) hno
  split at h₄
  · cases h₄
  rename_i hpaths
  obtain ⟨k₃, upstreams, h₅, h₆⟩ := Pool.Ran.after h₄ (uses_projectUpstreams hr _) hno
  obtain ⟨k₄, ⟨s, storage⟩, h₇, h₈⟩ := Pool.Ran.after h₆ (uses_storageForProject hr _ _) hno
  obtain ⟨k₅, u, h₉, h₁₀⟩ := Pool.Ran.after h₈
    (uses_finalizePaths hr (fun _ _ _ => rfl) (fun _ _ => rfl) _ _ _ _ _) hno
  obtain ⟨l, hml, hlk, hlisting⟩ := Pool.Ran.performed h₃
  obtain ⟨k₆, id, h₁₁', h₁₁⟩ := Pool.Ran.finished h₇
  obtain ⟨k₇, found, h₁₂, h₁₃⟩ := Pool.Ran.finished h₁₁
  obtain ⟨rfl, rfl⟩ : id = s ∧ found = storage := by
    cases h₁₃
    exact ⟨rfl, rfl⟩
  obtain ⟨k₈, found', h₁₄, h₁₅⟩ := Pool.Ran.finished h₁
  obtain ⟨k₉, checked, h₁₆, h₁₇⟩ := Pool.Ran.finished h₁₅
  obtain ⟨k, hmk, hk, -, rfl⟩ := Publisher.ran_select h₁₄
  obtain ⟨k₁₀, storageId, h₁₈, h₁₉⟩ := Pool.Ran.finished h₁₁'
  obtain ⟨t, ht, ht', -, rfl⟩ := Publisher.ran_select h₁₈
  obtain ⟨row, hrow, hstorage⟩ := Option.map_eq_some_iff.mp (Publisher.ran_orFail h₁₉)
  have := h₁.le
  have := h₅.le
  have := h₇.le
  have := h₈.le
  have := h₁₃.le
  have := h₁₅.le
  have := h₁₂.le
  have := h₁₉.le
  split at h₁₇
  · cases h₁₇
  cases h₁₇
  refine ⟨l, by omega, by omega, paths, id, found, Publisher.ran_orFail h₁₂,
    ⟨k, by omega, context, Publisher.ran_orFail h₁₆, t, by omega, by omega, row, hrow, hstorage⟩,
    hlisting, hpaths, fun path hp => ?_⟩
  obtain ⟨k, hk, hfound⟩ := ran_finalizePaths h₉ path hp
  exact ⟨k, by omega, hfound.later h₁₀.le⟩

end

section

variable {p : Publication} {e : Env} {w : World} {c : Call}

def Points (p : Publication) (db : Database) : Prop :=
  ∃ ref ∈ db.projectRefs.rows, ref.projectId = p.projectId ∧ ref.refName = p.refName ∧
    ref.buildId = p.buildId

theorem published_of_publicationOf (hp : p ∈ publicationOf e w c) :
    ∃ db', w.db.publishBuild p.projectId p.refName p.buildId p.finalizedAt e.sqliteNow = some db' ∧
      (answer c e w).1 = { w with db := db' } := by
  obtain rfl := mem_publicationOf hp
  simp only [publicationOf] at hp
  cases ho : e.outcome with
  | refused message =>
    rw [ho] at hp
    cases hp
  | _ =>
    cases hd : w.db.publishBuild p.projectId p.refName p.buildId p.finalizedAt e.sqliteNow with
    | none => simp [ho, hd] at hp
    | some db' => exact ⟨db', rfl, by simp [answer, Call.local, ho, carryOut, World.written, hd]⟩

theorem points_of_publicationOf (hp : p ∈ publicationOf e w c) :
    Points p (answer c e w).1.db := by
  obtain ⟨db', hd, hs⟩ := published_of_publicationOf hp
  obtain ⟨-, -, t, ht, rfl⟩ := publishBuild_eq_some.mp hd
  rw [hs]
  rcases Table.upsert_mem ht with hm | ⟨ref, -, hkey, hm⟩
  · exact ⟨_, hm, rfl, rfl, rfl⟩
  · simp only [Bool.and_eq_true, decide_eq_true_eq] at hkey
    exact ⟨_, hm, hkey.1, hkey.2, rfl⟩

theorem points_answer (h : Points p w.db)
    (hq : ∀ q ∈ publicationOf e w c, ¬ (q.projectId = p.projectId ∧ q.refName = p.refName)) :
    Points p (answer c e w).1.db := by
  obtain ⟨ref, hm, hproject, hname, hbuild⟩ := h
  cases hpublication : publicationOf e w c with
  | some q =>
    obtain ⟨db', hd, hs⟩ := published_of_publicationOf hpublication
    obtain ⟨-, -, t, ht, rfl⟩ := publishBuild_eq_some.mp hd
    rw [hs]
    rcases mem_of_upsert ht hm with hkept | ⟨hkey, -⟩
    · exact ⟨ref, hkept, hproject, hname, hbuild⟩
    · simp only [Bool.and_eq_true, decide_eq_true_eq] at hkey
      exact absurd ⟨hkey.1.symm.trans hproject, hkey.2.symm.trans hname⟩ (hq q hpublication)
  | none =>
    have hframe := answer_frame c e w
    cases c with
    | publishBuild projectId refName buildId finalizedAt =>
      have hsame : (answer (.publishBuild projectId refName buildId finalizedAt) e w).1 = w := by
        simp only [publicationOf] at hpublication
        cases ho : e.outcome with
        | refused message => simp [answer, Call.local, ho]
        | _ =>
          cases hd : w.db.publishBuild projectId refName buildId finalizedAt e.sqliteNow with
          | none => simp [answer, Call.local, ho, carryOut, World.written, hd]
          | some db' => simp [ho, hd] at hpublication
      rw [hsame]
      exact ⟨ref, hm, hproject, hname, hbuild⟩
    | _ =>
      rw [← hframe.projectRefs (by simp [Call.writes])] at hm
      exact ⟨ref, hm, hproject, hname, hbuild⟩

end

section

variable [Base64] [WildMatch] {r : ServerRun} {i k l m n : Nat} {p : Publication}

theorem next_of_call {c : Call} (hc : r.call n = some c) :
    r.world (n + 1) = (answer c (r.schedule.env n) (r.world n)).1 ∧
      r.publishes n = publicationOf (r.schedule.env n) (r.world n) c := by
  unfold ServerRun.call nextCall at hc
  split at hc
  · rename_i i hi
    split at hc
    · rename_i q c' resume ht
      cases hc
      have hstep := Pool.run_succ_of_atCall hi ht
      refine ⟨congrArg Pool.state hstep, ?_⟩
      simp only [ServerRun.publishes, publication, hi, ht]
      rfl
    · cases hc
  · cases hc

def StorageOfProject (r : ServerRun) (p : Publication) (m n : Nat) (storage : DepotStorage) :
    Prop :=
  ∃ t, m < t ∧ t < n ∧ ∃ row ∈ (r.db t).projects.rows, row.id = p.projectId ∧
    r.server.storageCatalog.storage row.storageId = some storage

theorem storageOfProject (hp : p ∈ r.publishes n) {m k t : Nat} {context : BuildContextRecord}
    {row : ProjectRow} {storage : DepotStorage} (hk : k < n)
    (hc : (r.db k).buildContext p.buildId = some context) (hmt : m < t) (ht : t < n)
    (hrow : (r.db t).projectBySlug context.projectSlug = some row)
    (hs : r.server.storageCatalog.storage row.storageId = some storage) :
    StorageOfProject r p m n storage := by
  obtain ⟨b, hb, hid, -⟩ := (r.publishing n).published p hp
  obtain ⟨-, -, -, howner, -⟩ := Publisher.publisher hp
  have hproject := (Publisher.build_of_context hk hc ht hrow b hb hid).1
  exact ⟨t, hmt, ht, row, (Database.projectBySlug_eq_some.mp hrow).1,
    hproject.symm.trans (howner b hb hid).1, hs⟩

theorem linked_of_happens {h : StorePathHash} {o : Text}
    (hk : r.Happens i k ⟨.linkPathObject h o .nar, .ok ()⟩) :
    ⟨h, o, .nar⟩ ∈ (r.db (k + 1)).pathObjects.rows := by
  obtain ⟨hstate, hreply⟩ := Publisher.carried_of_happens hk
  obtain ⟨db', hd, hs⟩ := World.written_ok hreply
  have hdb : r.db (k + 1) = db' := congrArg World.db (hstate.trans hs)
  rw [hdb]
  exact mem_linkPathObject hd

theorem present_of_head {storage : DepotStorage} {o : Text} {metadata : BlobMetadata}
    (h : r.Happens i k ⟨.head storage o, .ok (some metadata)⟩) :
    Present storage.id o (r.world k) := by
  obtain ⟨-, hfound⟩ := Publisher.carried_of_happens h
  have hblob : ((r.world k).blobs storage.id o).map Blob.metadata = some metadata :=
    Except.ok.inj hfound
  simpa [Present] using congrArg Option.isSome hblob

theorem listed_of_recorded {j : Nat} {s : StorageId} {o : Text} {metadata : BlobMetadata}
    (hj : r.Happens i j ⟨.upsertStorageObject s o metadata, .ok ()⟩) :
    Listed s o (r.world (j + 1)) := by
  obtain ⟨hstate, -⟩ := Publisher.carried_of_happens hj
  have hdb : (r.world (j + 1)).db = (r.db j).upsertStorageObject s o metadata :=
    congrArg World.db hstate
  refine ⟨⟨s, o, metadata, none, none⟩, ?_, rfl, rfl, rfl⟩
  rw [hdb]
  exact Database.mem_upsertStorageObject.mpr (Or.inl rfl)

theorem found_of_published (hp : p ∈ r.publishes n) : ∃ i, r.schedule.choice n = .advance i ∧
    ∃ m < n, ∃ (paths : List (StorePathHash × Text)) (storage : DepotStorage),
      r.Happens i m ⟨listing p.buildId, .ok paths⟩ ∧ paths ≠ [] ∧
      r.server.storageCatalog.storage storage.id = some storage ∧
      StorageOfProject r p m n storage ∧ ∀ path ∈ paths, ∃ l, m < l ∧
        FoundAt r.server.program ⟨r.start, []⟩ r.schedule i storage.id storage path l n := by
  obtain ⟨i, q, resume, hi, hc⟩ := publication_atCall hp
  obtain rfl : q = .finalizeBuild p.buildId := by
    cases (ServerRun.within n).atCall hc with
    | reads hr => cases hr
    | publishBuild => rfl
  have hran : Pool.Ran r.server.program ⟨r.start, []⟩ r.schedule i 0 n
      (r.server.program (.finalizeBuild p.buildId)) _ := Pool.ran_of_task rfl hc
  obtain ⟨next, hfinalize⟩ := Pool.Ran.of_map hran
  obtain ⟨m, -, hmn, paths, s, storage, hs, ⟨k, hk, context, hcontext, t, hmt, ht, project,
    hproject, rfl⟩, hlisting, hne, hfound⟩ := ran_finalizeBuild hfinalize rfl
  have hid := StorageCatalog.storage_id hs
  refine ⟨i, hi, m, hmn, paths, storage, hlisting, hne, hid.symm ▸ hs,
    storageOfProject hp hk hcontext hmt ht hproject hs, fun path hpath => ?_⟩
  rw [hid]
  exact hfound path hpath

def Unmoved (r : ServerRun) (p : Publication) (m n : Nat) : Prop :=
  ∀ k, m < k → k < n → ∀ q ∈ r.publishes k,
    ¬ (q.projectId = p.projectId ∧ q.refName = p.refName)

theorem points (hp : p ∈ r.publishes m) (hmn : m < n) (hu : Unmoved r p m n) :
    Points p (r.db n) := by
  induction n, hmn using Nat.le_induction with
  | base =>
    obtain ⟨i, q, resume, hi, hcall⟩ := publication_atCall hp
    have hc : r.call m = some (.publishBuild p.projectId p.refName p.buildId p.finalizedAt) := by
      rw [ServerRun.call, hi, nextCall_of_atCall hcall]
    obtain ⟨hnext, hpublishes⟩ := next_of_call hc
    rw [hpublishes] at hp
    unfold ServerRun.db
    rw [hnext]
    exact points_of_publicationOf hp
  | succ n hmn ih =>
    have hn := ih (fun k hk hkn => hu k hk (by omega))
    unfold ServerRun.db
    rcases r.changed_by_call n with hsame | ⟨c, hc, hnext⟩
    · rwa [hsame]
    · rw [hnext]
      refine points_answer hn (fun q hq => ?_)
      exact hu n hmn (Nat.lt_succ_self n) q ((next_of_call hc).2 ▸ hq)

end

section

variable [Base64]

def Recorded (storeDir : StoreDir) (row : PathInfoRow) : Prop :=
  ∃ n h narHash, Accepted storeDir n h ∧ n.normalizedNarHash = .ok narHash ∧
    row = pathInfoRow n h narHash

theorem Recorded.fingerprint [Ed25519] {storeDir : StoreDir} {row : PathInfoRow}
    (h : Recorded storeDir row) :
    ∃ message, NarInfoSigner.fingerprint ⟨storeDir, []⟩ (narinfoOf row) = .ok message := by
  obtain ⟨n, hash, narHash, ha, hn, rfl⟩ := h
  obtain ⟨-, -, digest, hdigest, hl, -⟩ := ha.compression
  obtain rfl := Except.ok.inj (hdigest.symm.trans hn)
  exact ⟨_, (NarInfoSigner.fingerprint_eq_ok _).mpr ⟨ha.inside, fun r hr => (ha.references r hr).1,
    digest, NormalizedNarHash.parseText_display hl, rfl⟩⟩

theorem recorded [WildMatch] (r : FreshRun) (n : Nat) :
    ∀ row ∈ (r.db n).pathInfos.rows, Recorded r.server.storeDir row := by
  refine Pool.invariant_of_run (M := machine)
    (fun w => ∀ row ∈ w.db.pathInfos.rows, Recorded r.server.storeDir row)
    r.server.program_uses (by simp [Pool.Within]) (by simp [r.empty]) ?_ n
  intro q c e w hc hw row hrow
  by_cases hp : TableName.pathInfos ∈ c.writes
  · cases hc with
    | insertPathInfo hm hv hn =>
      rcases answer_state (.insertPathInfo (pathInfoRow _ _ _)) e w with hs | hs
      · exact hw row (hs ▸ hrow)
      · rw [hs] at hrow
        rcases Table.mem_insertOrIgnore.mp hrow with hold | ⟨-, rfl⟩
        · exact hw row hold
        · exact ⟨_, _, _, validatePublishNarinfo_ok hv, hn, rfl⟩
    | reads hr => exact hw row (answer_of_reads hr e w ▸ hrow)
    | _ => simp [Call.writes] at hp
  · rw [(answer_frame c e w).pathInfos hp] at hrow
    exact hw row hrow

end

section

variable {view : DepotView} {p : Publication} {db : Database} {h : StorePathHash} {o : Text}
  {row : PathInfoRow}

theorem pathInfoIn_of_visible (hrow : db.pathInfo h = some row)
    (hv : db.visiblePath view h = true) : pathInfoIn db view h = some row := by
  cases view <;> exact Option.filter_eq_some_iff.mpr ⟨hrow, hv⟩

theorem objectVisible_of_visible (hv : db.visiblePath view h = true) {kind : PathObjectKind}
    (hl : ⟨h, o, kind⟩ ∈ db.pathObjects.rows) : db.storageObjectVisibleInView view o = true :=
  List.any_eq_true.mpr ⟨_, hl, by simp [hv]⟩

end

section

variable [Base64] [Base64NoPad] [Ed25519] [Ed25519Bytes] [ChaCha20Poly1305] [HeaderValue]
  (state : ReadAppState) (view : DepotView) (es : Nat → Env) (w : World)

def asking : DepotView → Text → ReadRequest
  | .aggregate, file => .aggregateObject file
  | .project slug, file => .projectObject slug.text file

end

section

variable [Base64] [Base64NoPad] [Ed25519] [Ed25519Bytes] [ChaCha20Poly1305] [HeaderValue]
  {state : ReadAppState} {view : DepotView} {client : UpstreamCacheClient} {es : Nat → Env}
  {w : World}

variable [WildMatch]

end

section Examples

open SigningKeys

attribute [local instance] standardBase64 standardNoPad standardWildMatch helloEd25519
  helloEd25519Bytes exampleCipher visibleHeaderValue

def published : FreshRun := scripted publishedScript

end Examples

end Served
