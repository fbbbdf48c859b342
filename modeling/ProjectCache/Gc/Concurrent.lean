import ProjectCache.Gc.Collecting
import ProjectCache.Gc.Gathered
import ProjectCache.Publish.Untouched

namespace Concurrent

open Textual Nix Project Calendar Tables Store Db Programs Ingest Depot Depot.Server SqliteDatabase
  Gc Gathered Collecting Served Untouched FrozenBuild

def Involved : Request → Prop
  | .registerPaths _ _ | .uploadObject _ _ _ _ | .finalizeBuild _ => True
  | .runLocalGc dryRun _ => dryRun = false
  | _ => False

def involvedTables : List TableName :=
  [.pathInfos, .buildPaths, .storageObjects, .pathObjects, .builds, .projectRefs]

theorem row_not_ready {s : StorageId} {o : Text} {w : World} (h : Listed s o w) {g : Int}
    {t : SqliteTime} : (s, o) ∉ w.db.readyForDeletion g t := by
  intro hm
  obtain ⟨so, hso, hkey, hdeleted, -⟩ := mem_readyForDeletion.mp hm
  obtain ⟨so', hso', rfl, rfl, hd⟩ := h
  obtain ⟨hs, ho⟩ := Prod.mk.inj hkey
  obtain rfl : so = so' := Table.eq_of_clash hso hso' (by simp [Keyed.clash, hs, ho])
  rw [hd] at hdeleted
  cases hdeleted

def HasRow (s : StorageId) (o : Text) (w : World) : Prop :=
  ∃ so ∈ w.db.storageObjects.rows, so.storageId = s ∧ so.objectPath = o

section

variable {s : StorageId} {o : Text} {w : World}

theorem hasRow_of_listed (h : Listed s o w) : HasRow s o w := by
  obtain ⟨so, hm, hs, ho, -⟩ := h
  exact ⟨so, hm, hs, ho⟩

theorem hasRow_answer {c : Call} (hc : ∀ objects, c = .deleteStorageObjects objects →
    (s, o) ∉ objects) (e : Env) (h : HasRow s o w) : HasRow s o (answer c e w).1 := by
  by_cases hleaves : LeavesObjects c = true
  · unfold HasRow
    rwa [answer_storageObjects hleaves]
  rcases answer_state c e w with hs | hs
  · rwa [hs]
  rw [hs]
  obtain ⟨so, hm, rfl, rfl⟩ := h
  cases c with
  | deleteObject storage objectPath => exact ⟨so, hm, rfl, rfl⟩
  | upsertStorageObject storageId objectPath metadata =>
    by_cases hkey : so.storageId = storageId ∧ so.objectPath = objectPath
    · exact ⟨_, Database.mem_upsertStorageObject.mpr (Or.inl rfl), hkey.1.symm, hkey.2.symm⟩
    · exact ⟨so, Database.mem_upsertStorageObject.mpr (Or.inr ⟨hm, hkey⟩), rfl, rfl⟩
  | clearDeletedState roots =>
    refine ⟨_, mem_clearDeletedState.mpr ⟨so, hm, rfl⟩, ?_⟩
    split <;> exact ⟨rfl, rfl⟩
  | markStale roots =>
    have hk : Table.KeepsKey (tombed e.sqliteNow) := ⟨fun _ _ => rfl⟩
    have hmarked : (if !(w.db.liveObjects roots).contains so.objectPath then tombed e.sqliteNow so
        else so) ∈ (w.db.storageObjects.update
          (fun so => !(w.db.liveObjects roots).contains so.objectPath) (tombed e.sqliteNow)
          hk).rows := Table.mem_update.mpr ⟨so, hm, rfl⟩
    refine ⟨_, hmarked, ?_⟩
    split <;> exact ⟨rfl, rfl⟩
  | deleteStorageObjects objects =>
    exact ⟨so, Table.mem_delete.mpr ⟨hm, by simp [hc objects rfl]⟩, rfl, rfl⟩
  | _ => exact absurd rfl hleaves

end

section

variable [Base64] [WildMatch] {server : Server} {q : Request} {c : Call}

omit [WildMatch] in
theorem writes_of_involved (hq : Involved q) (hc : server.Makes q c) :
    ∀ t ∈ c.writes, t ∈ involvedTables := by
  cases hc with
  | reads hr => simp [writes_of_reads hr]
  | insertPathInfo | attachBuildPath | upsertStorageObject | linkPathObject | publishBuild
  | clearDeletedState | markStale | deleteStorageObjects => simp [Call.writes, involvedTables]
  | putStream | deleteUploaded | deleteReady => simp [Call.writes]
  | _ => cases hq

variable {Q A : Type} {program : Q → Action A} {start : Pool machine Q A}
  {schedule : Pool.Schedule machine Q} {i m n : Nat}

theorem ran_marks {g : Int} {roots : List StorePathHash}
    {resume : Except Error Unit → Action Response}
    (h : Pool.Ran program start schedule i m n (server.program (.runLocalGc false g))
      (.call (.markStale roots) resume)) :
    ∃ k l, m ≤ k ∧ l ≤ n ∧
      Pool.Ran program start schedule i k l listRootStorePathHashes (.done (.ok roots)) := by
  have heq : server.program (.runLocalGc false g) =
      clearDeletedStateForLiveStorageObjects.bind (fun _ => listRootStorePathHashes.bind
        (fun roots => (perform (.markStale roots)).bind (fun _ =>
          (listStorageObjectsReadyForDeletion g).bind (deleting server.gcService)))) := by
    rw [program_runLocalGc, marking]
    exact (Prog.bind_assoc _ _ _).trans (congrArg _ (funext fun _ => Prog.bind_assoc _ _ _))
  rw [heq] at h
  have hr : ∀ c : Call, c.reads = true → ∀ roots, c ≠ .markStale roots := by
    rintro _ hc roots rfl
    cases hc
  have hno : ¬ ∀ roots', (.markStale roots : Call) ≠ .markStale roots' := fun h => h _ rfl
  have hclear : clearDeletedStateForLiveStorageObjects.Uses
      (fun c : Call => ∀ roots, c ≠ .markStale roots) :=
    (uses_listRootStorePathHashes hr).bind (fun _ => Prog.uses_perform (fun _ h => by cases h))
  have hrest : ((listStorageObjectsReadyForDeletion g).bind (deleting server.gcService)).Uses
      (fun c : Call => ∀ roots, c ≠ .markStale roots) := by
    refine (uses_reading hr rfl).bind (fun ready => (deleting_uses _ ready).mono ?_)
    rintro c (⟨storage, o, rfl, -⟩ | ⟨objects, rfl⟩) roots <;> exact fun h => by cases h
  obtain ⟨k₁, u, h₁, h₂⟩ := Pool.Ran.after h hclear hno
  obtain ⟨k₂, found, h₃, h₄⟩ := Pool.Ran.after h₂ (uses_listRootStorePathHashes hr) hno
  refine ⟨k₁, k₂, h₁.le, h₄.le, ?_⟩
  cases h₄ with
  | stay => exact h₃
  | call reply hmk hh h₅ =>
    cases reply with
    | error x => cases h₅
    | ok u => exact absurd (h₅.uses hrest).1 hno

end

section

variable [Base64] [WildMatch] {r : ServerRun} {i j k l m n t : Nat} {s : StorageId} {o : Text}
  {p : Publication} {q : Request} {c : Call}

def OnlyInvolved (r : ServerRun) (m n : Nat) : Prop :=
  ∀ k < n, m ≤ k → ∀ q ∈ asking r k, Involved q

def RootAt (now : UtcDateTime) (db : Database) (b : Uuid) : Prop :=
  (∃ row ∈ db.builds.rows, row.id = b ∧ row.status = .pending) ∨ Keeping now db b

def RootSince (r : ServerRun) (b : Uuid) (m n : Nat) : Prop :=
  ∀ k < n, m ≤ k → RootAt (r.schedule.env k).now (r.db k) b

def PublishesTo (r : ServerRun) (p : Publication) (k : Nat) : Prop :=
  ∃ q ∈ r.publishes k, q.projectId = p.projectId ∧ q.refName = p.refName

inductive Overlooks (r : ServerRun) (p : Publication) (o : Text) (t k : Nat) : Prop
  | marks (i : Nat) (g : Int) (k' : Nat) (roots : List StorePathHash)
    (reply : Except Error Unit) (hmarks : r.Happens i k ⟨.markStale roots, reply⟩)
    (hno : o ∉ (r.db k).liveObjects roots) (hworks : r.Works i k' (.runLocalGc false g))
    (hk : k' ≤ t ∨ PublishesTo r p k')

inductive Overtaken (r : ServerRun) (p : Publication) (s : StorageId) (o : Text) (l j t n : Nat) :
    Prop
  | collected (i : Nat) (g : Int) (k k' : Nat) (ready : List (StorageId × Text))
    (hready : ListsAt r g i k ready) (hm : (s, o) ∈ ready)
    (hk : k ≤ j ∨ ∃ m < k, j < m ∧ Overlooks r p o t m) (hremoves : RemovesAt r g i k' (s, o))
    (hl : l ≤ k') (hn : k' < n)
  | cleaned (k : Nat) (q : Request) (storage : DepotStorage) (hq : q ∈ asking r k)
    (hu : q.uploads = some o) (hc : r.call k = some (.deleteObject storage o))
    (hs : storage.id = s) (hl : l ≤ k) (hn : k < n)

structure Seen (r : ServerRun) (p : Publication) (s : StorageId) (path : StorePathHash × Text)
    (l j t : Nat) : Prop where
  published : p ∈ r.publishes t
  attached : ⟨p.buildId, path.1⟩ ∈ (r.db t).buildPaths.rows
  registered : ∃ row ∈ (r.db t).pathInfos.rows, row.storePathHash = path.1
  linked : ⟨path.1, path.2, .nar⟩ ∈ (r.db t).pathObjects.rows
  present : Present s path.2 (r.world l)
  listed : Listed s path.2 (r.world (j + 1))
  order : l < j ∧ j < t

theorem frame (ho : OnlyInvolved r m n) (hmk : m ≤ k) (hkn : k ≤ n) :
    Frame involvedTables (r.db m) (r.db k) := by
  induction k, hmk using Nat.le_induction with
  | base => exact Frame.refl _ _
  | succ k hmk ih =>
    refine (ih (by omega)).trans ?_
    unfold ServerRun.db
    rcases r.changed_by_call k with hsame | ⟨c, hc, hnext⟩
    · rw [hsame]
      exact Frame.refl _ _
    · obtain ⟨i, q, resume, hi, hcall⟩ := atCall_of_call hc
      rw [hnext]
      exact (answer_frame c _ _).mono (writes_of_involved
        (ho k (by omega) hmk q (asking_of_atCall hi hcall)) ((ServerRun.within k).atCall hcall))

theorem steady (ho : OnlyInvolved r m n) :
    Steady r.server.program ⟨r.start, []⟩ r.schedule (r.db m) m n := by
  intro k hmk hkn
  have hframe := frame ho hmk hkn.le
  exact ⟨hframe.projects (by decide), hframe.retentionPolicies (by decide),
    hframe.retentionRules (by decide)⟩

theorem works_before {q' : Request} {rest : Action Response}
    {resume : Except Error c.Reply → Action Response} (hmk : m ≤ k)
    (hm : (r.pool m).tasks[i]? = some ⟨q, rest⟩) (hk : (r.pool k).AtCall i q' c resume) :
    r.Works i m q := by
  refine ⟨rest, hm, ?_⟩
  cases rest with
  | call d next => rfl
  | done x =>
    have hdone := (Pool.done_of_le hmk hm).symm.trans hk
    simp at hdone

theorem finalized_after (hp : p ∈ r.publishes t) (htk : t < k) :
    ∃ row ∈ (r.db k).builds.rows, row.id = p.buildId ∧ row.status = .finalized := by
  induction k, htk using Nat.le_induction with
  | base =>
    obtain ⟨row, -, hid, hm⟩ := (r.publishing t).published p hp
    exact ⟨_, hm, hid, rfl⟩
  | succ k _ ih =>
    obtain ⟨row, hm, hid, hs⟩ := ih
    by_cases hq : ∃ q ∈ r.publishes k, q.buildId = row.id
    · obtain ⟨q, hq, hqid⟩ := hq
      obtain ⟨row', -, hid', hm'⟩ := (r.publishing k).published q hq
      exact ⟨_, hm', hid'.trans (hqid.trans hid), rfl⟩
    · exact ⟨row, (r.publishing k).kept row hm (fun q hq' hqid => hq ⟨q, hq', hqid⟩), hid, hs⟩

theorem keeping_of_rootAt (hp : p ∈ r.publishes t) (htk : t < k) {now : UtcDateTime}
    (h : RootAt now (r.db k) p.buildId) : Keeping now (r.db k) p.buildId := by
  rcases h with ⟨row, hm, hid, hs⟩ | hkept
  · obtain ⟨row', hm', hid', hs'⟩ := finalized_after hp htk
    obtain rfl : row = row' := Table.eq_of_clash hm hm' (by simp [Keyed.clash, hid, hid'])
    rw [hs] at hs'
    cases hs'
  · exact hkept

theorem ref_of_ofRef (hp : p ∈ r.publishes t) (htk : t ≤ k) {ref : ProjectRefRow}
    (h : OfRef (r.db k) p.buildId ref) : p.projectId = ref.projectId ∧ p.refName = ref.refName := by
  obtain ⟨row, hm, hid, -⟩ := (r.publishing t).published p hp
  obtain ⟨-, -, -, howner, -⟩ := Publisher.publisher hp
  obtain ⟨hproject, hname⟩ := howner row hm hid
  have hat : OfRef (r.db t) p.buildId ⟨p.projectId, p.refName, p.buildId, ref.updatedAt⟩ :=
    ⟨row, hm, hid, hproject, hname⟩
  obtain ⟨row₁, hm₁, hid₁, hproject₁, hname₁⟩ := ofRef_later htk hat
  obtain ⟨row₂, hm₂, hid₂, hproject₂, hname₂⟩ := h
  obtain rfl : row₁ = row₂ := Table.eq_of_clash hm₁ hm₂ (by simp [Keyed.clash, hid₁, hid₂])
  exact ⟨hproject₁.symm.trans hproject₂, hname₁.symm.trans hname₂⟩

theorem unrenewed (hp : p ∈ r.publishes t) (htm : t ≤ m)
    (hno : ∀ k, m ≤ k → k < n → ¬ PublishesTo r p k) :
    Unrenewed r.server.program ⟨r.start, []⟩ r.schedule p.buildId m n := by
  intro k l hmk hkl hln ref href hof
  obtain ⟨hproject, hname⟩ := ref_of_ofRef hp (by omega : t ≤ l) hof
  clear hof
  induction l, hkl using Nat.le_induction with
  | base => exact href
  | succ l hkl ih =>
    rcases (r.publishing l).ref ref href with ⟨hold, -⟩ | ⟨q, hq, hqp, hqn, -⟩
    · exact ih (by omega) hold
    · exact absurd ⟨q, hq, hqp.trans hproject.symm, hqn.trans hname.symm⟩
        (hno l (by omega) (by omega))

theorem marked_live {path : StorePathHash × Text} (hseen : Seen r p s path l j t)
    (ho : OnlyInvolved r (t + 1) n) (hroot : RootSince r p.buildId (t + 1) n)
    (hno : ¬ Overlooks r p path.2 t k) (hkn : k < n) {roots : List StorePathHash}
    {reply : Except Error Unit} (hh : r.Happens i k ⟨.markStale roots, reply⟩) :
    path.2 ∈ (r.db k).liveObjects roots := by
  by_contra hlive
  obtain ⟨q, resume, hcall⟩ := hh.atCall
  obtain ⟨g, rfl⟩ : ∃ g, q = .runLocalGc false g := by
    cases (ServerRun.within k).atCall hcall with
    | reads hr => cases hr
    | markStale => exact ⟨_, rfl⟩
  obtain ⟨m, hmk, hm⟩ := Pool.submitted_of_task rfl hcall
  have hlate : ∀ a, m ≤ a → a ≤ k → t < a ∧ ¬ PublishesTo r p a := by
    intro a hma hak
    obtain ⟨rest, hrest⟩ := Pool.request_of_le hma hm
    have hworks : r.Works i a (.runLocalGc false g) := works_before hak hrest hcall
    constructor
    · by_contra hle
      exact hno (.marks i g a roots reply hh hlive hworks (Or.inl (by omega)))
    · intro hpublishes
      exact hno (.marks i g a roots reply hh hlive hworks (Or.inr hpublishes))
  have htm := (hlate m le_rfl hmk).1
  obtain ⟨k₁, k₂, hk₁, hk₂, hroots⟩ := ran_marks (Pool.ran_between hmk hm hcall)
  have hpath : path.1 ∈ roots := by
    refine ran_roots (b := p.buildId) ((steady ho).within (by omega) (by omega))
      (unrenewed hseen.published (by omega) (fun a ha ha' => (hlate a (by omega) (by omega)).2))
      (fun a ha ha' => ?_) (fun a ha ha' => ?_) hroots
    · exact keeping_of_rootAt hseen.published (by omega) (hroot a (by omega) (by omega))
    · exact (ServerRun.grows_le (by omega : t ≤ a)).buildPaths _ hseen.attached
  have hgrows : Grows (r.db t) (r.db k) := ServerRun.grows_le (by omega)
  obtain ⟨row, hrow, hhash⟩ := hseen.registered
  exact hlive (mem_liveObjects.mpr ⟨row, hgrows.pathInfos row hrow, hhash ▸ hpath, row, .refl, _,
    hgrows.pathObjects _ hseen.linked, hhash.symm, rfl⟩)

def Tracked (r : ServerRun) (p : Publication) (s : StorageId) (o : Text) (j t k : Nat) : Prop :=
  Listed s o (r.world k) ∨ ∃ m < k, j < m ∧ Overlooks r p o t m

theorem not_removed (hno : ¬ Overtaken r p s o l j t n)
    (htracked : ∀ k', j < k' → k' ≤ k → Tracked r p s o j t k') (hlk : l ≤ k) (hkn : k < n)
    {g : Int} : ¬ RemovesAt r g i k (s, o) := by
  intro hremoves
  obtain ⟨k', hk', ready, hready, hm⟩ := hremoves.listed
  refine hno (.collected i g k' k ready hready hm ?_ hremoves hlk hkn)
  rcases Nat.lt_or_ge j k' with hjk | hkj
  · rcases htracked k' hjk hk'.le with hlisted | hoverlooks
    · rw [hready.lists] at hm
      exact absurd hm (row_not_ready hlisted)
    · exact Or.inr hoverlooks
  · exact Or.inl hkj

theorem not_deleted (hno : ¬ Overtaken r p s o l j t n)
    (htracked : ∀ k', j < k' → k' ≤ k → Tracked r p s o j t k') (hlk : l ≤ k) (hkn : k < n)
    {storage : DepotStorage} (hs : storage.id = s) : r.call k ≠ some (.deleteObject storage o) := by
  intro hc
  obtain ⟨i, q, resume, hi, hcall⟩ := atCall_of_call hc
  cases (ServerRun.within k).atCall hcall with
  | reads hr => cases hr
  | deleteUploaded hu =>
    exact hno (.cleaned k q storage (asking_of_atCall hi hcall) hu hc hs hlk hkn)
  | deleteReady =>
    refine not_removed hno htracked hlk hkn (removesAt_of_call hi (congrArg _ hcall) ?_)
    rw [hc, ← hs]
    exact List.mem_singleton_self _

theorem not_dropped (hno : ¬ Overtaken r p s o l j t n)
    (htracked : ∀ k', j < k' → k' ≤ k → Tracked r p s o j t k') (hlk : l ≤ k) (hkn : k < n)
    {objects : List (StorageId × Text)} (hc : r.call k = some (.deleteStorageObjects objects)) :
    (s, o) ∉ objects := by
  intro hm
  obtain ⟨i, q, resume, hi, hcall⟩ := atCall_of_call hc
  cases (ServerRun.within k).atCall hcall with
  | reads hr => cases hr
  | deleteStorageObjects =>
    refine not_removed hno htracked hlk hkn (removesAt_of_call hi (congrArg _ hcall) ?_)
    rw [hc]
    exact hm

theorem tracked_step {path : StorePathHash × Text} (hseen : Seen r p s path l j t)
    (ho : OnlyInvolved r (t + 1) n) (hroot : RootSince r p.buildId (t + 1) n)
    (hno : ¬ Overtaken r p s path.2 l j t n)
    (htracked : ∀ k', j < k' → k' ≤ k → Tracked r p s path.2 j t k') (hjk : j < k)
    (hkn : k < n) : Tracked r p s path.2 j t (k + 1) := by
  have hlk : l ≤ k := by
    have := hseen.order
    omega
  rcases htracked k hjk le_rfl with hlisted | ⟨m, hmk, hjm, hoverlooks⟩
  swap
  · exact Or.inr ⟨m, by omega, hjm, hoverlooks⟩
  by_cases hoverlooks : Overlooks r p path.2 t k
  · exact Or.inr ⟨k, Nat.lt_succ_self k, hjk, hoverlooks⟩
  refine Or.inl ?_
  rcases r.changed_by_call k with hsame | ⟨c, hc, hnext⟩
  · rwa [hsame]
  rw [hnext]
  refine listed_answer (fun hremoves => ?_) _ hlisted
  obtain ⟨i, q, resume, hi, hcall⟩ := atCall_of_call hc
  cases c with
  | deleteObject storage objectPath =>
    obtain ⟨hs, rfl⟩ := hremoves
    exact not_deleted hno htracked hlk hkn hs hc
  | markStale roots =>
    have hh : r.Happens i k ⟨.markStale roots,
        (answer (.markStale roots) (r.schedule.env k) (r.world k)).2⟩ := ⟨hi, ⟨_, _, hcall⟩, rfl⟩
    exact hremoves (marked_live hseen ho hroot hoverlooks hkn hh)
  | deleteStorageObjects objects => exact not_dropped hno htracked hlk hkn hc hremoves
  | _ => exact hremoves

theorem kept_of_seen {path : StorePathHash × Text} (hseen : Seen r p s path l j t)
    (ho : OnlyInvolved r (t + 1) n) (hroot : RootSince r p.buildId (t + 1) n)
    (hno : ¬ Overtaken r p s path.2 l j t n) (hlk : l ≤ k) (hkn : k ≤ n) :
    Present s path.2 (r.world k) ∧ ∀ k', j < k' → k' ≤ k →
      HasRow s path.2 (r.world k') ∧ Tracked r p s path.2 j t k' := by
  have horder := hseen.order
  induction k, hlk using Nat.le_induction with
  | base => exact ⟨hseen.present, fun k' hj hk' => by omega⟩
  | succ k hlk ih =>
    obtain ⟨hpresent, hkept⟩ := ih (by omega)
    have htracked : ∀ k', j < k' → k' ≤ k → Tracked r p s path.2 j t k' :=
      fun k' hj hk' => (hkept k' hj hk').2
    constructor
    · rcases r.changed_by_call k with hsame | ⟨c, hc, hnext⟩
      · rwa [hsame]
      · rw [hnext]
        refine present_answer ?_ _ hpresent
        rintro storage hs rfl
        exact not_deleted hno htracked hlk (by omega) hs hc
    intro k' hj hk'
    rcases Nat.lt_or_ge k k' with hlt | hge
    swap
    · exact hkept k' hj hge
    obtain rfl : k' = k + 1 := by omega
    rcases Nat.lt_or_ge j k with hjk | hkj
    · refine ⟨?_, tracked_step hseen ho hroot hno htracked hjk (by omega)⟩
      rcases r.changed_by_call k with hsame | ⟨c, hc, hnext⟩
      · rw [hsame]
        exact (hkept k hjk le_rfl).1
      · rw [hnext]
        refine hasRow_answer ?_ _ (hkept k hjk le_rfl).1
        rintro objects rfl
        exact not_dropped hno htracked hlk (by omega) hc
    · obtain rfl : k = j := by omega
      exact ⟨hasRow_of_listed hseen.listed, Or.inl hseen.listed⟩

theorem publishes_of_happens {projectId b : Uuid} {refName : Text} {finalizedAt : UtcDateTime}
    (h : r.Happens i t ⟨.publishBuild projectId refName b finalizedAt, .ok ()⟩) :
    ⟨projectId, refName, b, finalizedAt⟩ ∈ r.publishes t := by
  obtain ⟨-, hreply⟩ := Publisher.carried_of_happens h
  obtain ⟨db', hd, -⟩ := World.written_ok hreply
  have hanswer : .ok () = (answer (.publishBuild projectId refName b finalizedAt)
    (r.schedule.env t) (r.world t)).2 := h.reply
  rw [(next_of_call (call_of_happens h)).2]
  cases ho : (r.schedule.env t).outcome with
  | refused message => simp [answer, Call.local, ho] at hanswer
  | _ => simp [publicationOf, ho, ServerRun.world, ServerRun.pool, hd]

theorem publishes_of_done {b : Uuid} {x : Response}
    (hdone : (r.pool n).tasks[i]? = some ⟨.finalizeBuild b, .done (.ok x)⟩) :
    ∃ t < n, r.schedule.choice t = .advance i ∧ ∃ p ∈ r.publishes t, p.buildId = b := by
  have hran : Pool.Ran r.server.program ⟨r.start, []⟩ r.schedule i 0 n
      (r.server.program (.finalizeBuild b)) (.done (.ok x)) := Pool.ran_of_task rfl hdone
  obtain ⟨k₁, u, h₁, h₂⟩ := Pool.Ran.finished hran
  obtain ⟨k₂, context, h₃, h₄⟩ := Pool.Ran.finished h₁
  obtain ⟨k₃, paths, h₅, h₆⟩ := Pool.Ran.finished h₄
  split at h₆
  · cases h₆
  obtain ⟨k₄, upstreams, h₇, h₈⟩ := Pool.Ran.finished h₆
  obtain ⟨k₅, ⟨s, storage⟩, h₉, h₁₀⟩ := Pool.Ran.finished h₈
  obtain ⟨k₆, u', h₁₁, h₁₂⟩ := Pool.Ran.finished h₁₀
  obtain ⟨k₇, projectId, h₁₃, h₁₄⟩ := Pool.Ran.finished h₁₂
  obtain ⟨k₈, finalizedAt, h₁₅, h₁₆⟩ := Pool.Ran.finished h₁₄
  obtain ⟨t, -, ht, hpublish⟩ := Pool.Ran.performed h₁₆
  have := h₂.le
  exact ⟨t, by omega, hpublish.chosen, _, publishes_of_happens hpublish, rfl⟩

theorem finalized_kept (r : ServerRun) {b : Uuid} {x : Response}
    (hdone : (r.pool n).tasks[i]? = some ⟨.finalizeBuild b, .done (.ok x)⟩) :
    ∃ t < n, r.schedule.choice t = .advance i ∧ ∃ p ∈ r.publishes t, p.buildId = b ∧
      ∃ m < t, ∃ (paths : List (StorePathHash × Text)) (storage : DepotStorage),
        r.Happens i m ⟨FrozenBuild.listing b, .ok paths⟩ ∧ paths ≠ [] ∧
        StorageOfProject r p m t storage ∧ ∀ path ∈ paths, ∃ l, m < l ∧ l < t ∧
          ((∃ upstream metadata, r.Happens i l
              ⟨.headUpstreamObject upstream path.2, .ok (some metadata)⟩) ∨
            ∃ metadata j, l < j ∧ j < t ∧
              r.Happens i l ⟨.head storage path.2, .ok (some metadata)⟩ ∧
              r.Happens i j ⟨.upsertStorageObject storage.id path.2 metadata, .ok ()⟩ ∧
              ∀ k, t < k → OnlyInvolved r (t + 1) k → RootSince r b (t + 1) k →
                Present storage.id path.2 (r.world k) ∧ HasRow storage.id path.2 (r.world k) ∨
                  Overtaken r p storage.id path.2 l j t k) := by
  obtain ⟨t, htn, hi, p, hp, rfl⟩ := publishes_of_done hdone
  obtain ⟨i', hi', m, hmt, paths, storage, hlisting, hne, -, hstorage, hfound⟩ :=
    found_of_published hp
  obtain rfl : i' = i := Choice.advance.inj (hi'.symm.trans hi)
  refine ⟨t, htn, hi, p, hp, rfl, m, hmt, paths, storage, hlisting, hne, hstorage,
    fun path hpath => ?_⟩
  obtain ⟨l, hml, hat⟩ := hfound path hpath
  cases hat with
  | upstream upstream metadata hl hlt =>
    exact ⟨l, hml, hlt, Or.inl ⟨upstream, metadata, hl⟩⟩
  | stored metadata j k hl hj hk hlj hjk hkt =>
    refine ⟨l, hml, by omega, Or.inr ⟨metadata, j, hlj, by omega, hl, hj, ?_⟩⟩
    intro k' htk ho hroot
    have hlisted : (path.1, path.2) ∈ (r.db m).buildPathNarObjects p.buildId :=
      listed hlisting ▸ hpath
    obtain ⟨hattached, row, hrow, -⟩ := Database.mem_buildPathNarObjects.mp hlisted
    obtain ⟨hm, hhash⟩ := Database.pathInfo_eq_some.mp hrow
    have hgrows : Grows (r.db m) (r.db t) := ServerRun.grows_le hmt.le
    have hseen : Seen r p storage.id path l j t :=
      { published := hp
        attached := hgrows.buildPaths _ hattached
        registered := ⟨row, hgrows.pathInfos row hm, hhash⟩
        linked := (ServerRun.grows_le (by omega : k + 1 ≤ t)).pathObjects _ (linked_of_happens hk)
        present := present_of_head hl
        listed := listed_of_recorded hj
        order := ⟨hlj, by omega⟩ }
    by_cases hno : Overtaken r p storage.id path.2 l j t k'
    · exact Or.inr hno
    · obtain ⟨hpresent, hkept⟩ := kept_of_seen hseen ho hroot hno (by omega) le_rfl
      exact Or.inl ⟨hpresent, (hkept k' (by omega) le_rfl).1⟩

end

section Examples

attribute [local instance] standardBase64 standardWildMatch

def answeredOk (q : Request) : Option (Task Interface Request Response) → Bool
  | some ⟨q', .done (.ok _)⟩ => q' = q
  | _ => false

theorem done_of_answeredOk {q : Request} {task : Option (Task Interface Request Response)}
    (h : answeredOk q task = true) : ∃ x, task = some ⟨q, .done (.ok x)⟩ := by
  unfold answeredOk at h
  split at h
  · obtain rfl := of_decide_eq_true h
    exact ⟨_, rfl⟩
  · cases h

def keeps (now : UtcDateTime) (db : Database) (b : Uuid) : Bool :=
  match retainedBuilds now db with
  | .ok ids => ids.contains b
  | .error _ => false

theorem keeps_iff {now : UtcDateTime} {db : Database} {b : Uuid} :
    keeps now db b = true ↔ Keeping now db b := by
  unfold keeps Keeping
  cases retainedBuilds now db with
  | error x => simp
  | ok ids => simp

instance (now : UtcDateTime) (db : Database) (b : Uuid) : Decidable (Keeping now db b) :=
  decidable_of_iff (keeps now db b = true) keeps_iff

instance (now : UtcDateTime) (db : Database) (b : Uuid) : Decidable (RootAt now db b) :=
  inferInstanceAs (Decidable ((∃ row ∈ db.builds.rows, row.id = b ∧ row.status = .pending) ∨
    Keeping now db b))

instance (r : ServerRun) (b : Uuid) (m n : Nat) : Decidable (RootSince r b m n) :=
  inferInstanceAs (Decidable (∀ k < n, m ≤ k → RootAt (r.schedule.env k).now (r.db k) b))

instance : DecidablePred Involved
  | .registerPaths _ _ | .uploadObject _ _ _ _ | .finalizeBuild _ => isTrue trivial
  | .runLocalGc dryRun _ => inferInstanceAs (Decidable (dryRun = false))
  | .insertProject _ _ _ _ | .beginBuild _ _ _ | .completeMultipartUpload _ _ _ _ _ _
  | .upsertPin _ _ _ _ | .deletePin _ _ | .replaceRetentionPolicy _ _ _ _
  | .deleteRetentionPolicy _ | .upsertUpstreamCache _ _ _ _ | .setUpstreamEnabled _ _
  | .linkProjectUpstream _ _ | .unlinkProjectUpstream _ _ => inferInstanceAs (Decidable False)

instance (r : ServerRun) (m n : Nat) : Decidable (OnlyInvolved r m n) :=
  inferInstanceAs (Decidable (∀ k < n, m ≤ k → ∀ q ∈ asking r k, Involved q))

instance (s : StorageId) (o : Text) (w : World) : Decidable (Present s o w) :=
  inferInstanceAs (Decidable ((w.blobs s o).isSome = true))

instance (s : StorageId) (o : Text) (w : World) : Decidable (HasRow s o w) :=
  inferInstanceAs (Decidable (∃ so ∈ w.db.storageObjects.rows,
    so.storageId = s ∧ so.objectPath = o))

def overtaken : FreshRun := scripted
  (uploadedScript ++ [.submit (.runLocalGc false 0)] ++ advances 4 5 ++
    [.submit (.finalizeBuild 5)] ++ advances 5 10 ++ advances 4 6)

def heads (storage : DepotStorage) (o : Text) : Option Call → Bool
  | some (.head storage' o') => storage' = storage && o' = o
  | _ => false

theorem call_of_heads {storage : DepotStorage} {o : Text} {call : Option Call}
    (h : heads storage o call = true) : call = some (.head storage o) := by
  unfold heads at h
  split at h
  · simp only [Bool.and_eq_true, decide_eq_true_eq] at h
    rw [h.1, h.2]
  · cases h

theorem happens_head {r : ServerRun} {i k : Nat} {storage : DepotStorage} {o : Text}
    (hi : r.schedule.choice k = .advance i) (hc : r.call k = some (.head storage o))
    (ha : (r.schedule.env k).outcome = .answered) (hp : Present storage.id o (r.world k)) :
    ∃ metadata, r.Happens i k ⟨.head storage o, .ok (some metadata)⟩ := by
  obtain ⟨blob, hblob⟩ := Option.isSome_iff_exists.mp hp
  obtain ⟨i', q, resume, hi', hcall⟩ := atCall_of_call hc
  obtain rfl : i' = i := Choice.advance.inj (hi'.symm.trans hi)
  have hreply : (answer (.head storage o) (r.schedule.env k) (r.world k)).2 =
      .ok (some blob.metadata) := by
    rw [answer_of_answered ha]
    simp only [carryOut, hblob, Option.map_some]
  exact ⟨blob.metadata, hi, ⟨q, resume, hcall⟩, hreply.symm⟩

theorem overtaken_lost :
    OnlyInvolved overtaken.toServerRun 12 49 ∧ RootSince overtaken.toServerRun 5 12 50 ∧
      (∃ x, (overtaken.pool 43).tasks[5]? = some ⟨.finalizeBuild 5, .done (.ok x)⟩) ∧
      (∃ metadata, overtaken.Happens 5 37
        ⟨.head ⟨.main, .filesystem⟩ helloPayload.url, .ok (some metadata)⟩) ∧
      ⟨5, helloHash⟩ ∈ (overtaken.db 37).buildPaths.rows ∧
      ⟨helloHash, helloPayload.url, .nar⟩ ∈ (overtaken.db 37).pathObjects.rows ∧
      ¬ Present .main helloPayload.url (overtaken.world 49) ∧
      ¬ HasRow .main helloPayload.url (overtaken.world 49) := by
  have hrun : OnlyInvolved overtaken.toServerRun 12 49 ∧ RootSince overtaken.toServerRun 5 12 50 ∧
      answeredOk (.finalizeBuild 5) (overtaken.pool 43).tasks[5]? = true ∧
      overtaken.schedule.choice 37 = .advance 5 ∧
      heads ⟨.main, .filesystem⟩ helloPayload.url (overtaken.call 37) = true ∧
      Present .main helloPayload.url (overtaken.world 37) ∧
      ⟨5, helloHash⟩ ∈ (overtaken.db 37).buildPaths.rows ∧
      ⟨helloHash, helloPayload.url, .nar⟩ ∈ (overtaken.db 37).pathObjects.rows ∧
      ¬ Present .main helloPayload.url (overtaken.world 49) ∧
      ¬ HasRow .main helloPayload.url (overtaken.world 49) := by
    decide +kernel
  obtain ⟨honly, hroot, hdone, hi, hhead, hpresent, hpath, hlink, hgone⟩ := hrun
  exact ⟨honly, hroot, done_of_answeredOk hdone,
    happens_head hi (call_of_heads hhead) rfl hpresent, hpath, hlink, hgone⟩

def collected : FreshRun := scripted
  (publishedScript ++ [.submit (.runLocalGc false 0)] ++ advances 5 20)

def asksUpstream : Option Call → Bool
  | some (.headUpstreamObject _ _) => true
  | _ => false

theorem not_overtaken {r : ServerRun} {p : Publication} {s : StorageId} {o : Text}
    {l j t n : Nat} (h : ∀ k < n, ((r.call k).map removed).getD [] = []) :
    ¬ Overtaken r p s o l j t n := by
  rintro (⟨i, g, k, k', ready, -, -, -, hremoves, -, hn⟩ | ⟨k, q, storage, -, -, hc, rfl, -, hn⟩)
  · obtain ⟨c, reply, hh, hc⟩ := hremoves.removes
    have hnone := h k' hn
    rw [call_of_happens hh] at hnone
    have hm := mem_removed hc
    rw [show removed c = [] from hnone] at hm
    cases hm
  · have hnone := h k hn
    rw [hc] at hnone
    cases hnone

theorem collected_kept : Present .main helloPayload.url (collected.world 58) ∧
    HasRow .main helloPayload.url (collected.world 58) := by
  have hrun : answeredOk (.finalizeBuild 5) (collected.pool 37).tasks[4]? = true ∧
      OnlyInvolved collected.toServerRun 12 58 ∧ RootSince collected.toServerRun 5 12 58 ∧
      (∀ k < 58, ((collected.call k).map removed).getD [] = []) ∧
      (∀ k < 37, asksUpstream (collected.call k) = false) ∧
      (∀ k < 37, collected.publishes k = none ∨ 12 ≤ k) ∧
      ∀ row ∈ (collected.db 37).pathInfos.rows, row.url = helloPayload.url := by decide +kernel
  obtain ⟨hdone, honly, hroot, hremoved, hupstream, hpublishes, hrows⟩ := hrun
  obtain ⟨x, hdone⟩ := done_of_answeredOk hdone
  obtain ⟨t, ht, -, p, hp, -, m, hm, paths, storage, hlisting, hne, hstorage, hkept⟩ :=
    finalized_kept collected.toServerRun hdone
  have h12 : 12 ≤ t := by
    rcases hpublishes t ht with hnone | hle
    · rw [Option.mem_def.mp hp] at hnone
      cases hnone
    · exact hle
  obtain ⟨path, hpath⟩ := List.exists_mem_of_ne_nil paths hne
  obtain ⟨l, -, hlt, ⟨upstream, metadata, hl⟩ | ⟨metadata, j, -, -, -, -, hlater⟩⟩ :=
    hkept path hpath
  · have hasks := hupstream l (by omega)
    rw [call_of_happens hl] at hasks
    cases hasks
  have hid : storage.id = .main := by
    obtain ⟨-, -, -, row, -, -, hs⟩ := hstorage
    have hmem := List.mem_of_find?_eq_some hs
    rw [List.mem_singleton.mp hmem]
  have hurl : path.2 = helloPayload.url := by
    have hlisted : (path.1, path.2) ∈ (collected.db m).buildPathNarObjects 5 :=
      listed hlisting ▸ hpath
    obtain ⟨-, row, hrow, hurl⟩ := Database.mem_buildPathNarObjects.mp hlisted
    have hgrows : Grows (collected.db m) (collected.db 37) := ServerRun.grows_le (by omega)
    exact hurl.symm.trans (hrows row (hgrows.pathInfos row (Database.pathInfo_eq_some.mp hrow).1))
  rw [← hid, ← hurl]
  exact (hlater 58 (by omega) (fun k hk htk => honly k hk (by omega))
    (fun k hk htk => hroot k hk (by omega))).resolve_right (not_overtaken hremoved)

end Examples

end Concurrent
