import ProjectCache.Publish.Publisher
import ProjectCache.Read.Isolation
import ProjectCache.Read.Lookup

namespace ContentLength

open Textual Nix Project Calendar Tables Store Db Programs Ingest Depot Read Lookup SqliteDatabase

class HeaderValue where
  fromStr : Text → Bool

structure Response where
  contentType : Text
  contentLength : Option Text
  etag : Option Text
  body : BlobBytes
  deriving DecidableEq

def blobResponse [HeaderValue] (metadata : BlobMetadata) (bytes : BlobBytes) : Response where
  contentType :=
    if HeaderValue.fromStr metadata.contentType then metadata.contentType else octetStream
  contentLength := (metadata.contentLength.map decimal).filter HeaderValue.fromStr
  etag := metadata.etag.filter HeaderValue.fromStr
  body := bytes

def LengthsAgree (w : World) (s : StorageId) (o : Text) : Prop :=
  ∀ row, w.db.storageObject s o = some row → ∀ blob, w.blobs s o = some blob →
    row.metadata.contentLength = some blob.bytes.length

structure UploadRequest where
  buildId : Uuid
  h : StorePathHash
  objectPath : Text
  body : BlobBytes

structure UploadRun where
  service : IngestService
  start : World
  agree : ∀ s o, LengthsAgree start s o
  schedule : Pool.Schedule machine UploadRequest

inductive UploadCall : Call → Prop
  | reads {c : Call} (h : c.reads = true) : UploadCall c
  | putStream (storage : DepotStorage) (o : Text) (body : BlobBytes) :
    UploadCall (.putStream storage o body)
  | upsertStorageObject (s : StorageId) (o : Text) (metadata : BlobMetadata) :
    UploadCall (.upsertStorageObject s o metadata)
  | linkPathObject (h : StorePathHash) (o : Text) (kind : PathObjectKind) :
    UploadCall (.linkPathObject h o kind)
  | deleteObject (storage : DepotStorage) (o : Text) : UploadCall (.deleteObject storage o)

namespace UploadRun

variable (r : UploadRun)

def program (q : UploadRequest) : Action Unit :=
  r.service.uploadObject q.buildId q.h q.objectPath q.body

def pool (n : Nat) : Pool machine UploadRequest Unit :=
  Pool.run r.program ⟨r.start, []⟩ r.schedule n

def world (n : Nat) : World := (r.pool n).state

def Happens (i n : Nat) (event : Prog.Event Interface) : Prop :=
  Pool.Happens r.program ⟨r.start, []⟩ r.schedule i n event

def Ran {A : Type} (i m n : Nat) (p rest : Action A) : Prop :=
  Pool.Ran r.program ⟨r.start, []⟩ r.schedule i m n p rest

def CallsAt (i n : Nat) (c : Call) : Prop :=
  r.schedule.choice n = .advance i ∧ ∃ q resume, (r.pool n).AtCall i q c resume

def Quiescent (n : Nat) : Prop := ∀ task ∈ (r.pool n).tasks, task.running = false

def Stores (s : StorageId) (o : Text) (i k : Nat) (body : BlobBytes) : Prop :=
  ∃ storage : DepotStorage, storage.id = s ∧
    r.Happens i k ⟨.putStream storage o body, .ok body.length⟩

def Records (s : StorageId) (o : Text) (i k : Nat) (metadata : BlobMetadata) : Prop :=
  r.CallsAt i k (.upsertStorageObject s o metadata) ∧
    ∀ message, (r.schedule.env k).outcome ≠ .refused message

structure Orderly : Prop where
  stored : ∀ i k storage o body, r.CallsAt i k (.putStream storage o body) →
    ∀ message, (r.schedule.env k).outcome ≠ .lost message
  cleaned : ∀ i k storage o, r.CallsAt i k (.deleteObject storage o) →
    ∀ message, (r.schedule.env k).outcome ≠ .refused message
  ordered : ∀ s o j m body, r.Stores s o j m body → ∀ l' own, m < l' → r.Records s o j l' own →
    ∀ i l metadata, l' < l → r.Records s o i l metadata →
      (∀ k, m < k → k < l → ∀ i' body', ¬ r.Stores s o i' k body') →
      metadata.contentLength = some body.length

end UploadRun

inductive Persists (s : StorageId) (storage : DepotStorage) (o : Text) (metadata : BlobMetadata) :
    Call → Prop
  | upsertStorageObject : Persists s storage o metadata (.upsertStorageObject s o metadata)
  | linkPathObject (h : StorePathHash) : Persists s storage o metadata (.linkPathObject h o .nar)
  | deleteObject : Persists s storage o metadata (.deleteObject storage o)

theorem persistOrDelete_uses (s : StorageId) (storage : DepotStorage) (h : StorePathHash) (o : Text)
    (metadata : BlobMetadata) :
    (IngestService.persistOrDelete s storage h o metadata).Uses
      (Persists s storage o metadata) := by
  have hrecord : (IngestService.recordNarObject s h o metadata).Uses
      (Persists s storage o metadata) := by
    refine Prog.Uses.bind ?_ (fun _ => Prog.uses_perform (.linkPathObject h))
    unfold upsertStorageObject
    split
    · trivial
    · exact Prog.uses_perform .upsertStorageObject
  refine hrecord.attempt.bind (fun x => ?_)
  cases x with
  | ok _ => trivial
  | error x => exact (Prog.uses_perform .deleteObject).attempt.bind (fun _ => trivial)

def recorded (written : Nat) : BlobMetadata := ⟨octetStream, some written, none, none⟩

def recording (s : StorageId) (storage : DepotStorage) (q : UploadRequest) (written : Nat) :
    Action Unit :=
  IngestService.persistOrDelete s storage q.h q.objectPath (recorded written)

def storing (s : StorageId) (storage : DepotStorage) (q : UploadRequest) : Action Unit :=
  (perform (.putStream storage q.objectPath q.body)).bind (recording s storage q)

theorem answer_error_putStream {storage : DepotStorage} {o : Text} {body : BlobBytes} {e : Env}
    {w : World} {x : Error} (h : (answer (.putStream storage o body) e w).2 = .error x)
    (hl : ∀ message, e.outcome ≠ .lost message) :
    (answer (.putStream storage o body) e w).1 = w := by
  unfold answer at h ⊢
  simp only [Call.local, Bool.false_eq_true, if_false] at h ⊢
  cases he : e.outcome with
  | answered =>
    simp only [he, carryOut, World.putStream] at h ⊢
    split at h
    · cases h
    · rename_i ha
      rw [if_neg ha]
  | refused message => rfl
  | lost message => exact absurd he (hl message)

theorem answer_upsertStorageObject (s : StorageId) (o : Text) (metadata : BlobMetadata) (e : Env)
    (w : World) : (answer (.upsertStorageObject s o metadata) e w).1 = w ∨
      (∀ message, e.outcome ≠ .refused message) ∧
        (answer (.upsertStorageObject s o metadata) e w).1 =
          { w with db := w.db.upsertStorageObject s o metadata } := by
  unfold answer
  simp only [Call.local, Bool.false_eq_true, if_false]
  cases he : e.outcome with
  | answered => exact Or.inr ⟨by simp, rfl⟩
  | refused message => exact Or.inl rfl
  | lost message => exact Or.inr ⟨by simp, rfl⟩

theorem storageObject_upsert_ne {db : Database} {s s' : StorageId} {o o' : Text}
    {metadata : BlobMetadata} (h : ¬ (s' = s ∧ o' = o)) :
    (db.upsertStorageObject s' o' metadata).storageObject s o = db.storageObject s o := by
  refine Option.ext (fun row => ?_)
  rw [Database.storageObject_eq_some, Database.storageObject_eq_some,
    Database.mem_upsertStorageObject]
  constructor
  · rintro ⟨rfl | ⟨hm, -⟩, hs, ho⟩
    · exact absurd ⟨hs, ho⟩ h
    · exact ⟨hm, hs, ho⟩
  · rintro ⟨hm, rfl, rfl⟩
    exact ⟨Or.inr ⟨hm, fun hk => h ⟨hk.1.symm, hk.2.symm⟩⟩, rfl, rfl⟩

namespace UploadRun

variable {r : UploadRun} {i m n : Nat} {q : UploadRequest}

theorem program_eq (q : UploadRequest) : r.program q =
    (r.service.validateUploadTarget q.buildId q.h q.objectPath).bind
      (fun target => storing target.1 target.2 q) := rfl

theorem program_uses (q : UploadRequest) : (r.program q).Uses UploadCall := by
  rw [program_eq]
  refine (uses_validateUploadTarget (fun _ => .reads) _ _ _ _).bind (fun target => ?_)
  refine (Prog.uses_perform (.putStream _ _ _)).bind (fun written => ?_)
  refine (persistOrDelete_uses _ _ _ _ _).mono (fun c hc => ?_)
  cases hc with
  | upsertStorageObject => exact .upsertStorageObject _ _ _
  | linkPathObject h => exact .linkPathObject h _ _
  | deleteObject => exact .deleteObject _ _

theorem ran_validateUploadTarget {service : IngestService} {buildId : Uuid} {h : StorePathHash}
    {o : Text} {target : StorageId × DepotStorage}
    (hr : r.Ran i m n (service.validateUploadTarget buildId h o) (.done (.ok target))) :
    target.2.id = target.1 := by
  obtain ⟨k₁, context, -, h₁⟩ := Pool.Ran.finished hr
  split at h₁
  · obtain ⟨k₂, narinfo, -, h₂⟩ := Pool.Ran.finished h₁
    obtain ⟨k₃, narinfo', -, h₃⟩ := Pool.Ran.finished h₂
    split at h₃
    · cases h₃
    · obtain ⟨k₄, storageId, -, h₄⟩ := Pool.Ran.finished h₃
      obtain ⟨k₅, storage, h₅, h₆⟩ := Pool.Ran.finished h₄
      cases h₆
      exact StorageCatalog.storage_id (Publisher.ran_orFail h₅)
  · cases h₁
  · cases h₁

theorem ran_program {c : Call} {resume : Except Error c.Reply → Action Unit}
    (h : r.Ran i m n (r.program q) (.call c resume)) (hc : c.reads = false) :
    ∃ s storage, storage.id = s ∧ (.call c resume = storing s storage q ∨
      ∃ k written, m ≤ k ∧ k < n ∧
        r.Happens i k ⟨.putStream storage q.objectPath q.body, .ok written⟩ ∧
        Persists s storage q.objectPath (recorded written) c) := by
  rw [program_eq] at h
  have hreads : (r.service.validateUploadTarget q.buildId q.h q.objectPath).Uses
      (fun c : Call => c.reads = true) := uses_validateUploadTarget (fun _ h => h) _ _ _ _
  obtain ⟨k₁, ⟨s, storage⟩, h₁, h₂⟩ := Pool.Ran.after h hreads (by simp [hc])
  refine ⟨s, storage, ran_validateUploadTarget h₁, ?_⟩
  have := h₁.le
  cases h₂ with
  | stay => exact Or.inl rfl
  | @call _ k _ _ _ _ reply hk hh hrest =>
    cases reply with
    | error x => cases hrest
    | ok written =>
      have := hrest.le
      exact Or.inr ⟨k, written, by omega, by omega, hh,
        (hrest.uses (persistOrDelete_uses _ _ _ _ _)).1⟩

theorem stored_of_happens {storage : DepotStorage} {o : Text} {body : BlobBytes} {written k : Nat}
    (h : r.Happens i k ⟨.putStream storage o body, .ok written⟩) : written = body.length ∧
      ∃ etag, (r.world (k + 1)).blobs storage.id o = some (storage.stored body etag) := by
  obtain ⟨hstate, hreply⟩ := Publisher.carried_of_happens h
  unfold world pool
  rw [hstate]
  simp only [carryOut, World.putStream] at hreply ⊢
  split at hreply
  · rename_i ha
    rw [if_pos ha]
    exact ⟨(Except.ok.inj hreply).symm, (r.schedule.env k).etag, by simp [World.putBlob]⟩
  · cases hreply

theorem Stores.blob {s : StorageId} {o : Text} {k : Nat} {body : BlobBytes}
    (h : r.Stores s o i k body) :
    ∃ blob, (r.world (k + 1)).blobs s o = some blob ∧ blob.bytes = body := by
  obtain ⟨storage, rfl, hh⟩ := h
  obtain ⟨-, etag, hb⟩ := stored_of_happens hh
  exact ⟨_, hb, rfl⟩

theorem CallsAt.ran {c : Call} (h : r.CallsAt i n c) :
    ∃ q resume, r.Ran i 0 n (r.program q) (.call c resume) := by
  obtain ⟨-, q, resume, hc⟩ := h
  exact ⟨q, resume, Pool.ran_of_task rfl hc⟩

theorem Records.stores {s : StorageId} {o : Text} {metadata : BlobMetadata}
    (h : r.Records s o i n metadata) :
    ∃ k < n, ∃ body, r.Stores s o i k body ∧ metadata.contentLength = some body.length := by
  obtain ⟨q, resume, hran⟩ := h.1.ran
  obtain ⟨s', storage, rfl, hfirst | ⟨k, written, -, hkn, hh, hp⟩⟩ := ran_program hran rfl
  · cases hfirst
  · obtain ⟨rfl, -⟩ := stored_of_happens hh
    cases hp
    exact ⟨k, hkn, q.body, ⟨storage, rfl, hh⟩, rfl⟩

theorem step_cases (n : Nat) : r.world (n + 1) = r.world n ∨
    ∃ i c, r.CallsAt i n c ∧ UploadCall c ∧
      r.world (n + 1) = (answer c (r.schedule.env n) (r.world n)).1 := by
  have hwithin : (r.pool n).Within (fun _ => UploadCall) :=
    Pool.within_run program_uses (by simp [Pool.Within]) n
  have hm : (r.pool n).Moves r.program (r.schedule.choice n) (r.schedule.env n) (r.pool (n + 1)) :=
    Pool.moves_next _ _ _
  unfold world CallsAt
  generalize r.pool n = a, r.pool (n + 1) = b at hm hwithin
  cases hm with
  | submit q h => exact Or.inl rfl
  | stay => exact Or.inl rfl
  | advance j q c resume hj hc => exact Or.inr ⟨j, c, ⟨hj, q, resume, hc⟩, hwithin.atCall hc, rfl⟩

theorem CallsAt.happens {c : Call} (h : r.CallsAt i n c) :
    r.Happens i n ⟨c, (answer c (r.schedule.env n) (r.world n)).2⟩ := by
  obtain ⟨hi, hc⟩ := h
  exact ⟨hi, hc, rfl⟩

theorem blob_step (ho : r.Orderly) (s : StorageId) (o : Text) (n : Nat) :
    (∃ i body, r.Stores s o i n body) ∨ (r.world (n + 1)).blobs s o = none ∨
      (r.world (n + 1)).blobs s o = (r.world n).blobs s o := by
  rcases r.step_cases n with h | ⟨i, c, hc, hu, hw⟩
  · exact Or.inr (Or.inr (by rw [h]))
  have hstate := answer_state c (r.schedule.env n) (r.world n)
  rw [← hw] at hstate
  rcases hstate with hsame | hcarry
  · exact Or.inr (Or.inr (by rw [hsame]))
  cases hu with
  | reads hr =>
    rw [carryOut_of_reads hr] at hcarry
    exact Or.inr (Or.inr (by rw [hcarry]))
  | upsertStorageObject s' o' metadata => exact Or.inr (Or.inr (by rw [hcarry]; rfl))
  | linkPathObject h o' kind =>
    refine Or.inr (Or.inr ?_)
    rw [hcarry]
    exact congrFun (congrFun (written_blobs _ _ _) s) o
  | deleteObject storage o' =>
    rw [hcarry]
    simp only [carryOut, World.putBlob]
    by_cases hk : s = storage.id ∧ o = o'
    · exact Or.inr (Or.inl (if_pos hk))
    · exact Or.inr (Or.inr (if_neg hk))
  | putStream storage o' body =>
    by_cases hk : s = storage.id ∧ o = o'
    · obtain ⟨rfl, rfl⟩ := hk
      have hh := hc.happens
      cases hreply : (answer (.putStream storage o body) (r.schedule.env n) (r.world n)).2 with
      | ok written =>
        rw [hreply] at hh
        obtain ⟨rfl, -⟩ := stored_of_happens hh
        exact Or.inl ⟨i, body, storage, rfl, hh⟩
      | error x =>
        refine Or.inr (Or.inr ?_)
        rw [hw, answer_error_putStream hreply (ho.stored i n storage o body hc)]
    · refine Or.inr (Or.inr ?_)
      rw [hcarry]
      simp only [carryOut, World.putStream]
      split
      · simp [World.putBlob, hk]
      · rfl

theorem row_step (s : StorageId) (o : Text) (n : Nat) :
    (r.world (n + 1)).db.storageObject s o = (r.world n).db.storageObject s o ∨
      ∃ i metadata row, r.Records s o i n metadata ∧
        (r.world (n + 1)).db.storageObject s o = some row ∧ row.metadata = metadata := by
  rcases r.step_cases n with h | ⟨i, c, hc, hu, hw⟩
  · exact Or.inl (by rw [h])
  have hframe := answer_frame c (r.schedule.env n) (r.world n)
  rw [← hw] at hframe
  have hsame : .storageObjects ∉ c.writes → (r.world (n + 1)).db.storageObject s o =
      (r.world n).db.storageObject s o := fun ht => by
    rw [Database.storageObject, hframe.storageObjects ht]
    rfl
  cases hu with
  | reads hr =>
    rcases answer_state c (r.schedule.env n) (r.world n) with ha | ha
    · exact Or.inl (by rw [hw, ha])
    · exact Or.inl (by rw [hw, ha, carryOut_of_reads hr])
  | putStream storage o' body => exact Or.inl (hsame (by simp [Call.writes]))
  | linkPathObject h o' kind => exact Or.inl (hsame (by simp [Call.writes]))
  | deleteObject storage o' => exact Or.inl (hsame (by simp [Call.writes]))
  | upsertStorageObject s' o' metadata =>
    rcases answer_upsertStorageObject s' o' metadata (r.schedule.env n) (r.world n) with
      ha | ⟨he, ha⟩
    · exact Or.inl (by rw [hw, ha])
    · rw [hw, ha]
      by_cases hk : s' = s ∧ o' = o
      · obtain ⟨rfl, rfl⟩ := hk
        refine Or.inr ⟨i, metadata, ⟨s', o', metadata, none, none⟩, ⟨hc, he⟩, ?_, rfl⟩
        exact Database.storageObject_eq_some.mpr
          ⟨Database.mem_upsertStorageObject.mpr (Or.inl rfl), rfl, rfl⟩
      · exact Or.inl (storageObject_upsert_ne hk)

theorem ran_recording {s : StorageId} {storage : DepotStorage} {written : Nat}
    {x : Except Error Unit} (h : r.Ran i m n (recording s storage q written) (.done x)) :
    (∃ l, m ≤ l ∧ l < n ∧
        r.Happens i l ⟨.upsertStorageObject s q.objectPath (recorded written), .ok ()⟩) ∨
      ∃ d reply, m ≤ d ∧ d < n ∧ r.Happens i d ⟨.deleteObject storage q.objectPath, reply⟩ := by
  rcases Pool.Ran.ended h with ⟨e, -, hfirst⟩ | ⟨k, result, hfirst, hthen⟩
  · obtain ⟨y, hy, -⟩ := Pool.Ran.of_attempt hfirst
    cases hy
  obtain ⟨y, hy, hrecord⟩ := Pool.Ran.of_attempt hfirst
  cases hy
  have hkn := hthen.le
  cases result with
  | ok u =>
    obtain ⟨k₁, u', h₁, h₂⟩ := Pool.Ran.finished hrecord
    have := h₂.le
    unfold upsertStorageObject at h₁
    split at h₁
    · cases h₁
    · obtain ⟨l, hml, hlk, hh⟩ := Pool.Ran.performed h₁
      exact Or.inl ⟨l, hml, by omega, hh⟩
  | error e =>
    have := hrecord.le
    rcases Pool.Ran.ended hthen with ⟨e', -, hdelete⟩ | ⟨k₁, result', hdelete, hrest⟩
    · obtain ⟨y, hy, -⟩ := Pool.Ran.of_attempt hdelete
      cases hy
    · obtain ⟨y, -, hperform⟩ := Pool.Ran.of_attempt hdelete
      have := hrest.le
      cases hperform with
      | call reply hmd hh hend =>
        have := hend.le
        exact Or.inr ⟨_, reply, by omega, by omega, hh⟩

theorem Stores.ended {s : StorageId} {o : Text} {body : BlobBytes} (h : r.Stores s o i m body)
    (hmn : m < n) (hq : r.Quiescent n) :
    (∃ l, m < l ∧ l < n ∧
        r.Happens i l ⟨.upsertStorageObject s o (recorded body.length), .ok ()⟩) ∨
      ∃ d storage reply, m < d ∧ d < n ∧ storage.id = s ∧
        r.Happens i d ⟨.deleteObject storage o, reply⟩ := by
  obtain ⟨storage, rfl, hh⟩ := h
  obtain ⟨q, resume, hc⟩ := hh.atCall
  have hran : r.Ran i 0 m (r.program q) (.call (.putStream storage o body) resume) :=
    Pool.ran_of_task rfl hc
  obtain ⟨s', storage', rfl, hfirst | ⟨k, written, -, -, -, hp⟩⟩ := ran_program hran rfl
  · have hnext : (r.pool (m + 1)).tasks[i]? = some ⟨q, resume (.ok body.length)⟩ := by
      have hrun := Pool.run_succ_of_atCall hh.chosen hc
      rw [← hh.reply] at hrun
      unfold pool
      rw [hrun, List.getElem?_set_self (Pool.atCall_lt hc)]
    cases hfirst
    obtain ⟨rest, hrest⟩ := Pool.request_of_le hmn hnext
    have hdone := hq _ (List.mem_of_getElem? hrest)
    cases rest with
    | call c resume => cases hdone
    | done x =>
      rcases ran_recording (Pool.ran_between hmn hnext hrest) with ⟨l, hml, hln, hl⟩ |
        ⟨d, reply, hmd, hdn, hd⟩
      · exact Or.inl ⟨l, hml, hln, hl⟩
      · exact Or.inr ⟨d, _, reply, hmd, hdn, rfl, hd⟩
  · cases hp

theorem blob_from (ho : r.Orderly) {s : StorageId} {o : Text} {blob : Blob}
    (hb : (r.world n).blobs s o = some blob) :
    ((r.world 0).blobs s o = some blob ∧ ∀ k < n, ∀ i body, ¬ r.Stores s o i k body) ∨
      ∃ j m, m < n ∧ r.Stores s o j m blob.bytes ∧
        ∀ k, m < k → k < n → ∀ i body, ¬ r.Stores s o i k body := by
  induction n with
  | zero => exact Or.inl ⟨hb, fun k hk => absurd hk (Nat.not_lt_zero k)⟩
  | succ n ih =>
    by_cases hs : ∃ j body, r.Stores s o j n body
    · obtain ⟨j, body, hj⟩ := hs
      obtain ⟨blob', hb', rfl⟩ := hj.blob
      obtain rfl : blob' = blob := by simpa [hb] using hb'.symm
      exact Or.inr ⟨j, n, Nat.lt_succ_self n, hj, fun k hk hkn => by omega⟩
    · have hno : ∀ i body, ¬ r.Stores s o i n body := fun i body hi => hs ⟨i, body, hi⟩
      have hkeep : (r.world n).blobs s o = some blob := by
        rcases r.blob_step ho s o n with h | h | h
        · exact absurd h hs
        · rw [hb] at h
          cases h
        · rw [← h, hb]
      have hlast : ∀ k, k < n + 1 → (k < n → ∀ i body, ¬ r.Stores s o i k body) →
          ∀ i body, ¬ r.Stores s o i k body := by
        intro k hk hbefore
        rcases Nat.lt_succ_iff_lt_or_eq.mp hk with hlt | rfl
        · exact hbefore hlt
        · exact hno
      rcases ih hkeep with ⟨h0, hnone⟩ | ⟨j, m, hmn, hj, hnone⟩
      · exact Or.inl ⟨h0, fun k hk => hlast k hk (fun hlt => hnone k hlt)⟩
      · exact Or.inr ⟨j, m, by omega, hj, fun k hmk hk => hlast k hk (fun hlt => hnone k hmk hlt)⟩

theorem blob_absent (ho : r.Orderly) {s : StorageId} {o : Text} (hmn : m ≤ n)
    (hb : (r.world m).blobs s o = none)
    (hno : ∀ k, m ≤ k → k < n → ∀ i body, ¬ r.Stores s o i k body) :
    (r.world n).blobs s o = none := by
  induction n, hmn using Nat.le_induction with
  | base => exact hb
  | succ n hmn ih =>
    have hn := ih (fun k hk hkn => hno k hk (by omega))
    rcases r.blob_step ho s o n with ⟨i, body, h⟩ | h | h
    · exact absurd h (hno n hmn (Nat.lt_succ_self n) i body)
    · exact h
    · rw [h, hn]

def RowSays (w : World) (s : StorageId) (o : Text) (length : Nat) : Prop :=
  ∃ row, w.db.storageObject s o = some row ∧ row.metadata.contentLength = some length

theorem row_kept {s : StorageId} {o : Text} {length : Nat} (hmn : m ≤ n)
    (hrow : RowSays (r.world m) s o length)
    (hrecords : ∀ k, m ≤ k → k < n → ∀ i metadata, r.Records s o i k metadata →
      metadata.contentLength = some length) : RowSays (r.world n) s o length := by
  induction n, hmn using Nat.le_induction with
  | base => exact hrow
  | succ n hmn ih =>
    have hn := ih (fun k hk hkn => hrecords k hk (by omega))
    rcases r.row_step s o n with h | ⟨i, metadata, row, hr, hs, rfl⟩
    · exact hn.imp (fun row hrow => ⟨h.trans hrow.1, hrow.2⟩)
    · exact ⟨row, hs, hrecords n hmn (Nat.lt_succ_self n) i _ hr⟩

theorem row_same {s : StorageId} {o : Text}
    (hno : ∀ k < n, ∀ i body, ¬ r.Stores s o i k body) :
    (r.world n).db.storageObject s o = (r.world 0).db.storageObject s o := by
  induction n with
  | zero => rfl
  | succ n ih =>
    rcases r.row_step s o n with h | ⟨i, metadata, row, hr, -, -⟩
    · exact h.trans (ih (fun k hk => hno k (by omega)))
    · obtain ⟨k, hk, body, hs, -⟩ := hr.stores
      exact absurd hs (hno k (by omega) i body)

theorem records_of_happens {s : StorageId} {o : Text} {metadata : BlobMetadata}
    (h : r.Happens i n ⟨.upsertStorageObject s o metadata, .ok ()⟩) :
    r.Records s o i n metadata ∧
      (r.world (n + 1)).db.storageObject s o = some ⟨s, o, metadata, none, none⟩ := by
  refine ⟨⟨⟨h.chosen, h.atCall⟩, fun message hm => ?_⟩, ?_⟩
  · have hreply : .ok () = (answer (.upsertStorageObject s o metadata) (r.schedule.env n)
      (r.world n)).2 := h.reply
    simp [answer, Call.local, hm] at hreply
  · have hstate : r.world (n + 1) =
        { r.world n with db := (r.world n).db.upsertStorageObject s o metadata } :=
      (Publisher.carried_of_happens h).1
    rw [hstate]
    exact Database.storageObject_eq_some.mpr
      ⟨Database.mem_upsertStorageObject.mpr (Or.inl rfl), rfl, rfl⟩

theorem deleted_of_happens (ho : r.Orderly) {storage : DepotStorage} {o : Text}
    {reply : Except Error Unit} (h : r.Happens i n ⟨.deleteObject storage o, reply⟩) :
    (r.world (n + 1)).blobs storage.id o = none := by
  have hstate : r.world (n + 1) =
      (answer (.deleteObject storage o) (r.schedule.env n) (r.world n)).1 := h.state
  have hclean := ho.cleaned i n storage o ⟨h.chosen, h.atCall⟩
  rw [hstate]
  unfold answer
  simp only [Call.local, Bool.false_eq_true, if_false]
  cases he : (r.schedule.env n).outcome with
  | answered => simp [carryOut, World.putBlob]
  | refused message => exact absurd he (hclean message)
  | lost message => simp [carryOut, World.putBlob]

theorem agree_of_quiescent (ho : r.Orderly) (hq : r.Quiescent n) (s : StorageId) (o : Text) :
    LengthsAgree (r.world n) s o := by
  intro row hrow blob hb
  rcases blob_from ho hb with ⟨h0, hno⟩ | ⟨j, m, hmn, hj, hlast⟩
  · rw [row_same hno] at hrow
    exact r.agree s o row hrow blob h0
  rcases hj.ended hmn hq with ⟨l, hml, hln, hl⟩ | ⟨d, storage, reply, hmd, hdn, rfl, hd⟩
  · obtain ⟨hrecords, hown⟩ := records_of_happens hl
    obtain ⟨row', hrow', hlength⟩ := row_kept hln ⟨_, hown, rfl⟩ (fun k hlk hkn i metadata hr =>
      ho.ordered s o j m blob.bytes hj l _ hml hrecords i k metadata hlk hr
        (fun k' hmk hk' => hlast k' hmk (by omega)))
    obtain rfl : row' = row := by simpa [hrow] using hrow'.symm
    exact hlength
  · have hnone := blob_absent ho hdn (deleted_of_happens ho hd)
      (fun k hdk hkn => hlast k (by omega) hkn)
    rw [hb] at hnone
    cases hnone

end UploadRun

theorem getUnscoped_length {catalog : StorageCatalog} {w : World} {o : Text}
    (ha : ∀ s, LengthsAgree w s o) {preferred : StorageId} {es : Nat → Env}
    {metadata : BlobMetadata} {bytes : BlobBytes}
    (h : (machine.exec (DbBackedObjectStore.getUnscoped ⟨catalog⟩ preferred o) es w).2 =
      .ok (some (metadata, bytes))) : metadata.contentLength = some bytes.length := by
  have hfound := (Machine.exec_of_wp_any es (wp_getUnscoped preferred)).eq h
  obtain ⟨so, hm, ho, -, hheld⟩ := mem_of_found hfound.symm
  obtain ⟨-, hbytes, rfl⟩ := heldAt_eq_some.mp hheld
  obtain ⟨blob, hblob, rfl⟩ := Option.map_eq_some_iff.mp hbytes
  exact ha so.storageId so (Database.storageObject_eq_some.mpr ⟨hm, rfl, ho⟩) blob hblob

theorem lengths_agree (r : UploadRun) (ho : r.Orderly) (n : Nat) (hq : r.Quiescent n)
    (s : StorageId) (o : Text) :
    LengthsAgree (r.world n) s o ∧
    ∀ [HeaderValue] (catalog : StorageCatalog) (preferred : StorageId) (es : Nat → Env)
      (metadata : BlobMetadata) (bytes : BlobBytes),
      (machine.exec (DbBackedObjectStore.getUnscoped ⟨catalog⟩ preferred o) es (r.world n)).2 =
        .ok (some (metadata, bytes)) →
      ∀ sent ∈ (blobResponse metadata bytes).contentLength,
        sent = decimal (blobResponse metadata bytes).body.length := by
  refine ⟨r.agree_of_quiescent ho hq s o, fun catalog preferred es metadata bytes h sent hs => ?_⟩
  have hlength := getUnscoped_length (fun s => r.agree_of_quiescent ho hq s o) h
  simp only [blobResponse, hlength, Option.map_some, Option.mem_def,
    Option.filter_eq_some_iff] at hs
  exact (Option.some.inj hs.1).symm

section Examples

open Depot.Server Isolation

inductive Trace where
  | stores (i : Nat) (storage : DepotStorage) (o : Text) (body : BlobBytes)
  | records (i : Nat) (s : StorageId) (o : Text) (length : Option Nat)
  deriving DecidableEq

def traceOf (i : Nat) : Call → Option Trace
  | .putStream storage o body => some (.stores i storage o body)
  | .upsertStorageObject s o metadata => some (.records i s o metadata.contentLength)
  | _ => none

def traced (r : UploadRun) (n : Nat) : Option Trace :=
  match r.schedule.choice n with
  | .advance i =>
    match (r.pool n).tasks[i]? with
    | some ⟨_, .call c _⟩ => traceOf i c
    | _ => none
  | _ => none

theorem traced_of_callsAt {r : UploadRun} {i n : Nat} {c : Call} (h : r.CallsAt i n c) :
    traced r n = traceOf i c := by
  obtain ⟨hi, q, resume, hc⟩ := h
  simp only [traced, hi]
  rw [hc]

theorem stores_of_traced {r : UploadRun} {i n : Nat} {storage : DepotStorage} {o : Text}
    {body : BlobBytes} (h : traced r n = some (.stores i storage o body))
    (ha : storage.accepts body = true) (he : (r.schedule.env n).outcome = .answered) :
    r.Stores storage.id o i n body := by
  unfold traced at h
  split at h
  · rename_i j hj
    split at h
    · rename_i q c resume hc
      unfold traceOf at h
      split at h
      · cases h
        refine ⟨storage, rfl, hj, ⟨q, resume, hc⟩, ?_⟩
        change .ok body.length =
          (answer (.putStream storage o body) (r.schedule.env n) (r.pool n).state).2
        rw [answer_of_answered he]
        simp [carryOut, World.putStream, ha]
      · cases h
      · cases h
    · cases h
  · cases h

def awaitingWorld : World where
  db := {
    projects := .single ⟨1, exampleSlug, "Example".toList, true, .main⟩
    pathInfos := .single helloRow
    builds := .single ⟨3, 1, "main".toList, none, .pending, midnight, none⟩
    buildPaths := .single ⟨3, helloHash⟩ }
  blobs := fun _ _ => none

def upload (body : BlobBytes) : UploadRequest := ⟨3, helloHash, helloRow.url, body⟩

def twoUploads (rest : List Nat) : UploadRun where
  service := exampleServer.ingestService
  start := awaitingWorld
  agree := fun s o row h => by simp [Database.storageObject, awaitingWorld] at h
  schedule :=
    { choice := fun n =>
        ([.submit (upload [1, 2, 3, 4, 5]), .submit (upload [6, 7, 8])] ++
          ([0, 0, 0, 0, 0, 1, 1, 1, 1, 1] ++ rest).map Choice.advance :
            List (Choice UploadRequest)).getD
            n .idle
      env := moment }

def inOrder : UploadRun := twoUploads [0, 1, 0, 1, 0, 1]

def crossed : UploadRun := twoUploads [0, 1, 1, 1, 0, 0]

def mainStorage : DepotStorage := ⟨.main, .filesystem⟩

theorem inOrder_traced : (List.range 18).map (traced inOrder) =
    List.replicate 12 none ++
      [some (.stores 0 mainStorage helloRow.url [1, 2, 3, 4, 5]),
        some (.stores 1 mainStorage helloRow.url [6, 7, 8]),
        some (.records 0 .main helloRow.url (some 5)),
        some (.records 1 .main helloRow.url (some 3)),
        none, none] := by decide +kernel

theorem inOrder_trace {n : Nat} {t : Trace} (h : traced inOrder n = some t) :
    n = 12 ∧ t = .stores 0 mainStorage helloRow.url [1, 2, 3, 4, 5] ∨
      n = 13 ∧ t = .stores 1 mainStorage helloRow.url [6, 7, 8] ∨
      n = 14 ∧ t = .records 0 .main helloRow.url (some 5) ∨
      n = 15 ∧ t = .records 1 .main helloRow.url (some 3) := by
  rcases Nat.lt_or_ge n 18 with hn | hn
  · have hget := congrArg (fun ts => ts[n]?) inOrder_traced
    simp only [List.getElem?_map, List.getElem?_range hn, Option.map_some] at hget
    rw [h] at hget
    interval_cases n <;> simp_all
  · have hidle : inOrder.schedule.choice n = .idle := by
      change List.getD _ n _ = _
      rw [List.getD_eq_getElem?_getD, List.getElem?_eq_none hn]
      rfl
    simp [traced, hidle] at h

theorem inOrder_orderly : inOrder.Orderly where
  stored := fun i k storage o body _ message h => by cases h
  cleaned := fun i k storage o _ message h => by cases h
  ordered := by
    intro s o j m body hj l' own hml hown i l metadata hl hr hno
    obtain ⟨storage, rfl, hh⟩ := hj
    have hstore := inOrder_trace (traced_of_callsAt ⟨hh.chosen, hh.atCall⟩)
    have hfirst := inOrder_trace (traced_of_callsAt hown.1)
    have hlast := inOrder_trace (traced_of_callsAt hr.1)
    have hsecond : inOrder.Stores .main helloRow.url 1 13 [6, 7, 8] := by
      have hget := congrArg (fun ts => ts[13]?) inOrder_traced
      have htraced : traced inOrder 13 = some (.stores 1 mainStorage helloRow.url [6, 7, 8]) := by
        simpa using hget
      exact stores_of_traced htraced rfl rfl
    simp only [reduceCtorEq, and_false, false_or, or_false, Trace.stores.injEq,
      Trace.records.injEq] at hstore hfirst hlast
    rcases hstore with ⟨rfl, rfl, rfl, rfl, rfl⟩ | ⟨rfl, rfl, rfl, rfl, rfl⟩
    · exact absurd hsecond (hno 13 (by omega) (by omega) 1 _)
    · omega

theorem inOrder_agrees :
    LengthsAgree (inOrder.world 18) .main helloRow.url ∧
    ∀ [HeaderValue] (catalog : StorageCatalog) (preferred : StorageId) (es : Nat → Env)
      (metadata : BlobMetadata) (bytes : BlobBytes),
      (machine.exec (DbBackedObjectStore.getUnscoped ⟨catalog⟩ preferred helloRow.url) es
        (inOrder.world 18)).2 = .ok (some (metadata, bytes)) →
      ∀ sent ∈ (blobResponse metadata bytes).contentLength,
        sent = decimal (blobResponse metadata bytes).body.length := by
  have hdone : (inOrder.pool 18).tasks.all (fun task => !task.running) = true := by decide +kernel
  refine lengths_agree inOrder inOrder_orderly 18 (fun task ht => ?_) .main helloRow.url
  simpa using List.all_eq_true.mp hdone task ht

@[reducible] def visibleHeaderValue : HeaderValue where
  fromStr := fun text => text.all (fun c => 32 ≤ c.toNat && c.toNat < 127)

attribute [local instance] visibleHeaderValue

theorem crossed_disagrees :
    crossed.Quiescent 18 ∧
    ((crossed.world 18).db.storageObject .main helloRow.url).bind
      (fun row => row.metadata.contentLength) = some 5 ∧
    ((crossed.world 18).blobs .main helloRow.url).map Blob.bytes = some [6, 7, 8] ∧
    ∃ metadata bytes,
      (machine.exec (DbBackedObjectStore.getUnscoped ⟨exampleServer.storageCatalog⟩ .main
        helloRow.url) (fun _ => moment 18) (crossed.world 18)).2 = .ok (some (metadata, bytes)) ∧
      (blobResponse metadata bytes).contentLength = some "5".toList ∧
      (blobResponse metadata bytes).body = [6, 7, 8] := by
  have hrun : (crossed.pool 18).tasks.all (fun task => !task.running) = true ∧
      ((crossed.world 18).db.storageObject .main helloRow.url).bind
        (fun row => row.metadata.contentLength) = some 5 ∧
      ((crossed.world 18).blobs .main helloRow.url).map Blob.bytes = some [6, 7, 8] ∧
      (machine.exec (DbBackedObjectStore.getUnscoped ⟨exampleServer.storageCatalog⟩ .main
        helloRow.url) (fun _ => moment 18) (crossed.world 18)).2.toOption =
          some (some (⟨octetStream, some 5, none, none⟩, [6, 7, 8])) := by decide +kernel
  obtain ⟨hdone, hrow, hblob, hread⟩ := hrun
  refine ⟨fun task ht => ?_, hrow, hblob, ⟨octetStream, some 5, none, none⟩, [6, 7, 8],
    eq_ok_of_toOption hread, by decide, rfl⟩
  simpa using List.all_eq_true.mp hdone task ht

end Examples

end ContentLength
