import ProjectCache.Publish.Served

namespace Untouched

open Textual Nix Project Calendar Tables DepotPath Store Db Programs Ingest Depot Depot.Server Read
  Lookup Answering Isolation Served SqliteDatabase

def AskedBefore (preferred s t : StorageId) : Prop :=
  s ≠ t ∧ (s = preferred ∨ t ≠ preferred ∧ s ≤ t)

instance (preferred s t : StorageId) : Decidable (AskedBefore preferred s t) := by
  unfold AskedBefore
  infer_instance

section

variable {preferred s t : StorageId}

theorem AskedBefore.asymm (h : AskedBefore preferred s t) : ¬ AskedBefore preferred t s := by
  rintro ⟨-, hback⟩
  obtain ⟨hne, hbefore⟩ := h
  rcases hbefore with rfl | ⟨ht, hle⟩
  · rcases hback with rfl | ⟨hs, -⟩
    · exact hne rfl
    · exact hs rfl
  · rcases hback with rfl | ⟨-, hge⟩
    · exact ht rfl
    · exact hne (le_antisymm hle hge)

theorem preferredOrder_iff {a b : StorageObjectRecord} : PreferredOrder preferred a b ↔
    a.storageId = b.storageId ∨ AskedBefore preferred a.storageId b.storageId := by
  unfold PreferredOrder AskedBefore
  constructor
  · intro h
    by_cases heq : a.storageId = b.storageId
    · exact Or.inl heq
    · exact Or.inr ⟨heq, h⟩
  · rintro (heq | ⟨-, h⟩)
    · by_cases hb : b.storageId = preferred
      · exact Or.inl (heq.trans hb)
      · exact Or.inr ⟨hb, heq.le⟩
    · exact h

instance : Std.Total (PreferredOrder preferred) := ⟨fun a b => by
  by_cases ha : a.storageId = preferred
  · exact Or.inl (Or.inl ha)
  by_cases hb : b.storageId = preferred
  · exact Or.inr (Or.inl hb)
  · exact (le_total a.storageId b.storageId).imp (fun h => Or.inr ⟨hb, h⟩)
      (fun h => Or.inr ⟨ha, h⟩)⟩

instance : IsTrans StorageObjectRecord (PreferredOrder preferred) := ⟨fun a b c hab hbc => by
  rcases hab with ha | ⟨hb, hab⟩
  · exact Or.inl ha
  · rcases hbc with hb' | ⟨hc, hbc⟩
    · exact absurd hb' hb
    · exact Or.inr ⟨hc, hab.trans hbc⟩⟩

end

structure Serving (catalog : StorageCatalog) (preferred s : StorageId) (o : Text)
    (bytes : BlobBytes) (w : World) : Prop where
  configured : (catalog.storage s).isSome = true
  listed : Listed s o w
  held : (w.blobs s o).map Blob.bytes = some bytes
  first : ∀ t, AskedBefore preferred t s → Listed t o w → (catalog.storage t).isSome = true →
    w.blobs t o = none

section

variable {catalog : StorageCatalog} {w : World} {o : Text} {preferred s : StorageId}
  {bytes : BlobBytes} {metadata : BlobMetadata} {admits : Env → Prop}

theorem blob_of_heldAt {record : StorageObjectRecord} (h : heldAt catalog w o record = none)
    (hs : (catalog.storage record.storageId).isSome = true) :
    w.blobs record.storageId o = none := by
  have hnone : ¬ (heldAt catalog w o record).isSome = true := by simp [h]
  rw [isSome_heldAt] at hnone
  simpa [hs] using hnone

theorem listed_of_mem {record : StorageObjectRecord} (h : record ∈ asked w.db preferred o) :
    Listed record.storageId o w := by
  obtain ⟨so, hm, ho, hd, rfl⟩ := mem_asked.mp h
  exact ⟨so, hm, rfl, ho, hd⟩

theorem exists_of_listed (preferred : StorageId) (h : Listed s o w) :
    ∃ record ∈ asked w.db preferred o, record.storageId = s := by
  obtain ⟨so, hm, hs, ho, hd⟩ := h
  exact ⟨_, mem_asked.mpr ⟨so, hm, ho, hd, rfl⟩, hs⟩

theorem before_or_ordered {record first : StorageObjectRecord} {before after}
    (hlist : asked w.db preferred o = before ++ first :: after)
    (hm : record ∈ asked w.db preferred o) : record ∈ before ∨
      record.storageId = first.storageId ∨
        AskedBefore preferred first.storageId record.storageId := by
  have hsorted : (asked w.db preferred o).Pairwise (PreferredOrder preferred) :=
    List.pairwise_insertionSort _ _
  rw [hlist] at hm hsorted
  rcases List.mem_append.mp hm with hbefore | hafter
  · exact Or.inl hbefore
  rcases List.mem_cons.mp hafter with rfl | hafter
  · exact Or.inr (Or.inl rfl)
  · have horder := (List.pairwise_cons.mp (List.pairwise_append.mp hsorted).2.1).1 record hafter
    exact Or.inr ((preferredOrder_iff.mp horder).imp_left Eq.symm)

theorem findSome_of_serving (h : Serving catalog preferred s o bytes w) :
    ∃ metadata, (asked w.db preferred o).findSome? (heldAt catalog w o) =
      some (metadata, bytes) := by
  obtain ⟨record, hm, rfl⟩ := exists_of_listed preferred h.listed
  have hheld : heldAt catalog w o record = some (record.metadata, bytes) :=
    heldAt_eq_some.mpr ⟨h.configured, h.held, rfl⟩
  cases hfound : (asked w.db preferred o).findSome? (heldAt catalog w o) with
  | none =>
    rw [List.findSome?_eq_none_iff.mp hfound record hm] at hheld
    cases hheld
  | some found =>
    obtain ⟨metadata, found⟩ := found
    refine ⟨metadata, ?_⟩
    obtain ⟨before, first, after, hlist, hfirst, hnone⟩ := List.findSome?_eq_some_iff.mp hfound
    obtain ⟨hconfigured, hbytes, -⟩ := heldAt_eq_some.mp hfirst
    have hm' : first ∈ asked w.db preferred o := by simp [hlist]
    rcases before_or_ordered hlist hm with hbefore | hsame | hasked
    · rw [hnone record hbefore] at hheld
      cases hheld
    · rw [← hsame, h.held] at hbytes
      rw [Option.some.inj hbytes]
    · have hblob := h.first first.storageId hasked (listed_of_mem hm') hconfigured
      rw [hblob] at hbytes
      cases hbytes

theorem serving_of_findSome (h : (asked w.db preferred o).findSome? (heldAt catalog w o) =
    some (metadata, bytes)) : ∃ s, Serving catalog preferred s o bytes w := by
  obtain ⟨before, record, after, hlist, hheld, hnone⟩ := List.findSome?_eq_some_iff.mp h
  obtain ⟨hconfigured, hbytes, -⟩ := heldAt_eq_some.mp hheld
  have hm : record ∈ asked w.db preferred o := by simp [hlist]
  refine ⟨record.storageId, hconfigured, listed_of_mem hm, hbytes, fun t hasked hlisted ht => ?_⟩
  obtain ⟨other, hother, rfl⟩ := exists_of_listed preferred hlisted
  rcases before_or_ordered hlist hother with hbefore | hsame | hback
  · exact blob_of_heldAt (hnone other hbefore) ht
  · exact absurd hsame hasked.1
  · exact absurd hback hasked.asymm

end

inductive Stores (s : StorageId) (o : Text) (e : Env) : Call → Option BlobBytes → Prop
  | putStream {storage : DepotStorage} (hs : storage.id = s) (body : BlobBytes) :
    Stores s o e (.putStream storage o body) (some body)
  | completeMultipartUpload {storage : DepotStorage} (hs : storage.id = s) (uploadId : Text)
    (parts : List CompletedMultipartUploadPart) (contentLength : Nat) {bytes : BlobBytes}
    (ha : e.assembled = some bytes) :
    Stores s o e (.completeMultipartUpload storage o uploadId parts contentLength) (some bytes)
  | deleteObject {storage : DepotStorage} (hs : storage.id = s) :
    Stores s o e (.deleteObject storage o) none

inductive Spoils (preferred s : StorageId) (o : Text) (bytes : BlobBytes) (w : World) (e : Env) :
    Call → Prop
  | stored {c : Call} {stored : Option BlobBytes} (h : Stores s o e c stored)
    (hne : stored ≠ some bytes) : Spoils preferred s o bytes w e c
  | before {c : Call} {t : StorageId} {stored : Option BlobBytes} (h : Stores t o e c stored)
    (ht : AskedBefore preferred t s) (hl : Listed t o w) : Spoils preferred s o bytes w e c
  | recorded {t : StorageId} (metadata : BlobMetadata) (ht : AskedBefore preferred t s)
    (hb : Present t o w) : Spoils preferred s o bytes w e (.upsertStorageObject t o metadata)

def OfBuild (db : Database) (slug : ProjectSlug) (buildId : Uuid) : Prop :=
  ∀ b ∈ db.builds.rows, b.id = buildId → ∃ p ∈ db.projects.rows, p.id = b.projectId ∧ p.slug = slug

def AsksFor (db : Database) (slug : ProjectSlug) : Request → Prop
  | .beginBuild project _ _ => project = slug.text
  | .registerPaths buildId _ | .uploadObject buildId _ _ _
  | .completeMultipartUpload buildId _ _ _ _ _ | .finalizeBuild buildId => OfBuild db slug buildId
  | .upsertPin _ project _ _ | .deletePin _ project => project = some slug
  | _ => False

section

variable {c : Call} {e : Env} {w : World} {s t : StorageId} {o : Text}

theorem bytes_putBlob (w : World) (t : StorageId) (o : Text) (storage : DepotStorage) (o' : Text)
    (blob : Option Blob) :
    (w.putBlob storage.id o' blob).blobs t o = w.blobs t o ∨
      storage.id = t ∧ o' = o ∧ (w.putBlob storage.id o' blob).blobs t o = blob := by
  by_cases hkey : t = storage.id ∧ o = o'
  · exact Or.inr ⟨hkey.1.symm, hkey.2.symm, if_pos hkey⟩
  · exact Or.inl (if_neg hkey)

theorem bytes_carryOut (c : Call) (e : Env) (w : World) :
    (carryOut c e w).1.blobs t o = w.blobs t o ∨
      ∃ stored, Stores t o e c stored ∧
        ((carryOut c e w).1.blobs t o).map Blob.bytes = stored := by
  cases c with
  | putStream storage o' body =>
    simp only [carryOut, World.putStream]
    split
    · rcases bytes_putBlob w t o storage o' (some (storage.stored body e.etag)) with
        h | ⟨hs, rfl, h⟩
      · exact Or.inl h
      · exact Or.inr ⟨_, .putStream hs body, by rw [h]; rfl⟩
    · exact Or.inl rfl
  | completeMultipartUpload storage o' uploadId parts contentLength =>
    simp only [carryOut, World.completeMultipartUpload]
    split
    · exact Or.inl rfl
    split
    · exact Or.inl rfl
    split
    · exact Or.inl rfl
    split
    · exact Or.inl rfl
    · rename_i bytes ha
      rcases bytes_putBlob w t o storage o' (some (storage.stored bytes e.etag)) with
        h | ⟨hs, rfl, h⟩
      · exact Or.inl h
      · exact Or.inr ⟨_, .completeMultipartUpload hs uploadId parts contentLength ha,
          by rw [h]; rfl⟩
  | deleteObject storage o' =>
    rcases bytes_putBlob w t o storage o' none with h | ⟨hs, rfl, h⟩
    · exact Or.inl h
    · exact Or.inr ⟨_, .deleteObject hs, by rw [carryOut, h]; rfl⟩
  | createMultipartUpload storage o' =>
    refine Or.inl ?_
    simp only [carryOut, World.createMultipartUpload]
    split <;> rfl
  | _ => exact Or.inl (by simp [carryOut])

theorem bytes_answer (c : Call) (e : Env) (w : World) :
    (answer c e w).1.blobs t o = w.blobs t o ∨
      ∃ stored, Stores t o e c stored ∧ ((answer c e w).1.blobs t o).map Blob.bytes = stored := by
  rcases answer_state c e w with h | h
  · exact Or.inl (by rw [h])
  · rw [h]
    exact bytes_carryOut c e w

theorem answer_of_refused {message : Text} (h : e.outcome = .refused message) :
    (answer c e w).1 = w := by
  cases hl : c.local with
  | true =>
    refine answer_of_reads ?_ e w
    cases c <;> first | rfl | cases hl
  | false => simp [answer, hl, h]

theorem listed_of_answer (hc : .storageObjects ∈ c.writes → ∃ s o m, c = .upsertStorageObject s o m)
    (h : Listed t o (answer c e w).1) :
    Listed t o w ∨ ∃ metadata, c = .upsertStorageObject t o metadata := by
  by_cases hw : .storageObjects ∈ c.writes
  · obtain ⟨s, o', metadata, rfl⟩ := hc hw
    rcases answer_state (.upsertStorageObject s o' metadata) e w with hs | hs
    · exact Or.inl (hs ▸ h)
    rw [hs] at h
    obtain ⟨so, hm, rfl, rfl, hd⟩ := h
    rcases Database.mem_upsertStorageObject.mp hm with rfl | ⟨hold, -⟩
    · exact Or.inr ⟨metadata, rfl⟩
    · exact Or.inl ⟨so, hold, rfl, rfl, hd⟩
  · unfold Listed at h
    rw [(answer_frame c e w).storageObjects hw] at h
    exact Or.inl h

end

section

variable [Base64] {server : Server} {db : Database} {other : ProjectSlug} {q : Request} {c : Call}

theorem AsksFor.writes (h : AsksFor db other q) (hm : server.Makes q c) :
    .projects ∉ c.writes ∧
      (.storageObjects ∈ c.writes → ∃ s o m, c = .upsertStorageObject s o m) := by
  cases hm with
  | reads hr => simp [writes_of_reads hr]
  | insertProject | replaceRetentionPolicy | deleteRetentionPolicy | clearDeletedState | markStale
  | deleteReady | deleteStorageObjects | upsertUpstreamCache | setUpstreamEnabled
  | linkProjectUpstream | unlinkProjectUpstream => cases h
  | upsertStorageObject hq s o m =>
    exact ⟨by simp [Call.writes], fun _ => ⟨s, o, m, rfl⟩⟩
  | _ => simp [Call.writes]

omit [Base64] in
theorem removes_spoils {w : World} {e : Env} {preferred s : StorageId} {o : Text}
    {bytes : BlobBytes}
    (hc : .storageObjects ∈ c.writes → ∃ s o m, c = .upsertStorageObject s o m)
    (h : Removes s o w.db c) : Spoils preferred s o bytes w e c := by
  cases c with
  | deleteObject storage objectPath =>
    obtain ⟨hs, rfl⟩ := h
    exact .stored (.deleteObject hs) (by simp)
  | markStale roots | deleteStorageObjects objects =>
    obtain ⟨_, _, _, hc⟩ := hc (by simp [Call.writes])
    cases hc
  | _ => cases h

end

section

variable {catalog : StorageCatalog} {preferred s : StorageId} {o : Text} {bytes : BlobBytes}
  {w : World} {c : Call} {e : Env}

theorem serving_answer (hc : .storageObjects ∈ c.writes → ∃ s o m, c = .upsertStorageObject s o m)
    (hs : ¬ Spoils preferred s o bytes w e c) (h : Serving catalog preferred s o bytes w) :
    Serving catalog preferred s o bytes (answer c e w).1 where
  configured := h.configured
  listed := listed_answer (fun hr => hs (removes_spoils hc hr)) e h.listed
  held := by
    rcases bytes_answer c e w with hsame | ⟨stored, hstores, hbytes⟩
    · rw [hsame]
      exact h.held
    · by_contra hne
      exact hs (.stored hstores (hbytes ▸ hne))
  first := by
    intro t ht hl hconfigured
    rcases listed_of_answer hc hl with hl | ⟨metadata, rfl⟩
    · rcases bytes_answer c e w with hsame | ⟨stored, hstores, -⟩
      · rw [hsame]
        exact h.first t ht hl hconfigured
      · exact absurd (.before hstores ht hl) hs
    · rcases bytes_answer (.upsertStorageObject t o metadata) e w with hsame | ⟨_, hstores, -⟩
      · rw [hsame]
        by_contra hb
        exact hs (.recorded metadata ht (Option.isSome_iff_ne_none.mpr hb))
      · cases hstores

end

def PublishedIn (db : Database) (slug : ProjectSlug) (o : Text) : Prop :=
  ∃ p ∈ db.projects.rows, p.slug = slug ∧ ∃ ref ∈ db.projectRefs.rows, ref.projectId = p.id ∧
    ∃ h, ⟨ref.buildId, h⟩ ∈ db.buildPaths.rows ∧ ∃ kind, ⟨h, o, kind⟩ ∈ db.pathObjects.rows

theorem visible_of_published {db : Database} {slug : ProjectSlug} {o : Text}
    (h : PublishedIn db slug o) : db.storageObjectVisibleInView (.project slug) o = true := by
  obtain ⟨p, hp, hslug, ref, href, hid, path, hpath, kind, hlink⟩ := h
  exact objectVisible_of_visible
    (visiblePath_iff.mpr (Or.inl ⟨ref, href, ⟨p, hp, hid.symm, hslug⟩, hpath⟩)) hlink

section

variable [Base64] [WildMatch] {r : ServerRun} {slug other : ProjectSlug} {o : Text} {k m n : Nat}

def asking (r : ServerRun) (k : Nat) : Option Request :=
  match r.schedule.choice k with
  | .advance i => (r.pool k).tasks[i]?.map Task.request
  | _ => none

def OnlyFor (r : ServerRun) (slug : ProjectSlug) (m n : Nat) : Prop :=
  ∀ k < n, m ≤ k → ∀ q ∈ asking r k, AsksFor (r.db k) slug q

theorem asking_of_atCall {i : Nat} {q : Request} {c : Call}
    {resume : Except Error c.Reply → Action Response} (hi : r.schedule.choice k = .advance i)
    (hc : (r.pool k).AtCall i q c resume) : q ∈ asking r k := by
  unfold asking
  rw [hi]
  exact Option.mem_map_of_mem Task.request hc

theorem asked_of_call (ho : OnlyFor r other m n) (hmk : m ≤ k) (hkn : k < n) {c : Call}
    (hc : r.call k = some c) : ∃ q, AsksFor (r.db k) other q ∧ r.server.Makes q c := by
  obtain ⟨i, q, resume, hi, hcall⟩ := FrozenBuild.atCall_of_call hc
  exact ⟨q, ho k hkn hmk q (asking_of_atCall hi hcall), (ServerRun.within k).atCall hcall⟩

theorem projects_step (ho : OnlyFor r other m n) (hmk : m ≤ k) (hkn : k < n) :
    (r.db (k + 1)).projects = (r.db k).projects := by
  rcases r.changed_by_call k with hsame | ⟨c, hc, hnext⟩
  · exact congrArg (fun w => w.db.projects) hsame
  · obtain ⟨q, hq, hm⟩ := asked_of_call ho hmk hkn hc
    unfold ServerRun.db
    rw [hnext]
    exact (answer_frame c _ _).projects (hq.writes hm).1

theorem publishes_other (ho : OnlyFor r other m n) (hmk : m ≤ k) (hkn : k < n) {q : Publication}
    (hq : q ∈ r.publishes k) :
    ∃ p ∈ (r.db k).projects.rows, p.id = q.projectId ∧ p.slug = other := by
  obtain ⟨i, request, resume, hi, hat⟩ := publication_atCall hq
  have hasks := ho k hkn hmk request (asking_of_atCall hi hat)
  obtain rfl : request = .finalizeBuild q.buildId := by
    cases (ServerRun.within k).atCall hat with
    | reads hr => cases hr
    | publishBuild => rfl
  obtain ⟨b, hb, hid, -⟩ := (r.publishing k).published q hq
  obtain ⟨-, -, -, howner, -⟩ := Publisher.publisher hq
  obtain ⟨p, hp, hpid, hslug⟩ := hasks b hb hid
  exact ⟨p, hp, hpid.trans (howner b hb hid).1, hslug⟩

theorem points_step (hne : other ≠ slug) (ho : OnlyFor r other m n) (hmk : m ≤ k) (hkn : k < n)
    {p : ProjectRow} (hp : p ∈ (r.db k).projects.rows) (hslug : p.slug = slug)
    {publication : Publication} (hid : publication.projectId = p.id)
    (h : Points publication (r.db k)) : Points publication (r.db (k + 1)) := by
  unfold ServerRun.db
  rcases r.changed_by_call k with hsame | ⟨c, hc, hnext⟩
  · rwa [hsame]
  rw [hnext]
  refine points_answer h (fun q hq hsame => ?_)
  obtain ⟨p', hp', hid', hslug'⟩ := publishes_other ho hmk hkn ((next_of_call hc).2 ▸ hq)
  obtain rfl := Database.project_eq_of_id hp' hp (hid'.trans (hsame.1.trans hid))
  exact hne (hslug'.symm.trans hslug)

theorem published_step (hne : other ≠ slug) (ho : OnlyFor r other m n) (hmk : m ≤ k) (hkn : k < n)
    (h : PublishedIn (r.db k) slug o) : PublishedIn (r.db (k + 1)) slug o := by
  obtain ⟨p, hp, hslug, ref, href, hid, path, hpath, kind, hlink⟩ := h
  have hgrows := r.grows k
  have hnow : Points ⟨p.id, ref.refName, ref.buildId, (r.schedule.env k).now⟩ (r.db k) :=
    ⟨ref, href, hid, rfl, rfl⟩
  obtain ⟨ref', href', hid', -, hbuild⟩ := points_step hne ho hmk hkn hp hslug rfl hnow
  refine ⟨p, ?_, hslug, ref', href', hid', path, ?_, kind, hgrows.pathObjects _ hlink⟩
  · rwa [projects_step ho hmk hkn]
  · rw [hbuild]
    exact hgrows.buildPaths _ hpath

def Unspoiled (r : ServerRun) (preferred s : StorageId) (o : Text) (bytes : BlobBytes)
    (m n : Nat) : Prop :=
  ∀ k < n, m ≤ k → (∀ message, (r.schedule.env k).outcome ≠ .refused message) → ∀ c ∈ r.call k,
    ¬ Spoils preferred s o bytes (r.world k) (r.schedule.env k) c

theorem serving_step {catalog : StorageCatalog} {preferred s : StorageId} {bytes : BlobBytes}
    (ho : OnlyFor r other m n) (hu : Unspoiled r preferred s o bytes m n) (hmk : m ≤ k)
    (hkn : k < n) (h : Serving catalog preferred s o bytes (r.world k)) :
    Serving catalog preferred s o bytes (r.world (k + 1)) := by
  rcases r.changed_by_call k with hsame | ⟨c, hc, hnext⟩
  · rwa [hsame]
  · obtain ⟨q, hq, hm⟩ := asked_of_call ho hmk hkn hc
    rw [hnext]
    by_cases hr : ∃ message, (r.schedule.env k).outcome = .refused message
    · obtain ⟨message, hr⟩ := hr
      rwa [answer_of_refused hr]
    · exact serving_answer (hq.writes hm).2 (hu k hkn hmk (not_exists.mp hr) c hc) h

def answersBytes (r : ServerRun) (slug : ProjectSlug) (o : Text) (es : Nat → Env) (n : Nat) :
    Except Error (Option BlobBytes) :=
  (machine.exec (DbBackedObjectStore.getVisible ⟨r.server.storageCatalog⟩ (.project slug) o) es
    (r.world n)).2.map (Option.map Prod.snd)

theorem answersBytes_eq {es : Nat → Env} {p : ProjectRow}
    (he : ∀ k, (es k).outcome = .answered) (hp : (r.db k).projectBySlug slug = some p)
    (hpublished : PublishedIn (r.db k) slug o) : answersBytes r slug o es k =
      .ok (((asked (r.db k) p.storageId o).findSome?
        (heldAt r.server.storageCatalog (r.world k) o)).map Prod.snd) := by
  have hpreferred : preferredIn r.server.storageCatalog (r.db k) (.project slug) =
      some p.storageId := by
    rw [preferredIn, hp]
    rfl
  have hread := Machine.exec_of_wp_drawn es (Lookup.wp_getVisible (o := o) hpreferred)
  have hanswered : ∀ e, (∃ k, e = es k) → e.outcome = .answered := by
    rintro _ ⟨k, rfl⟩
    exact he k
  have hvisible : (r.world k).db.storageObjectVisibleInView (.project slug) o = true :=
    visible_of_published hpublished
  rw [answersBytes, hread.ok hanswered, if_pos hvisible]
  rfl

theorem serving_run {catalog : StorageCatalog} {preferred s : StorageId} {bytes : BlobBytes}
    (hne : other ≠ slug) (ho : OnlyFor r other m n) (hu : Unspoiled r preferred s o bytes m n)
    (hpublished : PublishedIn (r.db m) slug o)
    (h : Serving catalog preferred s o bytes (r.world m)) (hmk : m ≤ k) (hkn : k ≤ n) :
    (r.db k).projects = (r.db m).projects ∧ PublishedIn (r.db k) slug o ∧
      Serving catalog preferred s o bytes (r.world k) := by
  induction k, hmk using Nat.le_induction with
  | base => exact ⟨rfl, hpublished, h⟩
  | succ k hmk ih =>
    obtain ⟨hprojects, hpub, hserve⟩ := ih (by omega)
    exact ⟨(projects_step ho hmk hkn).trans hprojects, published_step hne ho hmk hkn hpub,
      serving_step ho hu hmk hkn hserve⟩

theorem published_untouched (r : ServerRun) {slug other : ProjectSlug} (hne : other ≠ slug)
    {o : Text} {m n : Nat} (hmn : m ≤ n) (hpublished : PublishedIn (r.db m) slug o)
    (ho : OnlyFor r other m n) {es : Nat → Env} (he : ∀ k, (es k).outcome = .answered)
    {bytes : BlobBytes} (hbytes : answersBytes r slug o es m = .ok (some bytes)) :
    ∃ p s, (r.db m).projectBySlug slug = some p ∧
      Serving r.server.storageCatalog p.storageId s o bytes (r.world m) ∧
      (Unspoiled r p.storageId s o bytes m n → ∀ es, (∀ k, (es k).outcome = .answered) →
        answersBytes r slug o es n = .ok (some bytes)) := by
  obtain ⟨p, hp, hslug, -⟩ := id hpublished
  have hproject : (r.db m).projectBySlug slug = some p :=
    Database.projectBySlug_eq_some.mpr ⟨hp, hslug⟩
  rw [answersBytes_eq he hproject hpublished, Except.ok.injEq] at hbytes
  obtain ⟨⟨metadata, found⟩, hfound, rfl⟩ := Option.map_eq_some_iff.mp hbytes
  obtain ⟨s, hserving⟩ := serving_of_findSome hfound
  refine ⟨p, s, hproject, hserving, fun hu es he => ?_⟩
  obtain ⟨hprojects, hpub, hserve⟩ :=
    serving_run hne ho hu hpublished hserving hmn (Nat.le_refl n)
  have hsame : (r.db n).projectBySlug slug = some p :=
    Database.projectBySlug_eq_some.mpr ⟨hprojects ▸ hp, hslug⟩
  obtain ⟨metadata', hlater⟩ := findSome_of_serving hserve
  rw [answersBytes_eq he hsame hpub]
  exact congrArg (fun found => Except.ok (found.map Prod.snd)) hlater

end

section Examples

attribute [local instance] standardBase64 standardWildMatch

def otherSlug : ProjectSlug := ⟨"other".toList, by decide⟩

def sharedScript (last : List (Choice Request)) : List (Choice Request) :=
  uploadedScript ++ [.submit (.finalizeBuild 5)] ++ advances 4 10 ++
  [.submit (.insertProject otherSlug "Other".toList true .main)] ++ advances 5 2 ++
  [.submit (.beginBuild otherSlug.text "main".toList none)] ++ advances 6 4 ++
  [.submit (.registerPaths 42 [helloPayload])] ++ advances 7 12 ++ last

def shared : FreshRun :=
  scripted (sharedScript ([.submit (.finalizeBuild 42)] ++ advances 8 10))

def overwriting : FreshRun := scripted (sharedScript
  ([.submit (.uploadObject 42 helloHash helloPayload.url [9])] ++ advances 8 8))

instance (db : Database) (slug : ProjectSlug) (buildId : Uuid) :
    Decidable (OfBuild db slug buildId) := by
  unfold OfBuild
  infer_instance

instance (db : Database) (slug : ProjectSlug) : DecidablePred (AsksFor db slug)
  | .beginBuild project _ _ => inferInstanceAs (Decidable (project = slug.text))
  | .registerPaths buildId _ | .uploadObject buildId _ _ _
  | .completeMultipartUpload buildId _ _ _ _ _ | .finalizeBuild buildId =>
    inferInstanceAs (Decidable (OfBuild db slug buildId))
  | .upsertPin _ project _ _ | .deletePin _ project =>
    inferInstanceAs (Decidable (project = some slug))
  | .insertProject _ _ _ _ | .replaceRetentionPolicy _ _ _ _ | .deleteRetentionPolicy _
  | .runLocalGc _ _ | .upsertUpstreamCache _ _ _ _ | .setUpstreamEnabled _ _
  | .linkProjectUpstream _ _ | .unlinkProjectUpstream _ _ => inferInstanceAs (Decidable False)

def sparing : Call → Bool
  | .putStream _ _ _ | .completeMultipartUpload _ _ _ _ _ | .deleteObject _ _ => false
  | .upsertStorageObject s _ _ => s = .main
  | _ => true

def firstProject : ProjectRow := ⟨1, exampleSlug, "Example".toList, true, .main⟩

def firstRef : ProjectRefRow := ⟨1, "main".toList, 5, .whole noon⟩

structure FirstPublished (db : Database) : Prop where
  project : firstProject ∈ db.projects.rows
  ref : firstRef ∈ db.projectRefs.rows
  path : ⟨5, helloHash⟩ ∈ db.buildPaths.rows
  link : ⟨helloHash, helloPayload.url, .nar⟩ ∈ db.pathObjects.rows

theorem FirstPublished.published {db : Database} (h : FirstPublished db) :
    PublishedIn db exampleSlug helloPayload.url :=
  ⟨firstProject, h.project, rfl, firstRef, h.ref, rfl, helloHash, h.path, .nar, h.link⟩

instance (db : Database) : Decidable (FirstPublished db) :=
  decidable_of_iff (firstProject ∈ db.projects.rows ∧ firstRef ∈ db.projectRefs.rows ∧
    ⟨5, helloHash⟩ ∈ db.buildPaths.rows ∧
      ⟨helloHash, helloPayload.url, .nar⟩ ∈ db.pathObjects.rows)
    ⟨fun ⟨hp, hr, hb, hl⟩ => ⟨hp, hr, hb, hl⟩, fun ⟨hp, hr, hb, hl⟩ => ⟨hp, hr, hb, hl⟩⟩

instance (r : ServerRun) (slug : ProjectSlug) (m n : Nat) : Decidable (OnlyFor r slug m n) := by
  unfold OnlyFor
  infer_instance

theorem not_spoils_of_sparing {p : StorageId} {bytes : BlobBytes} {o : Text} {w : World} {e : Env}
    {c : Call} (h : sparing c = true) : ¬ Spoils p .main o bytes w e c := by
  rintro (⟨hstores, -⟩ | ⟨hstores, -, -⟩ | ⟨metadata, ht, -⟩)
  · cases hstores <;> cases h
  · cases hstores <;> cases h
  · exact ht.1 (of_decide_eq_true h)

def served (r : ServerRun) (n : Nat) : Option (Option BlobBytes) :=
  (answersBytes r exampleSlug helloPayload.url (fun _ => moment 0) n).toOption

theorem shared_untouched :
    answersBytes shared.toServerRun exampleSlug helloPayload.url (fun _ => moment 0) 69 =
      .ok (some [1, 2, 3, 4, 5]) := by
  have hrun : FirstPublished (shared.db 40) ∧ OnlyFor shared.toServerRun otherSlug 40 69 ∧
      served shared.toServerRun 40 = some (some [1, 2, 3, 4, 5]) ∧
      ∀ k < 69, 40 ≤ k → (shared.call k).all sparing = true := by decide +kernel
  obtain ⟨hfirst, honly, hbytes, hsparing⟩ := hrun
  obtain ⟨p, s, -, hserving, hlater⟩ := published_untouched shared.toServerRun
    (by decide : otherSlug ≠ exampleSlug) (by decide : 40 ≤ 69) hfirst.published honly
    (fun _ => rfl) (eq_ok_of_toOption hbytes)
  obtain rfl : s = .main := by
    obtain ⟨storage, hs⟩ := Option.isSome_iff_exists.mp hserving.configured
    have hm := List.mem_of_find?_eq_some hs
    rw [← StorageCatalog.storage_id hs, List.mem_singleton.mp hm]
  refine hlater (fun k hk hmk _ c hc => not_spoils_of_sparing ?_) (fun _ => moment 0) (fun _ => rfl)
  have hcall := hsparing k hk hmk
  rw [Option.mem_def.mp hc] at hcall
  exact hcall

theorem overwriting_touched :
    PublishedIn (overwriting.db 40) exampleSlug helloPayload.url ∧
      OnlyFor overwriting.toServerRun otherSlug 40 67 ∧
      answersBytes overwriting.toServerRun exampleSlug helloPayload.url (fun _ => moment 0) 40 =
        .ok (some [1, 2, 3, 4, 5]) ∧
      answersBytes overwriting.toServerRun exampleSlug helloPayload.url (fun _ => moment 0) 67 =
        .ok (some [9]) := by
  have hrun : FirstPublished (overwriting.db 40) ∧
      OnlyFor overwriting.toServerRun otherSlug 40 67 ∧
      served overwriting.toServerRun 40 = some (some [1, 2, 3, 4, 5]) ∧
      served overwriting.toServerRun 67 = some (some [9]) := by decide +kernel
  obtain ⟨hfirst, honly, hbefore, hafter⟩ := hrun
  exact ⟨hfirst.published, honly, eq_ok_of_toOption hbefore, eq_ok_of_toOption hafter⟩

end Examples

end Untouched
