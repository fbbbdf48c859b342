import ProjectCache.Ingest.Plan
import ProjectCache.Read.Handlers
import ProjectCache.Read.Lookup

namespace Answering

open Textual Nix Project Calendar Tables DepotPath Narinfo Signing Validation KeyCrypto Store Db
  Programs Ingest Depot Depot.Server Read Lookup ContentLength Vouching Announced FrozenBuild
  SqliteDatabase

def Held (catalog : StorageCatalog) (w : World) (o : Text) (bytes : BlobBytes) : Prop :=
  ∃ s storage blob, catalog.storage s = some storage ∧ w.blobs storage.id o = some blob ∧
    bytes = blob.bytes

def Stocked (catalog : StorageCatalog) (w : World) (o : Text) : Prop :=
  ∃ so ∈ w.db.storageObjects.rows, so.objectPath = o ∧ so.deletedAt = none ∧
    ∃ storage, catalog.storage so.storageId = some storage ∧ (w.blobs storage.id o).isSome = true

section

variable {catalog : StorageCatalog} {w : World} {client : UpstreamCacheClient} {o : Text}

theorem wp_getVisible {view : DepotView}
    (hview : ∀ slug, view = .project slug → ∃ p, w.db.projectBySlug slug = some p) :
    machine.wp (AnswersFrom client) (fun r v => v = w ∧ ∃ found, r = .ok found ∧
      (∀ metadata bytes, found = some (metadata, bytes) → Held catalog w o bytes) ∧
      (w.db.storageObjectVisibleInView view o = true → Stocked catalog w o →
        found.isSome = true))
      (DbBackedObjectStore.getVisible ⟨catalog⟩ view o) w := by
  obtain ⟨preferred, hpreferred⟩ := exists_preferred hview
  refine Machine.wp_mono (Lookup.wp_getVisible hpreferred) (fun r v h => ?_)
  refine ⟨h.1, _, h.ok (fun _ he => he.1), fun metadata bytes hfound => ?_,
    fun hvisible hstocked => ?_⟩
  · split at hfound
    · obtain ⟨so, -, -, -, hheld⟩ := mem_of_found hfound
      obtain ⟨hconfigured, hbytes, -⟩ := heldAt_eq_some.mp hheld
      obtain ⟨storage, hs⟩ := Option.isSome_iff_exists.mp hconfigured
      obtain ⟨blob, hblob, rfl⟩ := Option.map_eq_some_iff.mp hbytes
      exact ⟨_, storage, blob, hs, by rwa [StorageCatalog.storage_id hs], rfl⟩
    · cases hfound
  · obtain ⟨so, hm, ho, hd, storage, hs, hblob⟩ := hstocked
    rw [if_pos hvisible, isSome_found]
    exact ⟨so, hm, ho, hd, by rw [hs]; rfl, StorageCatalog.storage_id hs ▸ hblob⟩

theorem wp_upstreamsForView (view : DepotView) :
    machine.wp (AnswersFrom client) (fun r v => v = w ∧ r = .ok (upstreamsIn w.db view))
      (upstreamsForView view) w := by
  cases view with
  | aggregate =>
    exact Machine.wp_bind.mpr (wp_select ⟨rfl, rfl⟩ (fun e he hne => absurd he.1 hne))
  | project slug =>
    exact Machine.wp_bind.mpr (wp_select ⟨rfl, rfl⟩ (fun e he hne => absurd he.1 hne))

theorem wp_fetchObject (upstreams : List UpstreamCache) :
    machine.wp (AnswersFrom client) (fun r v => v = w ∧ r = .ok (upstreams.findSome?
      (fun upstream => client.getObject upstream o))) (fetchObject o upstreams) w := by
  induction upstreams with
  | nil => exact ⟨rfl, rfl⟩
  | cons upstream rest ih =>
    refine Machine.wp_bind.mpr (wp_perform.mpr (fun e he => ?_))
    rw [answer_of_answered he.1]
    simp only [carryOut, onOk_ok, he.2, List.findSome?_cons]
    cases client.getObject upstream o with
    | some result => exact ⟨rfl, rfl⟩
    | none => exact ih

theorem wp_inflateOptional {row : PathInfoRow} (hrow : w.db.pathInfo row.storePathHash = some row) :
    machine.wp (AnswersFrom client) (fun r v => v = w ∧ r = .ok (some (narinfoOf row)))
      (inflateOptional (some row)) w := by
  refine Machine.wp_bind.mpr (Machine.wp_bind.mpr (wp_select ?_ (fun e he hne => absurd he.1 hne)))
  rw [onOk_ok]
  refine Machine.wp_bind.mpr (wp_select ?_ (fun e he hne => absurd he.1 hne))
  simp only [onOk_ok, Database.pathReferences, Database.pathSignatures, hrow]
  exact ⟨rfl, rfl⟩

theorem wp_resolveNarinfo {view : DepotView} {h : StorePathHash} {row : PathInfoRow}
    (hrow : pathInfoIn w.db view h = some row) :
    machine.wp (AnswersFrom client) (fun r v => v = w ∧ r = .ok (some (narinfoOf row)))
      (resolveNarinfo view h) w := by
  obtain ⟨hm, rfl⟩ := pathInfo_of_pathInfoIn hrow
  have hinflate : machine.wp (AnswersFrom client)
      (fun r v => v = w ∧ r = .ok (some (narinfoOf row))) (inflateOptional (some row)) w :=
    wp_inflateOptional (Database.pathInfo_eq_some.mpr ⟨hm, rfl⟩)
  cases view with
  | aggregate =>
    refine Machine.wp_bind.mpr (wp_select ?_ (fun e he hne => absurd he.1 hne))
    have hrow : w.db.aggregatePathInfo row.storePathHash = some row := hrow
    rw [onOk_ok, hrow]
    exact hinflate
  | project slug =>
    refine Machine.wp_bind.mpr (wp_select ?_ (fun e he hne => absurd he.1 hne))
    have hrow : w.db.projectPathInfo slug row.storePathHash = some row := hrow
    rw [onOk_ok, hrow]
    exact hinflate

end

section

variable [Base64] [Base64NoPad] [Ed25519] [Ed25519Bytes] [ChaCha20Poly1305]
  {w : World} {client : UpstreamCacheClient} {service : KeyedReadService} {view : DepotView}

omit [Base64] [Base64NoPad] [Ed25519Bytes] [ChaCha20Poly1305] in
theorem wp_getObject (reads : ReadService)
    (hview : ∀ slug, view = .project slug → ∃ p, w.db.projectBySlug slug = some p) {o : Text}
    (h : w.db.storageObjectVisibleInView view o = true ∧ Stocked reads.storageCatalog w o ∨
      ∃ upstream ∈ upstreamsIn w.db view, (client.getObject upstream o).isSome = true) :
    machine.wp (AnswersFrom client) (fun r v => ∃ metadata bytes, v = w ∧
      r = .ok (some (metadata, bytes)) ∧
      (Held reads.storageCatalog w o bytes ∨
        ∃ upstream ∈ upstreamsIn w.db view,
          client.getObject upstream o = some (metadata, bytes)))
      (reads.getObject view o) w := by
  refine Machine.wp_bind.mpr (Machine.wp_mono (Answering.wp_getVisible hview) ?_)
  rintro r v ⟨rfl, found, rfl, hheld, hfound⟩
  rw [onOk_ok]
  cases found with
  | some result => exact ⟨result.1, result.2, rfl, rfl, Or.inl (hheld _ _ rfl)⟩
  | none =>
    have hupstream : ∃ upstream ∈ upstreamsIn v.db view,
        (client.getObject upstream o).isSome = true :=
      h.resolve_left (fun hlocal => by cases hfound hlocal.1 hlocal.2)
    refine Machine.wp_bind.mpr (Machine.wp_mono (wp_upstreamsForView view) ?_)
    rintro r v ⟨rfl, rfl⟩
    rw [onOk_ok]
    refine Machine.wp_mono (wp_fetchObject _) ?_
    rintro r v ⟨rfl, rfl⟩
    cases hfirst : (upstreamsIn v.db view).findSome?
        (fun upstream => client.getObject upstream o) with
    | none =>
      obtain ⟨upstream, hm, hsome⟩ := hupstream
      rw [List.findSome?_eq_none_iff.mp hfirst upstream hm] at hsome
      cases hsome
    | some result =>
      obtain ⟨upstream, hm, hresult⟩ := List.exists_of_findSome?_eq_some hfirst
      exact ⟨result.1, result.2, rfl, rfl, Or.inr ⟨upstream, hm, hresult⟩⟩

end

end Answering
