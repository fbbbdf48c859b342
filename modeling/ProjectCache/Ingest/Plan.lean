import ProjectCache.Depot.Runs

namespace Ingest

open Textual Nix Project DepotPath Narinfo Validation Store Db Depot Programs

def AnswersFrom (client : UpstreamCacheClient) (e : Env) : Prop :=
  e.outcome = .answered ∧ e.upstream = client

def Missing (w : World) (client : UpstreamCacheClient) (storage : DepotStorage)
    (upstreams : List UpstreamCache) (objectPath : Text) : Prop :=
  w.blobs storage.id objectPath = none ∧
    ∀ upstream ∈ upstreams, client.headObject upstream objectPath = none

instance (w : World) (client : UpstreamCacheClient) (storage : DepotStorage)
    (upstreams : List UpstreamCache) :
    DecidablePred (Missing w client storage upstreams) := fun objectPath =>
  decidable_of_iff ((w.blobs storage.id objectPath).isNone = true ∧
      upstreams.all (fun upstream => (client.headObject upstream objectPath).isNone) = true)
    (by simp [Missing])

structure PlannedFor (n : NarInfo) (planned : PlannedUpload) : Prop where
  storePathHash : StorePathHash.parseFromStorePath n.storePath = .ok planned.storePathHash
  objectPath : planned.objectPath = n.url
  contentType : planned.contentType = octetStream

variable {w : World} {client : UpstreamCacheClient} {storage : DepotStorage}
  {upstreams : List UpstreamCache}

theorem wp_head (objectPath : Text) :
    machine.wp (AnswersFrom client)
      (fun r v => r = .ok ((w.blobs storage.id objectPath).map Blob.metadata) ∧ v = w)
      (perform (.head storage objectPath)) w := by
  refine (wp_perform (c := .head storage objectPath)).mpr (fun e he => ?_)
  rw [answer_of_answered he.1]
  exact ⟨rfl, rfl⟩

theorem wp_objectExistsUpstream (objectPath : Text) :
    machine.wp (AnswersFrom client)
      (fun r v => r = .ok (upstreams.any
        (fun upstream => (client.headObject upstream objectPath).isSome)) ∧ v = w)
      (objectExistsUpstream objectPath upstreams) w := by
  induction upstreams with
  | nil => exact ⟨rfl, rfl⟩
  | cons upstream rest ih =>
    refine Machine.wp_bind.mpr (wp_perform.mpr (fun e he => ?_))
    rw [answer_of_answered he.1]
    change machine.wp (AnswersFrom client) _
      (if (e.upstream.headObject upstream objectPath).isSome then .done (.ok true)
        else objectExistsUpstream objectPath rest) w
    rw [he.2, List.any_cons]
    split
    · rename_i h
      rw [h]
      exact ⟨rfl, rfl⟩
    · rename_i h
      rw [Bool.not_eq_true] at h
      rw [h, Bool.false_or]
      exact ih

section Planned

variable [Base64] {s : StoreDir}

theorem isNarObject_of_valid {n : NarInfo} {h : StorePathHash}
    (hv : validatePublishNarinfo s n = .ok h) : isNarObject n.url = true := by
  obtain ⟨c, -, narHash, -, hl, hu⟩ := (validatePublishNarinfo_ok hv).compression
  rw [isNarObject, hu, expectedUrl, parseDepotObjectPath_append hl narHash.alphabet]

theorem wp_planRequiredUploads {narinfos : List NarInfo}
    (hv : ∀ n ∈ narinfos, ∃ h, validatePublishNarinfo s n = .ok h) :
    machine.wp (AnswersFrom client)
      (fun r v => (∃ plan, r = .ok plan ∧ List.Forall₂ PlannedFor
        (narinfos.filter (fun n => Missing w client storage upstreams n.url)) plan) ∧ v = w)
      (planRequiredUploads storage upstreams narinfos) w := by
  induction narinfos with
  | nil => exact ⟨⟨[], rfl, .nil⟩, rfl⟩
  | cons n rest ih =>
    obtain ⟨h, hn⟩ := hv n (by simp)
    have hrest := ih (fun m hm => hv m (by simp [hm]))
    have hhash := (validatePublishNarinfo_ok hn).hash
    have hnar := isNarObject_of_valid hn
    have hmissing : Missing w client storage upstreams n.url ↔
        ((w.blobs storage.id n.url).map Blob.metadata).isSome = false ∧
          upstreams.any (fun upstream => (client.headObject upstream n.url).isSome) = false := by
      simp [Missing]
    rw [planRequiredUploads, hhash]
    change machine.wp (AnswersFrom client) _ (if ¬ isNarObject n.url = true then _ else _) w
    rw [if_neg (not_not.mpr hnar)]
    refine Machine.wp_bind.mpr (Machine.wp_mono (wp_head n.url) ?_)
    rintro r v ⟨rfl, rfl⟩
    rw [onOk_ok]
    cases hs : ((v.blobs storage.id n.url).map Blob.metadata).isSome with
    | true =>
      rw [List.filter_cons_of_neg (by simp [hmissing, hs])]
      exact hrest
    | false =>
      refine Machine.wp_bind.mpr (Machine.wp_mono (wp_objectExistsUpstream n.url) ?_)
      rintro r v ⟨rfl, rfl⟩
      rw [onOk_ok]
      cases hu : upstreams.any (fun upstream => (client.headObject upstream n.url).isSome) with
      | true =>
        rw [List.filter_cons_of_neg (by simp [hmissing, hs, hu])]
        exact hrest
      | false =>
        rw [List.filter_cons_of_pos (by simp [hmissing, hs, hu])]
        refine Machine.wp_bind.mpr (Machine.wp_mono hrest ?_)
        rintro r v ⟨⟨plan, rfl, hplan⟩, rfl⟩
        exact ⟨⟨_, rfl, .cons ⟨hhash, rfl, rfl⟩ hplan⟩, rfl⟩

omit [Base64] in
theorem forall₂_objectPath {ns : List NarInfo} {plan : List PlannedUpload}
    (h : List.Forall₂ PlannedFor ns plan) :
    plan.map PlannedUpload.objectPath = ns.map NarInfo.url := by
  induction h with
  | nil => rfl
  | cons hp _ ih => rw [List.map_cons, List.map_cons, hp.objectPath, ih]

theorem plan_once_for_each (storage : DepotStorage) (upstreams : List UpstreamCache)
    (client : UpstreamCacheClient) (w : World) (narinfos : List NarInfo) (es : Nat → Env)
    (hv : ∀ n ∈ narinfos, ∃ h, validatePublishNarinfo s n = .ok h)
    (he : ∀ i, AnswersFrom client (es i)) :
    ∃ plan, machine.exec (planRequiredUploads storage upstreams narinfos) es w = (w, .ok plan) ∧
      List.Forall₂ PlannedFor
        (narinfos.filter (fun n => Missing w client storage upstreams n.url)) plan ∧
      (∀ o, o ∈ plan.map PlannedUpload.objectPath ↔
        (∃ n ∈ narinfos, n.url = o) ∧ Missing w client storage upstreams o) ∧
      ((plan.map PlannedUpload.objectPath).Nodup ↔ narinfos.Pairwise (fun n m =>
        Missing w client storage upstreams n.url → n.url ≠ m.url)) := by
  have hwp : machine.wp (AnswersFrom client) _ (planRequiredUploads storage upstreams narinfos) w :=
    wp_planRequiredUploads hv
  obtain ⟨⟨plan, hr, hplan⟩, hw⟩ := Machine.exec_of_wp hwp he
  have hpaths := forall₂_objectPath hplan
  refine ⟨plan, Prod.ext hw hr, hplan, ?_, ?_⟩
  · intro o
    rw [hpaths]
    constructor
    · intro ho
      obtain ⟨n, hn, rfl⟩ := List.mem_map.mp ho
      obtain ⟨hmem, hmissing⟩ := List.mem_filter.mp hn
      exact ⟨⟨n, hmem, rfl⟩, of_decide_eq_true hmissing⟩
    · rintro ⟨⟨n, hn, rfl⟩, hmissing⟩
      exact List.mem_map_of_mem (List.mem_filter.mpr ⟨hn, decide_eq_true hmissing⟩)
  · rw [hpaths, List.Nodup, List.pairwise_map, List.pairwise_filter]
    constructor
    · intro h
      refine h.imp (fun {n m} hnm hn heq => ?_)
      exact hnm (decide_eq_true hn) (decide_eq_true (heq ▸ hn)) heq
    · intro h
      exact h.imp (fun hnm hn _ => hnm (of_decide_eq_true hn))

end Planned

section Examples

attribute [local instance] standardBase64

def compiled (storePath : Text) : NarInfo where
  storePath := storePath
  url := "nar/020ay2q1av2xs4n842rb3d7vz8qms1dcb87a5yd6azaci20x11lz.nar.zst".toList
  compression := "zstd".toList
  narHash := .raw "sha256:020ay2q1av2xs4n842rb3d7vz8qms1dcb87a5yd6azaci20x11lz".toList
  narSize := 226560
  references := []
  deriver := none
  signatures := []
  ca := none

def twins : List NarInfo :=
  [compiled "/nix/store/26xbg1ndr7hbcncrlf9nhx5is2b25d13-hello".toList,
    compiled "/nix/store/00000000000000000000000000000000-hello".toList]

theorem valid_twins : ∀ n ∈ twins, ∃ h, validatePublishNarinfo StoreDir.defaultNix n = .ok h := by
  intro n hn
  have hn : n = compiled "/nix/store/26xbg1ndr7hbcncrlf9nhx5is2b25d13-hello".toList ∨
      n = compiled "/nix/store/00000000000000000000000000000000-hello".toList := by
    simpa [twins] using hn
  rcases hn with rfl | rfl
  · exact ⟨⟨"26xbg1ndr7hbcncrlf9nhx5is2b25d13".toList, by decide, by decide⟩, by decide⟩
  · exact ⟨⟨"00000000000000000000000000000000".toList, by decide, by decide⟩, by decide⟩

def bareStorage : DepotStorage := ⟨.main, .filesystem⟩

def bareWorld : World := ⟨{}, fun _ _ => none⟩

def bareMoment (_ : Nat) : Env := .quiet Server.noon 0

theorem twins_planned_once_for_each : ∃ plan,
    machine.exec (planRequiredUploads bareStorage [] twins) bareMoment bareWorld =
      (bareWorld, .ok plan) ∧
    List.Forall₂ PlannedFor
      (twins.filter (fun n => Missing bareWorld .silent bareStorage [] n.url)) plan ∧
    (∀ o, o ∈ plan.map PlannedUpload.objectPath ↔
      (∃ n ∈ twins, n.url = o) ∧ Missing bareWorld .silent bareStorage [] o) ∧
    ((plan.map PlannedUpload.objectPath).Nodup ↔ twins.Pairwise (fun n m =>
      Missing bareWorld .silent bareStorage [] n.url → n.url ≠ m.url)) :=
  plan_once_for_each bareStorage [] .silent bareWorld twins bareMoment valid_twins
    (fun _ => ⟨rfl, rfl⟩)

theorem twins_planned_twice :
    (∀ n ∈ twins, ∃ h, validatePublishNarinfo StoreDir.defaultNix n = .ok h) ∧
      ∃ plan, machine.exec (planRequiredUploads bareStorage [] twins) bareMoment bareWorld =
        (bareWorld, .ok plan) ∧ ¬ (plan.map PlannedUpload.objectPath).Nodup := by
  have hwp : machine.wp (AnswersFrom .silent) _ (planRequiredUploads bareStorage [] twins)
      bareWorld := wp_planRequiredUploads valid_twins
  have hquiet : ∀ n, AnswersFrom .silent (bareMoment n) := fun _ => ⟨rfl, rfl⟩
  obtain ⟨⟨plan, hr, hplan⟩, hw⟩ := Machine.exec_of_wp hwp hquiet
  refine ⟨valid_twins, plan, Prod.ext hw hr, ?_⟩
  rw [forall₂_objectPath hplan]
  decide

end Examples

end Ingest
