import ProjectCache.Gc.Roots
import ProjectCache.Publish.Publisher

namespace Recency

open Textual Nix Project Calendar Tables Store Db Programs Ingest Depot Depot.Server
  SqliteDatabase Gc Publisher

def Apart (t u : UtcDateTime) : Prop :=
  t.civil = u.civil → ¬ PrefixRelated t.nanosecond u.nanosecond

instance : DecidableRel Apart := fun _ _ => inferInstanceAs (Decidable (_ → _))

theorem Apart.symm {t u : UtcDateTime} (h : Apart t u) : Apart u t :=
  fun hc hp => h hc.symm hp.symm

theorem format_lt_of_apart {t u : UtcDateTime} (h : Apart t u) :
    t.format < u.format ↔ t.instant < u.instant := by
  refine (OffsetDateTime.format_decides_iff rfl).mpr ⟨fun _ hs _ => ?_, fun hp => ?_, fun hp => ?_⟩
  · exact h ((CivilTime.seconds_eq_iff _ _).mp hs)
  · exact absurd rfl hp.ne'
  · exact absurd rfl hp.ne

theorem instant_ne_of_apart {t u : UtcDateTime} (h : Apart t u) : t.instant ≠ u.instant := by
  intro he
  have ht := t.nanosecond_lt
  have hu := u.nanosecond_lt
  simp only [UtcDateTime.instant, UtcDateTime.toOffset, OffsetDateTime.instant] at he
  have hs : t.civil.seconds = u.civil.seconds := by omega
  have hn : t.nanosecond = u.nanosecond := by omega
  exact h ((CivilTime.seconds_eq_iff _ _).mp hs) (Or.inl (hn ▸ List.prefix_refl _))

section

variable {a b c : BuildRow} {builds : List BuildRow}

def finalizedText (b : BuildRow) : Text := (b.finalizedAt.map UtcDateTime.format).getD []

theorem BuildNewer.text_le (h : Database.BuildNewer a b) : finalizedText b ≤ finalizedText a := by
  rcases h with h | ⟨h, -⟩
  · exact h.le
  · exact h.le

instance : Std.Total Database.BuildNewer where
  total a b := by
    rcases lt_trichotomy (finalizedText a) (finalizedText b) with h | h | h
    · exact Or.inr (Or.inl h)
    · rcases le_total a.createdAt.text b.createdAt.text with hc | hc
      · exact Or.inr (Or.inr ⟨h, hc⟩)
      · exact Or.inl (Or.inr ⟨h.symm, hc⟩)
    · exact Or.inl (Or.inl h)

instance : IsTrans BuildRow Database.BuildNewer where
  trans a b c := by
    rintro (h | ⟨h, hc⟩) (k | ⟨k, kc⟩)
    · exact Or.inl (k.trans h)
    · exact Or.inl (k ▸ h)
    · exact Or.inl (h ▸ k)
    · exact Or.inr ⟨k.trans h, kc.trans hc⟩

def Latest (k : Nat) (kept builds : List BuildRow) : Prop :=
  ∃ dropped, (kept ++ dropped).Perm builds ∧ kept.length = min k builds.length ∧
    ∀ a ∈ kept, ∀ b ∈ dropped, ∀ t ∈ a.finalizedAt, ∀ u ∈ b.finalizedAt, u.instant ≤ t.instant

def firstInQueryOrder (k : Nat) (builds : List BuildRow) : List BuildRow :=
  (builds.insertionSort Database.BuildNewer).take k

def AllApart (builds : List BuildRow) : Prop :=
  ∀ a ∈ builds, ∀ b ∈ builds, a ≠ b → ∀ t ∈ a.finalizedAt, ∀ u ∈ b.finalizedAt, Apart t u

theorem latest_firstInQueryOrder (h : AllApart builds) (k : Nat) :
    Latest k (firstInQueryOrder k builds) builds := by
  have hsorted := List.pairwise_insertionSort Database.BuildNewer builds
  have hperm := List.perm_insertionSort Database.BuildNewer builds
  refine ⟨(builds.insertionSort Database.BuildNewer).drop k, ?_, ?_, ?_⟩
  · rw [firstInQueryOrder, List.take_append_drop]
    exact hperm
  · rw [firstInQueryOrder, List.length_take, hperm.length_eq]
  · intro a ha b hb t ht u hu
    rw [← List.take_append_drop k (builds.insertionSort Database.BuildNewer),
      List.pairwise_append] at hsorted
    have hle := BuildNewer.text_le (hsorted.2.2 a ha b hb)
    have hma := hperm.mem_iff.mp (List.mem_of_mem_take ha)
    have hmb := hperm.mem_iff.mp (List.mem_of_mem_drop hb)
    by_cases hab : a = b
    · subst hab
      exact (Option.mem_unique ht hu) ▸ le_refl _
    · rw [← not_lt, ← format_lt_of_apart (h a hma b hmb hab t ht u hu), not_lt]
      simpa [finalizedText, Option.mem_def.mp ht, Option.mem_def.mp hu] using hle

theorem mem_firstInQueryOrder {k : Nat} (hk : 1 ≤ k) (hb : b ∈ builds)
    (h : ∀ c ∈ builds, c ≠ b → finalizedText c < finalizedText b) :
    b ∈ firstInQueryOrder k builds := by
  have hsorted := List.pairwise_insertionSort Database.BuildNewer builds
  have hperm := List.perm_insertionSort Database.BuildNewer builds
  unfold firstInQueryOrder
  generalize builds.insertionSort Database.BuildNewer = sorted at hsorted hperm ⊢
  have hm := hperm.mem_iff.mpr hb
  cases sorted with
  | nil => simp at hm
  | cons first rest =>
    obtain ⟨k, rfl⟩ : ∃ j, k = j + 1 := ⟨k - 1, by omega⟩
    rw [List.take_succ_cons]
    by_cases hf : first = b
    · exact hf ▸ List.mem_cons_self
    · have hr : b ∈ rest := (List.mem_cons.mp hm).resolve_left (Ne.symm hf)
      have hle := BuildNewer.text_le ((List.pairwise_cons.mp hsorted).1 b hr)
      exact absurd (h first (hperm.mem_iff.mp List.mem_cons_self) hf) (not_lt.mpr hle)

end

section

variable {A B : Type} {now : UtcDateTime} {db : Database}

theorem lookedUp_bind {p : Action A} (hp : p.Direct Call.LooksUp) (f : A → Action B) :
    lookedUp now (p.bind f) db =
      match lookedUp now p db with
      | .ok a => lookedUp now (f a) db
      | .error x => .error x := by
  obtain ⟨count, h⟩ := machine.exec_bind p f (fun _ => quietAt now) ⟨db, fun _ _ => none⟩
  have hadmits : ∀ e, e = quietAt now → e.now = now := fun _ he => he ▸ rfl
  have hstate : (machine.exec p (fun _ => quietAt now) ⟨db, fun _ _ => none⟩).1 =
      ⟨db, fun _ _ => none⟩ :=
    (Machine.exec_of_wp (wp_lookedUp hp hadmits) (fun _ => rfl)).1
  simp only [lookedUp, h, hstate]
  cases (machine.exec p (fun _ => quietAt now) ⟨db, fun _ _ => none⟩).2 <;> rfl

theorem lookedUp_select (query : Database → B) :
    lookedUp now (select query) db = .ok (query db) := rfl

theorem lookedUp_projectIdBySlug {p : ProjectRow} (hp : p ∈ db.projects.rows) :
    lookedUp now (projectIdBySlug p.slug) db = .ok p.id := by
  have hslug : db.projectBySlug p.slug = some p := Database.projectBySlug_eq_some.mpr ⟨hp, rfl⟩
  refine (lookedUp_bind (looks_select (fun _ _ => rfl)) _).trans ?_
  rw [lookedUp_select, hslug]
  rfl

variable [WildMatch]

structure Keeps (now : UtcDateTime) (db : Database) (ref : ProjectRefRow) (p : ProjectRow)
    (k : Nat) : Prop where
  project : p ∈ db.projects.rows
  owns : p.id = ref.projectId
  rule : ∃ policy rule, lookedUp now (getProjectRetentionPolicy p.slug) db = .ok policy ∧
    matchingRetentionRule policy.rules ref.refName = some rule ∧
      lookedUp now (refIsActive ref.updatedAt rule.ttlSeconds) db = .ok true ∧
        (rule.keepBuilds.getD policy.keepLatestBuildsPerRef).toNat = k

def contribution (now : UtcDateTime) (db : Database) (ref : ProjectRefRow) (p : ProjectRow) :
    Except Error (List Uuid) :=
  lookedUp now (retainedBuildIdsOfRef p.slug ref.refName ref.updatedAt) db

theorem contribution_of_keeps {ref : ProjectRefRow} {p : ProjectRow} {k : Nat}
    (h : Keeps now db ref p k) :
    contribution now db ref p =
      .ok ((firstInQueryOrder k
        (db.finalizedBuilds ref.projectId ref.refName)).map BuildRow.id) := by
  obtain ⟨policy, rule, hpolicy, hrule, hactive, rfl⟩ := h.rule
  rw [contribution]
  refine (lookedUp_bind (looks_getProjectRetentionPolicy p.slug) _).trans ?_
  rw [hpolicy]
  simp only [hrule]
  refine (lookedUp_bind (looks_refIsActive ref.updatedAt rule.ttlSeconds) _).trans ?_
  rw [hactive]
  simp only [not_true_eq_false, if_false]
  refine (lookedUp_bind (looks_projectIdBySlug p.slug) _).trans ?_
  rw [lookedUp_projectIdBySlug h.project, h.owns]
  rfl

theorem mem_retainedOfRefs {refs : List (ProjectSlug × Text × SqliteTime)} {all : List Uuid}
    (h : lookedUp now (retainedBuildIdsOfRefs refs) db = .ok all) (id : Uuid) :
    id ∈ all ↔ ∃ ref ∈ refs, ∃ ids,
      lookedUp now (retainedBuildIdsOfRef ref.1 ref.2.1 ref.2.2) db = .ok ids ∧ id ∈ ids := by
  induction refs generalizing all with
  | nil =>
    cases h
    simp
  | cons ref rest ih =>
    have h := (lookedUp_bind (looks_retainedBuildIdsOfRef ref.1 ref.2.1 ref.2.2) _).symm.trans h
    cases hids : lookedUp now (retainedBuildIdsOfRef ref.1 ref.2.1 ref.2.2) db with
    | error x => simp [hids] at h
    | ok ids =>
      simp only [hids] at h
      have h := (lookedUp_bind (looks_retainedBuildIdsOfRefs rest) _).symm.trans h
      cases hothers : lookedUp now (retainedBuildIdsOfRefs rest) db with
      | error x => simp [hothers] at h
      | ok others =>
        simp only [hothers] at h
        cases h
        simp [ih hothers, hids]

theorem mem_retainedBuilds {all : List Uuid} (h : retainedBuilds now db = .ok all) (id : Uuid) :
    id ∈ all ↔ ∃ ref ∈ db.projectRefs.rows, ∃ p ∈ db.projects.rows, p.id = ref.projectId ∧
      ∃ ids, contribution now db ref p = .ok ids ∧ id ∈ ids := by
  have h := (lookedUp_bind (looks_select (fun _ _ => rfl)) _).symm.trans h
  rw [lookedUp_select] at h
  have h := (lookedUp_bind (looks_retainedBuildIdsOfRefs _) _).symm.trans h
  cases hall : lookedUp now (retainedBuildIdsOfRefs db.projectRefsForRetention) db with
  | error x => simp [hall] at h
  | ok found =>
    simp only [hall] at h
    cases h
    rw [List.mem_dedup, List.mem_insertionSort, mem_retainedOfRefs hall]
    simp only [Database.projectRefsForRetention, List.mem_insertionSort, List.mem_flatMap,
      List.mem_map, List.mem_filter, decide_eq_true_eq, contribution]
    constructor
    · rintro ⟨_, ⟨ref, href, p, ⟨hp, hid⟩, rfl⟩, ids, hids⟩
      exact ⟨ref, href, p, hp, hid, ids, hids⟩
    · rintro ⟨ref, href, p, hp, hid, ids, hids⟩
      exact ⟨_, ⟨ref, href, p, ⟨hp, hid⟩, rfl⟩, ids, hids⟩

end

section

variable [Base64] [WildMatch] {r : ServerRun}

def PublishesApart (r : ServerRun) : Prop :=
  ∀ n, ∀ q ∈ r.publishes n, ∀ c ∈ (r.db n).finalizedBuilds q.projectId q.refName,
    c.id ≠ q.buildId → ∀ t ∈ c.finalizedAt, Apart q.finalizedAt t

omit [Base64] [WildMatch] in
theorem mem_finalizedBuilds {db : Database} {projectId : Uuid} {refName : Text} {b : BuildRow} :
    b ∈ db.finalizedBuilds projectId refName ↔ b ∈ db.builds.rows ∧ b.projectId = projectId ∧
      b.refName = refName ∧ b.status = .finalized ∧ b.finalizedAt.isSome = true := by
  simp [Database.finalizedBuilds, and_assoc]

theorem finalizedBuilds_step {n : Nat} {projectId : Uuid} {refName : Text} {c : BuildRow}
    (hc : c ∈ (r.db (n + 1)).finalizedBuilds projectId refName) :
    c ∈ (r.db n).finalizedBuilds projectId refName ∨
      ∃ q ∈ r.publishes n, q.buildId = c.id ∧ q.projectId = projectId ∧ q.refName = refName ∧
        c.finalizedAt = some q.finalizedAt := by
  obtain ⟨hm, hproject, href, hstatus, hfinal⟩ := mem_finalizedBuilds.mp hc
  rcases (r.publishing n).build c hm with hold | ⟨-, hnone, -⟩ | ⟨q, hq, hid, old, hold, rfl⟩
  · exact Or.inl (mem_finalizedBuilds.mpr ⟨hold, hproject, href, hstatus, hfinal⟩)
  · rw [hnone] at hfinal
    cases hfinal
  · obtain ⟨-, -, -, howner, -⟩ := publisher hq
    obtain ⟨hp, hn⟩ := howner old hold hid.symm
    exact Or.inr ⟨q, hq, hid, hp.symm.trans hproject, hn.symm.trans href, rfl⟩

theorem allApart (r : FreshRun) (h : PublishesApart r.toServerRun) (n : Nat) (projectId : Uuid)
    (refName : Text) : AllApart ((r.db n).finalizedBuilds projectId refName) := by
  induction n with
  | zero =>
    have hempty : (r.db 0).builds.rows = [] := by
      simp [ServerRun.db, ServerRun.world, ServerRun.pool, Pool.run, r.empty]
    simp [AllApart, Database.finalizedBuilds, hempty]
  | succ n ih =>
    have hnew : ∀ c ∈ (r.db (n + 1)).finalizedBuilds projectId refName, ∀ q ∈ r.publishes n,
        q.projectId = projectId → q.refName = refName → c.id ≠ q.buildId →
          ∀ t ∈ c.finalizedAt, Apart q.finalizedAt t := by
      intro c hc q hq hp hn hne
      rcases finalizedBuilds_step hc with hold | ⟨q', hq', hid, -⟩
      · exact h n q hq c (hp ▸ hn ▸ hold) hne
      · exact absurd (hid.symm.trans (congrArg Publication.buildId (Option.mem_unique hq' hq))) hne
    intro a ha b hb hab t ht u hu
    have hid : a.id ≠ b.id := fun hid => hab (Table.eq_of_clash (mem_finalizedBuilds.mp ha).1
      (mem_finalizedBuilds.mp hb).1 (by simp [Keyed.clash, hid]))
    rcases finalizedBuilds_step ha with haold | ⟨q, hq, hqa, hp, hn, hat⟩
    · rcases finalizedBuilds_step hb with hbold | ⟨q, hq, hqb, hp, hn, hbt⟩
      · exact ih a haold b hbold hab t ht u hu
      · obtain rfl := Option.mem_unique hu hbt
        exact (hnew a ha q hq hp hn (hqb ▸ hid) t ht).symm
    · obtain rfl := Option.mem_unique ht hat
      exact hnew b hb q hq hp hn (hqa ▸ hid.symm) u hu

structure PointsToLast (db : Database) (ref : ProjectRefRow) (b : BuildRow) : Prop where
  id : b.id = ref.buildId
  finalized : b ∈ db.finalizedBuilds ref.projectId ref.refName
  last : ∀ c ∈ db.finalizedBuilds ref.projectId ref.refName, c ≠ b →
    finalizedText c < finalizedText b

theorem text_lt_of_published (r : FreshRun) (h : PublishesApart r.toServerRun)
    (ha : FinalizedApart r.toServerRun) (hclock : ClockNeverBack r.toServerRun) {n : Nat}
    {q : Publication} (hq : q ∈ r.publishes n) {c : BuildRow}
    (hc : c ∈ (r.db n).finalizedBuilds q.projectId q.refName) (hne : c.id ≠ q.buildId) :
    finalizedText c < q.finalizedAt.format := by
  obtain ⟨hm, -, -, -, hfinal⟩ := mem_finalizedBuilds.mp hc
  obtain ⟨t, ht⟩ := Option.isSome_iff_exists.mp hfinal
  obtain ⟨m, hmn, q', hq', hid, rfl⟩ := finalizedAt_published r n c hm t ht
  have hapart := (h n q hq c hc hne _ ht).symm
  have hle := finalizedAt_le ha hclock hmn hq' hq (hid ▸ hne)
  rw [finalizedText, ht]
  exact (format_lt_of_apart hapart).mpr (lt_of_le_of_ne hle (instant_ne_of_apart hapart))

theorem pointsToLast (r : FreshRun) (h : PublishesApart r.toServerRun)
    (ha : FinalizedApart r.toServerRun) (hclock : ClockNeverBack r.toServerRun) (n : Nat) :
    ∀ ref ∈ (r.db n).projectRefs.rows, ∃ b, PointsToLast (r.db n) ref b := by
  induction n with
  | zero =>
    have hempty : (r.db 0).projectRefs.rows = [] := by
      simp [ServerRun.db, ServerRun.world, ServerRun.pool, Pool.run, r.empty]
    simp [hempty]
  | succ n ih =>
    intro ref href
    rcases (r.publishing n).ref ref href with ⟨hold, hother⟩ | ⟨q, hq, hp, hn, hb, -⟩
    · obtain ⟨b, hb⟩ := ih ref hold
      obtain ⟨hbm, hbp, hbn, hbs, hbf⟩ := mem_finalizedBuilds.mp hb.finalized
      have hkept : b ∈ (r.db (n + 1)).builds.rows := by
        refine (r.publishing n).kept b hbm (fun q hq hid => hother q hq ?_)
        obtain ⟨-, -, -, howner, -⟩ := publisher hq
        obtain ⟨hqp, hqn⟩ := howner b hbm hid.symm
        exact ⟨hqp.symm.trans hbp, hqn.symm.trans hbn⟩
      refine ⟨b, hb.id, mem_finalizedBuilds.mpr ⟨hkept, hbp, hbn, hbs, hbf⟩, fun c hc hne => ?_⟩
      rcases finalizedBuilds_step hc with hcold | ⟨q, hq, -, hqp, hqn, -⟩
      · exact hb.last c hcold hne
      · exact absurd ⟨hqp, hqn⟩ (hother q hq)
    · obtain ⟨old, hold, hid, hmarked⟩ := (r.publishing n).published q hq
      obtain ⟨-, -, -, howner, -⟩ := publisher hq
      obtain ⟨hqp, hqn⟩ := howner old hold hid
      refine ⟨Database.markFinalized q.finalizedAt old, hid.trans hb, mem_finalizedBuilds.mpr
        ⟨hmarked, hqp.trans hp, hqn.trans hn, rfl, rfl⟩, fun c hc hne => ?_⟩
      have hcid : c.id ≠ q.buildId := fun hcid => hne (Table.eq_of_clash
        (mem_finalizedBuilds.mp hc).1 hmarked
        (by simp [Keyed.clash, hcid, hid, Database.markFinalized]))
      rcases finalizedBuilds_step hc with hcold | ⟨q', hq', hcq, -⟩
      · exact text_lt_of_published r h ha hclock hq (hp ▸ hn ▸ hcold) hcid
      · exact absurd (hcq.symm.trans (congrArg Publication.buildId (Option.mem_unique hq' hq))) hcid

def KeepsNewest (db : Database) : Prop :=
  ∀ now, ∀ ref ∈ db.projectRefs.rows, ∀ p k, Keeps now db ref p k → 1 ≤ k →
    ∃ kept, contribution now db ref p = .ok (kept.map BuildRow.id) ∧
      Latest k kept (db.finalizedBuilds ref.projectId ref.refName)

def KeepsCurrent (db : Database) : Prop :=
  ∀ now, ∀ ref ∈ db.projectRefs.rows, ∀ p k, Keeps now db ref p k → 1 ≤ k →
    ∃ ids, contribution now db ref p = .ok ids ∧ ref.buildId ∈ ids

theorem newest_builds_kept (r : FreshRun) (h : PublishesApart r.toServerRun) :
    (∀ n, KeepsNewest (r.db n)) ∧
      (FinalizedApart r.toServerRun → ClockNeverBack r.toServerRun →
        ∀ n, KeepsCurrent (r.db n)) := by
  constructor
  · intro n now ref href p k hk _
    exact ⟨_, contribution_of_keeps hk, latest_firstInQueryOrder (allApart r h n _ _) k⟩
  · intro ha hclock n now ref href p k hk hpos
    obtain ⟨b, hb⟩ := pointsToLast r h ha hclock n ref href
    refine ⟨_, contribution_of_keeps hk, List.mem_map.mpr ⟨b, ?_, hb.id⟩⟩
    exact mem_firstInQueryOrder hpos hb.finalized hb.last

end

section Examples

attribute [local instance] standardBase64 standardWildMatch

def twoBuildsScript : List (Choice Request) :=
  uploadedScript ++ [.submit (.finalizeBuild 5)] ++ advances 4 10 ++
  [.submit (.beginBuild exampleSlug.text "main".toList none)] ++ advances 5 4 ++
  [.submit (.registerPaths 39 [helloPayload])] ++ advances 6 12 ++
  [.submit (.finalizeBuild 39)] ++ advances 7 10

def twoBuilds (now : Nat → UtcDateTime) : FreshRun where
  server := exampleServer
  start := ⟨{}, fun _ _ => none⟩
  schedule := {
    choice := fun n => twoBuildsScript.getD n .idle
    env := fun n => { moment n with now := now n } }
  empty := nothing_stored

def ticking (n : Nat) : UtcDateTime := ⟨noon, min n 100, by omega⟩

theorem twoBuilds_idle {now : Nat → UtcDateTime} {n : Nat} (h : 66 ≤ n) :
    (twoBuilds now).schedule.choice n = .idle := by
  have hlen : twoBuildsScript.length = 66 := by decide
  simp [twoBuilds, List.getD, List.getElem?_eq_none (hlen ▸ h)]

theorem twoBuilds_pool {now : Nat → UtcDateTime} {n : Nat} (h : 66 ≤ n) :
    (twoBuilds now).pool n = (twoBuilds now).pool 66 := by
  induction n, h using Nat.le_induction with
  | base => rfl
  | succ n h ih =>
    rw [← ih]
    change ((twoBuilds now).pool n).next _ ((twoBuilds now).schedule.choice n) _ = _
    rw [twoBuilds_idle h]
    rfl

theorem ticking_publishesApart : PublishesApart (twoBuilds ticking).toServerRun := by
  have hrun : (∀ n < 66, (twoBuilds ticking).publishes n = none ∨ n = 36 ∨ n = 65) ∧
      (twoBuilds ticking).publishes 36 = some ⟨1, "main".toList, 5, ticking 35⟩ ∧
      ((twoBuilds ticking).db 36).finalizedBuilds 1 "main".toList = [] ∧
      (twoBuilds ticking).publishes 65 = some ⟨1, "main".toList, 39, ticking 64⟩ ∧
      (((twoBuilds ticking).db 65).finalizedBuilds 1 "main".toList).map BuildRow.finalizedAt =
        [some (ticking 35)] := by decide +kernel
  obtain ⟨hnone, hfirst, hempty, hsecond, hone⟩ := hrun
  intro n q hq c hc hne t ht
  have hn : n = 36 ∨ n = 65 := by
    by_cases hlt : n < 66
    · refine (hnone n hlt).resolve_left (fun h => ?_)
      rw [h] at hq
      cases hq
    · obtain ⟨i, -, -, hi, -⟩ := publication_atCall hq
      rw [twoBuilds_idle (Nat.not_lt.mp hlt)] at hi
      cases hi
  rcases hn with rfl | rfl
  · rw [hfirst] at hq
    cases hq
    rw [hempty] at hc
    cases hc
  · rw [hsecond] at hq
    cases hq
    have hmem := List.mem_map_of_mem (f := BuildRow.finalizedAt) hc
    rw [hone, List.mem_singleton, Option.mem_def.mp ht, Option.some.injEq] at hmem
    rw [hmem]
    decide +kernel

theorem finalizing_index {i : Nat}
    (h : [false, false, false, false, true, false, false, true][i]? = some true) :
    i = 4 ∨ i = 7 := by
  match i, h with
  | 4, _ => exact Or.inl rfl
  | 7, _ => exact Or.inr rfl

theorem ticking_finalizedApart : FinalizedApart (twoBuilds ticking).toServerRun := by
  have hrun : (((twoBuilds ticking).pool 66).tasks.map (fun task =>
        match task.request with
        | .finalizeBuild _ => true
        | _ => false)) = [false, false, false, false, true, false, false, true] ∧
      ((twoBuilds ticking).pool 55).tasks.length = 7 ∧
      ((twoBuilds ticking).pool 55).tasks[4]?.map Task.running = some false := by decide +kernel
  obtain ⟨hrequests, hlen, hdone⟩ := hrun
  have hwho : ∀ n i b, (twoBuilds ticking).Works i n (.finalizeBuild b) → i = 4 ∨ i = 7 := by
    rintro n i b ⟨rest, hrest, -⟩
    obtain ⟨last, hlast⟩ : ∃ last, ((twoBuilds ticking).pool 66).tasks[i]? =
        some ⟨.finalizeBuild b, last⟩ := by
      rcases Nat.le_total n 66 with h | h
      · exact Pool.request_of_le h hrest
      · exact ⟨rest, twoBuilds_pool h ▸ hrest⟩
    refine finalizing_index ?_
    rw [← hrequests, List.getElem?_map, hlast]
    rfl
  have hfirst : ∀ n b c, (twoBuilds ticking).Works 4 n (.finalizeBuild b) →
      ¬ (twoBuilds ticking).Works 7 n (.finalizeBuild c) := by
    rintro n b c ⟨rest, hrest, hrunning⟩ ⟨rest', hrest', -⟩
    have hn : 55 < n := by
      by_contra hle
      obtain ⟨last, hlast⟩ : ∃ last, ((twoBuilds ticking).pool 55).tasks[7]? =
          some ⟨.finalizeBuild c, last⟩ := Pool.request_of_le (Nat.not_lt.mp hle) hrest'
      rw [List.getElem?_eq_none hlen.le] at hlast
      cases hlast
    obtain ⟨⟨q, p⟩, htask, hstopped⟩ := Option.map_eq_some_iff.mp hdone
    cases p with
    | call _ _ => cases hstopped
    | done x =>
      have hlater := Pool.done_of_le hn.le htask
      have heq := Option.some.inj (hrest.symm.trans hlater)
      injection heq with _ heq
      subst heq
      cases hrunning
  intro n i j b c hij hi hj
  rcases hwho n i b hi with rfl | rfl <;> rcases hwho n j c hj with rfl | rfl
  · exact hij rfl
  · exact hfirst n b c hi hj
  · exact hfirst n c b hj hi
  · exact hij rfl

theorem ticking_clockNeverBack : ClockNeverBack (twoBuilds ticking).toServerRun := by
  intro m n hmn
  simp only [twoBuilds, ticking, UtcDateTime.instant, UtcDateTime.toOffset, OffsetDateTime.instant]
  omega

theorem ticking_builds_kept : KeepsNewest ((twoBuilds ticking).db 66) ∧
    KeepsCurrent ((twoBuilds ticking).db 66) :=
  ⟨(newest_builds_kept (twoBuilds ticking) ticking_publishesApart).1 66,
    (newest_builds_kept (twoBuilds ticking) ticking_publishesApart).2 ticking_finalizedApart
      ticking_clockNeverBack 66⟩

def half (n : Nat) : UtcDateTime :=
  if n < 50 then .whole noon else ⟨noon, 500000000, by decide⟩

def mainRef : ProjectRefRow := ⟨1, "main".toList, 39, .whole noon⟩

def exampleProject : ProjectRow := ⟨1, exampleSlug, "Example".toList, true, .main⟩

def defaultPolicy : ProjectRetentionPolicyRecord where
  projectSlug := exampleSlug
  inheritedDefault := true
  keepLatestBuildsPerRef := DEFAULT_KEEP_LATEST_BUILDS_PER_REF
  objectDeleteGraceSeconds := DEFAULT_OBJECT_DELETE_GRACE_SECONDS
  rules := defaultRetentionRules

def idAndTime (b : BuildRow) : Uuid × Option UtcDateTime := (b.id, b.finalizedAt)

theorem not_latest {builds kept : List BuildRow} {x y : Uuid} {t u : UtcDateTime} {k : Nat}
    (hb : builds.map idAndTime = [(x, some t), (y, some u)]) (hxy : x ≠ y)
    (htu : t.instant < u.instant) (hk : kept.map BuildRow.id = [x]) : ¬ Latest k kept builds := by
  rintro ⟨dropped, hperm, -, hlatest⟩
  obtain ⟨first, rest, rfl, rfl, hrest⟩ := List.map_eq_cons_iff.mp hk
  obtain rfl := List.map_eq_nil_iff.mp hrest
  have hmem : ∀ b ∈ builds, idAndTime b = (first.id, some t) ∨ idAndTime b = (y, some u) := by
    intro b h
    have hm := List.mem_map_of_mem (f := idAndTime) h
    simpa [hb] using hm
  have htime : first.finalizedAt = some t := by
    rcases hmem first (hperm.mem_iff.mp (by simp)) with h | h
    · exact congrArg Prod.snd h
    · exact absurd (congrArg Prod.fst h) hxy
  obtain ⟨last, hlast, hvalues⟩ : ∃ last ∈ builds, idAndTime last = (y, some u) :=
    List.mem_map.mp (by simp [hb])
  have hdropped : last ∈ dropped := by
    have hm : last = first ∨ last ∈ dropped := by simpa using hperm.mem_iff.mpr hlast
    refine hm.resolve_left ?_
    rintro rfl
    exact hxy (congrArg Prod.fst hvalues)
  exact absurd (hlatest first (by simp) last hdropped t htime u (congrArg Prod.snd hvalues))
    (not_le.mpr htu)

theorem half_second_dropped : ¬ KeepsNewest ((twoBuilds half).db 66) ∧
    ¬ KeepsCurrent ((twoBuilds half).db 66) := by
  have hrun : mainRef ∈ ((twoBuilds half).db 66).projectRefs.rows ∧
      exampleProject ∈ ((twoBuilds half).db 66).projects.rows ∧
      (lookedUp (half 66) (getProjectRetentionPolicy exampleSlug)
        ((twoBuilds half).db 66)).toOption = some defaultPolicy ∧
      matchingRetentionRule defaultPolicy.rules "main".toList =
        some ⟨90, "*".toList, some (30 * 24 * 60 * 60), some 1⟩ ∧
      (lookedUp (half 66) (refIsActive mainRef.updatedAt (some (30 * 24 * 60 * 60)))
        ((twoBuilds half).db 66)).toOption = some true ∧
      (contribution (half 66) ((twoBuilds half).db 66) mainRef exampleProject).toOption =
        some [5] ∧
      (((twoBuilds half).db 66).finalizedBuilds 1 "main".toList).map
        idAndTime = [(5, some (half 0)), (39, some (half 50))] := by
    decide +kernel
  obtain ⟨href, hproject, hpolicy, hrule, hactive, hids, hbuilds⟩ := hrun
  have hk : Keeps (half 66) ((twoBuilds half).db 66) mainRef exampleProject 1 :=
    { project := hproject
      owns := rfl
      rule := ⟨defaultPolicy, _, eq_ok_of_toOption hpolicy, hrule, eq_ok_of_toOption hactive,
        rfl⟩ }
  constructor
  · intro h
    obtain ⟨kept, hkept, hlatest⟩ := h _ _ href _ _ hk (le_refl 1)
    rw [eq_ok_of_toOption hids, Except.ok.injEq] at hkept
    exact not_latest hbuilds (by decide) (by decide +kernel) hkept.symm hlatest
  · intro h
    obtain ⟨ids, hcontributed, hmem⟩ := h _ _ href _ _ hk (le_refl 1)
    rw [eq_ok_of_toOption hids, Except.ok.injEq] at hcontributed
    subst hcontributed
    revert hmem
    decide

end Examples

end Recency
