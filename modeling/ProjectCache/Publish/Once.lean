import ProjectCache.Depot.Runs
import ProjectCache.Ingest.Rules

namespace PublishOnce

open Textual Nix Project Calendar Tables Store Db Programs Ingest Depot Depot.Server
  SqliteDatabase

section

variable [Base64] [WildMatch] (r : ServerRun)

def PublishedAtMostOnce : Prop :=
  ∀ m n, m < n → ∀ p ∈ r.publishes m, ∀ q ∈ r.publishes n, p.buildId ≠ q.buildId

def RefsNeverMoveBack : Prop :=
  ∀ m n k, m < n → n < k → ∀ p ∈ r.publishes m, ∀ q ∈ r.publishes n,
    p.projectId = q.projectId → p.refName = q.refName → p.buildId ≠ q.buildId →
    ∀ ref ∈ (r.db k).projectRefs.rows, ref.projectId = p.projectId → ref.refName = p.refName →
      ref.buildId ≠ p.buildId

def FinalizedAtNeverChanges : Prop :=
  ∀ m n, m ≤ n → ∀ b ∈ (r.db m).builds.rows, b.finalizedAt.isSome = true →
    ∃ c ∈ (r.db n).builds.rows, c.id = b.id ∧ c.finalizedAt = b.finalizedAt

def PublishesPendingBuilds : Prop :=
  ∀ n, ∀ p ∈ r.publishes n, ∀ b ∈ (r.db n).builds.rows, b.id = p.buildId → b.status = .pending

def FinalizedOneByOne : Prop :=
  ∀ n i j b, i ≠ j → r.Works i n (.finalizeBuild b) → ¬ r.Works j n (.finalizeBuild b)

variable {r}

structure Consistent (r : ServerRun) (n : Nat) : Prop where
  finalized : ∀ b ∈ (r.db n).builds.rows, b.status = .finalized ↔ b.finalizedAt.isSome = true
  published : ∀ b ∈ (r.db n).builds.rows, b.status = .finalized →
    ∃ m < n, ∃ p ∈ r.publishes m, p.buildId = b.id

theorem consistent (r : FreshRun) (n : Nat) : Consistent r.toServerRun n := by
  induction n with
  | zero =>
    have hempty : (r.db 0).builds.rows = [] := by
      simp [ServerRun.db, ServerRun.world, ServerRun.pool, Pool.run, r.empty]
    exact ⟨by simp [hempty], by simp [hempty]⟩
  | succ n ih =>
    have hstep := r.publishing n
    constructor
    · intro b hb
      rcases hstep.build b hb with hr | ⟨hs, hf, -⟩ | ⟨q, hq, hqb, c, hc, rfl⟩
      · exact ih.finalized b hr
      · simp [hs, hf]
      · simp [Database.markFinalized]
    · intro b hb hs
      rcases hstep.build b hb with hr | ⟨hp, -, -⟩ | ⟨q, hq, hqb, -⟩
      · obtain ⟨m, hm, h⟩ := ih.published b hr hs
        exact ⟨m, by omega, h⟩
      · rw [hp] at hs
        cases hs
      · exact ⟨n, by omega, q, hq, hqb⟩

theorem finalized_after {m n : Nat} {p : Publication} (hmn : m < n) (hp : p ∈ r.publishes m) :
    ∃ b ∈ (r.db n).builds.rows, b.id = p.buildId ∧ b.status = .finalized := by
  obtain ⟨b, hb, hid, hm⟩ := (r.publishing m).published p hp
  obtain ⟨c, hc, hci, -, -, hcs⟩ := (ServerRun.grows_le hmn).builds _ hm
  exact ⟨c, hc, hci.trans hid, hcs rfl⟩

theorem publishedAtMostOnce (h : PublishesPendingBuilds r) : PublishedAtMostOnce r := by
  intro m n hmn p hp q hq heq
  obtain ⟨b, hb, hid, hs⟩ := finalized_after hmn hp
  have hpending := h n q hq b hb (hid.trans heq)
  rw [hs] at hpending
  cases hpending

theorem publishesPendingBuilds {r : FreshRun} (h : PublishedAtMostOnce r.toServerRun) :
    PublishesPendingBuilds r.toServerRun := by
  intro n q hq b hb hid
  cases hs : b.status with
  | pending => rfl
  | finalized =>
    obtain ⟨m, hm, p, hp, hpb⟩ := (consistent r n).published b hb hs
    exact absurd (hpb.trans hid) (h m n hm p hp q hq)

theorem refsNeverMoveBack (h : PublishedAtMostOnce r) : RefsNeverMoveBack r := by
  intro m n k hmn hnk p hp q hq hproject href hne
  obtain ⟨k, rfl⟩ : ∃ d, k = n + 1 + d := ⟨k - (n + 1), by omega⟩
  clear hnk
  induction k with
  | zero =>
    intro ref hr hrp hrr heq
    rcases (r.publishing n).ref ref hr with ⟨-, hno⟩ | ⟨q', hq', -, -, hb, -⟩
    · exact hno q hq ⟨hproject ▸ hrp.symm, href ▸ hrr.symm⟩
    · obtain rfl := Option.mem_unique hq hq'
      exact hne (heq.symm.trans hb.symm)
  | succ k ih =>
    intro ref hr hrp hrr heq
    rcases (r.publishing (n + 1 + k)).ref ref hr with ⟨hold, -⟩ | ⟨s, hs, -, -, hb, -⟩
    · exact ih ref hold hrp hrr heq
    · exact h m (n + 1 + k) (by omega) p hp s hs (heq.symm.trans hb.symm)

theorem finalizedAtNeverChanges {r : FreshRun} (h : PublishesPendingBuilds r.toServerRun) :
    FinalizedAtNeverChanges r.toServerRun := by
  intro m n hmn b hb hf
  induction n, hmn using Nat.le_induction with
  | base => exact ⟨b, hb, rfl, rfl⟩
  | succ n hmn ih =>
    obtain ⟨c, hc, hci, hcf⟩ := ih
    refine ⟨c, (r.publishing n).kept c hc (fun q hq hid => ?_), hci, hcf⟩
    have hpending := h n q hq c hc hid.symm
    have hfinal := ((consistent r n).finalized c hc).mpr (hcf ▸ hf)
    rw [hpending] at hfinal
    cases hfinal

def PendingIn (b : Uuid) (w : World) : Prop :=
  ∀ row ∈ w.db.builds.rows, row.id = b → row.status = .pending

def publishes (b : Uuid) : Call → Bool
  | .publishBuild _ _ b' _ => b' = b
  | _ => false

omit [Base64] [WildMatch] in
theorem pendingIn_answer {b : Uuid} {c : Call} {e : Env} {w : World} (hc : publishes b c = false)
    (h : PendingIn b w) : PendingIn b (answer c e w).1 := by
  intro row hrow hid
  rcases (answer_publishing c e w).build row hrow with hr | ⟨hs, -, -⟩ | ⟨q, hq, hqb, -⟩
  · exact h row hr hid
  · exact hs
  · obtain rfl := mem_publicationOf hq
    simp only [publishes, decide_eq_false_iff_not] at hc
    exact absurd (hqb.trans hid) hc

omit [Base64] [WildMatch] in
theorem pendingIn_of_context {b : Uuid} {w : World} {context : BuildContextRecord}
    (hc : w.db.buildContext b = some context) (hs : context.status = .pending) :
    PendingIn b w := by
  intro row hrow hid
  simp only [Database.buildContext, Option.bind_eq_bind, Option.bind_eq_some_iff, Option.pure_def,
    Option.some.injEq] at hc
  obtain ⟨r, hr, p, -, rfl⟩ := hc
  obtain ⟨hrm, hri⟩ := Database.build_eq_some.mp hr
  obtain rfl := Table.eq_of_clash hrow hrm (by simp [Keyed.clash, hid, hri])
  exact hs

def finalizing (b : Uuid) : machine.Surrounding where
  later := fun v w => PendingIn b v → PendingIn b w
  admits := fun _ _ => True

def PublishesPending (b : Uuid) (c : Call) (w : World) : Prop :=
  publishes b c = true → PendingIn b w

omit [Base64] [WildMatch] in
theorem publishes_of_reads {b : Uuid} (c : Call) (h : c.reads = true) : publishes b c = false := by
  cases c <;> first | rfl | cases h

section

variable {A B : Type} {b : Uuid} {w : World}

omit [Base64] [WildMatch] in
theorem outline_before {p : Action A} {f : A → Action B}
    (hp : p.Uses (fun c => publishes b c = false)) (hw : PendingIn b w)
    (hf : ∀ a v, PendingIn b v → Outline (finalizing b) (fun c _ v _ => PublishesPending b c v)
      (fun _ _ => True) (f a) v) :
    Outline (finalizing b) (fun c _ v _ => PublishesPending b c v) (fun _ _ => True) (p.bind f)
      w := by
  have hinvariant : Outline (finalizing b)
      (fun c _ v _ => publishes b c = false ∧ PendingIn b v) (fun _ v => PendingIn b v) p w :=
    Outline.of_invariant (M := machine) (PendingIn b) (fun _ _ hl => hl)
      (fun c e t hc _ ht => pendingIn_answer hc ht) hp hw
  refine Outline.bind (hinvariant.mono (fun c e t rest _ hc _ => hc.2) (fun x t ht => ?_))
  cases x with
  | ok a => exact hf a t ht
  | error x => trivial

end

omit [Base64] [WildMatch] in
theorem finalizeBuild_outline (service : IngestService) (b : Uuid) (w : World) :
    Outline (finalizing b) (fun c _ v _ => PublishesPending b c v) (fun _ _ => True)
      (service.finalizeBuild b) w := by
  have hr : ∀ c : Call, c.reads = true → publishes b c = false := publishes_of_reads
  refine Outline.bind (outline_pendingBuildContext
    (fun _ _ _ _ => (fun hp => nomatch hp)) (fun v hv => ⟨?_, fun _ => trivial⟩))
  intro context hc hs
  refine outline_before (uses_select hr _) (pendingIn_of_context hc hs) (fun paths v hw => ?_)
  split
  · trivial
  refine outline_before (uses_projectUpstreams hr _) hw (fun upstreams v hw => ?_)
  refine outline_before (uses_storageForProject hr _ _) hw (fun (storageId, storage) v hw => ?_)
  refine outline_before (uses_finalizePaths hr (fun _ _ _ => rfl) (fun _ _ => rfl) _ _ _ _ _) hw
    (fun _ v hw => ?_)
  refine outline_before (uses_projectIdBySlug hr _) hw (fun projectId v hw => ?_)
  refine outline_before (uses_reading hr rfl) hw (fun finalizedAt v hw => ?_)
  exact fun u hu e _ => ⟨fun _ => hu hw, trivial⟩

theorem program_finalizeBuild_outline (server : Server) (b : Uuid) (w : World) :
    Outline (finalizing b) (fun c _ v _ => PublishesPending b c v) (fun _ _ => True)
      (server.program (.finalizeBuild b)) w := by
  refine Outline.bind ((finalizeBuild_outline server.ingestService b w).mono
    (fun _ _ _ _ _ hc => hc) (fun x _ _ => ?_))
  cases x <;> trivial

theorem pendingIn_step (h : FinalizedOneByOne r) {b : Uuid} (n i : Nat)
    (hi : r.schedule.choice n ≠ .advance i) (hw : r.Works i n (.finalizeBuild b))
    (hp : PendingIn b (r.world n)) : PendingIn b (r.world (n + 1)) := by
  have hm := r.moves n
  have hwithin := ServerRun.within (r := r) n
  have hone := h n
  unfold ServerRun.world at hp ⊢
  unfold ServerRun.Works at hw hone
  generalize r.pool n = a, r.pool (n + 1) = d at hm hp hw hone hwithin ⊢
  cases hm with
  | submit q hq => exact hp
  | stay => exact hp
  | advance j q c resume hj hc =>
    refine pendingIn_answer (Bool.eq_false_iff.mpr (fun hpub => ?_)) hp
    have hji : i ≠ j := fun hij => hi (hij ▸ hj)
    cases c with
    | publishBuild projectId refName buildId finalizedAt =>
      obtain rfl : buildId = b := of_decide_eq_true hpub
      obtain rfl : q = .finalizeBuild buildId := by
        cases hwithin.atCall hc with
        | reads hr => cases hr
        | publishBuild => rfl
      exact hone i j _ hji hw ⟨_, hc, rfl⟩
    | _ => cases hpub

theorem publishesPendingBuilds_of_oneByOne (h : FinalizedOneByOne r) :
    PublishesPendingBuilds r := by
  intro n p hp
  obtain ⟨i, q, resume, hi, hc⟩ := publication_atCall hp
  obtain rfl : q = .finalizeBuild p.buildId := by
    cases (ServerRun.within n).atCall hc with
    | reads hr => cases hr
    | publishBuild => rfl
  obtain ⟨m, hmn, hm⟩ := Pool.submitted_of_task rfl hc
  have hrespects : Pool.Respects (finalizing p.buildId) r.server.program ⟨r.start, []⟩ r.schedule
      i m n := by
    refine ⟨fun k hmk _ hne ⟨task, htask, hrunning⟩ hpending => ?_, fun _ _ _ _ => trivial⟩
    obtain ⟨rest, hrest⟩ := Pool.request_of_le hmk hm
    obtain rfl : task = ⟨.finalizeBuild p.buildId, rest⟩ := Option.some.inj (htask.symm.trans hrest)
    exact pendingIn_step h k i hne ⟨rest, hrest, hrunning⟩ hpending
  obtain ⟨rest, hrest, hout⟩ := Pool.outline_along (fun _ h => h)
    (fun hab hbc => Function.comp hbc hab) hmn (fun _ _ _ _ _ => trivial) hrespects hm
    (program_finalizeBuild_outline r.server p.buildId _)
  obtain rfl : rest = .call _ resume := by
    have heq := hrest.symm.trans hc
    simpa using heq
  exact (hout _ (fun h => h) (r.schedule.env n) trivial).1 (decide_eq_true rfl)

theorem published_once_iff (r : FreshRun) :
    (PublishedAtMostOnce r.toServerRun ∧ RefsNeverMoveBack r.toServerRun ∧
        FinalizedAtNeverChanges r.toServerRun ↔ PublishesPendingBuilds r.toServerRun) ∧
      (FinalizedOneByOne r.toServerRun → PublishesPendingBuilds r.toServerRun) := by
  refine ⟨⟨fun h => publishesPendingBuilds h.1, fun h => ?_⟩, publishesPendingBuilds_of_oneByOne⟩
  have honce := publishedAtMostOnce h
  exact ⟨honce, refsNeverMoveBack honce, finalizedAtNeverChanges h⟩

end

section Examples

attribute [local instance] standardBase64 standardWildMatch

def overlappingScript : List (Choice Request) :=
  uploadedScript ++ [.submit (.finalizeBuild 5), .submit (.finalizeBuild 5)] ++ advances 4 9 ++
  advances 5 10 ++
  [.submit (.beginBuild exampleSlug.text "main".toList none)] ++ advances 6 4 ++
  [.submit (.registerPaths 49 [helloPayload])] ++ advances 7 12 ++
  [.submit (.finalizeBuild 49)] ++ advances 8 10 ++ advances 4 1

theorem overlapping_publishes_twice :
    ¬ PublishedAtMostOnce (scripted overlappingScript).toServerRun ∧
      ¬ RefsNeverMoveBack (scripted overlappingScript).toServerRun ∧
      ¬ FinalizedAtNeverChanges (scripted overlappingScript).toServerRun := by
  have hrun : (scripted overlappingScript).publishes 46 =
        some ⟨1, "main".toList, 5, (moment 45).now⟩ ∧
      (scripted overlappingScript).publishes 75 =
        some ⟨1, "main".toList, 49, (moment 74).now⟩ ∧
      (scripted overlappingScript).publishes 76 =
        some ⟨1, "main".toList, 5, (moment 36).now⟩ ∧
      (∃ ref ∈ ((scripted overlappingScript).db 77).projectRefs.rows,
        ref.projectId = 1 ∧ ref.refName = "main".toList ∧ ref.buildId = 5) ∧
      ∃ b ∈ ((scripted overlappingScript).db 47).builds.rows,
        b.finalizedAt.isSome = true ∧ ∀ c ∈ ((scripted overlappingScript).db 77).builds.rows,
          ¬ (c.id = b.id ∧ c.finalizedAt = b.finalizedAt) := by decide +kernel
  obtain ⟨hfirst, hsecond, hagain, ⟨ref, href, hproject, hname, hbuild⟩, b, hb, hset, hno⟩ := hrun
  refine ⟨fun h => h 46 76 (by decide) _ hfirst _ hagain rfl, fun h => ?_, fun h => ?_⟩
  · exact h 46 75 77 (by decide) (by decide) _ hfirst _ hsecond rfl rfl (by decide) ref href
      hproject hname hbuild
  · obtain ⟨c, hc, hcb⟩ := h 47 77 (by decide) b hb hset
    exact hno c hc hcb

end Examples

end PublishOnce
