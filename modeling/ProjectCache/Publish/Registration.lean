import ProjectCache.Depot.Sequence
import ProjectCache.Ingest.Rules

namespace Registration

open Textual Nix Project Calendar Tables Store Db Programs Ingest Depot Depot.Server
  SqliteDatabase Validation Narinfo

variable {b : Uuid} {w v : World} {h : StorePathHash}

def Attached (w : World) (b : Uuid) (h : StorePathHash) : Prop := ⟨b, h⟩ ∈ w.db.buildPaths.rows

def Published (w : World) (b : Uuid) (h : StorePathHash) : Prop :=
  (∃ ref ∈ w.db.projectRefs.rows, ref.buildId = b) ∧ Attached w b h

def HashOf (path : NarInfoPayload) (h : StorePathHash) : Prop :=
  StorePathHash.parseFromStorePath path.storePath = .ok h

theorem attached_answer {c : Call} {e : Env} (hc : .buildPaths ∉ c.writes) :
    Attached (answer c e w).1 b h ↔ Attached w b h := by
  unfold Attached
  rw [(answer_frame c e w).buildPaths hc]

theorem wp_attached {A : Type} {p : Action A} {admits : Env → Prop}
    (hp : p.Uses (fun c : Call => .buildPaths ∉ c.writes)) :
    machine.wp admits (fun _ v => ∀ b h, Attached v b h ↔ Attached w b h) p w :=
  wp_of_uses (fun v => ∀ b h, Attached v b h ↔ Attached w b h) hp
    (fun _ _ _ hc hv b h => (attached_answer hc).trans (hv b h)) (fun _ _ => Iff.rfl)

theorem reads_writes (c : Call) (hc : c.reads = true) : .buildPaths ∉ c.writes := by
  simp [writes_of_reads hc]

theorem attach_cases (c : Uuid) (g : StorePathHash) (e : Env) :
    ((answer (.attachBuildPath c g) e w).2 = .ok () ∧
        ∀ b h, Attached (answer (.attachBuildPath c g) e w).1 b h ↔
          Attached w b h ∨ b = c ∧ h = g) ∨
      ∃ x, (answer (.attachBuildPath c g) e w).2 = .error x ∧
        ((∀ b h, Attached (answer (.attachBuildPath c g) e w).1 b h ↔ Attached w b h) ∨
          ∀ b h, Attached (answer (.attachBuildPath c g) e w).1 b h ↔
            Attached w b h ∨ b = c ∧ h = g) := by
  have hcarry : ∀ db', w.db.attachBuildPath c g = some db' → ∀ b h,
      (⟨b, h⟩ ∈ db'.buildPaths.rows ↔ Attached w b h ∨ b = c ∧ h = g) := by
    intro db' hd b h
    obtain ⟨-, rfl⟩ := attachBuildPath_eq_some.mp hd
    rw [Table.mem_insertOrIgnore]
    constructor
    · rintro (hm | ⟨-, hm⟩)
      · exact Or.inl hm
      · cases hm
        exact Or.inr ⟨rfl, rfl⟩
    · rintro (hm | ⟨rfl, rfl⟩)
      · exact Or.inl hm
      · by_cases hf : w.db.buildPaths.Free ⟨b, h⟩
        · exact Or.inr ⟨hf, rfl⟩
        · simp only [Table.Free, Keyed.clash, not_forall, Bool.not_eq_false, Bool.and_eq_true,
            decide_eq_true_eq] at hf
          obtain ⟨⟨_, _⟩, hm, rfl, rfl⟩ := hf
          exact Or.inl hm
  unfold answer
  simp only [Call.local, Bool.false_eq_true, if_false, carryOut]
  cases hd : w.db.attachBuildPath c g with
  | none =>
    refine Or.inr ?_
    split <;> exact ⟨_, rfl, Or.inl (fun _ _ => Iff.rfl)⟩
  | some db' =>
    split
    · exact Or.inl ⟨rfl, hcarry db' hd⟩
    · exact Or.inr ⟨_, rfl, Or.inl (fun _ _ => Iff.rfl)⟩
    · exact Or.inr ⟨_, rfl, Or.inr (hcarry db' hd)⟩

theorem wp_then {A B : Type} {p : Action A} {f : A → Action B} {post : World → Prop}
    (h : ∀ a v, machine.wp (fun _ => True) (fun r v => ∀ x, r = .ok x → post v) (f a) v) :
    machine.wp (fun _ => True) (fun r v => ∀ x, r = .ok x → post v) (p.bind f) w := by
  refine Machine.wp_bind.mpr (Machine.wp_of_forall (fun r v => ?_))
  cases r with
  | error x => exact fun _ hx => by cases hx
  | ok a => exact h a v

section

variable [Base64]

structure PrefixAttached (service : IngestService) (b : Uuid) (paths : List NarInfoPayload)
    (w v : World) (count : Nat) : Prop where
  count_le : count ≤ paths.length
  attached : ∀ c h, Attached v c h ↔
    Attached w c h ∨ c = b ∧ ∃ path ∈ paths.take count, HashOf path h
  valid : ∀ path ∈ paths.take count, ∃ h, validatePublishNarinfo service.storeDir path.intoNarinfo
    = .ok h

theorem PrefixAttached.nil (service : IngestService) (b : Uuid) (paths : List NarInfoPayload)
    (h : ∀ c g, Attached v c g ↔ Attached w c g) : PrefixAttached service b paths w v 0 :=
  ⟨Nat.zero_le _, by simpa using h, by simp⟩

theorem PrefixAttached.cons {service : IngestService} {u : World} {path : NarInfoPayload}
    {rest : List NarInfoPayload} {count : Nat} {g : StorePathHash}
    (hv : validatePublishNarinfo service.storeDir path.intoNarinfo = .ok g)
    (hu : ∀ c h, Attached u c h ↔ Attached w c h ∨ c = b ∧ h = g)
    (hr : PrefixAttached service b rest u v count) :
    PrefixAttached service b (path :: rest) w v (count + 1) := by
  have hg : ∀ h, HashOf path h ↔ h = g := fun h => by
    have hhash : StorePathHash.parseFromStorePath path.storePath = .ok g :=
      (validatePublishNarinfo_ok hv).hash
    simp [HashOf, hhash, eq_comm]
  refine ⟨by simpa using hr.count_le, fun c h => ?_, ?_⟩
  · rw [hr.attached, hu]
    simp only [List.take_succ_cons, List.mem_cons, exists_eq_or_imp, hg]
    tauto
  · intro p hp
    rw [List.take_succ_cons, List.mem_cons] at hp
    rcases hp with rfl | hp
    · exact ⟨g, hv⟩
    · exact hr.valid p hp

theorem registerNarinfos_attached (service : IngestService) (paths : List NarInfoPayload) :
    machine.wp (fun _ => True) (fun r v => ∃ count,
      PrefixAttached service b paths w v count ∧ (∀ x, r = .ok x → count = paths.length))
      (service.registerNarinfos b paths) w := by
  induction paths generalizing w with
  | nil => exact ⟨0, .nil service b [] (fun _ _ => Iff.rfl), fun _ _ => rfl⟩
  | cons path rest ih =>
    unfold IngestService.registerNarinfos
    cases hv : validatePublishNarinfo service.storeDir path.intoNarinfo with
    | error x => exact ⟨0, .nil service b _ (fun _ _ => Iff.rfl), fun _ hr => by cases hr⟩
    | ok g =>
      change machine.wp _ _ ((upsertPathInfo path.intoNarinfo).bind (fun _ =>
        (attachBuildPath b g).bind (fun _ => (service.registerNarinfos b rest).bind
          (fun narinfos => .done (.ok (path.intoNarinfo :: narinfos)))))) w
      refine Machine.wp_bind.mpr (Machine.wp_mono (wp_attached
        (uses_upsertPathInfo reads_writes (fun _ => by simp [Call.writes]) _))
        (fun r u hu => ?_))
      cases r with
      | error x => exact ⟨0, .nil service b _ hu, fun _ hr => by cases hr⟩
      | ok _ =>
        refine Machine.wp_bind.mpr (wp_perform.mpr (fun e _ => ?_))
        rcases attach_cases (w := u) b g e with ⟨hr, ha⟩ | ⟨x, hr, ha⟩
        · rw [hr]
          refine Machine.wp_bind.mpr (Machine.wp_mono ih ?_)
          rintro r v ⟨count, hp, hall⟩
          have hstep : ∀ c h, Attached (answer (.attachBuildPath b g) e u).1 c h ↔
              Attached w c h ∨ c = b ∧ h = g := fun c h => by rw [ha, hu]
          have hcons := hp.cons hv hstep
          cases r with
          | ok ns => exact ⟨_, hcons, fun _ _ => by simp [hall ns rfl]⟩
          | error x => exact ⟨_, hcons, fun _ hr => by cases hr⟩
        · rw [hr]
          rcases ha with ha | ha
          · exact ⟨0, .nil service b _ (fun c h => (ha c h).trans (hu c h)),
            fun _ hr => by cases hr⟩
          · have hstep : ∀ c h, Attached (answer (.attachBuildPath b g) e u).1 c h ↔
                Attached w c h ∨ c = b ∧ h = g := fun c h => by rw [ha, hu]
            exact ⟨1, (PrefixAttached.nil service b rest (fun _ _ => Iff.rfl)).cons hv hstep,
              fun _ hr => by cases hr⟩

theorem PrefixAttached.after {service : IngestService} {paths : List NarInfoPayload} {u : World}
    {count : Nat} (h : PrefixAttached service b paths w u count)
    (hv : ∀ c g, Attached v c g ↔ Attached u c g) : PrefixAttached service b paths w v count :=
  { h with attached := fun c g => (hv c g).trans (h.attached c g) }

theorem PrefixAttached.before {service : IngestService} {paths : List NarInfoPayload} {u : World}
    {count : Nat} (h : PrefixAttached service b paths u v count)
    (hu : ∀ c g, Attached u c g ↔ Attached w c g) : PrefixAttached service b paths w v count :=
  { h with attached := fun c g => by rw [h.attached, hu] }

omit [Base64] in
theorem afterRegistration_uses (service : IngestService) (project : ProjectSlug)
    (narinfos : List NarInfo) :
    (do
      let (storageId, storage) ← service.storageForProject project
      let upstreams ← IngestService.projectUpstreams project
      let planned ← planRequiredUploads storage upstreams narinfos
      IngestService.linkStoredObjects storageId storage narinfos
      IngestService.requireUploads storage planned : Action (List RequiredUpload)).Uses
        (fun c : Call => .buildPaths ∉ c.writes) := by
  have hr := reads_writes
  refine (uses_storageForProject hr _ _).bind (fun (storageId, storage) => ?_)
  refine (uses_projectUpstreams hr _).bind (fun upstreams => ?_)
  refine (uses_planRequiredUploads hr _ _ _).bind (fun planned => ?_)
  exact (uses_linkStoredObjects hr (fun _ _ _ => by simp [Call.writes])
    (fun _ _ => by simp [Call.writes]) _ _ _).bind (fun _ => uses_requireUploads hr _ _)

theorem registerPaths_attached (service : IngestService) (paths : List NarInfoPayload) :
    machine.wp (fun _ => True) (fun r v => ∃ count,
      PrefixAttached service b paths w v count ∧ (∀ x, r = .ok x → count = paths.length))
      (service.registerPaths b paths) w := by
  refine Machine.wp_bind.mpr (Machine.wp_mono
    (wp_attached (uses_pendingBuildContext reads_writes b)) (fun r u hu => ?_))
  cases r with
  | error x => exact ⟨0, .nil service b _ hu, fun _ hr => by cases hr⟩
  | ok context =>
    refine Machine.wp_bind.mpr (Machine.wp_mono (registerNarinfos_attached service paths)
      (fun r t ⟨count, hp, hall⟩ => ?_))
    have hpw := hp.before hu
    cases r with
    | error x => exact ⟨count, hpw, fun _ hr => by cases hr⟩
    | ok narinfos =>
      exact Machine.wp_mono (wp_attached (afterRegistration_uses service context.projectSlug _))
        (fun r v hv => ⟨count, hpw.after hv, fun _ _ => hall narinfos rfl⟩)

omit [Base64] in
theorem finalizeBuild_published (service : IngestService) (b : Uuid) :
    machine.wp (fun _ => True) (fun r v => ∀ x, r = .ok x →
      ∃ ref ∈ v.db.projectRefs.rows, ref.buildId = b) (service.finalizeBuild b) w := by
  refine wp_then (fun context w => ?_)
  refine wp_then (fun buildPaths w => ?_)
  split
  · exact fun _ hx => by cases hx
  refine wp_then (fun upstreams w => ?_)
  refine wp_then (fun (storageId, storage) w => ?_)
  refine wp_then (fun _ w => ?_)
  refine wp_then (fun projectId w => ?_)
  refine wp_then (fun finalizedAt w => ?_)
  refine (wp_perform (c := .publishBuild projectId context.refName b finalizedAt)).mpr
    (fun e _ x hx => ?_)
  have ha := answer_of_ok hx
  rw [ha] at hx ⊢
  simp only [carryOut] at hx ⊢
  cases hp : w.db.publishBuild projectId context.refName b finalizedAt e.sqliteNow with
  | none =>
    rw [hp] at hx
    cases hx
  | some db' =>
    obtain ⟨-, -, t, ht, rfl⟩ := publishBuild_eq_some.mp hp
    rcases Table.upsert_mem ht with hm | ⟨ref, -, -, hm⟩
    · exact ⟨_, hm, rfl⟩
    · exact ⟨_, hm, rfl⟩

variable [WildMatch] {r : SerialRun}

theorem attached_turn_of_ne {n : Nat} (hq : ∀ paths, r.request n ≠ .registerPaths b paths)
    (h : StorePathHash) : Attached (r.world (n + 1)) b h ↔ Attached (r.world n) b h := by
  refine SerialRun.of_wp_any (fun _ v => Attached v b h ↔ Attached (r.world n) b h)
    (wp_of_uses (fun v => Attached v b h ↔ Attached (r.world n) b h)
      (r.server.program_uses _) (fun c e v hc hv => ?_) Iff.rfl)
  by_cases hw : .buildPaths ∈ c.writes
  · cases c with
    | attachBuildPath c g =>
      have hne : b ≠ c := by
        rintro rfl
        generalize hreq : r.request n = q at hc
        cases hc with
        | reads hr => cases hr
        | attachBuildPath => exact hq _ hreq
      rcases attach_cases (w := v) c g e with ⟨-, ha⟩ | ⟨x, -, ha | ha⟩
      · rw [ha, hv]
        simp [hne]
      · rw [ha, hv]
      · rw [ha, hv]
        simp [hne]
    | _ => simp [Call.writes] at hw
  · rw [attached_answer hw, hv]

theorem attached_turn {n : Nat} {paths : List NarInfoPayload}
    (hq : r.request n = .registerPaths b paths) : ∃ count,
      PrefixAttached r.server.ingestService b paths (r.world n) (r.world (n + 1)) count ∧
        ∀ x, r.response n = .ok x → count = paths.length := by
  refine SerialRun.of_wp_any (fun x v => ∃ count,
    PrefixAttached r.server.ingestService b paths (r.world n) v count ∧
      ∀ y, x = .ok y → count = paths.length) ?_
  rw [hq]
  refine Machine.wp_bind.mpr (Machine.wp_mono (registerPaths_attached _ paths)
    (fun x v ⟨count, hp, hall⟩ => ?_))
  cases x with
  | error x => exact ⟨count, hp, fun _ hx => by cases hx⟩
  | ok x => exact ⟨count, hp, fun _ _ => hall x rfl⟩

theorem finalized_turn {n : Nat} {x : Response} (hq : r.request n = .finalizeBuild b)
    (hr : r.response n = .ok x) : ∃ ref ∈ (r.db (n + 1)).projectRefs.rows, ref.buildId = b := by
  refine SerialRun.of_wp_any (fun x v => ∀ y, x = .ok y →
    ∃ ref ∈ v.db.projectRefs.rows, ref.buildId = b) ?_ x hr
  rw [hq]
  refine Machine.wp_bind.mpr (Machine.wp_mono (finalizeBuild_published _ b) (fun x v hv => ?_))
  cases x with
  | error x => exact fun _ hx => by cases hx
  | ok x => exact fun _ _ => hv x rfl

def RegisteredBetween (r : SerialRun) (b : Uuid) (count : Nat → Nat) (m n : Nat)
    (h : StorePathHash) : Prop :=
  ∃ k, m ≤ k ∧ k < n ∧ ∃ paths, r.request k = .registerPaths b paths ∧
    ∃ path ∈ paths.take (count k), HashOf path h

theorem registered_prefixes (r : SerialRun) (b : Uuid) : ∃ count : Nat → Nat,
    (∀ n paths, r.request n = .registerPaths b paths →
      count n ≤ paths.length ∧ (∀ x, r.response n = .ok x → count n = paths.length) ∧
        ∀ path ∈ paths.take (count n), ∃ h,
          validatePublishNarinfo r.server.storeDir path.intoNarinfo = .ok h) ∧
    (∀ m n, m ≤ n → ∀ h, Attached (r.world n) b h ↔
      Attached (r.world m) b h ∨ RegisteredBetween r b count m n h) ∧
    ∀ n x, r.request n = .finalizeBuild b → r.response n = .ok x → ∀ h,
      Published (r.world (n + 1)) b h ↔
        Attached (r.world 0) b h ∨ RegisteredBetween r b count 0 n h := by
  have hcount : ∀ n, ∃ count, ∀ paths, r.request n = .registerPaths b paths →
      PrefixAttached r.server.ingestService b paths (r.world n) (r.world (n + 1)) count ∧
        ∀ x, r.response n = .ok x → count = paths.length := by
    intro n
    by_cases hq : ∃ paths, r.request n = .registerPaths b paths
    · obtain ⟨paths, hq⟩ := hq
      obtain ⟨count, hc⟩ := attached_turn hq
      refine ⟨count, fun paths' hq' => ?_⟩
      cases hq.symm.trans hq'
      exact hc
    · exact ⟨0, fun paths hp => absurd ⟨paths, hp⟩ hq⟩
  choose count hcount using hcount
  have hbetween : ∀ m n, m ≤ n → ∀ h, Attached (r.world n) b h ↔
      Attached (r.world m) b h ∨ RegisteredBetween r b count m n h := by
    intro m n hmn h
    induction n, hmn using Nat.le_induction with
    | base =>
      refine ⟨Or.inl, fun hm => hm.elim id (fun ⟨k, hk, hkm, _⟩ => ?_)⟩
      omega
    | succ n hmn ih =>
      by_cases hq : ∃ paths, r.request n = .registerPaths b paths
      · obtain ⟨paths, hq⟩ := hq
        rw [(hcount n paths hq).1.attached, ih]
        constructor
        · rintro ((hm | ⟨k, hmk, hkn, hk⟩) | ⟨-, hp⟩)
          · exact Or.inl hm
          · exact Or.inr ⟨k, hmk, by omega, hk⟩
          · exact Or.inr ⟨n, hmn, by omega, paths, hq, hp⟩
        · rintro (hm | ⟨k, hmk, hkn, hk⟩)
          · exact Or.inl (Or.inl hm)
          · rcases Nat.lt_succ_iff_lt_or_eq.mp hkn with hlt | rfl
            · exact Or.inl (Or.inr ⟨k, hmk, hlt, hk⟩)
            · obtain ⟨paths', hq', hp⟩ := hk
              cases hq.symm.trans hq'
              exact Or.inr ⟨rfl, hp⟩
      · rw [attached_turn_of_ne (fun paths hp => hq ⟨paths, hp⟩), ih]
        constructor
        · rintro (hm | ⟨k, hmk, hkn, hk⟩)
          · exact Or.inl hm
          · exact Or.inr ⟨k, hmk, by omega, hk⟩
        · rintro (hm | ⟨k, hmk, hkn, hk⟩)
          · exact Or.inl hm
          · rcases Nat.lt_succ_iff_lt_or_eq.mp hkn with hlt | rfl
            · exact Or.inr ⟨k, hmk, hlt, hk⟩
            · obtain ⟨paths', hq', -⟩ := hk
              exact absurd ⟨paths', hq'⟩ hq
  refine ⟨count, fun n paths hq => ?_, hbetween, fun n x hq hr h => ?_⟩
  · obtain ⟨hp, hall⟩ := hcount n paths hq
    exact ⟨hp.count_le, hall, hp.valid⟩
  · have hkept : Attached (r.world (n + 1)) b h ↔ Attached (r.world n) b h :=
      attached_turn_of_ne (fun paths hp => by cases hq.symm.trans hp) h
    rw [Published, hkept, ← hbetween 0 n (Nat.zero_le n) h]
    exact and_iff_right (finalized_turn hq hr)

end

section Examples

attribute [local instance] standardBase64 standardWildMatch

def brokenPayload : NarInfoPayload := { helloPayload with url := "nar/hello.nar".toList }

def halfRegistered : FreshSerialRun :=
  inTurn [.insertProject exampleSlug "Example".toList true .main,
    .beginBuild exampleSlug.text "main".toList none,
    .registerPaths 101 [helloPayload, brokenPayload], .uploadObject 101 helloHash helloPayload.url
    [1, 2, 3, 4, 5], .finalizeBuild 101]

theorem failed_registration_published :
    halfRegistered.request 2 = .registerPaths 101 [helloPayload, brokenPayload] ∧
    (∀ k < 4, ∀ paths, halfRegistered.request k = .registerPaths 101 paths →
      ∃ x, halfRegistered.response k = .error x) ∧
    ¬ Attached (halfRegistered.world 2) 101 helloHash ∧
    Attached (halfRegistered.world 3) 101 helloHash ∧
    halfRegistered.request 4 = .finalizeBuild 101 ∧
    (∃ x, halfRegistered.response 4 = .ok x) ∧
    Published (halfRegistered.world 5) 101 helloHash := by
  have hrun : ((halfRegistered.response 2).toOption = none ∧
      ((halfRegistered.response 4).toOption).isSome) ∧
      ¬ Attached (halfRegistered.world 2) 101 helloHash ∧
      Attached (halfRegistered.world 3) 101 helloHash ∧
      Published (halfRegistered.world 5) 101 helloHash := by
    unfold Published Attached
    decide +kernel
  obtain ⟨⟨hfail, hok⟩, hbefore, hafter, hpublished⟩ := hrun
  refine ⟨by decide, ?_, hbefore, hafter, by decide, ?_, hpublished⟩
  · intro k hk paths hq
    obtain rfl : k = 2 := by
      interval_cases k <;> first | rfl | cases hq
    cases hr : halfRegistered.response 2 with
    | error x => exact ⟨x, rfl⟩
    | ok x =>
      rw [hr] at hfail
      cases hfail
  · cases hr : halfRegistered.response 4 with
    | error x =>
      rw [hr] at hok
      cases hok
    | ok x => exact ⟨x, rfl⟩

end Examples

end Registration
