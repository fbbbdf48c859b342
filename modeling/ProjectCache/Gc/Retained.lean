import ProjectCache.Gc.Policies
import ProjectCache.Gc.Safety
import ProjectCache.Read.Isolation

namespace Retained

open Textual Nix Project Calendar Tables Store Db Programs Ingest Depot Depot.Server
  SqliteDatabase Gc Publisher Recency Policies Isolation

structure Accepted (row : RetentionRuleRow) : Prop where
  priority : row.priority ≠ 0
  pattern : row.refPattern ≠ []
  ttl : ∀ ttl ∈ row.ttlSeconds, ttl.toNat < 2 ^ 63

def AllAccepted (db : Database) : Prop := ∀ row ∈ db.retentionRules.rows, Accepted row

def BringsAccepted : Call → Prop
  | .replaceRetentionPolicy _ rows => ∀ row ∈ rows, Accepted row
  | _ => True

theorem yields_retentionRuleRows (projectId : Uuid) (rules : List ProjectRetentionRuleRecord) :
    (retentionRuleRows projectId rules).Yields (fun rows => ∀ row ∈ rows, Accepted row) := by
  induction rules with
  | nil => exact List.forall_mem_nil _
  | cons rule rest ih =>
    unfold retentionRuleRows
    split
    · trivial
    rename_i hpriority
    split
    · trivial
    rename_i hpattern
    split
    · trivial
    rename_i httl
    refine (Prog.yields_any (perform .uuid)).bind (fun ruleId _ => ih.bind (fun rows hrows => ?_))
    refine List.forall_mem_cons.mpr ⟨⟨hpriority, hpattern, fun ttl ht => ?_⟩, hrows⟩
    by_contra hlt
    exact httl ((Option.any_eq_true _ _).mpr ⟨ttl, ht, decide_eq_true (Nat.not_lt.mp hlt)⟩)

section

variable [Base64] [WildMatch]

omit [WildMatch] in
theorem brings_of_makes {server : Server} {q : Request} {c : Call} (h : Makes server q c)
    (hq : ∀ project keep grace rules, q ≠ .replaceRetentionPolicy project keep grace rules) :
    BringsAccepted c := by
  cases h with
  | reads hc =>
    cases c with
    | replaceRetentionPolicy policy rows => cases hc
    | _ => trivial
  | replaceRetentionPolicy policy rows => exact absurd rfl (hq _ _ _ _)
  | _ => trivial

theorem brings_program (server : Server) (q : Request) :
    (server.program q).Uses BringsAccepted := by
  by_cases hq : ∃ project keep grace rules, q = .replaceRetentionPolicy project keep grace rules
  · obtain ⟨project, keep, grace, rules, rfl⟩ := hq
    have hr : ∀ c : Call, c.reads = true → BringsAccepted c := by
      intro c hc
      cases c with
      | replaceRetentionPolicy policy rows => cases hc
      | _ => trivial
    refine Prog.Uses.bind ?_ (fun _ => trivial)
    unfold replaceProjectRetentionPolicy
    split
    · trivial
    split
    · trivial
    refine (uses_projectIdBySlug hr project).bind (fun projectId => ?_)
    split
    · trivial
    · exact (uses_retentionRuleRows hr _ _).bind_yields (yields_retentionRuleRows _ _)
        (fun rows hrows => Prog.uses_perform hrows)
  · exact (server.program_uses q).mono (fun c hc => brings_of_makes hc
      (fun project keep grace rules he => hq ⟨project, keep, grace, rules, he⟩))

omit [Base64] [WildMatch] in
theorem allAccepted_answer {c : Call} (hc : BringsAccepted c) (e : Env) {w : World}
    (h : AllAccepted w.db) : AllAccepted (answer c e w).1.db := by
  by_cases hw : TableName.retentionRules ∈ c.writes
  · cases c with
    | replaceRetentionPolicy policy rows =>
      rcases answer_state (.replaceRetentionPolicy policy rows) e w with hs | hs
      · rw [hs]
        exact h
      rw [hs]
      cases hd : w.db.replaceRetentionPolicy policy rows with
      | none =>
        simp only [carryOut, World.written, hd]
        exact h
      | some db' =>
        simp only [carryOut, World.written, hd]
        unfold Database.replaceRetentionPolicy at hd
        split at hd
        · simp only [Option.bind_eq_bind, Option.bind_eq_some_iff, Option.pure_def,
            Option.some.injEq] at hd
          obtain ⟨policies, -, stored, hstored, rfl⟩ := hd
          intro row hrow
          have hrow : row ∈ stored.rows := hrow
          rw [Database.insertRules_rows hstored, List.mem_append] at hrow
          exact hrow.elim (fun ho => h row (Table.mem_delete.mp ho).1) (hc row)
        · cases hd
    | _ => simp [Call.writes] at hw
  · intro row hrow
    rw [(answer_frame c e w).retentionRules hw] at hrow
    exact h row hrow

theorem allAccepted (r : FreshRun) (n : Nat) : AllAccepted (r.db n) := by
  refine Pool.invariant_of_run (M := machine) (fun w => AllAccepted w.db)
    (brings_program r.server) (by simp [Pool.Within]) ?_
    (fun q c e w hc hw => allAccepted_answer hc e hw) n
  simp [AllAccepted, r.empty]

end

section

variable [WildMatch] {now : UtcDateTime} {db : Database} {ref : ProjectRefRow} {p : ProjectRow}

def expired (now : UtcDateTime) (updatedAt : SqliteTime) (ttlSeconds : Option UInt64) : Bool :=
  ttlSeconds.any (fun ttl => ttl.toNat ≤ refAge now updatedAt)

def keepCount (now : UtcDateTime) (db : Database) (p : ProjectRow) (ref : ProjectRefRow) : Nat :=
  match matchingRetentionRule (policyOf db p).rules ref.refName with
  | none => 0
  | some rule =>
    if expired now ref.updatedAt rule.ttlSeconds then 0
    else (rule.keepBuilds.getD (policyOf db p).keepLatestBuildsPerRef).toNat

omit [WildMatch] in
theorem lookedUp_bind_ok {A B : Type} {q : Action A} {f : A → Action B} {a : A} {b : B}
    (hq : q.Direct Call.LooksUp) (ha : lookedUp now q db = .ok a)
    (hb : lookedUp now (f a) db = .ok b) : lookedUp now (q.bind f) db = .ok b := by
  rw [lookedUp_bind hq, ha]
  exact hb

theorem mem_of_matching {rules : List ProjectRetentionRuleRecord} {refName : Text}
    {rule : ProjectRetentionRuleRecord} (h : matchingRetentionRule rules refName = some rule) :
    rule ∈ rules := by
  have hfold : ∀ (rest : List ProjectRetentionRuleRecord) best,
      rest.foldl lowerPriority best ∈ best :: rest := by
    intro rest
    induction rest with
    | nil => simp
    | cons next rest ih =>
      intro best
      have hm := ih (lowerPriority best next)
      rcases List.mem_cons.mp hm with hbest | hrest
      · change rest.foldl lowerPriority (lowerPriority best next) ∈ _
        rw [hbest]
        unfold lowerPriority
        split <;> simp
      · exact List.mem_cons_of_mem _ (List.mem_cons_of_mem _ hrest)
  unfold matchingRetentionRule at h
  split at h
  · cases h
  · rename_i first rest hrules
    cases h
    have hm := hfold rest first
    rw [← hrules] at hm
    exact (List.mem_filter.mp hm).1

omit [WildMatch] in
theorem ttl_lt (h : AllAccepted db) {rule : ProjectRetentionRuleRecord}
    (hr : rule ∈ (policyOf db p).rules) : ∀ ttl ∈ rule.ttlSeconds, ttl.toNat < 2 ^ 63 := by
  unfold policyOf at hr
  split at hr
  · have hdefault : defaultRetentionRules.all (fun rule =>
        rule.ttlSeconds.all (fun ttl => decide (ttl.toNat < 2 ^ 63))) = true := by decide
    intro ttl ht
    have hall := List.all_eq_true.mp hdefault rule hr
    rw [Option.mem_def.mp ht] at hall
    exact of_decide_eq_true hall
  · obtain ⟨row, hrow, rfl⟩ := List.mem_map.mp hr
    exact (h row (List.mem_filter.mp (List.mem_insertionSort _ |>.mp hrow)).1).ttl

omit [WildMatch] in
theorem lookedUp_refIsActive (now : UtcDateTime) (db : Database) (updatedAt : SqliteTime)
    {ttlSeconds : Option UInt64}
    (h : ∀ ttl ∈ ttlSeconds, ttl.toNat < 2 ^ 63) :
    lookedUp now (refIsActive updatedAt ttlSeconds) db =
      .ok (! expired now updatedAt ttlSeconds) := by
  cases ttlSeconds with
  | none => rfl
  | some ttl =>
    have hlt := h ttl rfl
    have hnow : lookedUp now (perform .now) db = .ok now := rfl
    refine lookedUp_bind_ok (Prog.direct_perform .now) hnow ?_
    rw [if_neg (Nat.not_le.mpr hlt), expired, Option.any_some]
    generalize refAge now updatedAt = age
    by_cases hage : age < ttl.toNat
    · rw [decide_eq_true hage, decide_eq_false (Int.not_le.mpr hage)]
      rfl
    · rw [decide_eq_false hage, decide_eq_true (Int.not_lt.mp hage)]
      rfl

theorem contribution_eq (h : AllAccepted db) (hp : p ∈ db.projects.rows)
    (ho : p.id = ref.projectId) : contribution now db ref p =
      .ok ((firstInQueryOrder (keepCount now db p ref)
        (db.finalizedBuilds ref.projectId ref.refName)).map BuildRow.id) := by
  have hpolicy : lookedUp now (getProjectRetentionPolicy p.slug) db = .ok (policyOf db p) := by
    rw [lookedUp_policy, policyIn, Database.projectBySlug_eq_some.mpr ⟨hp, rfl⟩]
  have hnone : ∀ builds : List BuildRow, firstInQueryOrder 0 builds = [] := fun _ => rfl
  have hlooks := looks_getProjectRetentionPolicy p.slug
  cases hrule : matchingRetentionRule (policyOf db p).rules ref.refName with
  | none =>
    rw [keepCount, hrule, hnone]
    refine lookedUp_bind_ok hlooks hpolicy ?_
    simp only [hrule]
    rfl
  | some rule =>
    have hactive := lookedUp_refIsActive now db ref.updatedAt (ttl_lt h (mem_of_matching hrule))
    cases hexpired : expired now ref.updatedAt rule.ttlSeconds with
    | false =>
      rw [hexpired] at hactive
      have hcount : (rule.keepBuilds.getD (policyOf db p).keepLatestBuildsPerRef).toNat =
          keepCount now db p ref := by
        rw [keepCount, hrule]
        simp [hexpired]
      exact contribution_of_keeps ⟨hp, ho, policyOf db p, rule, hpolicy, hrule, hactive, hcount⟩
    | true =>
      rw [hexpired] at hactive
      rw [keepCount, hrule]
      simp only [hexpired, if_true, hnone]
      refine lookedUp_bind_ok hlooks hpolicy ?_
      simp only [hrule]
      exact lookedUp_bind_ok (looks_refIsActive ref.updatedAt rule.ttlSeconds) hactive rfl

theorem lookedUp_retainedOfRefs {refs : List (ProjectSlug × Text × SqliteTime)}
    (h : ∀ ref ∈ refs, ∃ ids,
      lookedUp now (retainedBuildIdsOfRef ref.1 ref.2.1 ref.2.2) db = .ok ids) :
    ∃ all, lookedUp now (retainedBuildIdsOfRefs refs) db = .ok all := by
  induction refs with
  | nil => exact ⟨[], rfl⟩
  | cons ref rest ih =>
    obtain ⟨ids, hids⟩ := h ref (by simp)
    obtain ⟨others, hothers⟩ := ih (fun ref hr => h ref (by simp [hr]))
    exact ⟨ids ++ others, lookedUp_bind_ok (looks_retainedBuildIdsOfRef _ _ _) hids
      (lookedUp_bind_ok (looks_retainedBuildIdsOfRefs rest) hothers rfl)⟩

theorem exists_retainedBuilds (now : UtcDateTime) (h : AllAccepted db) :
    ∃ ids, retainedBuilds now db = .ok ids := by
  have hrefs : ∀ row ∈ db.projectRefsForRetention, ∃ ids,
      lookedUp now (retainedBuildIdsOfRef row.1 row.2.1 row.2.2) db = .ok ids := by
    intro row hrow
    simp only [Database.projectRefsForRetention, List.mem_insertionSort, List.mem_flatMap,
      List.mem_map, List.mem_filter, decide_eq_true_eq] at hrow
    obtain ⟨ref, -, p, ⟨hp, ho⟩, rfl⟩ := hrow
    exact ⟨_, contribution_eq h hp ho⟩
  obtain ⟨all, hall⟩ := lookedUp_retainedOfRefs hrefs
  exact ⟨(all.insertionSort (fun a b => a.toNat ≤ b.toNat)).dedup,
    lookedUp_bind_ok (looks_select (fun _ _ => rfl)) (lookedUp_select _)
      (lookedUp_bind_ok (looks_retainedBuildIdsOfRefs _) hall rfl)⟩

omit [WildMatch] in
theorem exists_pathsOfBuilds (now : UtcDateTime) (db : Database) (ids : List Uuid) :
    ∃ paths, lookedUp now (pathsOfBuilds ids) db = .ok paths := by
  induction ids with
  | nil => exact ⟨[], rfl⟩
  | cons id rest ih =>
    obtain ⟨others, hothers⟩ := ih
    exact ⟨db.attachedPaths id ++ others,
      lookedUp_bind_ok (looks_select (fun _ _ => rfl)) (lookedUp_select _)
        (lookedUp_bind_ok (looks_pathsOfBuilds rest) hothers rfl)⟩

inductive Kept (now : UtcDateTime) (db : Database) (path : StorePathHash) : Prop
  | retained (ref : ProjectRefRow) (hr : ref ∈ db.projectRefs.rows) (p : ProjectRow)
    (hp : p ∈ db.projects.rows) (ho : p.id = ref.projectId) (b : BuildRow)
    (hb : b ∈ firstInQueryOrder (keepCount now db p ref)
      (db.finalizedBuilds ref.projectId ref.refName))
    (hm : ⟨b.id, path⟩ ∈ db.buildPaths.rows)
  | pending (b : BuildRow) (hb : b ∈ db.builds.rows) (hs : b.status = .pending)
    (hm : ⟨b.id, path⟩ ∈ db.buildPaths.rows)
  | pinned (pin : PinRow) (hp : pin ∈ db.pins.rows) (hm : pin.storePathHash = path)

theorem isRoot_iff (h : AllAccepted db) {ids : List Uuid} (hids : retainedBuilds now db = .ok ids)
    (path : StorePathHash) : IsRoot db ids path ↔ Kept now db path := by
  constructor
  · rintro (⟨id, hid, hm⟩ | ⟨b, hb, hs, hm⟩ | ⟨pin, hp, hm⟩)
    · obtain ⟨ref, hr, p, hp, ho, kept, hk, hid⟩ := (mem_retainedBuilds hids id).mp hid
      rw [contribution_eq h hp ho, Except.ok.injEq] at hk
      obtain ⟨b, hb, rfl⟩ := List.mem_map.mp (hk ▸ hid)
      exact .retained ref hr p hp ho b hb hm
    · exact .pending b hb hs hm
    · exact .pinned pin hp hm
  · rintro (⟨ref, hr, p, hp, ho, b, hb, hm⟩ | ⟨b, hb, hs, hm⟩ | ⟨pin, hp, hm⟩)
    · refine .retained b.id ((mem_retainedBuilds hids b.id).mpr ⟨ref, hr, p, hp, ho, _,
        contribution_eq h hp ho, List.mem_map_of_mem hb⟩) hm
    · exact .pending b hb hs hm
    · exact .pinned pin hp hm

theorem exists_roots (now : UtcDateTime) (h : AllAccepted db) :
    ∃ roots, lookedUp now listRootStorePathHashes db = .ok roots := by
  obtain ⟨ids, hids⟩ := exists_retainedBuilds now h
  obtain ⟨paths, hpaths⟩ := exists_pathsOfBuilds now db ids
  exact ⟨((paths ++ db.pendingPaths ++ db.pinnedPaths).insertionSort (· ≤ ·)).dedup,
    lookedUp_bind_ok looks_listRetainedBuildIdsForGc hids
      (lookedUp_bind_ok (looks_pathsOfBuilds ids) hpaths
        (lookedUp_bind_ok (looks_select (fun _ _ => rfl)) (lookedUp_select _)
          (lookedUp_bind_ok (looks_select (fun _ _ => rfl)) (lookedUp_select _) rfl)))⟩

theorem mem_roots (h : AllAccepted db) {roots : List StorePathHash}
    (hroots : lookedUp now listRootStorePathHashes db = .ok roots) (path : StorePathHash) :
    path ∈ roots ↔ Kept now db path := by
  have hquiet : ∀ e, (∃ _ : Nat, e = quietAt now) → e.now = now := by
    rintro _ ⟨-, rfl⟩
    rfl
  have hwp := wp_listRootStorePathHashes (w := ⟨db, fun _ _ => none⟩) (wp_retainedBuilds hquiet)
  obtain ⟨-, hall⟩ := Machine.exec_of_wp_drawn (M := machine) (fun _ => quietAt now) hwp
  obtain ⟨ids, hids, hmem⟩ := hall roots hroots
  exact (hmem path).trans (isRoot_iff h hids path)

end

section

structure AllRegistered (db : Database) : Prop where
  buildPaths : ∀ bp ∈ db.buildPaths.rows, ∃ pi ∈ db.pathInfos.rows,
    pi.storePathHash = bp.storePathHash
  pins : ∀ pin ∈ db.pins.rows, ∃ pi ∈ db.pathInfos.rows, pi.storePathHash = pin.storePathHash

theorem AllRegistered.of_visible {db : Database} (h : AllRegistered db) {view : DepotView}
    {path : StorePathHash} (hv : db.visiblePath view path = true) :
    ∃ pi ∈ db.pathInfos.rows, pi.storePathHash = path := by
  rcases visiblePath_iff.mp hv with ⟨ref, -, -, hm⟩ | ⟨pin, hp, -, rfl⟩
  · exact h.buildPaths _ hm
  · exact h.pins pin hp

variable {w : World}

theorem mem_written {R : Type} (rows : Database → List R) {row : R} {table : Text}
    {result : Option Database} (h : row ∈ rows (w.written table result).1.db) :
    row ∈ rows w.db ∨ ∃ db', result = some db' ∧ row ∈ rows db' := by
  cases result with
  | none => exact Or.inl h
  | some db' => exact Or.inr ⟨db', rfl, h⟩

theorem mem_buildPaths_carryOut {c : Call} {e : Env} {bp : BuildPathRow}
    (h : bp ∈ (carryOut c e w).1.db.buildPaths.rows) : bp ∈ w.db.buildPaths.rows ∨
      ∃ pi ∈ w.db.pathInfos.rows, pi.storePathHash = bp.storePathHash := by
  by_cases hw : TableName.buildPaths ∈ c.writes
  · cases c with
    | attachBuildPath b path =>
      rcases mem_written (fun db => db.buildPaths.rows) h with hold | ⟨db', hd, hm⟩
      · exact Or.inl hold
      obtain ⟨⟨-, pi, hpi⟩, rfl⟩ := attachBuildPath_eq_some.mp hd
      rcases Table.mem_insertOrIgnore.mp hm with hold | ⟨-, rfl⟩
      · exact Or.inl hold
      · exact Or.inr ⟨pi, Database.pathInfo_eq_some.mp hpi⟩
    | _ => simp [Call.writes] at hw
  · rw [(carryOut_frame c e w).buildPaths hw] at h
    exact Or.inl h

theorem mem_pins_carryOut {c : Call} {e : Env} {pin : PinRow}
    (h : pin ∈ (carryOut c e w).1.db.pins.rows) : pin ∈ w.db.pins.rows ∨
      ∃ pi ∈ w.db.pathInfos.rows, pi.storePathHash = pin.storePathHash := by
  by_cases hw : TableName.pins ∈ c.writes
  · cases c with
    | upsertPin row =>
      rcases mem_written (fun db => db.pins.rows) h with hold | ⟨db', hd, hm⟩
      · exact Or.inl hold
      obtain ⟨⟨pi, hpi⟩, t, rfl, ht⟩ := upsertPin_eq_some hd
      have hpi := Database.pathInfo_eq_some.mp hpi
      rcases Table.of_mem_upsert ht hm with ⟨hold, -⟩ | ⟨old, -, -, rfl⟩ | rfl
      · exact Or.inl hold
      · exact Or.inr ⟨pi, hpi⟩
      · exact Or.inr ⟨pi, hpi⟩
    | deletePin scopeKey name => exact Or.inl (Table.mem_delete.mp h).1
    | _ => simp [Call.writes] at hw
  · rw [(carryOut_frame c e w).pins hw] at h
    exact Or.inl h

theorem AllRegistered.answer (h : AllRegistered w.db) (c : Call) (e : Env) :
    AllRegistered (answer c e w).1.db := by
  have hkept : ∀ {path}, (∃ pi ∈ w.db.pathInfos.rows, pi.storePathHash = path) →
      ∃ pi ∈ (Depot.answer c e w).1.db.pathInfos.rows, pi.storePathHash = path := by
    rintro path ⟨pi, hm, hp⟩
    exact ⟨pi, (answer_grows c e w).pathInfos pi hm, hp⟩
  rcases answer_state c e w with hs | hs
  · rw [hs]
    exact h
  · refine ⟨fun bp hbp => hkept ?_, fun pin hpin => hkept ?_⟩
    · rw [hs] at hbp
      exact (mem_buildPaths_carryOut hbp).elim (h.buildPaths bp) id
    · rw [hs] at hpin
      exact (mem_pins_carryOut hpin).elim (h.pins pin) id

theorem registered [Base64] [WildMatch] (r : FreshRun) (n : Nat) : AllRegistered (r.db n) := by
  refine Pool.invariant_of_run (M := machine) (fun w => AllRegistered w.db)
    (fun _ => Prog.uses_any _) (by simp [Pool.Within]) ?_
    (fun q c e w _ hw => hw.answer c e) n
  constructor <;> simp [r.empty]

end

section

variable [Base64] [WildMatch]

theorem roots_kept (r : FreshRun) (n : Nat) (now : UtcDateTime) :
    (∃ roots, lookedUp now listRootStorePathHashes (r.db n) = .ok roots ∧
      ∀ path, path ∈ roots ↔ Kept now (r.db n) path) ∧
    (PublishesApart r.toServerRun → ∀ k projectId refName,
      Latest k (firstInQueryOrder k ((r.db n).finalizedBuilds projectId refName))
        ((r.db n).finalizedBuilds projectId refName)) := by
  have h := allAccepted r n
  obtain ⟨roots, hroots⟩ := exists_roots now h
  refine ⟨⟨roots, hroots, mem_roots h hroots⟩, fun hapart k projectId refName => ?_⟩
  exact latest_firstInQueryOrder (allApart r hapart n projectId refName) k

structure GivenUp (now : UtcDateTime) (db : Database) (view : DepotView) (path : StorePathHash) :
    Prop where
  shown : ∃ ref ∈ db.projectRefs.rows, ShownId view db ref.projectId ∧
    ⟨ref.buildId, path⟩ ∈ db.buildPaths.rows
  unpinned : ∀ pin ∈ db.pins.rows, pin.storePathHash ≠ path
  refs : ∀ ref ∈ db.projectRefs.rows, ⟨ref.buildId, path⟩ ∈ db.buildPaths.rows →
    ∀ p ∈ db.projects.rows, p.id = ref.projectId → keepCount now db p ref = 0

theorem shown_kept (r : FreshRun) (h : PublishesApart r.toServerRun)
    (ha : FinalizedApart r.toServerRun) (hclock : ClockNeverBack r.toServerRun) (n : Nat)
    (now : UtcDateTime) {view : DepotView} {path : StorePathHash}
    (hv : (r.db n).visiblePath view path = true) (hk : ¬ Kept now (r.db n) path) :
    GivenUp now (r.db n) view path := by
  have hpins : ∀ pin ∈ (r.db n).pins.rows, pin.storePathHash ≠ path :=
    fun pin hp hm => hk (.pinned pin hp hm)
  refine ⟨?_, hpins, fun ref hr hm p hp ho => ?_⟩
  · rcases visiblePath_iff.mp hv with hrefs | ⟨pin, hp, -, hm⟩
    · exact hrefs
    · exact absurd hm (hpins pin hp)
  · by_contra hcount
    obtain ⟨b, hb⟩ := pointsToLast r h ha hclock n ref hr
    refine hk (.retained ref hr p hp ho b ?_ (hb.id ▸ hm))
    exact mem_firstInQueryOrder (Nat.one_le_iff_ne_zero.mpr hcount) hb.finalized hb.last

theorem shown_rooted (r : FreshRun) (h : PublishesApart r.toServerRun)
    (ha : FinalizedApart r.toServerRun) (hclock : ClockNeverBack r.toServerRun) (n : Nat)
    (now : UtcDateTime) :
    ∃ roots, lookedUp now listRootStorePathHashes (r.db n) = .ok roots ∧
      ∀ view path, (r.db n).visiblePath view path = true → path ∉ roots →
        GivenUp now (r.db n) view path := by
  have hall := allAccepted r n
  obtain ⟨roots, hroots⟩ := exists_roots now hall
  refine ⟨roots, hroots, fun view path hv hno => ?_⟩
  exact shown_kept r h ha hclock n now hv (fun hk => hno ((mem_roots hall hroots path).mpr hk))

omit [Base64] in
theorem liveAt_of_kept {now : UtcDateTime} {db : Database} {path : StorePathHash}
    (h : AllAccepted db) (hk : Kept now db path) {root pi : PathInfoRow} {o : Text}
    (hm : root ∈ db.pathInfos.rows) (hroot : root.storePathHash = path)
    (hreach : Relation.ReflTransGen (fun x y => y ∈ db.referencedPaths x) root pi)
    (hlink : ∃ po ∈ db.pathObjects.rows, po.storePathHash = pi.storePathHash ∧
      po.objectPath = o) : LiveAt now db o := by
  obtain ⟨ids, hids⟩ := exists_retainedBuilds now h
  exact ⟨ids, hids, root, hm, (isRoot_iff h hids _).mpr (hroot.symm ▸ hk), pi, hreach, hlink⟩

theorem sweep_spares_shown (r : FreshRun) (h : PublishesApart r.toServerRun)
    (ha : FinalizedApart r.toServerRun) (hclock : ClockNeverBack r.toServerRun) (n : Nat)
    (now : UtcDateTime) (g : Int) {es : Nat → Env} (hnow : ∀ k, (es k).now = now)
    {view : DepotView} {path : StorePathHash} (hv : (r.db n).visiblePath view path = true)
    (hg : ¬ GivenUp now (r.db n) view path) :
    ∃ root ∈ (r.db n).pathInfos.rows, root.storePathHash = path ∧
      ∀ pi, Relation.ReflTransGen (fun x y => y ∈ (r.db n).referencedPaths x) root pi →
        ∀ po ∈ (r.db n).pathObjects.rows, po.storePathHash = pi.storePathHash → ∀ s,
          ¬ Gone (r.world n) (machine.exec
            (r.server.gcService.runLocalGcWithGracePeriod false g) es (r.world n)).1
            s po.objectPath := by
  have hk : Kept now (r.db n) path := by
    by_contra hno
    exact hg (shown_kept r h ha hclock n now hv hno)
  obtain ⟨root, hm, hroot⟩ := (registered r n).of_visible hv
  refine ⟨root, hm, hroot, fun pi hreach po hpo hph s hgone => ?_⟩
  have hlive := liveAt_of_kept (allAccepted r n) hk hm hroot hreach ⟨po, hpo, hph, rfl⟩
  have hadmits : ∀ e, (∃ k, e = es k) → e.now = now := by
    rintro _ ⟨k, rfl⟩
    exact hnow k
  have hstops := Machine.exec_of_wp_drawn es (wp_runLocalGc r.server.gcService g True
    (RootsAt now (r.db n)) (RootsAt now (r.db n)) (fun _ => True)
    (wp_rootsAt hadmits (r.world n) (r.db n).storageObjects) (wp_rootsAt hadmits (r.world n))
    (fun _ _ => trivial) (fun _ _ _ => trivial))
  obtain ⟨-, -, -, -, hdead, -⟩ := gone_of_stops hstops hgone
  exact hdead hlive

end

section Examples

attribute [local instance] standardBase64 standardWildMatch

theorem twoBuilds_shown :
    ((twoBuilds ticking).db 66).visiblePath .aggregate helloHash = true ∧
      mainRef ∈ ((twoBuilds ticking).db 66).projectRefs.rows ∧
      ⟨39, helloHash⟩ ∈ ((twoBuilds ticking).db 66).buildPaths.rows ∧
      exampleProject ∈ ((twoBuilds ticking).db 66).projects.rows ∧
      keepCount (ticking 66) ((twoBuilds ticking).db 66) exampleProject mainRef = 1 ∧
      (lookedUp (.whole (.newYear 2031 12)) listRootStorePathHashes
        ((twoBuilds ticking).db 66)).toOption = some [] := by
  decide +kernel

theorem not_givenUp : ¬ GivenUp (ticking 66) ((twoBuilds ticking).db 66) .aggregate helloHash := by
  obtain ⟨-, href, hpath, hproject, hcount, -⟩ := twoBuilds_shown
  rintro ⟨-, -, hrefs⟩
  have hnone := hrefs mainRef href hpath exampleProject hproject rfl
  rw [hcount] at hnone
  cases hnone

theorem second_build_spared :
    ∃ root ∈ ((twoBuilds ticking).db 66).pathInfos.rows, root.storePathHash = helloHash ∧
      ∀ pi, Relation.ReflTransGen
        (fun x y => y ∈ ((twoBuilds ticking).db 66).referencedPaths x) root pi →
        ∀ po ∈ ((twoBuilds ticking).db 66).pathObjects.rows,
          po.storePathHash = pi.storePathHash → ∀ s,
            ¬ Gone ((twoBuilds ticking).world 66) (machine.exec
              (exampleServer.gcService.runLocalGcWithGracePeriod false 0)
              (fun _ => quietAt (ticking 66)) ((twoBuilds ticking).world 66)).1
              s po.objectPath :=
  sweep_spares_shown (twoBuilds ticking) ticking_publishesApart ticking_finalizedApart
    ticking_clockNeverBack 66 (ticking 66) 0 (fun _ => rfl) twoBuilds_shown.1 not_givenUp

theorem second_build_rooted :
    ∃ roots, lookedUp (ticking 66) listRootStorePathHashes ((twoBuilds ticking).db 66) = .ok roots ∧
      helloHash ∈ roots := by
  obtain ⟨roots, hroots, hshown⟩ := shown_rooted (twoBuilds ticking) ticking_publishesApart
    ticking_finalizedApart ticking_clockNeverBack 66 (ticking 66)
  refine ⟨roots, hroots, ?_⟩
  by_contra hno
  exact not_givenUp (hshown .aggregate helloHash twoBuilds_shown.1 hno)

theorem expired_ref_unrooted :
    ((twoBuilds ticking).db 66).visiblePath .aggregate helloHash = true ∧
      ¬ ∃ roots, lookedUp (.whole (.newYear 2031 12)) listRootStorePathHashes
        ((twoBuilds ticking).db 66) = .ok roots ∧ helloHash ∈ roots := by
  obtain ⟨hvisible, -, -, -, -, hroots⟩ := twoBuilds_shown
  refine ⟨hvisible, ?_⟩
  rintro ⟨roots, h, hm⟩
  rw [h] at hroots
  cases hroots
  cases hm

end Examples

end Retained
