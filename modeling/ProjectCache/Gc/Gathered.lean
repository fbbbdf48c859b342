import ProjectCache.Gc.Policies

namespace Gathered

open Textual Nix Project Calendar Tables Store Db Programs Depot Depot.Server SqliteDatabase Gc
  Recency Policies Publisher

structure SamePolicies (d db : Database) : Prop where
  projects : db.projects = d.projects
  policies : db.retentionPolicies = d.retentionPolicies
  rules : db.retentionRules = d.retentionRules

theorem SamePolicies.policyOf {d db : Database} (h : SamePolicies d db) (p : ProjectRow) :
    policyOf db p = policyOf d p := by
  unfold Policies.policyOf Database.retentionPolicyRow Database.retentionRulesOf
  rw [h.policies, h.rules]

def Keeping [WildMatch] (now : UtcDateTime) (db : Database) (b : Uuid) : Prop :=
  ∃ ids, retainedBuilds now db = .ok ids ∧ b ∈ ids

def OfRef (db : Database) (b : Uuid) (ref : ProjectRefRow) : Prop :=
  ∃ row ∈ db.builds.rows, row.id = b ∧ row.projectId = ref.projectId ∧ row.refName = ref.refName

section

variable [WildMatch] {now : UtcDateTime} {db : Database} {b : Uuid} {ref : ProjectRefRow}
  {p : ProjectRow} {rule : ProjectRetentionRuleRecord}

structure KeptBy (now : UtcDateTime) (db : Database) (b : Uuid) (ref : ProjectRefRow)
    (p : ProjectRow) (rule : ProjectRetentionRuleRecord) : Prop where
  mem : ref ∈ db.projectRefs.rows
  project : p ∈ db.projects.rows
  owns : p.id = ref.projectId
  matching : matchingRetentionRule (policyOf db p).rules ref.refName = some rule
  active : lookedUp now (refIsActive ref.updatedAt rule.ttlSeconds) db = .ok true
  newest : b ∈ db.newestBuildIds p.id ref.refName
    (rule.keepBuilds.getD (policyOf db p).keepLatestBuildsPerRef).toNat

theorem exists_keptBy (h : Keeping now db b) : ∃ ref p rule, KeptBy now db b ref p rule := by
  obtain ⟨all, hall, hb⟩ := h
  obtain ⟨ref, href, p, hp, ho, ids, hids, hm⟩ := (mem_retainedBuilds hall b).mp hb
  have hids := (lookedUp_bind (looks_getProjectRetentionPolicy p.slug) _).symm.trans hids
  rw [lookedUp_policy, policyIn, Database.projectBySlug_eq_some.mpr ⟨hp, rfl⟩] at hids
  cases hrule : matchingRetentionRule (policyOf db p).rules ref.refName with
  | none =>
    simp only [hrule] at hids
    cases hids
    cases hm
  | some rule =>
    simp only [hrule] at hids
    have hids := (lookedUp_bind (looks_refIsActive ref.updatedAt rule.ttlSeconds) _).symm.trans hids
    cases hactive : lookedUp now (refIsActive ref.updatedAt rule.ttlSeconds) db with
    | error x => simp [hactive] at hids
    | ok active =>
      cases active with
      | false =>
        simp only [hactive] at hids
        cases hids
        cases hm
      | true =>
        simp only [hactive, not_true_eq_false, if_false] at hids
        have hids := (lookedUp_bind (looks_projectIdBySlug p.slug) _).symm.trans hids
        rw [lookedUp_projectIdBySlug hp] at hids
        obtain rfl := Except.ok.inj hids
        exact ⟨ref, p, rule, href, hp, ho, hrule, hactive, hm⟩

theorem KeptBy.ofRef (h : KeptBy now db b ref p rule) : OfRef db b ref := by
  obtain ⟨row, hrow, rfl⟩ := List.mem_map.mp h.newest
  obtain ⟨hm, hproject, hname, -⟩ :=
    mem_finalizedBuilds.mp ((List.mem_insertionSort _).mp (List.mem_of_mem_take hrow))
  exact ⟨row, hm, rfl, hproject.trans h.owns, hname⟩

end

section

variable {Q A B : Type} {program : Q → Action A} {start : Pool machine Q A}
  {schedule : Pool.Schedule machine Q} {i k l m n : Nat} {d : Database} {b : Uuid}

def Steady (program : Q → Action A) (start : Pool machine Q A)
    (schedule : Pool.Schedule machine Q) (d : Database) (m n : Nat) : Prop :=
  ∀ k, m ≤ k → k < n → SamePolicies d (Pool.run program start schedule k).state.db

theorem Steady.within (h : Steady program start schedule d m n) (hmk : m ≤ k) (hln : l ≤ n) :
    Steady program start schedule d k l :=
  fun j hkj hjl => h j (by omega) (by omega)

theorem ran_projectIdBySlug (hs : Steady program start schedule d m n) {p : ProjectRow}
    (hp : p ∈ d.projects.rows) {id : Uuid}
    (h : Pool.Ran program start schedule i m n (projectIdBySlug p.slug) (.done (.ok id))) :
    id = p.id := by
  obtain ⟨k₁, found, h₁, h₂⟩ := Pool.Ran.finished h
  obtain ⟨k, hmk, hk, -, rfl⟩ := ran_select h₁
  have := h₂.le
  have hfound : (Pool.run program start schedule k).state.db.projectBySlug p.slug = some p := by
    refine Database.projectBySlug_eq_some.mpr ⟨?_, rfl⟩
    rw [(hs k hmk (by omega)).projects]
    exact hp
  have hid := ran_orFail h₂
  rw [hfound] at hid
  exact (Option.some.inj hid).symm

theorem ran_policy (hs : Steady program start schedule d m n) {p : ProjectRow}
    (hp : p ∈ d.projects.rows) {policy : ProjectRetentionPolicyRecord}
    (h : Pool.Ran program start schedule i m n (getProjectRetentionPolicy p.slug)
      (.done (.ok policy))) : policy = policyOf d p := by
  obtain ⟨k₁, id, h₁, h₂⟩ := Pool.Ran.finished h
  have := h₂.le
  obtain rfl := ran_projectIdBySlug (hs.within le_rfl this) hp h₁
  obtain ⟨k₂, row, h₃, h₄⟩ := Pool.Ran.finished h₂
  obtain ⟨k, hk₁, hk₂, -, rfl⟩ := ran_select h₃
  have := h₁.le
  have := h₄.le
  have hsame := hs k (by omega) (by omega)
  have hrow : (Pool.run program start schedule k).state.db.retentionPolicyRow p.id =
      d.retentionPolicyRow p.id := by
    unfold Database.retentionPolicyRow
    rw [hsame.policies]
  rw [hrow] at h₄
  unfold policyOf
  cases hstored : d.retentionPolicyRow p.id with
  | none =>
    rw [hstored] at h₄
    cases h₄
    rfl
  | some stored =>
    rw [hstored] at h₄
    obtain ⟨k₃, rules, h₅, h₆⟩ := Pool.Ran.finished h₄
    obtain ⟨j, hj₁, hj₂, -, rfl⟩ := ran_select h₅
    have := h₆.le
    have hrules : (Pool.run program start schedule j).state.db.retentionRulesOf p.id =
        d.retentionRulesOf p.id := by
      unfold Database.retentionRulesOf
      rw [(hs j (by omega) (by omega)).rules]
    rw [hrules] at h₆
    cases h₆
    rfl

theorem ran_refIsActive {updatedAt : SqliteTime} {ttlSeconds : Option UInt64} {active : Bool}
    (hall : ∀ k, m ≤ k → k < n → ∃ db,
      lookedUp (schedule.env k).now (refIsActive updatedAt ttlSeconds) db = .ok true)
    (h : Pool.Ran program start schedule i m n (refIsActive updatedAt ttlSeconds)
      (.done (.ok active))) : active = true := by
  cases ttlSeconds with
  | none =>
    cases h
    rfl
  | some ttl =>
    obtain ⟨k₁, now, h₁, h₂⟩ := Pool.Ran.finished h
    obtain ⟨k, hmk, hk, hh⟩ := Pool.Ran.performed h₁
    have := h₂.le
    have hreply : .ok now = (answer .now (schedule.env k)
      (Pool.run program start schedule k).state).2 := hh.reply
    obtain rfl := Except.ok.inj hreply
    obtain ⟨db, hactive⟩ := hall k hmk (by omega)
    have hactive := (lookedUp_bind (Prog.direct_perform .now) _).symm.trans hactive
    have hclock : lookedUp (schedule.env k).now (Prog.perform Call.now) db =
        .ok (schedule.env k).now := rfl
    rw [hclock] at hactive
    simp only at hactive
    split at h₂
    · cases h₂
    · rename_i hlt
      rw [if_neg hlt] at hactive
      cases h₂
      exact Except.ok.inj hactive

variable [WildMatch]

theorem ran_retainedOfRef (hs : Steady program start schedule d m n) {ref : ProjectRefRow}
    {p : ProjectRow} {rule : ProjectRetentionRuleRecord} (hp : p ∈ d.projects.rows)
    (hrule : matchingRetentionRule (policyOf d p).rules ref.refName = some rule)
    (hkept : ∀ k, m ≤ k → k < n → KeptBy (schedule.env k).now
      (Pool.run program start schedule k).state.db b ref p rule) {ids : List Uuid}
    (h : Pool.Ran program start schedule i m n
      (retainedBuildIdsOfRef p.slug ref.refName ref.updatedAt) (.done (.ok ids))) : b ∈ ids := by
  obtain ⟨k₁, policy, h₁, h₂⟩ := Pool.Ran.finished h
  have := h₁.le
  have := h₂.le
  obtain rfl := ran_policy (hs.within le_rfl h₂.le) hp h₁
  simp only [hrule] at h₂
  obtain ⟨k₂, active, h₃, h₄⟩ := Pool.Ran.finished h₂
  have := h₃.le
  have := h₄.le
  obtain rfl := ran_refIsActive
    (fun k hk hkn => ⟨_, (hkept k (by omega) (by omega)).active⟩) h₃
  simp only [not_true_eq_false, if_false] at h₄
  obtain ⟨k₃, id, h₅, h₆⟩ := Pool.Ran.finished h₄
  have := h₅.le
  obtain rfl := ran_projectIdBySlug (hs.within (by omega) h₆.le) hp h₅
  obtain ⟨k, hk, hkn, -, rfl⟩ := ran_select h₆
  have hnewest := (hkept k (by omega) hkn).newest
  rwa [(hs k (by omega) hkn).policyOf] at hnewest

theorem ran_retainedOfRefs {refs : List (ProjectSlug × Text × SqliteTime)} {all : List Uuid}
    (h : Pool.Ran program start schedule i m n (retainedBuildIdsOfRefs refs) (.done (.ok all))) :
    ∀ ref ∈ refs, ∃ k l ids, m ≤ k ∧ l ≤ n ∧
      Pool.Ran program start schedule i k l (retainedBuildIdsOfRef ref.1 ref.2.1 ref.2.2)
        (.done (.ok ids)) ∧ ∀ id ∈ ids, id ∈ all := by
  induction refs generalizing m n all with
  | nil => simp
  | cons ref rest ih =>
    obtain ⟨k₁, ids, h₁, h₂⟩ := Pool.Ran.finished h
    obtain ⟨k₂, others, h₃, h₄⟩ := Pool.Ran.finished h₂
    have := h₁.le
    have := h₂.le
    have := h₄.le
    cases h₄
    refine List.forall_mem_cons.mpr ⟨⟨m, k₁, ids, le_rfl, by omega, h₁, ?_⟩, fun other ho => ?_⟩
    · exact fun id hid => List.mem_append_left _ hid
    · obtain ⟨k, l, found, hk, hl, hran, hsub⟩ := ih h₃ other ho
      exact ⟨k, l, found, by omega, by omega, hran,
        fun id hid => List.mem_append_right _ (hsub id hid)⟩

omit [WildMatch] in
theorem ran_pathsOfBuilds {ids : List Uuid} {paths : List StorePathHash}
    (h : Pool.Ran program start schedule i m n (pathsOfBuilds ids) (.done (.ok paths))) :
    ∀ id ∈ ids, ∃ k, m ≤ k ∧ k < n ∧
      ∀ path ∈ (Pool.run program start schedule k).state.db.attachedPaths id, path ∈ paths := by
  induction ids generalizing m n paths with
  | nil => simp
  | cons id rest ih =>
    obtain ⟨k₁, found, h₁, h₂⟩ := Pool.Ran.finished h
    obtain ⟨k₂, others, h₃, h₄⟩ := Pool.Ran.finished h₂
    obtain ⟨k, hmk, hk, -, rfl⟩ := ran_select h₁
    have := h₂.le
    have := h₄.le
    cases h₄
    refine List.forall_mem_cons.mpr ⟨⟨k, hmk, by omega, ?_⟩, fun other ho => ?_⟩
    · exact fun path hpath => List.mem_append_left _ hpath
    · obtain ⟨j, hj, hjn, hsub⟩ := ih h₃ other ho
      exact ⟨j, by omega, by omega, fun path hpath => List.mem_append_right _ (hsub path hpath)⟩

omit [WildMatch] in
theorem ofRef_later {ref : ProjectRefRow} (hkl : k ≤ l)
    (h : OfRef (Pool.run program start schedule k).state.db b ref) :
    OfRef (Pool.run program start schedule l).state.db b ref := by
  obtain ⟨row, hm, rfl, hproject, hname⟩ := h
  have hgrows : Grows (Pool.run program start schedule k).state.db
      (Pool.run program start schedule l).state.db :=
    Pool.run_related (M := machine) (fun v w => Grows v.db w.db) (fun _ => Grows.refl _)
      Grows.trans answer_grows hkl
  obtain ⟨row', hrow', hproject', hname', -⟩ :=
    hgrows.build (Database.build_eq_some.mpr ⟨hm, rfl⟩)
  obtain ⟨hm', hid⟩ := Database.build_eq_some.mp hrow'
  exact ⟨row', hm', hid, hproject'.trans hproject, hname'.trans hname⟩

def Unrenewed (program : Q → Action A) (start : Pool machine Q A)
    (schedule : Pool.Schedule machine Q) (b : Uuid) (m n : Nat) : Prop :=
  ∀ k l, m ≤ k → k ≤ l → l < n →
    ∀ ref ∈ (Pool.run program start schedule l).state.db.projectRefs.rows,
      OfRef (Pool.run program start schedule l).state.db b ref →
        ref ∈ (Pool.run program start schedule k).state.db.projectRefs.rows

theorem keptBy_later (hs : Steady program start schedule d m n)
    (hr : Unrenewed program start schedule b m n)
    (hkept : ∀ k, m ≤ k → k < n →
      Keeping (schedule.env k).now (Pool.run program start schedule k).state.db b)
    {ref : ProjectRefRow} {p : ProjectRow} {rule : ProjectRetentionRuleRecord} (hmk : m ≤ k)
    (h : KeptBy (schedule.env k).now (Pool.run program start schedule k).state.db b ref p rule)
    (hkl : k ≤ l) (hln : l < n) :
    KeptBy (schedule.env l).now (Pool.run program start schedule l).state.db b ref p rule := by
  obtain ⟨ref', p', rule', hlater⟩ := exists_keptBy (hkept l (by omega) hln)
  have hsame := hs k hmk (by omega)
  have hsame' := hs l (by omega) hln
  obtain ⟨row, hm, hid, hproject, hname⟩ := ofRef_later hkl h.ofRef
  obtain ⟨row', hm', hid', hproject', hname'⟩ := hlater.ofRef
  obtain rfl : row' = row := Table.eq_of_clash hm' hm (by simp [Keyed.clash, hid, hid'])
  obtain rfl : ref' = ref := Table.eq_of_clash (hr k l hmk hkl hln ref' hlater.mem hlater.ofRef)
    h.mem (by simp [Keyed.clash, hproject'.symm.trans hproject, hname'.symm.trans hname])
  have hp : p ∈ (Pool.run program start schedule l).state.db.projects.rows := by
    rw [hsame'.projects, ← hsame.projects]
    exact h.project
  obtain rfl : p' = p := Table.eq_of_clash hlater.project hp
    (by simp [Keyed.clash, hlater.owns.trans h.owns.symm])
  have hmatching := hlater.matching
  rw [hsame'.policyOf, ← hsame.policyOf] at hmatching
  obtain rfl := Option.some.inj (hmatching.symm.trans h.matching)
  exact hlater

theorem ran_retainedBuilds (hs : Steady program start schedule d m n)
    (hr : Unrenewed program start schedule b m n)
    (hkept : ∀ k, m ≤ k → k < n →
      Keeping (schedule.env k).now (Pool.run program start schedule k).state.db b)
    {ids : List Uuid}
    (h : Pool.Ran program start schedule i m n listRetainedBuildIdsForGc (.done (.ok ids))) :
    b ∈ ids := by
  obtain ⟨k₁, refs, h₁, h₂⟩ := Pool.Ran.finished h
  obtain ⟨k₂, all, h₃, h₄⟩ := Pool.Ran.finished h₂
  obtain ⟨k, hmk, hk, -, rfl⟩ := ran_select h₁
  have := h₂.le
  have := h₄.le
  cases h₄
  rw [List.mem_dedup, List.mem_insertionSort]
  obtain ⟨ref, p, rule, hkeeps⟩ := exists_keptBy (hkept k hmk (by omega))
  have hsame := hs k hmk (by omega)
  have hlisted : (p.slug, ref.refName, ref.updatedAt) ∈
      (Pool.run program start schedule k).state.db.projectRefsForRetention := by
    simp only [Database.projectRefsForRetention, List.mem_insertionSort, List.mem_flatMap,
      List.mem_map, List.mem_filter, decide_eq_true_eq]
    exact ⟨ref, hkeeps.mem, p, ⟨hkeeps.project, hkeeps.owns⟩, rfl⟩
  obtain ⟨k₃, k₄, found, hk₃, hk₄, hran, hsub⟩ := ran_retainedOfRefs h₃ _ hlisted
  have hmatching := hkeeps.matching
  rw [hsame.policyOf] at hmatching
  exact hsub b (ran_retainedOfRef (hs.within (by omega) (by omega))
    (hsame.projects ▸ hkeeps.project) hmatching
    (fun l hl hln => keptBy_later hs hr hkept hmk hkeeps (by omega) (by omega)) hran)

theorem ran_roots (hs : Steady program start schedule d m n)
    (hr : Unrenewed program start schedule b m n)
    (hkept : ∀ k, m ≤ k → k < n →
      Keeping (schedule.env k).now (Pool.run program start schedule k).state.db b)
    {path : StorePathHash} (hpath : ∀ k, m ≤ k → k < n →
      ⟨b, path⟩ ∈ (Pool.run program start schedule k).state.db.buildPaths.rows)
    {roots : List StorePathHash}
    (h : Pool.Ran program start schedule i m n listRootStorePathHashes (.done (.ok roots))) :
    path ∈ roots := by
  obtain ⟨k₁, ids, h₁, h₂⟩ := Pool.Ran.finished h
  obtain ⟨k₂, paths, h₃, h₄⟩ := Pool.Ran.finished h₂
  obtain ⟨k₃, pending, -, h₆⟩ := Pool.Ran.finished h₄
  obtain ⟨k₄, pinned, -, h₈⟩ := Pool.Ran.finished h₆
  have := h₁.le
  have := h₂.le
  have := h₄.le
  cases h₈
  have hb : b ∈ ids := ran_retainedBuilds (hs.within le_rfl (by omega))
    (fun k l hk hkl hl => hr k l hk hkl (by omega)) (fun k hk hkn => hkept k hk (by omega)) h₁
  obtain ⟨k, hk, hkn, hall⟩ := ran_pathsOfBuilds h₃ b hb
  have hlisted := hall path (Database.mem_attachedPaths.mpr (hpath k (by omega) (by omega)))
  simp [hlisted]

end

end Gathered
