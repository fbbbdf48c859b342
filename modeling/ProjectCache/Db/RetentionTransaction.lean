import ProjectCache.Db.Retention
import ProjectCache.Lib.Transaction

namespace Db.Database

open Textual Nix Project Calendar Tables Store

variable (db : Database)

def hasProject (projectId : Uuid) : Bool := db.projects.rows.any (fun p => p.id = projectId)

def upsertRetentionPolicy (policy : RetentionPolicyRow) : Option Database :=
  if db.hasProject policy.projectId then
    (db.retentionPolicies.upsert policy (fun rp => rp.projectId = policy.projectId)
      (fun rp => { rp with keepLatestBuildsPerRef := policy.keepLatestBuildsPerRef,
                           objectDeleteGraceSeconds := policy.objectDeleteGraceSeconds })
      (keepsKey_setPolicy policy)).map (fun retentionPolicies => { db with retentionPolicies })
  else none

def deleteRetentionRules (projectId : Uuid) : Database :=
  { db with retentionRules := db.retentionRules.delete (fun r => r.projectId = projectId) }

def insertRetentionRule (row : RetentionRuleRow) : Option Database :=
  if db.hasProject row.projectId then
    (db.retentionRules.insert row).map (fun retentionRules => { db with retentionRules })
  else none

def insertRetentionRules : List RetentionRuleRow → Database → Option Database
  | [], db => some db
  | row :: rest, db => (db.insertRetentionRule row).bind (insertRetentionRules rest)

variable {db} {db' : Database} {policy : RetentionPolicyRow} {rows : List RetentionRuleRow}
  {projectId : Uuid}

theorem insertRetentionRule_eq_some {row : RetentionRuleRow} :
    db.insertRetentionRule row = some db' ↔ db.hasProject row.projectId = true ∧
      ∃ retentionRules, db.retentionRules.insert row = some retentionRules ∧
        db' = { db with retentionRules } := by
  unfold insertRetentionRule
  split
  · rename_i h
    simp [h, eq_comm]
  · rename_i h
    simp [h]

theorem insertRetentionRules_eq_some : insertRetentionRules rows db = some db' ↔
    (∀ row ∈ rows, db.hasProject row.projectId = true) ∧
      ∃ retentionRules, insertRules rows db.retentionRules = some retentionRules ∧
        db' = { db with retentionRules } := by
  induction rows generalizing db with
  | nil =>
    constructor
    · intro h
      cases h
      exact ⟨List.forall_mem_nil _, _, rfl, rfl⟩
    · rintro ⟨-, rules, h, rfl⟩
      cases h
      rfl
  | cons row rest ih =>
    simp only [insertRetentionRules, Option.bind_eq_some_iff, insertRetentionRule_eq_some,
      List.forall_mem_cons, insertRules]
    constructor
    · rintro ⟨_, ⟨hp, rules, hi, rfl⟩, hrest⟩
      obtain ⟨hall, rules', hr, rfl⟩ := ih.mp hrest
      exact ⟨⟨hp, hall⟩, rules', ⟨rules, hi, hr⟩, rfl⟩
    · rintro ⟨⟨hp, hall⟩, rules', ⟨rules, hi, hr⟩, rfl⟩
      exact ⟨_, ⟨hp, rules, hi, rfl⟩, ih.mpr ⟨hall, rules', hr, rfl⟩⟩

theorem insertRules_rows {rules rules' : Table RetentionRuleRow}
    (h : insertRules rows rules = some rules') : rules'.rows = rules.rows ++ rows := by
  induction rows generalizing rules with
  | nil =>
    cases h
    rw [List.append_nil]
  | cons row rest ih =>
    obtain ⟨added, ha, hr⟩ := Option.bind_eq_some_iff.mp h
    obtain ⟨hf, rfl⟩ := Table.insert_eq_some.mp ha
    rw [ih hr, Table.add, List.append_assoc]
    rfl

theorem replaceRetentionPolicy_eq_some (hrows : ∀ row ∈ rows, row.projectId = policy.projectId) :
    db.replaceRetentionPolicy policy rows = some db' ↔
      ∃ db₁, db.upsertRetentionPolicy policy = some db₁ ∧
        insertRetentionRules rows (db₁.deleteRetentionRules policy.projectId) = some db' := by
  unfold replaceRetentionPolicy upsertRetentionPolicy
  rw [← hasProject]
  by_cases hp : db.hasProject policy.projectId = true
  · have hall : ∀ row ∈ rows, db.hasProject row.projectId = true :=
      fun row hrow => by rw [hrows row hrow, hp]
    rw [if_pos hp, if_pos hp]
    simp only [Option.bind_eq_bind, Option.bind_eq_some_iff, Option.map_eq_some_iff,
      insertRetentionRules_eq_some]
    constructor
    · rintro ⟨policies, hu, rules, hi, hr⟩
      cases hr
      exact ⟨_, ⟨policies, hu, rfl⟩, hall, rules, hi, rfl⟩
    · rintro ⟨_, ⟨policies, hu, rfl⟩, -, rules, hi, rfl⟩
      exact ⟨policies, hu, rules, hi, rfl⟩
  · rw [if_neg hp, if_neg hp]
    simp

theorem upsert_of_deleted : (db.deleteRetentionRules projectId).upsertRetentionPolicy policy =
    (db.upsertRetentionPolicy policy).map (fun db => db.deleteRetentionRules projectId) := by
  unfold upsertRetentionPolicy
  change (if db.hasProject policy.projectId then _ else none) = _
  split
  · rw [Option.map_map]
    rfl
  · rfl

theorem deleteRetentionRules_twice : (db.deleteRetentionRules projectId).deleteRetentionRules
    projectId = db.deleteRetentionRules projectId := by
  have hrows : (db.retentionRules.delete (fun r => r.projectId = projectId)).delete
      (fun r => r.projectId = projectId) =
        db.retentionRules.delete (fun r => r.projectId = projectId) :=
    Table.ext (by simp [Table.delete])
  rw [deleteRetentionRules, deleteRetentionRules, hrows]

theorem retentionPolicyRow_eq_some : db.retentionPolicyRow projectId = some policy ↔
    policy ∈ db.retentionPolicies.rows ∧ policy.projectId = projectId := by
  rw [retentionPolicyRow, Table.find?_eq_some_iff]
  · simp
  · intro a b ha hb
    simp only [decide_eq_true_eq] at ha hb
    simp [Keyed.clash, ha, hb]

theorem mem_upsertRetentionPolicy (h : db.upsertRetentionPolicy policy = some db')
    {rp : RetentionPolicyRow} : rp ∈ db'.retentionPolicies.rows ↔
      rp = policy ∨ rp ∈ db.retentionPolicies.rows ∧ rp.projectId ≠ policy.projectId := by
  unfold upsertRetentionPolicy at h
  split at h
  · obtain ⟨policies, hu, rfl⟩ := Option.map_eq_some_iff.mp h
    by_cases ha : db.retentionPolicies.rows.any (fun rp => rp.projectId = policy.projectId) = true
    · rw [Table.upsert_of_any ha] at hu
      cases hu
      obtain ⟨old, hold, hid⟩ := List.any_eq_true.mp ha
      simp only [decide_eq_true_eq] at hid
      rw [Table.mem_update]
      constructor
      · rintro ⟨r, hr, rfl⟩
        by_cases hrp : r.projectId = policy.projectId
        · simp [hrp]
        · exact Or.inr (by simpa [hrp] using hr)
      · rintro (rfl | ⟨hr, hne⟩)
        · exact ⟨old, hold, by simp [hid]⟩
        · exact ⟨rp, hr, by simp [hne]⟩
    · rw [Table.upsert_of_not_any (Bool.eq_false_iff.mpr ha)] at hu
      have hne : ∀ r ∈ db.retentionPolicies.rows, r.projectId ≠ policy.projectId := by
        simpa using ha
      rw [Table.mem_of_insert hu]
      constructor
      · rintro (hr | rfl)
        · exact Or.inr ⟨hr, hne rp hr⟩
        · exact Or.inl rfl
      · rintro (rfl | ⟨hr, -⟩)
        · exact Or.inr rfl
        · exact Or.inl hr
  · cases h

end Db.Database

namespace SqliteTransaction

open Textual Nix Project Calendar Tables Store Db Depot Programs Transactions

abbrev Session (A : Type) := Transactions.Session Database Error Uuid A

def fail {A : Type} (error : Error) : Session A := .done (.error error)

def query {B : Type} (statement : Database → B) : Session B :=
  execute (fun db => .ok (statement db, db))

def written (table : Text) (statement : Database → Option Database) : Session Unit :=
  execute (fun db =>
    match statement db with
    | some db => .ok ((), db)
    | none => .error (.constraint table))

def projectIdBySlug (slug : ProjectSlug) : Session Uuid := do
  match ← query (fun db => (db.projectBySlug slug).map ProjectRow.id) with
  | some id => return id
  | none => fail (.projectNotFound slug)

def insertRules (projectId : Uuid) : List ProjectRetentionRuleRecord → Session Unit
  | [] => return ()
  | rule :: rest =>
    if rule.priority = 0 then fail .retentionRulePriority
    else if trim rule.refPattern = [] then fail .retentionRulePattern
    else do
      let ruleId ← fresh
      if rule.ttlSeconds.any (fun ttl => 2 ^ 63 ≤ ttl.toNat) then fail .durationOverflow
      else do
        written "project_ref_retention_rules".toList (fun db => db.insertRetentionRule
          ⟨ruleId, projectId, rule.priority, trim rule.refPattern, rule.ttlSeconds,
            rule.keepBuilds⟩)
        insertRules projectId rest

def replaceProjectRetentionPolicy (project : ProjectSlug) (keepLatestBuildsPerRef : UInt32)
    (objectDeleteGraceSeconds : UInt64) (rules : List ProjectRetentionRuleRecord) :
    Session Unit := do
  if keepLatestBuildsPerRef = 0 then fail .keepLatestBuildsPerRef
  else if rules = [] then fail .noRetentionRules
  else do
    let projectId ← projectIdBySlug project
    if 2 ^ 63 ≤ objectDeleteGraceSeconds.toNat then fail .durationOverflow
    else
      transaction do
        written "project_retention_policies".toList (fun db => db.upsertRetentionPolicy
          ⟨projectId, keepLatestBuildsPerRef, objectDeleteGraceSeconds⟩)
        execute (fun db => .ok ((), db.deleteRetentionRules projectId))
        insertRules projectId rules

def deleteProjectRetentionPolicy (project : ProjectSlug) : Session Bool := do
  let projectId ← projectIdBySlug project
  execute (fun db => .ok (db.deleteRetentionPolicy projectId))

def trimmed (rule : ProjectRetentionRuleRecord) : ProjectRetentionRuleRecord :=
  { rule with refPattern := trim rule.refPattern }

structure RuleAccepted (rule : ProjectRetentionRuleRecord) : Prop where
  priority : rule.priority ≠ 0
  refPattern : trim rule.refPattern ≠ []
  ttlSeconds : ¬ rule.ttlSeconds.any (fun ttl => 2 ^ 63 ≤ ttl.toNat)

def rowOf (projectId : Uuid) (rule : ProjectRetentionRuleRecord) (ruleId : Uuid) :
    RetentionRuleRow :=
  ⟨ruleId, projectId, rule.priority, trim rule.refPattern, rule.ttlSeconds, rule.keepBuilds⟩

inductive RowsOf (projectId : Uuid) : List ProjectRetentionRuleRecord → List RetentionRuleRow → Prop
  | nil : RowsOf projectId [] []
  | cons {rule : ProjectRetentionRuleRecord} {rules : List ProjectRetentionRuleRecord}
    {rows : List RetentionRuleRow} (ruleId : Uuid) (h : RuleAccepted rule)
    (rest : RowsOf projectId rules rows) :
    RowsOf projectId (rule :: rules) (rowOf projectId rule ruleId :: rows)

theorem RowsOf.project {projectId : Uuid} {rules : List ProjectRetentionRuleRecord}
    {rows : List RetentionRuleRow} (h : RowsOf projectId rules rows) :
    ∀ row ∈ rows, row.projectId = projectId := by
  induction h with
  | nil => exact List.forall_mem_nil _
  | cons ruleId _ _ ih => exact List.forall_mem_cons.mpr ⟨rfl, ih⟩

theorem RowsOf.records {projectId : Uuid} {rules : List ProjectRetentionRuleRecord}
    {rows : List RetentionRuleRow} (h : RowsOf projectId rules rows) :
    rows.map RetentionRuleRow.intoRecord = rules.map trimmed := by
  induction h with
  | nil => rfl
  | cons ruleId _ _ ih =>
    rw [List.map_cons, List.map_cons, ih]
    rfl

structure Replaced (project : ProjectSlug) (keepLatestBuildsPerRef : UInt32)
    (objectDeleteGraceSeconds : UInt64) (rules : List ProjectRetentionRuleRecord)
    (db db' : Database) (p : ProjectRow) (rows : List RetentionRuleRow) : Prop where
  keeps : keepLatestBuildsPerRef ≠ 0
  nonempty : rules ≠ []
  project : db.projectBySlug project = some p
  grace : ¬ 2 ^ 63 ≤ objectDeleteGraceSeconds.toNat
  each : RowsOf p.id rules rows
  replaced : db.replaceRetentionPolicy
    ⟨p.id, keepLatestBuildsPerRef, objectDeleteGraceSeconds⟩ rows = some db'

section

variable {admits : Moment Error Uuid → Prop} {s t : Database} {projectId : Uuid}
  {rules : List ProjectRetentionRuleRecord} {project : ProjectSlug} {A : Type}

theorem wp_written {table : Text} {statement : Database → Option Database}
    {c : Connection Database} {post : Except Error Unit → Connection Database → Prop}
    (hok : ∀ u, statement c.current = some u → post (.ok ()) (c.write u))
    (herr : ∀ x, post (.error x) c) :
    (machine Database Error Uuid).wp admits post (written table statement) c := by
  refine wp_execute (fun b u hr => ?_) herr
  cases hs : statement c.current with
  | none => simp [hs] at hr
  | some v =>
    simp only [hs, Except.ok.injEq, Prod.mk.injEq] at hr
    exact hr.2 ▸ hok v hs

theorem wp_projectIdBySlug {post : Except Error Uuid → Connection Database → Prop}
    (hok : ∀ p, s.projectBySlug project = some p → post (.ok p.id) ⟨s, none⟩)
    (herr : ∀ x, post (.error x) ⟨s, none⟩) :
    (machine Database Error Uuid).wp admits post (projectIdBySlug project) ⟨s, none⟩ := by
  refine Machine.wp_bind.mpr (wp_execute (fun b u hr => ?_) herr)
  cases hr
  rw [onOk_ok]
  change (machine Database Error Uuid).wp admits post (match (s.projectBySlug project).map
    ProjectRow.id with | some id => return id | none => fail (.projectNotFound project)) ⟨s, none⟩
  cases hp : s.projectBySlug project with
  | none => exact herr _
  | some p => exact hok p hp

theorem inside_insertRules :
    (insertRules projectId rules).Uses (Request.Inside : Request Database Error Uuid → Prop) := by
  induction rules with
  | nil => trivial
  | cons rule rest ih =>
    unfold insertRules
    split
    · trivial
    split
    · trivial
    refine Prog.Uses.bind (Prog.uses_perform trivial) (fun ruleId => ?_)
    split
    · trivial
    exact Prog.Uses.bind (Prog.uses_perform trivial) (fun _ => ih)

theorem wp_insertRules : (machine Database Error Uuid).wp admits
    (fun r c => ∀ a u, r = .ok a → c = ⟨s, some u⟩ →
      ∃ rows, RowsOf projectId rules rows ∧ Database.insertRetentionRules rows t = some u)
    (insertRules projectId rules) ⟨s, some t⟩ := by
  induction rules generalizing t with
  | nil =>
    intro a u _ hc
    cases hc
    exact ⟨[], .nil, rfl⟩
  | cons rule rest ih =>
    have herror : ∀ (x : Error) (c : Connection Database) (a : Unit) (u : Database),
        (.error x : Except Error Unit) = .ok a → c = ⟨s, some u⟩ → ∃ rows,
          RowsOf projectId (rule :: rest) rows ∧ Database.insertRetentionRules rows t = some u :=
      fun _ _ _ _ h => nomatch h
    unfold insertRules
    split
    · exact herror _ _
    rename_i hpriority
    split
    · exact herror _ _
    rename_i hpattern
    refine Machine.wp_bind.mpr (wp_fresh (fun ruleId => ?_))
    rw [onOk_ok]
    split
    · exact herror _ _
    rename_i httl
    refine Machine.wp_bind.mpr (wp_written (fun u hu => ?_) (fun x => herror x _))
    rw [onOk_ok]
    refine Machine.wp_mono (ih (t := u)) (fun r c h a v hr hc => ?_)
    obtain ⟨rows, hrows, hv⟩ := h a v hr hc
    exact ⟨_, .cons ruleId ⟨hpriority, hpattern, httl⟩ hrows,
      Option.bind_eq_some_iff.mpr ⟨u, hu, hv⟩⟩

theorem wp_replace {keepLatestBuildsPerRef : UInt32} {objectDeleteGraceSeconds : UInt64} :
    (machine Database Error Uuid).wp admits
      (fun r c => (∀ x, r = .error x → c.committed = s) ∧ ∀ a, r = .ok a → c.working = none ∧
        ∃ p rows, Replaced project keepLatestBuildsPerRef objectDeleteGraceSeconds rules s
          c.committed p rows)
      (replaceProjectRetentionPolicy project keepLatestBuildsPerRef objectDeleteGraceSeconds rules)
      ⟨s, none⟩ := by
  have herror : ∀ (x : Error) (c : Connection Database), c.committed = s →
      (∀ y, (.error x : Except Error Unit) = .error y → c.committed = s) ∧
        ∀ a, (.error x : Except Error Unit) = .ok a → c.working = none ∧ ∃ p rows,
          Replaced project keepLatestBuildsPerRef objectDeleteGraceSeconds rules s c.committed p
            rows := fun _ _ hc => ⟨fun _ _ => hc, fun _ h => nomatch h⟩
  unfold replaceProjectRetentionPolicy
  split
  · exact herror _ _ rfl
  rename_i hkeep
  split
  · exact herror _ _ rfl
  rename_i hrules
  refine Machine.wp_bind.mpr (wp_projectIdBySlug (fun p hp => ?_) (fun x => herror x _ rfl))
  rw [onOk_ok]
  split
  · exact herror _ _ rfl
  rename_i hgrace
  refine wp_transaction ?_ herror ?_
  · exact Prog.Uses.bind (Prog.uses_perform trivial) (fun _ =>
      Prog.Uses.bind (Prog.uses_perform trivial) (fun _ => inside_insertRules))
  · refine Machine.wp_bind.mpr (wp_written (fun t ht => ?_) (fun x _ _ h => nomatch h))
    rw [onOk_ok]
    refine Machine.wp_bind.mpr (wp_execute (fun _ u hu => ?_) (fun x _ _ h => nomatch h))
    cases hu
    rw [onOk_ok]
    refine Machine.wp_mono wp_insertRules (fun r c h a u hr hc => ?_)
    obtain ⟨rows, hrows, hu⟩ := h a u hr hc
    refine ⟨(fun _ hx => nomatch hx),
      fun _ _ => ⟨rfl, p, rows, hkeep, hrules, hp, hgrace, hrows, ?_⟩⟩
    exact (Database.replaceRetentionPolicy_eq_some hrows.project).mpr ⟨t, ht, hu⟩

theorem wp_delete : (machine Database Error Uuid).wp admits
    (fun r c => (∀ x, r = .error x → c.committed = s) ∧ ∀ a, r = .ok a → ∃ p,
      s.projectBySlug project = some p ∧ c.committed = (s.deleteRetentionPolicy p.id).2)
    (deleteProjectRetentionPolicy project) ⟨s, none⟩ := by
  refine Machine.wp_bind.mpr (wp_projectIdBySlug (fun p hp => ?_)
    (fun x => ⟨fun _ _ => rfl, fun _ h => nomatch h⟩))
  rw [onOk_ok]
  refine wp_execute (fun b u hu => ?_) (fun x => ⟨fun _ _ => rfl, fun _ h => nomatch h⟩)
  cases hu
  exact ⟨(fun _ h => nomatch h), fun _ _ => ⟨p, hp, rfl⟩⟩

def EndAlike {A : Type} (x y : Connection Database × Except Error A) : Prop :=
  x.2 = y.2 ∧ ((∃ a, x.2 = .ok a) → SameWork x.1 y.1)

theorem endAlike_error {A : Type} (x : Error) (c d : Connection Database) :
    EndAlike (c, (.error x : Except Error A)) (d, .error x) :=
  ⟨rfl, fun ⟨_, h⟩ => nomatch h⟩

theorem endAlike_transaction (policy : RetentionPolicyRow) (moments : Nat → Moment Error Uuid) :
    let body : Session Unit := do
      written "project_retention_policies".toList (fun db => db.upsertRetentionPolicy policy)
      execute (fun db => .ok ((), db.deleteRetentionRules policy.projectId))
      insertRules policy.projectId rules
    EndAlike
      ((machine Database Error Uuid).exec (transaction body) moments
        ⟨s.deleteRetentionRules policy.projectId, none⟩)
      ((machine Database Error Uuid).exec (transaction body) moments ⟨s, none⟩) := by
  intro body
  simp only [transaction, body, Prog.bind_eq, Prog.bind_assoc, exec_opening, written, exec_execute]
  cases (moments 0).refusal with
  | some x => exact endAlike_error _ _ _
  | none =>
    cases (moments (0 + 1)).refusal with
    | some x => exact endAlike_error _ _ _
    | none =>
      simp only [Connection.current, Connection.write, Option.getD_some, Option.getD_none,
        Database.upsert_of_deleted]
      cases s.upsertRetentionPolicy policy with
      | none => exact endAlike_error _ _ _
      | some u =>
        simp only [Option.map_some, Database.deleteRetentionRules_twice]
        cases (moments (0 + 1 + 1)).refusal with
        | some x => exact endAlike_error _ _ _
        | none =>
          have hsame : SameWork ⟨s.deleteRetentionRules policy.projectId,
              some (u.deleteRetentionRules policy.projectId)⟩
              ⟨s, some (u.deleteRetentionRules policy.projectId)⟩ := ⟨rfl, fun h => by cases h⟩
          exact ⟨(hsame.exec _ _).1, fun _ => (hsame.exec _ _).2⟩

theorem replace_of_leftovers {keepLatestBuildsPerRef : UInt32} {objectDeleteGraceSeconds : UInt64}
    {p : ProjectRow} (hp : s.projectBySlug project = some p) (moments : Nat → Moment Error Uuid) :
    let replacement := replaceProjectRetentionPolicy project keepLatestBuildsPerRef
      objectDeleteGraceSeconds rules
    let bare := run replacement moments (s.deleteRetentionRules p.id)
    bare.2 = (run replacement moments s).2 ∧
      (bare.2 = .ok () → bare.1 = (run replacement moments s).1) := by
  intro replacement bare
  have hdone := Machine.exec_of_wp_any (M := machine Database Error Uuid) moments
    (@wp_replace _ s rules project keepLatestBuildsPerRef objectDeleteGraceSeconds)
  suffices halike : EndAlike
      ((machine Database Error Uuid).exec replacement moments ⟨s.deleteRetentionRules p.id, none⟩)
      ((machine Database Error Uuid).exec replacement moments ⟨s, none⟩) by
    refine ⟨halike.1, fun hok => ?_⟩
    obtain ⟨hwork, hcommitted⟩ := halike.2 ⟨(), hok⟩
    exact hcommitted (hwork.trans (hdone.2 () (halike.1.symm.trans hok)).1)
  unfold replacement replaceProjectRetentionPolicy
  split
  · exact endAlike_error _ _ _
  split
  · exact endAlike_error _ _ _
  have hp' : (s.deleteRetentionRules p.id).projectBySlug project = some p := hp
  simp only [projectIdBySlug, query, Prog.bind_eq, Prog.bind_assoc, exec_execute,
    Connection.current,
    Option.getD_none, Connection.write, hp, hp']
  cases (moments 0).refusal with
  | some x => exact endAlike_error _ _ _
  | none =>
    simp only [Option.map_some, Prog.pure_eq]
    split
    · exact endAlike_error _ _ _
    · exact endAlike_transaction ⟨p.id, keepLatestBuildsPerRef, objectDeleteGraceSeconds⟩ _

end

end SqliteTransaction
