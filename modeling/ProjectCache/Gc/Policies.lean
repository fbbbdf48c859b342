import ProjectCache.Db.RetentionTransaction
import ProjectCache.Gc.Recency

namespace Policies

open Textual Nix Project Calendar Tables Store Db Programs Depot Gc Recency Transactions
  SqliteTransaction

def defaultPolicy (project : ProjectSlug) : ProjectRetentionPolicyRecord where
  projectSlug := project
  inheritedDefault := true
  keepLatestBuildsPerRef := DEFAULT_KEEP_LATEST_BUILDS_PER_REF
  objectDeleteGraceSeconds := DEFAULT_OBJECT_DELETE_GRACE_SECONDS
  rules := defaultRetentionRules

def policyOf (db : Database) (p : ProjectRow) : ProjectRetentionPolicyRecord :=
  match db.retentionPolicyRow p.id with
  | none => defaultPolicy p.slug
  | some policy =>
    { projectSlug := p.slug
      inheritedDefault := false
      keepLatestBuildsPerRef := policy.keepLatestBuildsPerRef
      objectDeleteGraceSeconds := policy.objectDeleteGraceSeconds
      rules := db.retentionRulesOf p.id }

def policyIn (db : Database) (project : ProjectSlug) : Except Error ProjectRetentionPolicyRecord :=
  match db.projectBySlug project with
  | none => .error (.projectNotFound project)
  | some p => .ok (policyOf db p)

section

variable {db db' : Database} {now : UtcDateTime} {project : ProjectSlug} {p q : ProjectRow}
  {keep : UInt32} {grace : UInt64} {rules : List ProjectRetentionRuleRecord}
  {rows : List RetentionRuleRow}

theorem lookedUp_policy : lookedUp now (SqliteDatabase.getProjectRetentionPolicy project) db =
    policyIn db project := by
  have hid : lookedUp now (SqliteDatabase.projectIdBySlug project) db =
      match db.projectBySlug project with
      | none => .error (.projectNotFound project)
      | some p => .ok p.id := by
    refine (lookedUp_bind (looks_select (fun _ _ => rfl)) _).trans ?_
    rw [lookedUp_select]
    cases db.projectBySlug project <;> rfl
  refine (lookedUp_bind (looks_projectIdBySlug project) _).trans ?_
  rw [hid, policyIn]
  cases hp : db.projectBySlug project with
  | none => rfl
  | some p =>
    obtain ⟨-, rfl⟩ := Database.projectBySlug_eq_some.mp hp
    refine (lookedUp_bind (looks_select (fun _ _ => rfl)) _).trans ?_
    rw [lookedUp_select]
    change _ = Except.ok (policyOf db p)
    unfold policyOf
    cases db.retentionPolicyRow p.id with
    | none => rfl
    | some policy =>
      refine (lookedUp_bind (looks_select (fun _ _ => rfl)) _).trans ?_
      rw [lookedUp_select]
      rfl

def rulesOf (db : Database) (projectId : Uuid) : List RetentionRuleRow :=
  db.retentionRules.rows.filter (fun r => r.projectId = projectId)

structure Changed (db db' : Database) (projectId : Uuid) (policy : Option RetentionPolicyRow)
    (rows : List RetentionRuleRow) : Prop where
  projects : db'.projects = db.projects
  policies : ∀ rp, rp ∈ db'.retentionPolicies.rows ↔
    policy = some rp ∨ rp ∈ db.retentionPolicies.rows ∧ rp.projectId ≠ projectId
  owner : ∀ rp ∈ policy, rp.projectId = projectId
  rules : ∀ id, rulesOf db' id = if id = projectId then rows else rulesOf db id

theorem rulesOf_replaced {projectId : Uuid} (ho : ∀ row ∈ rows, row.projectId = projectId)
    (h : db'.retentionRules.rows =
      db.retentionRules.rows.filter (fun r => r.projectId ≠ projectId) ++ rows) (id : Uuid) :
    rulesOf db' id = if id = projectId then rows else rulesOf db id := by
  rw [rulesOf, rulesOf, h, List.filter_append, List.filter_filter]
  split
  · rename_i hid
    subst hid
    have hnone : db.retentionRules.rows.filter
        (fun r => decide (r.projectId = id) && decide (r.projectId ≠ id)) = [] :=
      List.filter_eq_nil_iff.mpr (fun r _ => by simp)
    rw [hnone, List.nil_append, List.filter_eq_self.mpr]
    exact fun r hr => decide_eq_true (ho r hr)
  · rename_i hid
    have hrows : rows.filter (fun r => decide (r.projectId = id)) = [] :=
      List.filter_eq_nil_iff.mpr (fun r hr => by
        rw [ho r hr, decide_eq_true_eq]
        exact Ne.symm hid)
    rw [hrows, List.append_nil]
    refine List.filter_congr (fun r _ => ?_)
    by_cases hr : r.projectId = id
    · simp [hr, hid]
    · simp [hr]

theorem changed_of_replaced (h : Replaced project keep grace rules db db' p rows) :
    Changed db db' p.id (some ⟨p.id, keep, grace⟩) rows := by
  obtain ⟨db₁, hupsert, hinsert⟩ :=
    (Database.replaceRetentionPolicy_eq_some h.each.project).mp h.replaced
  obtain ⟨-, retentionRules, hrules, rfl⟩ := Database.insertRetentionRules_eq_some.mp hinsert
  have hpolicies : ∀ rp, rp ∈ db₁.retentionPolicies.rows ↔ _ :=
    fun rp => Database.mem_upsertRetentionPolicy hupsert
  have hrows := Database.insertRules_rows hrules
  unfold Database.upsertRetentionPolicy at hupsert
  split at hupsert
  · obtain ⟨policies, -, rfl⟩ := Option.map_eq_some_iff.mp hupsert
    refine ⟨rfl, fun rp => ?_, ?_, rulesOf_replaced h.each.project (hrows.trans ?_)⟩
    · rw [Option.some.injEq, eq_comm (a := (⟨p.id, keep, grace⟩ : RetentionPolicyRow))]
      exact hpolicies rp
    · rintro rp ⟨⟩
      rfl
    · simp [Database.deleteRetentionRules, Table.delete]
  · cases hupsert

theorem changed_of_deleted (projectId : Uuid) :
    Changed db (db.deleteRetentionPolicy projectId).2 projectId none (rulesOf db projectId) where
  projects := rfl
  policies := fun rp => by simp [Database.deleteRetentionPolicy]
  owner := fun rp h => nomatch h
  rules := fun id => by
    split
    · rename_i hid
      rw [hid]
      rfl
    · rfl

theorem Changed.retentionPolicyRow {policy : Option RetentionPolicyRow} {projectId : Uuid}
    (h : Changed db db' projectId policy rows) (id : Uuid) : db'.retentionPolicyRow id =
      if id = projectId then policy else db.retentionPolicyRow id := by
  ext rp
  rw [Database.retentionPolicyRow_eq_some, h.policies]
  split
  · rename_i hid
    subst hid
    constructor
    · rintro ⟨hp | ⟨-, hne⟩, ho⟩
      · exact hp
      · exact absurd ho hne
    · exact fun hp => ⟨Or.inl hp, h.owner rp hp⟩
  · rename_i hid
    rw [Database.retentionPolicyRow_eq_some]
    constructor
    · rintro ⟨hp | ⟨hm, -⟩, ho⟩
      · exact absurd (ho.symm.trans (h.owner rp hp)) hid
      · exact ⟨hm, ho⟩
    · rintro ⟨hm, rfl⟩
      exact ⟨Or.inr ⟨hm, hid⟩, rfl⟩

theorem Changed.projectBySlug {policy : Option RetentionPolicyRow} {projectId : Uuid}
    (h : Changed db db' projectId policy rows) (slug : ProjectSlug) :
    db'.projectBySlug slug = db.projectBySlug slug := by
  unfold Database.projectBySlug
  rw [h.projects]

theorem Changed.other {policy : Option RetentionPolicyRow} (h : Changed db db' p.id policy rows)
    (hp : p ∈ db.projects.rows) {slug : ProjectSlug} (hs : slug ≠ p.slug) :
    policyIn db' slug = policyIn db slug := by
  rw [policyIn, policyIn, h.projectBySlug]
  cases hq : db.projectBySlug slug with
  | none => rfl
  | some q =>
    obtain ⟨hm, rfl⟩ := Database.projectBySlug_eq_some.mp hq
    have hid : q.id ≠ p.id := fun he => hs (by rw [Database.project_eq_of_id hm hp he])
    have hrules : db'.retentionRulesOf q.id = db.retentionRulesOf q.id := by
      have := h.rules q.id
      rw [if_neg hid, rulesOf, rulesOf] at this
      rw [Database.retentionRulesOf, Database.retentionRulesOf, this]
    simp only [policyOf, h.retentionPolicyRow, if_neg hid, hrules]

def PriorityLe (a b : ProjectRetentionRuleRecord) : Prop := a.priority ≤ b.priority

instance : DecidableRel PriorityLe :=
  fun a b => inferInstanceAs (Decidable (a.priority ≤ b.priority))

instance : Std.Total PriorityLe where
  total a b := UInt32.le_total a.priority b.priority

instance : IsTrans ProjectRetentionRuleRecord PriorityLe where
  trans _ _ _ hab hbc := UInt32.le_trans hab hbc

def inForce (rules : List ProjectRetentionRuleRecord) : List ProjectRetentionRuleRecord :=
  (rules.map trimmed).insertionSort PriorityLe

theorem inForce_perm : (inForce rules).Perm (rules.map trimmed) := List.perm_insertionSort _ _

theorem retentionRulesOf_eq (h : (rulesOf db p.id).map RetentionRuleRow.intoRecord =
    rules.map trimmed) : db.retentionRulesOf p.id = inForce rules := by
  rw [Database.retentionRulesOf, ← rulesOf, inForce, ← h]
  exact List.map_insertionSort _ _ _ _ (fun _ _ _ _ => Iff.rfl)

theorem priorities_distinct (h : (rulesOf db p.id).map RetentionRuleRow.intoRecord =
    rules.map trimmed) : (inForce rules).Pairwise (fun a b => a.priority < b.priority) := by
  have hrows : (rulesOf db p.id).Pairwise (fun a b => a.priority ≠ b.priority) := by
    refine (db.retentionRules.distinct.filter _).imp_of_mem (fun {a b} ha hb hab he => ?_)
    have hpa := of_decide_eq_true (List.mem_filter.mp ha).2
    have hpb := of_decide_eq_true (List.mem_filter.mp hb).2
    simp [Keyed.clash, hpa, hpb, he] at hab
  have hmap : (rules.map trimmed).Pairwise (fun a b => a.priority ≠ b.priority) := by
    rw [← h]
    exact List.pairwise_map.mpr hrows
  have hforce := inForce_perm.symm.pairwise hmap (fun {a b} hab => hab.symm)
  have hsorted : (inForce rules).Pairwise PriorityLe := List.pairwise_insertionSort _ _
  exact hsorted.imp₂ (fun a b hle hne => UInt32.lt_of_le_of_ne hle hne) hforce

theorem Changed.own {policy : RetentionPolicyRow} (h : Changed db db' p.id (some policy) rows)
    (hp : p ∈ db.projects.rows)
    (hr : rows.map RetentionRuleRow.intoRecord = rules.map trimmed) :
    policyIn db' p.slug = .ok
      { projectSlug := p.slug
        inheritedDefault := false
        keepLatestBuildsPerRef := policy.keepLatestBuildsPerRef
        objectDeleteGraceSeconds := policy.objectDeleteGraceSeconds
        rules := inForce rules } ∧
      (inForce rules).Pairwise (fun a b => a.priority < b.priority) := by
  have hrows : (rulesOf db' p.id).map RetentionRuleRow.intoRecord = rules.map trimmed := by
    rw [h.rules, if_pos rfl, hr]
  refine ⟨?_, priorities_distinct hrows⟩
  rw [policyIn, h.projectBySlug, Database.projectBySlug_of_mem hp]
  simp only [policyOf, h.retentionPolicyRow, if_true, retentionRulesOf_eq hrows]

theorem Changed.deleted (h : Changed db db' p.id none rows) (hp : p ∈ db.projects.rows) :
    policyIn db' p.slug = .ok (defaultPolicy p.slug) := by
  rw [policyIn, h.projectBySlug, Database.projectBySlug_of_mem hp]
  simp only [policyOf, h.retentionPolicyRow, if_true]

end

section

variable {db : Database} {project : ProjectSlug} {keep : UInt32} {grace : UInt64}
  {rules : List ProjectRetentionRuleRecord}

theorem replace_result (moments : Nat → Moment Error Uuid) :
    let r := run (replaceProjectRetentionPolicy project keep grace rules) moments db
    (∃ x, r = (db, .error x)) ∨
      r.2 = .ok () ∧ ∃ p rows, Replaced project keep grace rules db r.1 p rows := by
  intro r
  have hdone := Machine.exec_of_wp_any (M := machine Database Error Uuid) moments
    (@wp_replace _ db rules project keep grace)
  cases hr : r.2 with
  | error x => exact Or.inl ⟨x, Prod.ext (hdone.1 x hr) hr⟩
  | ok _ => exact Or.inr ⟨rfl, (hdone.2 () hr).2⟩

theorem delete_result (moments : Nat → Moment Error Uuid) :
    let r := run (deleteProjectRetentionPolicy project) moments db
    (∃ x, r = (db, .error x)) ∨ (∃ existed, r.2 = .ok existed) ∧ ∃ p,
      db.projectBySlug project = some p ∧ r.1 = (db.deleteRetentionPolicy p.id).2 := by
  intro r
  have hdone := Machine.exec_of_wp_any (M := machine Database Error Uuid) moments
    (@wp_delete _ db project)
  cases hr : r.2 with
  | error x => exact Or.inl ⟨x, Prod.ext (hdone.1 x hr) hr⟩
  | ok existed => exact Or.inr ⟨⟨existed, rfl⟩, hdone.2 existed hr⟩

theorem policyIn_replaced {db' : Database} {p : ProjectRow} {rows : List RetentionRuleRow}
    (h : Replaced project keep grace rules db db' p rows) : policyIn db' =
      Function.update (policyIn db) project (.ok ⟨project, false, keep, grace, inForce rules⟩) ∧
        (inForce rules).Pairwise (fun a b => a.priority < b.priority) := by
  have hchanged := changed_of_replaced h
  obtain ⟨hm, rfl⟩ := Database.projectBySlug_eq_some.mp h.project
  obtain ⟨hown, ho⟩ := hchanged.own hm h.each.records
  refine ⟨funext fun slug => ?_, ho⟩
  by_cases hslug : slug = p.slug
  · rw [hslug, Function.update_self, hown]
  · rw [Function.update_of_ne hslug, hchanged.other hm hslug]

theorem policyIn_deleted {p : ProjectRow} (hp : db.projectBySlug project = some p) :
    policyIn (db.deleteRetentionPolicy p.id).2 =
      Function.update (policyIn db) project (.ok (defaultPolicy project)) := by
  have hchanged : Changed db _ p.id none _ := changed_of_deleted p.id
  obtain ⟨hm, rfl⟩ := Database.projectBySlug_eq_some.mp hp
  refine funext fun slug => ?_
  by_cases hslug : slug = p.slug
  · rw [hslug, Function.update_self, hchanged.deleted hm]
  · rw [Function.update_of_ne hslug, hchanged.other hm hslug]

theorem exec_retentionRuleRows {projectId : Uuid} {rows : List RetentionRuleRow} {B : Type}
    (h : RowsOf projectId rules rows) (f : List RetentionRuleRow → Action B) (es : Nat → Env)
    (w : World) (hes : ∀ n row, rows[n]? = some row → (es n).uuid = row.id) :
    Depot.machine.exec ((SqliteDatabase.retentionRuleRows projectId rules).bind f) es w =
      Depot.machine.exec (f rows) (fun n => es (n + rows.length)) w := by
  induction h generalizing f es with
  | nil => rfl
  | @cons rule rules rows ruleId hrule rest ih =>
    have hid : (es 0).uuid = ruleId := hes 0 _ rfl
    rw [SqliteDatabase.retentionRuleRows, if_neg hrule.priority, if_neg hrule.refPattern,
      if_neg hrule.ttlSeconds]
    simp only [Prog.bind_eq, Prog.bind_assoc]
    have hrest := ih (fun rows => f (rowOf projectId rule (es 0).uuid :: rows))
      (fun n => es (n + 1)) (fun n row hn => hes (n + 1) row hn)
    rw [hid] at hrest
    refine Eq.trans ?_ (hrest.trans ?_)
    · change Depot.machine.exec _ (fun n => es (n + 1)) w = _
      rw [← hid]
      rfl
    · simp only [List.length_cons, Nat.add_assoc]

theorem replace_simulated (moments : Nat → Moment Error Uuid) (e : Env)
    (blobs : StorageId → Text → Option Blob) :
    let r := run (replaceProjectRetentionPolicy project keep grace rules) moments db
    ∃ es : Nat → Env, (∀ n message, (es n).outcome ≠ .lost message) ∧ ∃ result,
      Depot.machine.exec (SqliteDatabase.replaceProjectRetentionPolicy project keep grace rules) es
        ⟨db, blobs⟩ = (⟨r.1, blobs⟩, result) ∧ result.toOption = r.2.toOption := by
  intro r
  rcases @replace_result db project keep grace rules moments with ⟨x, h⟩ | ⟨hok, p, rows, h⟩
  · refine ⟨fun _ => { e with outcome := .refused [] }, (fun _ _ ho => nomatch ho), ?_⟩
    simp only [r, h]
    unfold SqliteDatabase.replaceProjectRetentionPolicy
    split
    · exact ⟨_, rfl, rfl⟩
    split
    · exact ⟨_, rfl, rfl⟩
    · exact ⟨_, rfl, rfl⟩
  · let es : Nat → Env := fun n =>
      { e with
        outcome := .answered
        uuid := ((rows.map RetentionRuleRow.id)[n - 1]?).getD 0 }
    refine ⟨es, (fun _ _ ho => nomatch ho), .ok (), ?_, by rw [hok]⟩
    have hids : ∀ n row, rows[n]? = some row → (es (n + 1)).uuid = row.id := by
      intro n row hn
      simp [es, hn]
    have hid : Depot.machine.exec (SqliteDatabase.replaceProjectRetentionPolicy project keep grace
        rules) es ⟨db, blobs⟩ = Depot.machine.exec
          ((SqliteDatabase.retentionRuleRows p.id rules).bind (fun rows =>
            perform (.replaceRetentionPolicy ⟨p.id, keep, grace⟩ rows)))
          (fun n => es (n + 1)) ⟨db, blobs⟩ := by
      rw [SqliteDatabase.replaceProjectRetentionPolicy, if_neg h.keeps, if_neg h.nonempty]
      change Depot.machine.exec (Prog.bind
        (orFail ((db.projectBySlug project).map ProjectRow.id) (.projectNotFound project)) _)
        (fun n => es (n + 1)) ⟨db, blobs⟩ = _
      rw [h.project]
      change Depot.machine.exec (if _ then _ else _) (fun n => es (n + 1)) ⟨db, blobs⟩ = _
      rw [if_neg h.grace]
      rfl
    rw [hid, exec_retentionRuleRows h.each _ _ _ hids]
    change (World.written ⟨db, blobs⟩ _ (db.replaceRetentionPolicy ⟨p.id, keep, grace⟩ rows)) = _
    rw [h.replaced]
    rfl

end

inductive Edit where
  | replace (project : ProjectSlug) (keepLatestBuildsPerRef : UInt32)
    (objectDeleteGraceSeconds : UInt64) (rules : List ProjectRetentionRuleRecord)
  | delete (project : ProjectSlug)

namespace Edit

def project : Edit → ProjectSlug
  | replace project _ _ _ | delete project => project

def session : Edit → Session Unit
  | replace project keep grace rules => replaceProjectRetentionPolicy project keep grace rules
  | delete project => do
    let _ ← deleteProjectRetentionPolicy project
    return ()

def policy : Edit → ProjectRetentionPolicyRecord
  | replace project keep grace rules =>
    { projectSlug := project
      inheritedDefault := false
      keepLatestBuildsPerRef := keep
      objectDeleteGraceSeconds := grace
      rules := inForce rules }
  | delete project => defaultPolicy project

def update (e : Edit) (policies : ProjectSlug → Except Error ProjectRetentionPolicyRecord) :
    ProjectSlug → Except Error ProjectRetentionPolicyRecord :=
  Function.update policies e.project (.ok e.policy)

end Edit

structure Attempt where
  edit : Edit
  moments : Nat → Moment Error Uuid

namespace Attempt

variable (a : Attempt) (db : Database)

def apply : Database × Except Error Unit := run a.edit.session a.moments db

def accepted : List Edit :=
  match (a.apply db).2 with
  | .ok _ => [a.edit]
  | .error _ => []

def after : Database → List Attempt → Database
  | db, [] => db
  | db, a :: rest => after (a.apply db).1 rest

def made : Database → List Attempt → List Edit
  | _, [] => []
  | db, a :: rest => a.accepted db ++ made (a.apply db).1 rest

theorem apply_delete (project : ProjectSlug) (moments : Nat → Moment Error Uuid) :
    (⟨.delete project, moments⟩ : Attempt).apply db =
      ((run (deleteProjectRetentionPolicy project) moments db).1,
        (run (deleteProjectRetentionPolicy project) moments db).2.map (fun _ => ())) := by
  simp only [apply, run, Edit.session, Prog.bind_eq, Prog.pure_eq, Machine.exec_map]

theorem apply_result : (∃ x, a.apply db = (db, .error x)) ∨
    (a.apply db).2 = .ok () ∧ policyIn (a.apply db).1 = a.edit.update (policyIn db) := by
  obtain ⟨edit, moments⟩ := a
  cases edit with
  | replace project keep grace rules =>
    rcases replace_result moments with h | ⟨hok, p, rows, h⟩
    · exact Or.inl h
    · exact Or.inr ⟨hok, (policyIn_replaced h).1⟩
  | delete project =>
    rw [apply_delete]
    rcases @delete_result db project moments with ⟨x, h⟩ | ⟨⟨b, hb⟩, p, hp, h⟩
    · rw [h]
      exact Or.inl ⟨x, rfl⟩
    · rw [hb, h]
      exact Or.inr ⟨rfl, policyIn_deleted hp⟩

theorem policyIn_apply : policyIn (a.apply db).1 =
    (a.accepted db).foldl (fun policies e => e.update policies) (policyIn db) := by
  unfold accepted
  rcases apply_result a db with ⟨x, h⟩ | ⟨hok, h⟩
  · rw [h]
    rfl
  · rw [hok, h]
    rfl

theorem policyIn_after (attempts : List Attempt) : policyIn (after db attempts) =
    (made db attempts).foldl (fun policies e => e.update policies) (policyIn db) := by
  induction attempts generalizing db with
  | nil => rfl
  | cons a rest ih => rw [after, made, List.foldl_append, ih, policyIn_apply]

end Attempt

def answersAt (now : UtcDateTime) (db : Database) :
    ProjectSlug → Except Error ProjectRetentionPolicyRecord :=
  fun project => lookedUp now (SqliteDatabase.getProjectRetentionPolicy project) db

theorem answersAt_eq (now : UtcDateTime) : answersAt now = policyIn :=
  funext fun _ => funext fun _ => lookedUp_policy

theorem replacement_whole (start : Database) (attempts : List Attempt) (now : UtcDateTime) :
    let db := Attempt.after start attempts
    answersAt now db = (Attempt.made start attempts).foldl (fun policies e => e.update policies)
      (answersAt now start) ∧
    (∀ project keep grace rules moments,
      let r := run (replaceProjectRetentionPolicy project keep grace rules) moments db
      (∃ x, r = (db, .error x)) ∨ r.2 = .ok () ∧
        (∃ stored, answersAt now r.1 project = .ok ⟨project, false, keep, grace, stored⟩ ∧
          stored.Perm (rules.map trimmed) ∧
            stored.Pairwise (fun a b => a.priority < b.priority)) ∧
        ∀ other, other ≠ project → answersAt now r.1 other = answersAt now db other) ∧
    (∀ project moments,
      let r := run (deleteProjectRetentionPolicy project) moments db
      (∃ x, r = (db, .error x)) ∨ (∃ existed, r.2 = .ok existed) ∧
        answersAt now r.1 project = .ok (defaultPolicy project) ∧
          ∀ other, other ≠ project → answersAt now r.1 other = answersAt now db other) ∧
    ∀ project keep grace rules moments p, db.projectBySlug project = some p →
      let replacement := replaceProjectRetentionPolicy project keep grace rules
      let bare := run replacement moments (db.deleteRetentionRules p.id)
      bare.2 = (run replacement moments db).2 ∧
        (bare.2 = .ok () → bare.1 = (run replacement moments db).1) := by
  intro db
  rw [answersAt_eq]
  refine ⟨Attempt.policyIn_after start attempts, ?_, ?_, ?_⟩
  · intro project keep grace rules moments r
    rcases replace_result moments with h | ⟨hok, p, rows, h⟩
    · exact Or.inl h
    · obtain ⟨hpolicies, ho⟩ := policyIn_replaced h
      refine Or.inr ⟨hok, ⟨inForce rules, ?_, inForce_perm, ho⟩, fun other hne => ?_⟩
      · rw [hpolicies, Function.update_self]
      · rw [hpolicies, Function.update_of_ne hne]
  · intro project moments r
    rcases delete_result moments with h | ⟨hok, p, hp, h⟩
    · exact Or.inl h
    · refine Or.inr ⟨hok, ?_, fun other hne => ?_⟩
      · rw [h, policyIn_deleted hp, Function.update_self]
      · rw [h, policyIn_deleted hp, Function.update_of_ne hne]
  · intro project keep grace rules moments p hp
    exact replace_of_leftovers hp moments

end Policies
