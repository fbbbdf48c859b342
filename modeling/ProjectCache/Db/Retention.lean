import ProjectCache.Db.Builds

namespace Db

open Textual Nix Project Calendar Tables Store Depot Programs

-- The glob matcher of the wildmatch crate.
class WildMatch where
  isMatch : Text → Text → Bool

def globMatches : Text → Text → Bool
  | [], s => s.isEmpty
  | '*' :: p, s => s.tails.any (globMatches p)
  | '?' :: p, s =>
    match s with
    | [] => false
    | _ :: s => globMatches p s
  | c :: p, s =>
    match s with
    | [] => false
    | d :: s => c = d && globMatches p s

@[reducible] def standardWildMatch : WildMatch where
  isMatch := globMatches

structure ProjectRetentionRuleRecord where
  priority : UInt32
  refPattern : Text
  ttlSeconds : Option UInt64
  keepBuilds : Option UInt32
  deriving DecidableEq

structure ProjectRetentionPolicyRecord where
  projectSlug : ProjectSlug
  inheritedDefault : Bool
  keepLatestBuildsPerRef : UInt32
  objectDeleteGraceSeconds : UInt64
  rules : List ProjectRetentionRuleRecord
  deriving DecidableEq

def DEFAULT_KEEP_LATEST_BUILDS_PER_REF : UInt32 := 2

def DEFAULT_OBJECT_DELETE_GRACE_SECONDS : UInt64 := 24 * 60 * 60

def defaultRetentionRules : List ProjectRetentionRuleRecord :=
  [ ⟨10, "refs/heads/main".toList, none, some 2⟩,
    ⟨20, "refs/heads/master".toList, none, some 2⟩,
    ⟨30, "refs/heads/trunk".toList, none, some 2⟩,
    ⟨40, "refs/tags/*".toList, none, some 1⟩,
    ⟨50, "refs/heads/release/*".toList, some (180 * 24 * 60 * 60), some 2⟩,
    ⟨60, "refs/pull/*".toList, some (14 * 24 * 60 * 60), some 1⟩,
    ⟨70, "refs/merge-requests/*".toList, some (14 * 24 * 60 * 60), some 1⟩,
    ⟨80, "refs/heads/*".toList, some (60 * 24 * 60 * 60), some 2⟩,
    ⟨90, "*".toList, some (30 * 24 * 60 * 60), some 1⟩ ]

def RetentionRuleRow.intoRecord (row : RetentionRuleRow) : ProjectRetentionRuleRecord :=
  ⟨row.priority, row.refPattern, row.ttlSeconds, row.keepBuilds⟩

namespace Database

variable (db : Database)

def retentionPolicyRow (projectId : Uuid) : Option RetentionPolicyRow :=
  db.retentionPolicies.rows.find? (fun rp => rp.projectId = projectId)

def retentionRulesOf (projectId : Uuid) : List ProjectRetentionRuleRecord :=
  ((db.retentionRules.rows.filter (fun r => r.projectId = projectId)).insertionSort
    (fun a b => a.priority ≤ b.priority)).map RetentionRuleRow.intoRecord

def insertRules : List RetentionRuleRow → Table RetentionRuleRow → Option (Table RetentionRuleRow)
  | [], rules => some rules
  | row :: rest, rules => (rules.insert row).bind (insertRules rest)

theorem keepsKey_setPolicy (policy : RetentionPolicyRow) :
    Table.KeepsKey (fun rp : RetentionPolicyRow =>
      { rp with keepLatestBuildsPerRef := policy.keepLatestBuildsPerRef,
                objectDeleteGraceSeconds := policy.objectDeleteGraceSeconds }) :=
  ⟨fun _ _ => rfl⟩

-- The transaction also checks each rule before it inserts it, and is rolled back on an error.
def replaceRetentionPolicy (policy : RetentionPolicyRow) (rules : List RetentionRuleRow) :
    Option Database :=
  if db.projects.rows.any (fun p => p.id = policy.projectId) then do
    let retentionPolicies ← db.retentionPolicies.upsert policy
      (fun rp => rp.projectId = policy.projectId)
      (fun rp => { rp with keepLatestBuildsPerRef := policy.keepLatestBuildsPerRef,
                           objectDeleteGraceSeconds := policy.objectDeleteGraceSeconds })
      (keepsKey_setPolicy policy)
    let retentionRules ←
      insertRules rules (db.retentionRules.delete (fun r => r.projectId = policy.projectId))
    return { db with retentionPolicies, retentionRules }
  else none

def deleteRetentionPolicy (projectId : Uuid) : Bool × Database :=
  let owned := fun rp : RetentionPolicyRow => rp.projectId = projectId
  (db.retentionPolicies.rows.any owned,
    { db with retentionPolicies := db.retentionPolicies.delete owned })

def projectRefsForRetention : List (ProjectSlug × Text × SqliteTime) :=
  ((db.projectRefs.rows.flatMap (fun pr =>
    (db.projects.rows.filter (fun p => p.id = pr.projectId)).map
      (fun p => (p.slug, pr.refName, pr.updatedAt)))).insertionSort
    (fun a b => a.1.text < b.1.text ∨ a.1.text = b.1.text ∧ a.2.1 ≤ b.2.1))

def BuildNewer (a b : BuildRow) : Prop :=
  (b.finalizedAt.map UtcDateTime.format).getD [] < (a.finalizedAt.map UtcDateTime.format).getD [] ∨
  (b.finalizedAt.map UtcDateTime.format).getD [] = (a.finalizedAt.map UtcDateTime.format).getD [] ∧
    b.createdAt.text ≤ a.createdAt.text

instance : DecidableRel BuildNewer := fun a b => by
  unfold BuildNewer
  infer_instance

def finalizedBuilds (projectId : Uuid) (refName : Text) : List BuildRow :=
  db.builds.rows.filter (fun b => b.projectId = projectId && b.refName = refName &&
    b.status = .finalized && b.finalizedAt.isSome)

def newestBuildIds (projectId : Uuid) (refName : Text) (limit : Nat) : List Uuid :=
  (((db.finalizedBuilds projectId refName).insertionSort BuildNewer).take limit).map BuildRow.id

end Database

def lowerPriority (best rule : ProjectRetentionRuleRecord) : ProjectRetentionRuleRecord :=
  if rule.priority < best.priority then rule else best

def matchingRetentionRule [WildMatch] (rules : List ProjectRetentionRuleRecord) (refName : Text) :
    Option ProjectRetentionRuleRecord :=
  match rules.filter (fun rule => WildMatch.isMatch rule.refPattern refName) with
  | [] => none
  | rule :: rest => some (rest.foldl lowerPriority rule)

def wholeSeconds (nanoseconds : Int) : Int := nanoseconds.tdiv 1000000000

def refAge (now : UtcDateTime) (updatedAt : SqliteTime) : Int :=
  wholeSeconds (now.instant - updatedAt.instant)

end Db

namespace SqliteDatabase

open Textual Nix Project Calendar Tables Store Db Depot Programs

def getProjectRetentionPolicy (project : ProjectSlug) : Action ProjectRetentionPolicyRecord := do
  let projectId ← projectIdBySlug project
  match ← select (fun db => db.retentionPolicyRow projectId) with
  | some policy => do
    let rules ← select (fun db => db.retentionRulesOf projectId)
    return { projectSlug := project
             inheritedDefault := false
             keepLatestBuildsPerRef := policy.keepLatestBuildsPerRef
             objectDeleteGraceSeconds := policy.objectDeleteGraceSeconds
             rules }
  | none =>
    return { projectSlug := project
             inheritedDefault := true
             keepLatestBuildsPerRef := DEFAULT_KEEP_LATEST_BUILDS_PER_REF
             objectDeleteGraceSeconds := DEFAULT_OBJECT_DELETE_GRACE_SECONDS
             rules := defaultRetentionRules }

def retentionRuleRows (projectId : Uuid) :
    List ProjectRetentionRuleRecord → Action (List RetentionRuleRow)
  | [] => return []
  | rule :: rest =>
    if rule.priority = 0 then fail .retentionRulePriority
    else if trim rule.refPattern = [] then fail .retentionRulePattern
    else if rule.ttlSeconds.any (fun ttl => 2 ^ 63 ≤ ttl.toNat) then fail .durationOverflow
    else do
      let ruleId ← perform .uuid
      let rows ← retentionRuleRows projectId rest
      return ⟨ruleId, projectId, rule.priority, trim rule.refPattern, rule.ttlSeconds,
        rule.keepBuilds⟩ :: rows

def replaceProjectRetentionPolicy (project : ProjectSlug) (keepLatestBuildsPerRef : UInt32)
    (objectDeleteGraceSeconds : UInt64) (rules : List ProjectRetentionRuleRecord) :
    Action Unit := do
  if keepLatestBuildsPerRef = 0 then fail .keepLatestBuildsPerRef
  else if rules = [] then fail .noRetentionRules
  else do
    let projectId ← projectIdBySlug project
    if 2 ^ 63 ≤ objectDeleteGraceSeconds.toNat then fail .durationOverflow
    else do
      let rows ← retentionRuleRows projectId rules
      perform (.replaceRetentionPolicy
        ⟨projectId, keepLatestBuildsPerRef, objectDeleteGraceSeconds⟩ rows)

def deleteProjectRetentionPolicy (project : ProjectSlug) : Action Bool := do
  let projectId ← projectIdBySlug project
  perform (.deleteRetentionPolicy projectId)

def refIsActive (updatedAt : SqliteTime) : Option UInt64 → Action Bool
  | none => return true
  | some ttlSeconds => do
    let now ← perform .now
    if 2 ^ 63 ≤ ttlSeconds.toNat then fail .durationOverflow
    else return decide (refAge now updatedAt < ttlSeconds.toNat)

variable [WildMatch]

def retainedBuildIdsOfRef (project : ProjectSlug) (refName : Text) (updatedAt : SqliteTime) :
    Action (List Uuid) := do
  let policy ← getProjectRetentionPolicy project
  match matchingRetentionRule policy.rules refName with
  | none => return []
  | some rule => do
    let active ← refIsActive updatedAt rule.ttlSeconds
    if ¬ active then return []
    else do
      let keepBuilds := rule.keepBuilds.getD policy.keepLatestBuildsPerRef
      let projectId ← projectIdBySlug project
      select (fun db => db.newestBuildIds projectId refName keepBuilds.toNat)

def retainedBuildIdsOfRefs : List (ProjectSlug × Text × SqliteTime) → Action (List Uuid)
  | [] => return []
  | (project, refName, updatedAt) :: rest => do
    let ids ← retainedBuildIdsOfRef project refName updatedAt
    let others ← retainedBuildIdsOfRefs rest
    return ids ++ others

def listRetainedBuildIdsForGc : Action (List Uuid) := do
  let refs ← select Database.projectRefsForRetention
  let retained ← retainedBuildIdsOfRefs refs
  return (retained.insertionSort (fun a b => a.toNat ≤ b.toNat)).dedup

end SqliteDatabase
