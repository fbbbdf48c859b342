import ProjectCache.Db.Projects

namespace Db

open Textual Nix Project Calendar Tables Store Depot Programs

structure BuildContextRecord where
  buildId : Uuid
  projectId : Uuid
  projectSlug : ProjectSlug
  refName : Text
  revision : Option Text
  status : BuildStatus
  deriving DecidableEq

namespace Database

variable (db : Database)

def build (id : Uuid) : Option BuildRow := db.builds.rows.find? (fun b => b.id = id)

def buildContext (id : Uuid) : Option BuildContextRecord := do
  let b ← db.build id
  let p ← db.projects.rows.find? (fun p => p.id = b.projectId)
  return { buildId := b.id, projectId := p.id, projectSlug := p.slug, refName := b.refName,
           revision := b.revision, status := b.status }

def pathInfo (storePathHash : StorePathHash) : Option PathInfoRow :=
  db.pathInfos.rows.find? (fun pi => pi.storePathHash = storePathHash)

def attachedPaths (buildId : Uuid) : List StorePathHash :=
  (db.buildPaths.rows.filter (fun bp => bp.buildId = buildId)).map BuildPathRow.storePathHash

def buildPathNarObjects (buildId : Uuid) : List (StorePathHash × Text) :=
  ((db.attachedPaths buildId).insertionSort (· ≤ ·)).flatMap
    (fun h => ((db.pathInfo h).map (fun pi => (h, pi.url))).toList)

def insertBuild (id projectId : Uuid) (refName : Text) (revision : Option Text)
    (createdAt : SqliteTime) : Option Database :=
  if db.projects.rows.any (fun p => p.id = projectId) then
    (db.builds.insert { id, projectId, refName, revision, status := .pending, createdAt,
                        finalizedAt := none }).map (fun builds => { db with builds })
  else none

def attachBuildPath (buildId : Uuid) (storePathHash : StorePathHash) : Option Database :=
  if (db.build buildId).isSome && (db.pathInfo storePathHash).isSome then
    some { db with buildPaths := db.buildPaths.insertOrIgnore ⟨buildId, storePathHash⟩ }
  else none

def markFinalized (finalizedAt : UtcDateTime) (b : BuildRow) : BuildRow :=
  { b with status := .finalized, finalizedAt := some finalizedAt }

-- The upsert of project_refs and the update of builds are one transaction.
def publishBuild (projectId : Uuid) (refName : Text) (buildId : Uuid) (finalizedAt : UtcDateTime)
    (now : SqliteTime) : Option Database :=
  if db.projects.rows.any (fun p => p.id = projectId) && (db.build buildId).isSome then do
    let projectRefs ← db.projectRefs.upsert ⟨projectId, refName, buildId, now⟩
      (fun r => r.projectId = projectId && r.refName = refName)
      (fun r => { r with buildId, updatedAt := now }) ⟨fun _ _ => rfl⟩
    return { db with
      projectRefs
      builds := db.builds.update (fun b => b.id = buildId) (markFinalized finalizedAt)
        ⟨fun _ _ => rfl⟩ }
  else none

theorem build_eq_some {db : Database} {id : Uuid} {b : BuildRow} :
    db.build id = some b ↔ b ∈ db.builds.rows ∧ b.id = id := by
  rw [build, Table.find?_eq_some_iff]
  · simp
  · intro x y hx hy
    simp only [decide_eq_true_eq] at hx hy
    simp [Keyed.clash, hx, hy]

theorem pathInfo_eq_some {db : Database} {h : StorePathHash} {pi : PathInfoRow} :
    db.pathInfo h = some pi ↔ pi ∈ db.pathInfos.rows ∧ pi.storePathHash = h := by
  rw [pathInfo, Table.find?_eq_some_iff]
  · simp
  · intro x y hx hy
    simp only [decide_eq_true_eq] at hx hy
    simp [Keyed.clash, hx, hy]

theorem mem_attachedPaths {db : Database} {buildId : Uuid} {h : StorePathHash} :
    h ∈ db.attachedPaths buildId ↔ ⟨buildId, h⟩ ∈ db.buildPaths.rows := by
  simp only [attachedPaths, List.mem_map, List.mem_filter, decide_eq_true_eq]
  constructor
  · rintro ⟨⟨b, g⟩, ⟨hm, rfl⟩, rfl⟩
    exact hm
  · exact fun hm => ⟨_, ⟨hm, rfl⟩, rfl⟩

theorem mem_buildPathNarObjects {db : Database} {buildId : Uuid} {h : StorePathHash} {o : Text} :
    (h, o) ∈ db.buildPathNarObjects buildId ↔
      ⟨buildId, h⟩ ∈ db.buildPaths.rows ∧ ∃ pi, db.pathInfo h = some pi ∧ pi.url = o := by
  simp only [buildPathNarObjects, List.mem_flatMap, List.mem_insertionSort, Option.mem_toList,
    Option.map_eq_some_iff, Prod.mk.injEq, mem_attachedPaths]
  constructor
  · rintro ⟨g, hg, pi, hpi, rfl, rfl⟩
    exact ⟨hg, pi, hpi, rfl⟩
  · rintro ⟨hm, pi, hpi, rfl⟩
    exact ⟨h, hm, pi, hpi, rfl, rfl⟩

end Database

end Db

namespace SqliteDatabase

open Textual Nix Project Calendar Tables Store Db Depot Programs

def getBuild (buildId : Uuid) : Action (Option BuildRow) := select (fun db => db.build buildId)

def beginBuild (project : ProjectSlug) (refName : Text) (revision : Option Text) :
    Action BuildRow := do
  let projectId ← projectIdBySlug project
  let buildId ← perform .uuid
  perform (.insertBuild buildId projectId refName revision)
  let build ← getBuild buildId
  orFail build (.buildNotFound buildId)

def getBuildContext (buildId : Uuid) : Action (Option BuildContextRecord) :=
  select (fun db => db.buildContext buildId)

def attachBuildPath (buildId : Uuid) (storePathHash : StorePathHash) : Action Unit :=
  perform (.attachBuildPath buildId storePathHash)

def listBuildPathNarObjects (buildId : Uuid) : Action (List (StorePathHash × Text)) :=
  select (fun db => db.buildPathNarObjects buildId)

def publishBuildToRef (project : ProjectSlug) (refName : Text) (buildId : Uuid) : Action Unit := do
  let projectId ← projectIdBySlug project
  let finalizedAt ← perform .now
  perform (.publishBuild projectId refName buildId finalizedAt)

end SqliteDatabase
