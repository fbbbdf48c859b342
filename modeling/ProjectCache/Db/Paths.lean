import ProjectCache.Db.Builds

namespace Db

open Textual Nix Project Calendar Tables Store Depot Programs Narinfo

namespace Database

variable (db : Database)

-- The views project_visible_paths and aggregate_visible_paths, repeated rows not removed: every
-- query over them asks for one row.
def projectVisiblePaths : List (Uuid × StorePathHash) :=
  db.projectRefs.rows.flatMap (fun pr =>
    (db.attachedPaths pr.buildId).map (fun h => (pr.projectId, h))) ++
  db.pins.rows.flatMap (fun pin =>
    (db.projects.rows.filter (fun p => pin.projectId = some p.id)).map
      (fun p => (p.id, pin.storePathHash)))

def aggregateVisiblePaths : List StorePathHash :=
  (db.projectRefs.rows.filter (fun pr =>
    db.projects.rows.any (fun p => p.id = pr.projectId && p.isPublic))).flatMap
      (fun pr => db.attachedPaths pr.buildId) ++
  (db.pins.rows.filter (fun pin => pin.projectId = none)).map PinRow.storePathHash

def visiblePath (view : DepotView) (h : StorePathHash) : Bool :=
  match view with
  | .aggregate => db.aggregateVisiblePaths.contains h
  | .project slug =>
    db.projects.rows.any (fun p => p.slug = slug && db.projectVisiblePaths.contains (p.id, h))

def projectPathInfo (slug : ProjectSlug) (h : StorePathHash) : Option PathInfoRow :=
  (db.pathInfo h).filter (fun _ => db.visiblePath (.project slug) h)

def aggregatePathInfo (h : StorePathHash) : Option PathInfoRow :=
  (db.pathInfo h).filter (fun _ => db.visiblePath .aggregate h)

def buildPathInfo (buildId : Uuid) (h : StorePathHash) : Option PathInfoRow :=
  (db.pathInfo h).filter (fun _ => db.buildPaths.rows.contains ⟨buildId, h⟩)

def pathReferences (h : StorePathHash) : List Text :=
  ((db.pathInfo h).map PathInfoRow.references).getD []

def pathSignatures (h : StorePathHash) : List Text :=
  ((db.pathInfo h).map PathInfoRow.signatures).getD []

def insertPathInfo (row : PathInfoRow) : Bool × Database :=
  (decide (db.pathInfos.Free row), { db with pathInfos := db.pathInfos.insertOrIgnore row })

theorem mem_projectVisiblePaths {db : Database} {id : Uuid} {h : StorePathHash} :
    (id, h) ∈ db.projectVisiblePaths ↔
      (∃ pr ∈ db.projectRefs.rows, pr.projectId = id ∧ ⟨pr.buildId, h⟩ ∈ db.buildPaths.rows) ∨
      (∃ pin ∈ db.pins.rows, pin.projectId = some id ∧ pin.storePathHash = h ∧
        ∃ p ∈ db.projects.rows, p.id = id) := by
  simp only [projectVisiblePaths, List.mem_append, List.mem_flatMap, List.mem_map,
    List.mem_filter, decide_eq_true_eq, Prod.mk.injEq, mem_attachedPaths]
  constructor
  · rintro (⟨pr, hpr, g, hg, rfl, rfl⟩ | ⟨pin, hpin, p, ⟨hp, hpp⟩, rfl, rfl⟩)
    · exact Or.inl ⟨pr, hpr, rfl, hg⟩
    · exact Or.inr ⟨pin, hpin, hpp, rfl, p, hp, rfl⟩
  · rintro (⟨pr, hpr, rfl, hg⟩ | ⟨pin, hpin, hpp, rfl, p, hp, rfl⟩)
    · exact Or.inl ⟨pr, hpr, h, hg, rfl, rfl⟩
    · exact Or.inr ⟨pin, hpin, p, ⟨hp, hpp⟩, rfl, rfl⟩

theorem mem_aggregateVisiblePaths {db : Database} {h : StorePathHash} :
    h ∈ db.aggregateVisiblePaths ↔
      (∃ pr ∈ db.projectRefs.rows,
        (∃ p ∈ db.projects.rows, p.id = pr.projectId ∧ p.isPublic = true) ∧
        ⟨pr.buildId, h⟩ ∈ db.buildPaths.rows) ∨
      (∃ pin ∈ db.pins.rows, pin.projectId = none ∧ pin.storePathHash = h) := by
  simp [aggregateVisiblePaths, mem_attachedPaths, and_assoc]

end Database

end Db

namespace SqliteDatabase

open Textual Nix Project Calendar Tables Store Db Depot Programs Narinfo

def inflateNarinfo (pathInfo : PathInfoRow) : Action NarInfo := do
  let references ← select (fun db => db.pathReferences pathInfo.storePathHash)
  let signatures ← select (fun db => db.pathSignatures pathInfo.storePathHash)
  return { storePath := pathInfo.storePath
           url := pathInfo.url
           compression := pathInfo.compression
           narHash := .raw pathInfo.narHash
           narSize := pathInfo.narSize
           references
           deriver := pathInfo.deriver
           signatures
           ca := pathInfo.ca.map NixContentAddress.raw }

def inflateOptional : Option PathInfoRow → Action (Option NarInfo)
  | none => return none
  | some row => some <$> inflateNarinfo row

def getProjectNarinfo (slug : ProjectSlug) (h : StorePathHash) : Action (Option NarInfo) := do
  let row ← select (fun db => db.projectPathInfo slug h)
  inflateOptional row

def getAggregateNarinfo (h : StorePathHash) : Action (Option NarInfo) := do
  let row ← select (fun db => db.aggregatePathInfo h)
  inflateOptional row

def getBuildPathNarinfo (buildId : Uuid) (h : StorePathHash) : Action (Option NarInfo) := do
  let row ← select (fun db => db.buildPathInfo buildId h)
  inflateOptional row

def getPathInfoByHash (h : StorePathHash) : Action (Option NarInfo) := do
  let row ← select (fun db => db.pathInfo h)
  inflateOptional row

variable [Base64]

def ensureCompatiblePathInfo (existing incoming : NarInfo) : Except Error Unit :=
  let conflict := Error.conflictingNarinfo incoming.storePath
  if existing.storePath = incoming.storePath ∧ existing.url = incoming.url ∧
      existing.compression = incoming.compression then
    match existing.normalizedNarHash, incoming.normalizedNarHash with
    | .error e, _ => .error (.narHash e)
    | .ok _, .error e => .error (.narHash e)
    | .ok existingHash, .ok incomingHash =>
      if existingHash = incomingHash ∧ existing.narSize = incoming.narSize ∧
          sortTexts existing.references = sortTexts incoming.references ∧
          existing.deriver = incoming.deriver ∧
          existing.caNarinfoString = incoming.caNarinfoString then .ok ()
      else .error conflict
  else .error conflict

def pathInfoRow (narinfo : NarInfo) (h : StorePathHash) (narHash : NormalizedNarHash) :
    PathInfoRow where
  storePathHash := h
  storePath := narinfo.storePath
  url := narinfo.url
  compression := narinfo.compression
  narHash := narHash.display
  narSize := narinfo.narSize
  deriver := narinfo.deriver
  ca := narinfo.caNarinfoString
  references := narinfo.references
  signatures := narinfo.signatures

def upsertPathInfo (narinfo : NarInfo) : Action Unit := do
  let h ← ofExcept .storePathHash (StorePathHash.parseFromStorePath narinfo.storePath)
  let narHash ← ofExcept .narHash narinfo.normalizedNarHash
  if 2 ^ 63 ≤ narinfo.narSize.toNat then fail .sizeOverflow
  else do
    let inserted ← perform (.insertPathInfo (pathInfoRow narinfo h narHash))
    if inserted then return ()
    else do
      let existing ← getPathInfoByHash h
      let existing ← orFail existing .pathInfoDisappeared
      ofExcept id (ensureCompatiblePathInfo existing narinfo)

end SqliteDatabase
