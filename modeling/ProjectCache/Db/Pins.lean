import ProjectCache.Db.Paths

namespace Db

open Textual Nix Project Calendar Tables Store Depot Programs Narinfo

namespace Database

variable (db : Database)

def upsertPin (row : PinRow) : Option Database :=
  if row.projectId.all (fun id => db.projects.rows.any (fun p => p.id = id)) &&
      (db.pathInfo row.storePathHash).isSome then
    (db.pins.upsert row (fun pin => pin.scopeKey = row.scopeKey && pin.name = row.name)
      (fun pin => { pin with projectId := row.projectId, storePathHash := row.storePathHash,
                             storePath := row.storePath })
      ⟨fun _ _ => rfl⟩).map (fun pins => { db with pins })
  else none

def deletePin (scopeKey : PinScope) (name : Text) : Bool × Database :=
  let named := fun pin : PinRow => pin.scopeKey = scopeKey && pin.name = name
  (db.pins.rows.any named, { db with pins := db.pins.delete named })

end Database

end Db

namespace SqliteDatabase

open Textual Nix Project Calendar Tables Store Db Depot Programs Narinfo

def pinScope : Option ProjectSlug → Action (PinScope × Option Uuid)
  | some project => do
    let projectId ← projectIdBySlug project
    return (.project projectId, some projectId)
  | none => return (.global, none)

def upsertPin (name : Text) (project : Option ProjectSlug) (h : StorePathHash)
    (storePath : Text) : Action Unit := do
  let (scopeKey, projectId) ← pinScope project
  let existing ← select (fun db => (db.pathInfo h).map PathInfoRow.storePath)
  let existing ← orFail existing (.unknownPinnedPath h)
  if existing ≠ storePath then fail (.pinnedPathMismatch storePath existing)
  else perform (.upsertPin ⟨scopeKey, name, projectId, h, storePath⟩)

def deletePin (name : Text) (project : Option ProjectSlug) : Action Bool := do
  let (scopeKey, _) ← pinScope project
  perform (.deletePin scopeKey name)

end SqliteDatabase
