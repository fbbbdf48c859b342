import ProjectCache.Db.Projects

namespace Db

open Textual Nix Project Calendar Tables Store Depot Programs

namespace Database

variable (db : Database)

def upstreamOrder (a b : UpstreamCacheRow) : Bool :=
  a.priority < b.priority || (a.priority = b.priority && a.name ≤ b.name)

def upstreamByName (name : Text) : Option UpstreamCacheRow :=
  db.upstreamCaches.rows.find? (fun u => u.name = name)

def enabledUpstreams : List UpstreamCacheRow :=
  (db.upstreamCaches.rows.filter UpstreamCacheRow.enabled).insertionSort
    (fun a b => upstreamOrder a b = true)

def enabledUpstreamsForProject (slug : ProjectSlug) : List UpstreamCacheRow :=
  (db.upstreamCaches.rows.filter (fun u => u.enabled &&
    db.projectUpstreams.rows.any (fun pu => pu.upstreamId = u.id &&
      db.projects.rows.any (fun p => p.id = pu.projectId && p.slug = slug)))).insertionSort
    (fun a b => upstreamOrder a b = true)

def upsertUpstreamCache (row : UpstreamCacheRow) : Option Database :=
  (db.upstreamCaches.upsert row (fun u => u.name = row.name)
    (fun u => { u with baseUrl := row.baseUrl, priority := row.priority, enabled := row.enabled })
    ⟨fun _ _ => rfl⟩).map (fun upstreamCaches => { db with upstreamCaches })

def setUpstreamEnabled (name : Text) (enabled : Bool) : Bool × Database :=
  let upstreamCaches := db.upstreamCaches.update (fun u => u.name = name)
    (fun u => { u with enabled }) ⟨fun _ _ => rfl⟩
  (db.upstreamCaches.rows.any (fun u => u.name = name), { db with upstreamCaches })

def linkProjectUpstream (projectId upstreamId : Uuid) : Option Database :=
  if db.projects.rows.any (fun p => p.id = projectId) &&
      db.upstreamCaches.rows.any (fun u => u.id = upstreamId) then
    some { db with projectUpstreams := db.projectUpstreams.insertOrIgnore ⟨projectId, upstreamId⟩ }
  else none

def unlinkProjectUpstream (projectId : Uuid) (name : Text) : Bool × Database :=
  let links := fun pu : ProjectUpstreamRow => pu.projectId = projectId &&
    (db.upstreamByName name).any (fun u => u.id = pu.upstreamId)
  (db.projectUpstreams.rows.any links,
    { db with projectUpstreams := db.projectUpstreams.delete links })

end Database

def UpstreamCacheRow.intoRuntimeConfig (row : UpstreamCacheRow) : UpstreamCache :=
  UpstreamCache.new row.id row.name row.baseUrl row.priority

end Db

namespace SqliteDatabase

open Textual Nix Project Calendar Tables Store Db Depot Programs

def upsertUpstreamCacheByName (name baseUrl : Text) (priority : UInt32) (enabled : Bool) :
    Action Unit := do
  let existing ← select (fun db => (db.upstreamByName name).map UpstreamCacheRow.id)
  let id ← match existing with
    | some id => (return id : Action Uuid)
    | none => perform .uuid
  Prog.perform (I := Interface)
    (.upsertUpstreamCache ⟨id, name, trimEndMatches (· = '/') baseUrl, priority, enabled⟩)

def setUpstreamEnabled (name : Text) (enabled : Bool) : Action Bool :=
  perform (.setUpstreamEnabled name enabled)

def linkProjectUpstreamByName (slug : ProjectSlug) (name : Text) : Action Bool := do
  match ← select (fun db => db.upstreamByName name) with
  | none => return false
  | some upstream => do
    let projectId ← projectIdBySlug slug
    perform (.linkProjectUpstream projectId upstream.id)
    return true

def unlinkProjectUpstreamByName (slug : ProjectSlug) (name : Text) : Action Bool := do
  let projectId ← projectIdBySlug slug
  perform (.unlinkProjectUpstream projectId name)

def listEnabledUpstreams : Action (List UpstreamCacheRow) :=
  select Database.enabledUpstreams

def listEnabledUpstreamsForProject (slug : ProjectSlug) : Action (List UpstreamCacheRow) :=
  select (fun db => db.enabledUpstreamsForProject slug)

end SqliteDatabase
