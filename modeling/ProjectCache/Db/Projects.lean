import ProjectCache.Depot.Calls

namespace Db

open Textual Nix Project Calendar Tables Store Depot Programs

namespace Database

variable (db : Database)

def projectBySlug (slug : ProjectSlug) : Option ProjectRow :=
  db.projects.rows.find? (fun p => p.slug = slug)

def insertProject (row : ProjectRow) : Option Database :=
  (db.projects.upsert row (fun p => p.slug = row.slug)
    (fun p => { p with displayName := row.displayName, isPublic := row.isPublic,
                       storageId := row.storageId })
    ⟨fun _ _ => rfl⟩).map (fun projects => { db with projects })

theorem projectBySlug_eq_some {db : Database} {slug : ProjectSlug} {p : ProjectRow} :
    db.projectBySlug slug = some p ↔ p ∈ db.projects.rows ∧ p.slug = slug := by
  rw [projectBySlug, Table.find?_eq_some_iff]
  · simp
  · intro a b ha hb
    simp only [decide_eq_true_eq] at ha hb
    simp [Keyed.clash, ha, hb]

theorem projectBySlug_of_mem {db : Database} {p : ProjectRow} (h : p ∈ db.projects.rows) :
    db.projectBySlug p.slug = some p := projectBySlug_eq_some.mpr ⟨h, rfl⟩

theorem project_eq_of_id {db : Database} {p q : ProjectRow} (hp : p ∈ db.projects.rows)
    (hq : q ∈ db.projects.rows) (h : p.id = q.id) : p = q :=
  Table.eq_of_clash hp hq (by simp [Keyed.clash, h])

end Database

end Db

namespace SqliteDatabase

open Textual Nix Project Calendar Tables Store Db Depot Programs

def projectIdBySlug (slug : ProjectSlug) : Action Uuid := do
  let id ← select (fun db => (db.projectBySlug slug).map ProjectRow.id)
  orFail id (.projectNotFound slug)

def getProjectStorageId (slug : ProjectSlug) : Action StorageId := do
  let storageId ← select (fun db => (db.projectBySlug slug).map ProjectRow.storageId)
  orFail storageId (.projectNotFound slug)

def insertProject (slug : ProjectSlug) (displayName : Text) (isPublic : Bool)
    (storageId : StorageId) : Action Unit := do
  let id ← perform .uuid
  perform (.insertProject ⟨id, slug, displayName, isPublic, storageId⟩)

end SqliteDatabase
