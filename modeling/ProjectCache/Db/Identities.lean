import ProjectCache.Db.Projects

namespace Db

open Textual Nix Project Calendar Tables Store Depot Programs

structure ProjectOidcIdentityRecord where
  projectSlug : ProjectSlug
  provider : Text
  repository : Text
  refPattern : Option Text
  deriving DecidableEq

namespace Database

variable (db : Database)

def bindingOf (projectId : Uuid) (provider repository : Text) (i : ProjectOidcIdentityRow) : Bool :=
  i.projectId = projectId && i.provider = provider && i.repository = repository

def insertIdentities (projectId : Uuid) (provider repository : Text) : List Text →
    Table ProjectOidcIdentityRow → Option (Table ProjectOidcIdentityRow)
  | [], identities => some identities
  | refPattern :: rest, identities =>
    (identities.insert ⟨projectId, provider, repository, refPattern⟩).bind
      (insertIdentities projectId provider repository rest)

-- The rows of the binding are deleted and the new ones inserted in one transaction.
def replaceOidcIdentity (projectId : Uuid) (provider repository : Text) (refPatterns : List Text) :
    Option Database :=
  if db.projects.rows.any (fun p => p.id = projectId) then
    (insertIdentities projectId provider repository refPatterns
      (db.projectOidcIdentities.delete (bindingOf projectId provider repository))).map
        (fun projectOidcIdentities => { db with projectOidcIdentities })
  else none

def deleteOidcIdentity (projectId : Uuid) (provider repository : Text) : Bool × Database :=
  let binding := bindingOf projectId provider repository
  (db.projectOidcIdentities.rows.any binding,
    { db with projectOidcIdentities := db.projectOidcIdentities.delete binding })

def identityRecords (i : ProjectOidcIdentityRow) : List ProjectOidcIdentityRecord :=
  (db.projects.rows.filter (fun p => p.id = i.projectId)).map (fun p =>
    { projectSlug := p.slug
      provider := i.provider
      repository := i.repository
      refPattern := if i.refPattern = [] then none else some i.refPattern })

def IdentityOrder (a b : ProjectOidcIdentityRecord) : Prop :=
  a.projectSlug.text < b.projectSlug.text ∨
    a.projectSlug.text = b.projectSlug.text ∧ a.refPattern.getD [] ≤ b.refPattern.getD []

instance : DecidableRel IdentityOrder := fun a b => by
  unfold IdentityOrder
  infer_instance

def matchingIdentities (provider repository : Text) : List ProjectOidcIdentityRecord :=
  ((db.projectOidcIdentities.rows.filter (fun i =>
    i.provider = provider && i.repository = repository)).flatMap
      db.identityRecords).insertionSort IdentityOrder

end Database

end Db

namespace SqliteDatabase

open Textual Nix Project Calendar Tables Store Db Depot Programs

def normalizedPatterns (refPatterns : List Text) : List Text :=
  let trimmed := (sortTexts ((refPatterns.map trim).filter (· ≠ []))).dedup
  if trimmed = [] then [[]] else trimmed

def replaceProjectOidcIdentity (project : ProjectSlug) (provider repository : Text)
    (refPatterns : List Text) : Action Unit :=
  if trim provider = [] then fail .emptyProvider
  else if trim repository = [] then fail .emptyRepository
  else do
    let projectId ← projectIdBySlug project
    perform (.replaceOidcIdentity projectId (trim provider) (trim repository)
      (normalizedPatterns refPatterns))

def deleteProjectOidcIdentity (project : ProjectSlug) (provider repository : Text) :
    Action Bool := do
  let projectId ← projectIdBySlug project
  perform (.deleteOidcIdentity projectId (trim provider) (trim repository))

def listMatchingProjectOidcIdentities (provider repository : Text) :
    Action (List ProjectOidcIdentityRecord) :=
  select (fun db => db.matchingIdentities provider repository)

end SqliteDatabase
