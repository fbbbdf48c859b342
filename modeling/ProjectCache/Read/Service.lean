import ProjectCache.Db.Upstreams
import ProjectCache.Read.LocalObjects

namespace Read

open Textual Nix Project Narinfo Signing Store Db Depot Programs SqliteDatabase

variable [Base64] [Ed25519]

structure ReadService where
  storeDir : StoreDir
  storageCatalog : StorageCatalog
  aggregateSigningKey : Option NamedSigningKey
  projectSigningKeys : Option (ProjectSlug → Option NamedSigningKey)

omit [Base64] in
def resolveNarinfo (view : DepotView) (h : StorePathHash) : Action (Option NarInfo) :=
  match view with
  | .aggregate => getAggregateNarinfo h
  | .project project => getProjectNarinfo project h

omit [Base64] in
def upstreamsForView (view : DepotView) : Action (List UpstreamCache) := do
  let records ← match view with
    | .aggregate => listEnabledUpstreams
    | .project project => listEnabledUpstreamsForProject project
  return records.map UpstreamCacheRow.intoRuntimeConfig

def fetchNarinfo (h : StorePathHash) : List UpstreamCache → Action (Option Text)
  | [] => return none
  | upstream :: rest => do
    match ← perform (.fetchNarinfoText upstream h) with
    | some text => return some text
    | none => fetchNarinfo h rest

def fetchObject (objectPath : Text) :
    List UpstreamCache → Action (Option (BlobMetadata × BlobBytes))
  | [] => return none
  | upstream :: rest => do
    match ← perform (.getUpstreamObject upstream objectPath) with
    | some result => return some result
    | none => fetchObject objectPath rest

namespace ReadService

variable (service : ReadService)

def projectSigningKey (project : ProjectSlug) : Action (Option NamedSigningKey) :=
  match service.projectSigningKeys with
  | none => return none
  | some keys => select (fun _ => keys project)

def signingKeysForView : DepotView → Action (List NamedSigningKey)
  | .aggregate => return service.aggregateSigningKey.toList
  | .project project => do
    let projectKey ← service.projectSigningKey project
    return projectKey.toList ++ service.aggregateSigningKey.toList

def renderSignedNarinfo (view : DepotView) (narinfo : NarInfo) : Action Text := do
  let signingKeys ← service.signingKeysForView view
  let localSignatures ← ofExcept .fingerprint
    (NarInfoSigner.sign ⟨service.storeDir, signingKeys⟩ narinfo)
  ofExcept .narHash (NarInfoRenderer.renderWithSignatures ⟨service.storeDir⟩ narinfo
    (narinfo.signatures ++ localSignatures))

def renderNarinfo (view : DepotView) (h : StorePathHash) : Action (Option Text) := do
  match ← resolveNarinfo view h with
  | some narinfo => do
    let text ← service.renderSignedNarinfo view narinfo
    return some text
  | none => do
    let upstreams ← upstreamsForView view
    match ← fetchNarinfo h upstreams with
    | none => return none
    | some narinfoText => do
      let narinfo ← ofExcept .parseNarinfo (parseNarinfo narinfoText service.storeDir)
      let text ← service.renderSignedNarinfo view narinfo
      return some text

def getObject (view : DepotView) (objectPath : Text) :
    Action (Option (BlobMetadata × BlobBytes)) := do
  match ← DbBackedObjectStore.getVisible ⟨service.storageCatalog⟩ view objectPath with
  | some result => return some result
  | none => do
    let upstreams ← upstreamsForView view
    fetchObject objectPath upstreams

end ReadService

end Read
