import ProjectCache.Read.Announced
import ProjectCache.Read.ContentLength

namespace Read

open Textual Nix Project DepotPath Signing KeyCrypto Store Depot Programs ContentLength

inductive ReadResponse where
  | notFound
  | internalServerError
  | text (contentType body : Text)
  | blob (response : Response)
  deriving DecidableEq

inductive ReadRequest where
  | health
  | aggregateCacheInfo
  | projectCacheInfo (project : Text)
  | aggregateObject (object : Text)
  | projectObject (project object : Text)
  deriving DecidableEq

section

variable [Base64] [Base64NoPad] [Ed25519] [Ed25519Bytes] [ChaCha20Poly1305] [HeaderValue]

namespace ReadAppState

variable (state : ReadAppState)

def cacheInfoResponse (view : DepotView) : Action ReadResponse := do
  match ← (state.nixCacheInfoText view).attempt with
  | .ok text => return .text "text/plain; charset=utf-8".toList text
  | .error _ => return .internalServerError

def narinfoResponse (view : DepotView) (h : StorePathHash) : Action ReadResponse := do
  match ← (state.readService.renderNarinfo view h).attempt with
  | .ok (some rendered) => return .text "text/x-nix-narinfo".toList rendered
  | .ok none => return .notFound
  | .error _ => return .internalServerError

def objectResponse (view : DepotView) (object : Text) : Action ReadResponse := do
  match ← (state.readService.getObject view object).attempt with
  | .ok (some (metadata, bytes)) => return .blob (blobResponse metadata bytes)
  | .ok none => return .notFound
  | .error _ => return .internalServerError

def serveObject (view : DepotView) (object : Text) : Action ReadResponse :=
  match parseDepotObjectPath object with
  | some (.narInfo h) => state.narinfoResponse view h
  | some (.nar _ _) => state.objectResponse view object
  | _ => return .notFound

def forProject (project : Text) (answer : DepotView → Action ReadResponse) : Action ReadResponse :=
  match ProjectSlug.parse project with
  | .ok project => answer (.project project)
  | .error _ => return .notFound

def program : ReadRequest → Action ReadResponse
  | .health => return .text "text/plain; charset=utf-8".toList "ok\n".toList
  | .aggregateCacheInfo => state.cacheInfoResponse .aggregate
  | .projectCacheInfo project => forProject project state.cacheInfoResponse
  | .aggregateObject object => state.serveObject .aggregate object
  | .projectObject project object => forProject project (fun view => state.serveObject view object)

end ReadAppState

end

end Read
