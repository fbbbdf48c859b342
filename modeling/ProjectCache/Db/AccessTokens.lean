import ProjectCache.Db.Projects

namespace Db

open Textual Nix Project Calendar Tables Store Depot Programs

class Sha256 where
  digest : ByteArray → List UInt8

def hexDigit (n : Nat) : Char := "0123456789abcdef".toList.getD n '0'

def hexEncode (bytes : List UInt8) : Text :=
  bytes.flatMap (fun b => [hexDigit (b.toNat / 16), hexDigit (b.toNat % 16)])

structure AccessTokenRecord where
  id : Uuid
  name : Text
  projectSlug : ProjectSlug
  refPattern : Option Text
  createdAt : SqliteTime
  expiresAt : Option OffsetDateTime
  revokedAt : Option UtcDateTime
  deriving DecidableEq

structure CreatedAccessToken where
  token : Text
  records : List AccessTokenRecord
  deriving DecidableEq

namespace Database

variable (db : Database)

def recordsOfToken (t : AccessTokenRow) : List AccessTokenRecord :=
  (db.projects.rows.filter (fun p => p.id = t.projectId)).flatMap (fun p =>
    (db.accessTokenRefPatterns.rows.filter (fun r => r.tokenId = t.id)).map (fun r =>
      { id := t.id
        name := t.name
        projectSlug := p.slug
        refPattern := if r.refPattern = [] then none else some r.refPattern
        createdAt := t.createdAt
        expiresAt := t.expiresAt
        revokedAt := t.revokedAt }))

def accessTokenRecords (p : AccessTokenRow → Bool) : List AccessTokenRecord :=
  ((db.accessTokens.rows.filter p).flatMap db.recordsOfToken).insertionSort
    (fun a b => a.refPattern.getD [] ≤ b.refPattern.getD [])

-- expires_at is a text, compared with the text of the current time.
def activeAt (now : UtcDateTime) (t : AccessTokenRow) : Bool :=
  t.revokedAt.isNone && t.expiresAt.all (fun e => decide (now.format < e.format))

def insertPatterns (tokenId : Uuid) :
    List Text → Table AccessTokenRefPatternRow → Option (Table AccessTokenRefPatternRow)
  | [], patterns => some patterns
  | refPattern :: rest, patterns =>
    (patterns.insert ⟨tokenId, refPattern⟩).bind (insertPatterns tokenId rest)

def insertAccessToken (row : AccessTokenRow) (refPatterns : List Text) : Option Database :=
  if db.projects.rows.any (fun p => p.id = row.projectId) then do
    let accessTokens ← db.accessTokens.insert row
    let accessTokenRefPatterns ← insertPatterns row.id refPatterns db.accessTokenRefPatterns
    return { db with accessTokens, accessTokenRefPatterns }
  else none

def markRevoked (now : UtcDateTime) (t : AccessTokenRow) : AccessTokenRow :=
  { t with revokedAt := some now }

def revokeAccessToken (tokenId : Uuid) (now : UtcDateTime) : Bool × Database :=
  let unrevoked := fun t : AccessTokenRow => t.id = tokenId && t.revokedAt.isNone
  let accessTokens := db.accessTokens.update unrevoked (markRevoked now) ⟨fun _ _ => rfl⟩
  (db.accessTokens.rows.any unrevoked, { db with accessTokens })

end Database

end Db

namespace SqliteDatabase

open Textual Nix Project Calendar Tables Store Db Depot Programs

def trimmedPatterns (refPatterns : List Text) : List Text :=
  (sortTexts ((refPatterns.map trim).filter (· ≠ []))).dedup

-- A token without patterns gets one row with the empty pattern.
def normalizePatterns (refPatterns : List Text) : List Text :=
  if trimmedPatterns refPatterns = [] then [[]] else trimmedPatterns refPatterns

def uuidSimple (id : Uuid) : Text :=
  (List.range 32).reverse.map (fun i => hexDigit (id.toNat / 16 ^ i % 16))

def generateAccessToken : Action Text := do
  let first ← perform .uuid
  let second ← perform .uuid
  return "npc_".toList ++ uuidSimple first ++ uuidSimple second

def listAccessTokenRecordsById (tokenId : Uuid) : Action (List AccessTokenRecord) :=
  select (fun db => db.accessTokenRecords (fun t => t.id = tokenId))

variable [Sha256]

def hashAccessToken (token : Text) : Text :=
  hexEncode (Sha256.digest (String.ofList token).toUTF8)

def createAccessToken (name : Text) (project : ProjectSlug) (refPatterns : List Text)
    (expiresAt : Option OffsetDateTime) : Action CreatedAccessToken :=
  if trim name = [] then fail .emptyAccessTokenName
  else do
    let projectId ← projectIdBySlug project
    let tokenId ← perform .uuid
    let token ← generateAccessToken
    perform (.insertAccessToken tokenId (hashAccessToken token) (trim name) projectId expiresAt
      (normalizePatterns refPatterns))
    let records ← listAccessTokenRecordsById tokenId
    return { token, records }

omit [Sha256] in
def revokeAccessToken (tokenId : Uuid) : Action Bool := do
  let now ← perform .now
  perform (.revokeAccessToken tokenId now)

def listActiveAccessTokenRecordsByToken (token : Text) : Action (List AccessTokenRecord) := do
  let now ← perform .now
  select (fun db => db.accessTokenRecords
    (fun t => t.tokenHash = hashAccessToken token && Database.activeAt now t))

omit [Sha256] in
def listActiveAccessTokenRecordsById (tokenId : Uuid) : Action (List AccessTokenRecord) := do
  let now ← perform .now
  select (fun db => db.accessTokenRecords (fun t => t.id = tokenId && Database.activeAt now t))

end SqliteDatabase
