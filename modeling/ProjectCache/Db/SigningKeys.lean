import ProjectCache.Db.Projects

namespace Db

open Textual Nix Project Calendar Tables Store Depot Programs

structure ProjectSigningKeyRecord where
  projectSlug : ProjectSlug
  name : Text
  publicKey : Text
  encryptedPrivateKey : Text
  nonce : Text
  deriving DecidableEq

namespace Database

variable (db : Database)

def retireKey (projectId : Uuid) (now : SqliteTime) (psk : ProjectSigningKeyRow) :
    ProjectSigningKeyRow :=
  if psk.projectId = projectId && psk.retiredAt.isNone then { psk with retiredAt := some now }
  else psk

theorem clash_of_retireKey {projectId : Uuid} {now : SqliteTime} (a b : ProjectSigningKeyRow)
    (h : Keyed.clash (retireKey projectId now a) (retireKey projectId now b) = true) :
    Keyed.clash a b = true := by
  simp only [Keyed.clash, retireKey] at h ⊢
  split at h <;> split at h <;> simp_all

-- The update that retires the active key and the insertion are one transaction.
def replaceSigningKey (row : ProjectSigningKeyRow) (now : SqliteTime) : Option Database :=
  if db.projects.rows.any (fun p => p.id = row.projectId) then
    ((db.projectSigningKeys.relax (retireKey row.projectId now) clash_of_retireKey).insert
      row).map (fun projectSigningKeys => { db with projectSigningKeys })
  else none

def activeSigningKey (slug : ProjectSlug) : Option ProjectSigningKeyRecord :=
  (db.projectSigningKeys.rows.find? (fun psk => psk.retiredAt.isNone &&
    db.projects.rows.any (fun p => p.id = psk.projectId && p.slug = slug))).map (fun psk =>
      { projectSlug := slug
        name := psk.name
        publicKey := psk.publicKey
        encryptedPrivateKey := psk.encryptedPrivateKey
        nonce := psk.nonce })

def countSigningKeys (projectId : Uuid) : Nat :=
  db.projectSigningKeys.rows.countP (fun psk => psk.projectId = projectId)

end Database

end Db

namespace SqliteDatabase

open Textual Nix Project Calendar Tables Store Db Depot Programs Signing KeyCrypto

def activeProjectSigningKeyRecord (project : ProjectSlug) :
    Action (Option ProjectSigningKeyRecord) :=
  select (fun db => db.activeSigningKey project)

def activeProjectSigningKeyPublic (project : ProjectSlug) : Action (Option Text) := do
  let record ← activeProjectSigningKeyRecord project
  return record.map ProjectSigningKeyRecord.publicKey

def projectSigningKeyAad (project : ProjectSlug) (keyName : Text) : ByteArray :=
  utf8 ("project-signing-key:".toList ++ project.text ++ ':' :: keyName)

def nextProjectSigningKeyName (project : ProjectSlug) : Action Text := do
  let projectId ← projectIdBySlug project
  let count ← select (fun db => db.countSigningKeys projectId)
  return project.text ++ '-' :: decimal (count + 1)

variable [Base64] [Ed25519] [Ed25519Bytes]

def generateNamedSigningKey (name : Text) : Action NamedSigningKey :=
  if trim name = [] then fail (.generateSigningKey .emptyName)
  else do
    let seed ← (perform (.fill 32)).mapError (fun _ => .generateSigningKey .random)
    return ⟨trim name, Ed25519Bytes.fromBytes seed.val⟩

variable [ChaCha20Poly1305]

def encryptSigningKey (key : KeyEncryptionKey) (plaintext : Text) (aad : ByteArray) :
    Action EncryptedSigningKey := do
  let nonce ← (perform (.fill 12)).mapError (fun _ => .keyEncryption .nonceGeneration)
  ofExcept .keyEncryption (key.encrypt nonce plaintext aad)

def replaceProjectSigningKey (project : ProjectSlug) (signingKey : NamedSigningKey)
    (keyEncryptionKey : KeyEncryptionKey) : Action Text := do
  let projectId ← projectIdBySlug project
  let id ← perform .uuid
  let encrypted ← encryptSigningKey keyEncryptionKey signingKey.privateKeyText
    (projectSigningKeyAad project signingKey.name)
  perform (.replaceSigningKey ⟨id, projectId, signingKey.name, signingKey.publicKeyText,
    encrypted.ciphertext, encrypted.nonce, none⟩)
  return signingKey.publicKeyText

def generateProjectSigningKey (project : ProjectSlug) (name : Option Text)
    (keyEncryptionKey : KeyEncryptionKey) : Action Text := do
  let name ← match name.filter (fun name => trim name ≠ []) with
    | some name => pure (trim name)
    | none => nextProjectSigningKeyName project
  let signingKey ← generateNamedSigningKey name
  replaceProjectSigningKey project signingKey keyEncryptionKey

def importProjectSigningKey (project : ProjectSlug) (signingKey : NamedSigningKey)
    (keyEncryptionKey : KeyEncryptionKey) : Action Text :=
  replaceProjectSigningKey project signingKey keyEncryptionKey

def ensureProjectSigningKey (project : ProjectSlug) (keyEncryptionKey : KeyEncryptionKey) :
    Action Text := do
  match ← activeProjectSigningKeyPublic project with
  | some publicKey => return publicKey
  | none => generateProjectSigningKey project none keyEncryptionKey

variable [Base64NoPad]

def activeProjectSigningKey (project : ProjectSlug) (keyEncryptionKey : KeyEncryptionKey) :
    Action (Option NamedSigningKey) := do
  match ← activeProjectSigningKeyRecord project with
  | none => return none
  | some record => do
    let privateKeyText ← ofExcept .keyEncryption (keyEncryptionKey.decrypt
      ⟨record.encryptedPrivateKey, record.nonce⟩
      (projectSigningKeyAad record.projectSlug record.name))
    let signingKey ← ofExcept .parseSigningKey (NamedSigningKey.parse privateKeyText)
    return some signingKey

def importSigningKeyText (project : ProjectSlug) (signingKey : Text) (name : Option Text)
    (keyEncryptionKey : KeyEncryptionKey) : Action Text := do
  let key ← ofExcept .parseSigningKey (NamedSigningKey.parse (trim signingKey))
  let renamed ← match name with
    | some name => ofExcept .parseSigningKey (key.withName name)
    | none => pure key
  importProjectSigningKey project renamed keyEncryptionKey

end SqliteDatabase
