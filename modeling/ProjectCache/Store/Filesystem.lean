import ProjectCache.Lib.FileSystem
import ProjectCache.Lib.Pool
import ProjectCache.Store.Backend
import ProjectCache.Store.ObjectPath

namespace Filesystem

open Textual Project FilePaths FileSystem Store Programs

inductive Error where
  | io (kind : ErrorKind)
  | context (text : Text) (source : Error)
  | message (text : Text)
  | outOfFuel

inductive Call where
  | file (c : FileSystem.Call)
  | nowV7

abbrev Call.Reply : Call → Type
  | file c => c.Reply
  | nowV7 => Uuid

abbrev Interface : Programs.Interface where
  Call := Call
  Reply := Call.Reply
  Error := Error

structure Env where
  fault : Fault
  uuid : Uuid

def answer : (c : Call) → Env → Files → Files × Except Error c.Reply
  | .file c, e, s =>
    ((FileSystem.answer c e.fault s).1, (FileSystem.answer c e.fault s).2.mapError .io)
  | .nowV7, e, s => (s, .ok e.uuid)

abbrev machine : Machine Interface where
  State := Files
  Env := Env
  answer := answer

abbrev Action (A : Type) := Prog Interface A

def fail {A : Type} (error : Error) : Action A := .done (.error error)

def perform (c : FileSystem.Call) : Action c.Reply := Prog.perform (I := Interface) (.file c)

def withContext {A : Type} (text : Text) (p : Action A) : Action A := p.mapError (.context text)

structure UploadReader where
  chunks : List BlobBytes
  broken : Option Error

def writeFile (path : PathBuf) (contents : BlobBytes) : Action Unit := do
  let file ← perform (.create path)
  perform (.write file contents)

def copyFrom (broken : Option Error) (file : Handle) (written : Nat) :
    List BlobBytes → Action Nat
  | [] =>
    match broken with
    | some error => fail error
    | none => return written
  | chunk :: chunks => do
    perform (.write file chunk)
    copyFrom broken file (written + chunk.length) chunks

def copy (reader : UploadReader) (file : Handle) : Action Nat :=
  copyFrom reader.broken file 0 reader.chunks

def readToEnd (file : Handle) (bytes : BlobBytes) : Nat → Action BlobBytes
  | 0 => fail .outOfFuel
  | fuel + 1 => do
    let chunk ← perform (.read file bytes.length)
    if chunk = [] then return bytes else readToEnd file (bytes ++ chunk) fuel

def readFile (path : PathBuf) (fuel : Nat) : Action BlobBytes := do
  let file ← perform (.openFile path)
  readToEnd file [] fuel

namespace FilesystemStorage

def cleanupTempFile (tempPath : PathBuf) : Action Unit := do
  let _ ← (perform (.removeFile tempPath)).attempt
  return ()

def cleaned {A : Type} (tempPath : PathBuf) : Except Error A → Action A
  | .ok a => return a
  | .error error => do
    cleanupTempFile tempPath
    fail error

def renameTemp (tempPath finalPath : PathBuf) : Action Unit :=
  withContext ("renaming ".toList ++ tempPath.display ++ " to ".toList ++ finalPath.display)
    (perform (.rename tempPath finalPath))

def writeBytes (tempPath finalPath : PathBuf) (bytes : BlobBytes) : Action Unit := do
  withContext ("writing temporary object ".toList ++ tempPath.display) (writeFile tempPath bytes)
  renameTemp tempPath finalPath

def writeStream (tempPath finalPath : PathBuf) (reader : UploadReader) : Action Nat := do
  let tempFile ← withContext ("creating temporary object ".toList ++ tempPath.display)
    (perform (.create tempPath))
  let written ← withContext ("streaming object into ".toList ++ tempPath.display)
    (copy reader tempFile)
  withContext ("flushing temporary object ".toList ++ tempPath.display) (perform (.flush tempFile))
  withContext ("syncing temporary object ".toList ++ tempPath.display)
    (perform (.syncData tempFile))
  renameTemp tempPath finalPath
  return written

variable (storage : Store.FilesystemStorage)

def resolve (objectPath : Text) : Action PathBuf :=
  match storage.resolveObjectPath objectPath with
  | .ok path => return path
  | .error text => fail (.message text)

def prepareWritePath (objectPath : Text) : Action (PathBuf × PathBuf) := do
  let finalPath ← resolve storage objectPath
  match finalPath.parent with
  | none =>
    fail (.message ("object path ".toList ++ objectPath ++ " resolved without parent".toList))
  | some parent => do
    withContext ("creating parent directories for ".toList ++ finalPath.display)
      (perform (.createDirAll parent))
    let uuid ← Prog.perform (I := Interface) .nowV7
    return (finalPath, Store.FilesystemStorage.temporaryPathFor finalPath uuid)

def head (objectPath : Text) : Action (Option BlobMetadata) := do
  let path ← resolve storage objectPath
  match ← (perform (.metadata path)).attempt with
  | .ok metadata =>
    if metadata.isFile then return some ⟨octetStream, some metadata.len, none, none⟩
    else return none
  | .error (.io .notFound) => return none
  | .error error =>
    fail (.context ("reading filesystem metadata for ".toList ++ path.display) error)

def getBytes (fuel : Nat) (objectPath : Text) : Action (Option BlobBytes) := do
  let path ← resolve storage objectPath
  match ← (readFile path fuel).attempt with
  | .ok bytes => return some bytes
  | .error (.io .notFound) => return none
  | .error error => fail (.context ("reading filesystem object ".toList ++ path.display) error)

def putBytes (objectPath : Text) (bytes : BlobBytes) : Action Unit := do
  let (finalPath, tempPath) ← prepareWritePath storage objectPath
  let result ← (writeBytes tempPath finalPath bytes).attempt
  cleaned tempPath result

def putStream (objectPath : Text) (reader : UploadReader) : Action Nat := do
  let (finalPath, tempPath) ← prepareWritePath storage objectPath
  let result ← (writeStream tempPath finalPath reader).attempt
  cleaned tempPath result

def delete (objectPath : Text) : Action Unit := do
  let path ← resolve storage objectPath
  match ← (perform (.removeFile path)).attempt with
  | .ok _ => return ()
  | .error (.io .notFound) => return ()
  | .error error => fail (.context ("deleting filesystem object ".toList ++ path.display) error)

end FilesystemStorage

end Filesystem
