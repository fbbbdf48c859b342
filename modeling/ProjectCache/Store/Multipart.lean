import ProjectCache.Lib.Program
import ProjectCache.Store.Backend

namespace Multipart

open Textual Store Programs

inductive Error where
  | request (cause : Text)
  | context (text : Text) (source : Error)
  | message (text : Text)
  | clientUpload (text : Text)

def Error.display : Error → Text
  | request cause => cause
  | context text _ => text
  | message text => text
  | clientUpload text => "client upload failed: ".toList ++ text

inductive Call where
  | read (size : Nat)
  | createMultipartUpload (key : Text)
  | uploadPart (key uploadId : Text) (partNumber : Nat) (body : BlobBytes)
  | completeMultipartUpload (key uploadId : Text) (parts : List CompletedMultipartUploadPart)
  | abortMultipartUpload (key uploadId : Text)
  | presignMultipartUploadPart (objectPath uploadId : Text) (partNumber : Nat)
    (contentLength : UInt64)
  | putPresignedPart (url : Text) (body : BlobBytes)
  | completeClientUpload (objectPath uploadId : Text) (parts : List CompletedMultipartUploadPart)
    (contentLength : UInt64)

-- The headers and fields that a response may lack are options.
abbrev Call.Reply : Call → Type
  | read _ => BlobBytes
  | createMultipartUpload _ => Option Text
  | uploadPart _ _ _ _ => Option Text
  | completeMultipartUpload _ _ _ => Option Text
  | abortMultipartUpload _ _ => Unit
  | presignMultipartUploadPart _ _ _ _ => Text
  | putPresignedPart _ _ => Option Text
  | completeClientUpload _ _ _ _ => Unit

abbrev Uploader : Interface where
  Call := Call
  Reply := Call.Reply
  Error := Error

abbrev Action (A : Type) := Prog Uploader A

def fail {A : Type} (error : Error) : Action A := .done (.error error)

def orFail {A : Type} (value : Option A) (error : Error) : Action A :=
  match value with
  | some a => return a
  | none => fail error

def request (c : Call) (wrap : Error → Error) : Action c.Reply :=
  (Prog.perform (I := Uploader) c).mapError wrap

def MIN_MULTIPART_PART_SIZE : Nat := 5 * 1024 * 1024

def CHUNK_SIZE : Nat := 64 * 1024

section Reading

variable (wrap : Error → Error) (partSize : Nat)

def fillBuffer (buffer : BlobBytes) : Action BlobBytes :=
  if _h : buffer.length < partSize then
    (request (.read (min (partSize - buffer.length) CHUNK_SIZE)) wrap).bind (fun bytes =>
      if _hb : 0 < bytes.length then fillBuffer (buffer ++ bytes) else .done (.ok buffer))
  else .done (.ok buffer)
termination_by partSize - buffer.length
decreasing_by
  rw [List.length_append]
  omega

def readPart : Action (Option BlobBytes) := do
  let buffer ← fillBuffer wrap partSize []
  if buffer = [] then return none else return some buffer

end Reading

def readNextPart : Nat → Action (Option BlobBytes) :=
  readPart (.context "reading multipart upload part".toList)

def readNextUploadPart : Nat → Action (Option BlobBytes) :=
  readPart (fun error =>
    .clientUpload ("reading multipart upload stream: ".toList ++ error.display))

def invalidPartNumber (partNumber : Int) : Error :=
  .message ("invalid multipart upload part number ".toList ++
    (if partNumber < 0 then ['-'] else []) ++ decimal partNumber.natAbs)

structure S3Storage where
  bucket : Text
  -- DEFAULT_MULTIPART_PART_SIZE in the source.
  partSize : Nat

namespace S3Storage

variable (storage : S3Storage)

def address (key : Text) : Text := "s3://".toList ++ storage.bucket ++ '/' :: key

def createMultipartUploadForKey (key : Text) : Action (Text × Nat) := do
  let uploadId ← request (.createMultipartUpload key)
    (.context ("creating multipart upload for ".toList ++ storage.address key))
  let uploadId ← orFail uploadId
    (.message "S3 create multipart upload response missing upload id".toList)
  return (uploadId, storage.partSize)

def completeMultipartUploadForKey (key uploadId : Text) (parts : List CompletedMultipartUploadPart)
    (contentLength : UInt64) : Action (UInt64 × Option Text) :=
  if parts = [] then fail (.message "cannot complete multipart upload without parts".toList)
  else
    match parts.find? (fun part => ¬ validPartNumber part.partNumber) with
    | some part => fail (invalidPartNumber part.partNumber)
    | none => do
      let etag ← request (.completeMultipartUpload key uploadId parts)
        (.context ("completing multipart upload for ".toList ++ storage.address key))
      return (contentLength, etag)

def abortMultipartUploadForKey (key uploadId : Text) : Action Unit :=
  request (.abortMultipartUpload key uploadId)
    (.context ("aborting multipart upload for ".toList ++ storage.address key))

def uploadParts (key uploadId : Text) (partSize partNumber : Nat) (totalContentLength : UInt64)
    (completedParts : List CompletedMultipartUploadPart) :
    Action (UInt64 × List CompletedMultipartUploadPart) :=
  (readNextPart partSize).bind (fun part =>
    match part with
    | none => .done (.ok (totalContentLength, completedParts))
    | some bytes =>
      if _h : validPartNumber partNumber = true then
        (request (.uploadPart key uploadId partNumber bytes)
          (.context ("uploading multipart part ".toList ++ decimal partNumber ++ " for ".toList ++
            storage.address key))).bind (fun response =>
        (orFail response (.message "S3 upload-part response missing ETag".toList)).bind (fun etag =>
        uploadParts key uploadId partSize (partNumber + 1)
          (totalContentLength + UInt64.ofNat bytes.length)
            (completedParts ++ [⟨partNumber, etag⟩])))
      else fail (invalidPartNumber partNumber))
termination_by MAX_MULTIPART_PARTS + 1 - partNumber
decreasing_by
  simp only [validPartNumber, Bool.and_eq_true, decide_eq_true_eq] at _h
  omega

def uploadStream (key uploadId : Text) (partSize : Nat) : Action UInt64 := do
  let (totalContentLength, completedParts) ← storage.uploadParts key uploadId partSize 1 0 []
  if completedParts = [] then
    fail (.message "cannot upload empty stream as multipart object".toList)
  else do
    let _ ← storage.completeMultipartUploadForKey key uploadId completedParts totalContentLength
    return totalContentLength

def putStreamMultipart (key : Text) : Action UInt64 := do
  let (uploadId, partSize) ← storage.createMultipartUploadForKey key
  if partSize < MIN_MULTIPART_PART_SIZE then
    fail (.message "multipart part size must be at least 5 MiB".toList)
  else do
    match ← (storage.uploadStream key uploadId partSize).attempt with
    | .ok totalContentLength => return totalContentLength
    | .error error => do
      let _ ← (storage.abortMultipartUploadForKey key uploadId).attempt
      fail error

end S3Storage

structure S3MultipartUpload where
  uploadId : Text
  partSize : Nat

namespace DepotClient

variable (objectPath : Text) (upload : S3MultipartUpload)

def uploadPresignedMultipartPart (url : Text) (bytes : BlobBytes) : Action Text := do
  let etag ← request (.putPresignedPart url bytes) id
  orFail etag (.clientUpload "presigned multipart part response missing ETag".toList)

-- The limit is checked before the next part is read.
def uploadParts (partNumber : Nat) (totalContentLength : UInt64)
    (completedParts : List CompletedMultipartUploadPart) :
    Action (UInt64 × List CompletedMultipartUploadPart) :=
  if _h : MAX_MULTIPART_PARTS < partNumber then
    fail (.clientUpload ("multipart upload exceeded ".toList ++ decimal MAX_MULTIPART_PARTS ++
      " parts".toList))
  else
    (readNextUploadPart upload.partSize).bind (fun part =>
      match part with
      | none => .done (.ok (totalContentLength, completedParts))
      | some bytes =>
        (request (.presignMultipartUploadPart objectPath upload.uploadId partNumber
          (UInt64.ofNat bytes.length)) id).bind (fun url =>
        (uploadPresignedMultipartPart url bytes).bind (fun etag =>
        uploadParts (partNumber + 1) (totalContentLength + UInt64.ofNat bytes.length)
          (completedParts ++ [⟨partNumber, etag⟩]))))
termination_by MAX_MULTIPART_PARTS + 1 - partNumber

def uploadS3MultipartReaderInner : Action Unit := do
  let (totalContentLength, completedParts) ← uploadParts objectPath upload 1 0 []
  if completedParts = [] then
    fail (.clientUpload "multipart upload produced no parts".toList)
  else
    request (.completeClientUpload objectPath upload.uploadId completedParts totalContentLength) id

end DepotClient

structure Env where
  fails : Bool
  pace : Nat
  header : Option Text
  url : Text

structure Session where
  rest : BlobBytes
  presigned : Nat := 0
  uploaded : List (Nat × BlobBytes) := []
  completed : List (List CompletedMultipartUploadPart × Option UInt64) := []
  aborted : List Text := []
  faulty : Bool := false

namespace Session

variable (s : Session)

def answering {A : Type} (e : Env) (a : A) : Session × Except Error A :=
  (s, if e.fails then .error (.request []) else .ok a)

def fault : Session := { s with faulty := true }

-- A response without an ETag is no success.
def putPart (partNumber : Nat) (body : BlobBytes) (e : Env) :
    Session × Except Error (Option Text) :=
  if e.fails then s.fault.answering e none
  else if e.header.isNone then s.fault.answering e none
  else { s with uploaded := s.uploaded ++ [(partNumber, body)] }.answering e e.header

end Session

def answer : (c : Call) → Env → Session → Session × Except Error c.Reply
  | .read size, e, s =>
    if e.fails then s.fault.answering e []
    else { s with rest := s.rest.drop (min size (e.pace + 1)) }.answering e
      (s.rest.take (min size (e.pace + 1)))
  | .createMultipartUpload _, e, s => s.answering e e.header
  | .uploadPart _ _ partNumber body, e, s => s.putPart partNumber body e
  | .completeMultipartUpload _ _ parts, e, s =>
    { s with completed := s.completed ++ [(parts, none)] }.answering e e.header
  | .abortMultipartUpload _ uploadId, e, s =>
    { s with aborted := s.aborted ++ [uploadId] }.answering e ()
  | .presignMultipartUploadPart _ _ partNumber _, e, s =>
    if e.fails then s.fault.answering e e.url
    else { s with presigned := partNumber }.answering e e.url
  | .putPresignedPart _ body, e, s => s.putPart s.presigned body e
  | .completeClientUpload _ _ parts contentLength, e, s =>
    { s with completed := s.completed ++ [(parts, some contentLength)] }.answering e ()

@[reducible] def machine : Machine Uploader where
  State := Session
  Env := Env
  answer := answer

def Env.Succeeds (e : Env) : Prop := e.fails = false ∧ e.header.isSome = true

end Multipart
