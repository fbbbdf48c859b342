import ProjectCache.Depot.Machine
import ProjectCache.Ingest.Service
import ProjectCache.Lib.Extension

namespace Ingest

open Textual Nix Project Store Db Depot Programs

structure PresignedUploadPartUrl where
  url : Text
  expiresAt : Int
  deriving DecidableEq

def PRESIGNED_MULTIPART_PART_TTL : Nat := 60 * 60

def PRESIGNED_MULTIPART_PART_TTL_SKEW_SECONDS : Int := 0

inductive MultipartCall : Type 1 where
  | presignMultipartUploadPart (storage : DepotStorage) (objectPath uploadId : Text)
    (partNumber : Int) (contentLength : UInt64) (expiresIn : Nat)
  | abortMultipartUpload (storage : DepotStorage) (objectPath uploadId : Text)

@[reducible] def MultipartCall.Reply : MultipartCall → Type
  | presignMultipartUploadPart _ _ _ _ _ _ => Option PresignedUploadPartUrl
  | abortMultipartUpload _ _ _ => Unit

@[reducible] def Multipart : Addition := ⟨MultipartCall, MultipartCall.Reply⟩

def MultipartCall.carryOut : (c : MultipartCall) → Env → Text → Except Error c.Reply
  | presignMultipartUploadPart storage _ _ partNumber contentLength expiresIn, e, url =>
    match storage.kind with
    | .filesystem => .ok none
    | .s3 =>
      if ¬ validPartNumber partNumber then
        .error (.storage "invalid multipart upload part number".toList)
      else if 2 ^ 63 ≤ contentLength.toNat then
        .error (.storage "converting content length".toList)
      else
        .ok (some ⟨url, e.now.instant +
          (expiresIn - PRESIGNED_MULTIPART_PART_TTL_SKEW_SECONDS) * 1000000000⟩)
  | abortMultipartUpload storage _ _, _, _ =>
    match storage.kind with
    | .filesystem =>
      .error (.storage "storage backend does not support multipart uploads".toList)
    | .s3 => .ok ()

def MultipartCall.answer (c : MultipartCall) (e : Env) (url : Text) (w : World) :
    World × Except Error c.Reply :=
  match e.outcome with
  | .answered => (w, c.carryOut e url)
  | .refused message | .lost message => (w, .error (.io message))

@[reducible] def multipartMachine : Machine (Interface.plus Depot.Interface Multipart) :=
  Depot.machine.plus Multipart Text MultipartCall.answer

abbrev UploadAction (A : Type) := Prog (Interface.plus Depot.Interface Multipart) A

namespace IngestService

variable (service : IngestService)

def presignMultipartUploadPart (buildId : Uuid) (h : StorePathHash) (partNumber : Int)
    (objectPath uploadId : Text) (contentLength : UInt64) :
    UploadAction PresignedUploadPartUrl := do
  let (_, storage) ← (service.validateUploadTarget buildId h objectPath).lift Multipart
  match ← Prog.added (J := Multipart) (.presignMultipartUploadPart storage objectPath uploadId
      partNumber contentLength PRESIGNED_MULTIPART_PART_TTL) with
  | some url => return url
  | none =>
    .done (.error (.storage "storage backend does not support multipart uploads".toList))

def abortMultipartUpload (buildId : Uuid) (h : StorePathHash) (objectPath uploadId : Text) :
    UploadAction Unit := do
  let (_, storage) ← (service.validateUploadTarget buildId h objectPath).lift Multipart
  Prog.added (J := Multipart) (.abortMultipartUpload storage objectPath uploadId)

end IngestService

end Ingest
