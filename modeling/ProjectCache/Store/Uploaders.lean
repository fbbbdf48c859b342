import ProjectCache.Store.Parts

namespace Multipart

open Textual Store Programs Pieces

variable {admits : Env → Prop} {s : Session}

namespace DepotClient

variable {objectPath : Text} {upload : S3MultipartUpload}

-- The limit is one below the server's: the check comes before the read that would find the end.
theorem wp_uploadParts (hp : 0 < upload.partSize) (k : Nat) (total : UInt64)
    (done : List CompletedMultipartUploadPart) :
    machine.wp admits (PartsEnd admits MAX_MULTIPART_PARTS upload.partSize k total done s)
      (uploadParts objectPath upload k total done) s := by
  obtain ⟨rest, hrest⟩ : ∃ rest, s.rest = rest := ⟨_, rfl⟩
  induction rest using pieces_induction hp generalizing s k total done with
  | nil =>
    rw [uploadParts]
    split
    · exact .tooMany _ (Nat.lt_add_right _ ‹_›) rfl rfl rfl
    refine Machine.wp_bind.mpr (Machine.wp_mono (wp_readPart hp) ?_)
    rintro r s' (⟨rfl, rfl⟩ | hh)
    · rw [if_pos hrest]
      exact .nil hrest (Nat.not_lt.mp ‹_›)
    · obtain ⟨x, rfl⟩ := hh.error
      exact .halted ⟨⟨x, rfl⟩, hh.cause, hh.faulty, hh.completed, hh.aborted⟩
  | step rest hne ih =>
    subst hrest
    rw [uploadParts]
    split
    · exact .tooMany _ (Nat.lt_add_right _ ‹_›) rfl rfl rfl
    refine Machine.wp_bind.mpr (Machine.wp_mono (wp_readPart hp) ?_)
    rintro r s' (⟨rfl, rfl⟩ | hh)
    swap
    · obtain ⟨x, rfl⟩ := hh.error
      exact .halted ⟨⟨x, rfl⟩, hh.cause, hh.faulty, hh.completed, hh.aborted⟩
    rw [if_neg hne, onOk_ok]
    dsimp only
    refine Machine.wp_bind.mpr (wp_request.mpr (fun e he => ?_))
    simp only [answer]
    cases hf : e.fails with
    | true =>
      simp only [if_true, Session.answering, hf]
      exact .halted ((halts_fault he (fun h => by simp [Env.Succeeds, hf] at h) _).from rfl rfl)
    | false =>
      simp only [Bool.false_eq_true, if_false, Session.answering, hf]
      refine Machine.wp_bind.mpr (Machine.wp_bind.mpr (wp_request.mpr (fun e' he' => ?_)))
      simp only [answer]
      rcases putPart_cases { s.after upload.partSize with presigned := k } k
        (s.rest.take upload.partSize) e' with ⟨etag, h⟩ | ⟨hn, h | ⟨x, h⟩⟩
      · have hsent : Sent upload.partSize k s { s.after upload.partSize with
            presigned := k
            uploaded := (s.after upload.partSize).uploaded ++
              [(k, s.rest.take upload.partSize)] } := ⟨rfl, rfl, rfl, rfl, rfl⟩
        rw [h]
        change machine.wp admits _ (uploadParts objectPath upload (k + 1) _ _) _
        exact Machine.wp_mono (ih (k + 1) _ _ hsent.rest)
          (fun r s' hr => PartsEnd.cons hp hne hsent hr)
      · rw [h]
        exact .halted ((halts_fault he' hn _).from rfl rfl)
      · rw [h]
        exact .halted ((halts_fault he' hn _).from rfl rfl)

def Accepts (p : Nat) (stream : BlobBytes) : Prop :=
  1 ≤ stream.length ∧ stream.length ≤ (MAX_MULTIPART_PARTS - 1) * p

theorem wp_uploadS3MultipartReaderInner (hp : 0 < upload.partSize)
    (ha : ∀ e, admits e → e.Succeeds) :
    machine.wp admits (fun r s' =>
      (Accepts upload.partSize s.rest ∧ r = .ok () ∧
        Completes upload.partSize s s' (some (UInt64.ofNat s.rest.length))) ∨
      (¬ Accepts upload.partSize s.rest ∧ ∃ x, r = .error x))
      (uploadS3MultipartReaderInner objectPath upload) s := by
  refine Machine.wp_bind.mpr (Machine.wp_mono (wp_uploadParts hp 1 0 []) ?_)
  intro r s' hr
  cases hr with
  | uploaded parts hle ht hparts hok =>
    subst hok
    rw [onOk_ok, List.nil_append]
    have hparts0 : parts = [] ↔ s.rest = [] := by
      have := congrArg List.length hparts
      simp only [List.length_map, List.length_range'] at this
      rw [← List.length_eq_zero_iff, this, List.length_eq_zero_iff, pieces_eq_nil_iff hp]
    dsimp only
    split
    · rename_i hnil
      refine Or.inr ⟨fun h => ?_, _, rfl⟩
      have := h.1
      simp [hparts0.mp hnil] at this
    · rename_i hne
      refine (wp_request (c := .completeClientUpload objectPath upload.uploadId parts _)).mpr
        (fun e he => ?_)
      simp only [answer, Session.answering, (ha e he).1, Bool.false_eq_true, if_false]
      refine Or.inl ⟨⟨List.length_pos_iff.mpr (mt hparts0.mpr hne), ?_⟩, rfl, ht.rest, ht.uploaded,
        ⟨parts, hparts, ?_⟩, ht.faulty⟩
      · exact (length_pieces_le_iff hp).mp (by omega)
      · rw [ht.completed, UInt64.zero_add]
  | tooMany x hlt herr hc haborted =>
    subst herr
    refine Or.inr ⟨fun h => ?_, x, rfl⟩
    have hle := (length_pieces_le_iff hp).mpr h.2
    have hmax : 0 < MAX_MULTIPART_PARTS := by decide
    omega
  | halted hh => exact (hh.false ha).elim

end DepotClient

structure PutsTogether (p : Nat) (stream : BlobBytes) (s : Session) : Prop where
  numbers : s.uploaded.map Prod.fst = List.range' 1 ((stream.length + p - 1) / p)
  contents : (s.uploaded.map Prod.snd).flatten = stream
  completed : ∃ parts contentLength, s.completed = [(parts, contentLength)] ∧
    parts.map CompletedMultipartUploadPart.partNumber = s.uploaded.map (fun part => (part.1 : Int))

theorem numberedFrom_fst (k : Nat) (parts : List BlobBytes) :
    (numberedFrom k parts).map Prod.fst = List.range' k parts.length := by
  induction parts generalizing k with
  | nil => rfl
  | cons part rest ih => rw [numberedFrom, List.map_cons, ih, List.length_cons, List.range'_succ]

theorem numberedFrom_snd (k : Nat) (parts : List BlobBytes) :
    (numberedFrom k parts).map Prod.snd = parts := by
  induction parts generalizing k with
  | nil => rfl
  | cons part rest ih => rw [numberedFrom, List.map_cons, ih]

theorem Completes.putsTogether {p : Nat} (hp : 0 < p) {stream : BlobBytes} {s' : Session}
    {contentLength : Option UInt64} (h : Completes p { rest := stream } s' contentLength) :
    PutsTogether p stream s' := by
  have hu : s'.uploaded = numberedFrom 1 (pieces p stream) := h.uploaded
  obtain ⟨parts, hparts, hc⟩ := h.completed
  refine ⟨?_, ?_, parts, contentLength, hc, ?_⟩
  · rw [hu, numberedFrom_fst, length_pieces hp]
  · rw [hu, numberedFrom_snd, flatten_pieces hp]
  · rw [hparts, ← numberedFrom_fst, hu, List.map_map]
    rfl

structure AcceptSame (p : Nat) (stream : BlobBytes) (server : Session × Except Error UInt64)
    (client : Session × Except Error Unit) : Prop where
  same : client.2 = .ok () ↔ ∃ total, server.2 = .ok total
  accepted : (∃ total, server.2 = .ok total) ↔
    1 ≤ stream.length ∧ stream.length ≤ MAX_MULTIPART_PARTS * p
  server : ∀ total, server.2 = .ok total →
    PutsTogether p stream server.1 ∧ total = UInt64.ofNat stream.length
  client : client.2 = .ok () → PutsTogether p stream client.1 ∧
    ∃ parts, client.1.completed = [(parts, some (UInt64.ofNat stream.length))]

section

variable (stream : BlobBytes) {es : Nat → Env}

theorem server_run (storage : S3Storage) (key : Text)
    (hp : MIN_MULTIPART_PART_SIZE ≤ storage.partSize)
    (hs : ∀ n, (es n).Succeeds) :
    (Uploadable storage.partSize stream ∧
      Completes storage.partSize { rest := stream }
        (machine.exec (storage.putStreamMultipart key) es { rest := stream }).1 none ∧
      (machine.exec (storage.putStreamMultipart key) es { rest := stream }).2 =
        .ok (UInt64.ofNat stream.length)) ∨
    (¬ Uploadable storage.partSize stream ∧
      ∃ x, (machine.exec (storage.putStreamMultipart key) es { rest := stream }).2 = .error x) := by
  rcases S3Storage.exec_putStreamMultipart storage key es { rest := stream } with
    ⟨-, uploadId, -, hexec⟩ | ⟨hn, -⟩
  swap
  · exact absurd (hs 0) hn
  rw [hexec]
  have hwp : machine.wp Env.Succeeds _
      (storage.uploadOrAbort key uploadId storage.partSize) { rest := stream } :=
    S3Storage.wp_uploadOrAbort storage key uploadId hp
  rcases Machine.exec_of_wp hwp (fun n => hs (n + 1)) with ⟨hu, hc, -, hok⟩ |
    ⟨hx, -, -, hn | ⟨e, he, hn⟩⟩
  · exact Or.inl ⟨hu, hc, hok⟩
  · exact Or.inr ⟨hn, hx⟩
  · exact absurd he hn

theorem accepts_iff_putStream (id : Project.StorageId) (bucket key : Text)
    (hs : ∀ n, (es n).Succeeds) :
    (⟨id, .s3⟩ : DepotStorage).accepts stream = true ↔ ∃ total, (machine.exec
      (S3Storage.putStreamMultipart ⟨bucket, DEFAULT_MULTIPART_PART_SIZE⟩ key) es
        { rest := stream }).2 = .ok total := by
  have haccepts : (⟨id, .s3⟩ : DepotStorage).accepts stream = true ↔
      Uploadable DEFAULT_MULTIPART_PART_SIZE stream := by
    simp only [DepotStorage.accepts, Uploadable, Bool.and_eq_true, decide_eq_true_eq, Nat.mul_comm]
    exact Iff.rfl
  have hmin : MIN_MULTIPART_PART_SIZE ≤ DEFAULT_MULTIPART_PART_SIZE := by decide
  rw [haccepts]
  rcases server_run stream ⟨bucket, DEFAULT_MULTIPART_PART_SIZE⟩ key hmin hs
    with ⟨hu, -, hok⟩ | ⟨hu, x, hx⟩
  · exact iff_of_true hu ⟨_, hok⟩
  · rw [hx]
    exact iff_of_false hu (by simp)

theorem client_run (objectPath : Text) (upload : S3MultipartUpload) (hp : 0 < upload.partSize)
    (hs : ∀ n, (es n).Succeeds) :
    (DepotClient.Accepts upload.partSize stream ∧
      (machine.exec (DepotClient.uploadS3MultipartReaderInner objectPath upload) es
        { rest := stream }).2 = .ok () ∧
      Completes upload.partSize { rest := stream }
        (machine.exec (DepotClient.uploadS3MultipartReaderInner objectPath upload) es
          { rest := stream }).1 (some (UInt64.ofNat stream.length))) ∨
    (¬ DepotClient.Accepts upload.partSize stream ∧
      ∃ x, (machine.exec (DepotClient.uploadS3MultipartReaderInner objectPath upload) es
        { rest := stream }).2 = .error x) := by
  have hwp : machine.wp Env.Succeeds _
      (DepotClient.uploadS3MultipartReaderInner objectPath upload) { rest := stream } :=
    DepotClient.wp_uploadS3MultipartReaderInner hp (fun _ h => h)
  exact Machine.exec_of_wp hwp hs

theorem uploaders_accept_same_iff (bucket key objectPath uploadId : Text) {p : Nat}
    (hp : MIN_MULTIPART_PART_SIZE ≤ p) (stream : BlobBytes) {es es' : Nat → Env}
    (hs : ∀ n, (es n).Succeeds) (hs' : ∀ n, (es' n).Succeeds) :
    AcceptSame p stream
      (machine.exec (S3Storage.putStreamMultipart ⟨bucket, p⟩ key) es { rest := stream })
      (machine.exec (DepotClient.uploadS3MultipartReaderInner objectPath ⟨uploadId, p⟩) es'
        { rest := stream }) ↔
    ¬ ((MAX_MULTIPART_PARTS - 1) * p < stream.length ∧
      stream.length ≤ MAX_MULTIPART_PARTS * p) := by
  have hpos : 0 < p := lt_of_lt_of_le (by decide) hp
  have hmax : (MAX_MULTIPART_PARTS - 1) * p ≤ MAX_MULTIPART_PARTS * p :=
    Nat.mul_le_mul_right p (Nat.sub_le _ _)
  have hserver := server_run stream ⟨bucket, p⟩ key hp hs
  have hclient := client_run stream objectPath ⟨uploadId, p⟩ hpos hs'
  generalize machine.exec (S3Storage.putStreamMultipart ⟨bucket, p⟩ key) es { rest := stream } =
    server at hserver
  generalize machine.exec (DepotClient.uploadS3MultipartReaderInner objectPath ⟨uploadId, p⟩) es'
    { rest := stream } = client at hclient
  rcases hserver with ⟨hu, hsc, hsok⟩ | ⟨hu, x, hsx⟩
  · rcases hclient with ⟨hc, hcok, hcc⟩ | ⟨hc, y, hcx⟩
    · refine iff_of_true ⟨?_, ?_, fun total h => ?_, fun _ => ?_⟩ (fun hw => ?_)
      · exact iff_of_true hcok ⟨_, hsok⟩
      · exact iff_of_true ⟨_, hsok⟩ hu
      · exact ⟨hsc.putsTogether hpos, Except.ok.inj (h.symm.trans hsok)⟩
      · obtain ⟨parts, -, hparts⟩ := hcc.completed
        exact ⟨hcc.putsTogether hpos, parts, hparts⟩
      · exact absurd hc.2 (Nat.not_le.mpr hw.1)
    · refine iff_of_false (fun h => ?_) (fun h => h ⟨?_, hu.2⟩)
      · rw [h.same.mpr ⟨_, hsok⟩] at hcx
        cases hcx
      · exact Nat.lt_of_not_le (fun hle => hc ⟨hu.1, hle⟩)
  · rcases hclient with ⟨hc, hcok, hcc⟩ | ⟨hc, y, hcx⟩
    · exact absurd ⟨hc.1, hc.2.trans hmax⟩ hu
    · refine iff_of_true ⟨?_, ?_, fun total h => ?_, fun h => ?_⟩ (fun hw => ?_)
      · rw [hcx, hsx]
        exact iff_of_false (by simp) (by simp)
      · rw [hsx]
        exact iff_of_false (by simp) hu
      · rw [hsx] at h
        cases h
      · rw [hcx] at h
        cases h
      · exact hu ⟨Nat.lt_of_le_of_lt (Nat.zero_le _) hw.1, hw.2⟩

end

section Examples

def readily (_ : Nat) : Env := { fails := false, pace := 9, header := some [], url := [] }

theorem short_stream_accept_same :
    AcceptSame MIN_MULTIPART_PART_SIZE [1, 2, 3]
      (machine.exec (S3Storage.putStreamMultipart ⟨"depot".toList, MIN_MULTIPART_PART_SIZE⟩ [])
        readily { rest := [1, 2, 3] })
      (machine.exec (DepotClient.uploadS3MultipartReaderInner [] ⟨[], MIN_MULTIPART_PART_SIZE⟩)
        readily { rest := [1, 2, 3] }) :=
  (uploaders_accept_same_iff "depot".toList [] [] [] le_rfl [1, 2, 3] (fun _ => ⟨rfl, rfl⟩)
    (fun _ => ⟨rfl, rfl⟩)).mpr (fun h => absurd h.1 (by decide))

def fullStream : BlobBytes := List.replicate (MAX_MULTIPART_PARTS * MIN_MULTIPART_PART_SIZE) 0

theorem fullStream_refused :
    (∃ total, (machine.exec (S3Storage.putStreamMultipart
      ⟨"depot".toList, MIN_MULTIPART_PART_SIZE⟩ []) readily { rest := fullStream }).2 =
        .ok total) ∧
    ∃ x, (machine.exec (DepotClient.uploadS3MultipartReaderInner []
      ⟨[], MIN_MULTIPART_PART_SIZE⟩) readily { rest := fullStream }).2 = .error x := by
  have hlen : fullStream.length = MAX_MULTIPART_PARTS * MIN_MULTIPART_PART_SIZE :=
    List.length_replicate
  constructor
  · have hs : ∀ n, (readily n).Succeeds := fun _ => ⟨rfl, rfl⟩
    rcases server_run fullStream ⟨"depot".toList, MIN_MULTIPART_PART_SIZE⟩ [] le_rfl hs
      with ⟨-, -, hok⟩ | ⟨hn, -⟩
    · exact ⟨_, hok⟩
    · exact absurd ⟨by rw [hlen]; decide, hlen.le⟩ hn
  · have hs : ∀ n, (readily n).Succeeds := fun _ => ⟨rfl, rfl⟩
    rcases client_run fullStream [] ⟨[], MIN_MULTIPART_PART_SIZE⟩ (by decide) hs with ⟨hc, -⟩ |
      ⟨-, hx⟩
    · have := hc.2
      rw [hlen] at this
      exact absurd this (by decide)
    · exact hx

end Examples

end Multipart
