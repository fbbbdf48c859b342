import ProjectCache.Lib.Pieces
import ProjectCache.Store.Multipart

namespace Multipart

open Textual Store Programs Pieces

variable {admits : Env → Prop} {s : Session} {A B : Type}

theorem wp_request {c : Call} {wrap : Error → Error}
    {post : Except Error c.Reply → Session → Prop} :
    machine.wp admits post (request c wrap) s ↔
      ∀ e, admits e → post ((answer c e s).2.mapError wrap) (answer c e s).1 := Machine.wp_call

structure Halts (admits : Env → Prop) (s : Session) (r : Except Error A) (s' : Session) : Prop where
  error : ∃ x, r = .error x
  cause : ∃ e, admits e ∧ ¬ e.Succeeds
  faulty : s'.faulty = true
  completed : s'.completed = s.completed
  aborted : s'.aborted = s.aborted

theorem Halts.false (h : ∀ e, admits e → e.Succeeds) {r : Except Error A} {s' : Session}
    (hh : Halts admits s r s') : False := by
  obtain ⟨e, he, hn⟩ := hh.cause
  exact hn (h e he)

def Session.after (s : Session) (count : Nat) : Session := { s with rest := s.rest.drop count }

theorem take_append_take_drop {k m : Nat} (xs : List A) (h : k ≤ m) :
    xs.take k ++ (xs.drop k).take (m - (xs.take k).length) = xs.take m := by
  rcases Nat.le_total k xs.length with hk | hk
  · rw [List.length_take_of_le hk, ← List.take_add, Nat.add_sub_cancel' h]
  · rw [List.drop_eq_nil_of_le hk, List.take_of_length_le hk, List.take_nil, List.append_nil,
      List.take_of_length_le (hk.trans h)]

theorem drop_drop_take {k m : Nat} (xs : List A) (h : k ≤ m) :
    (xs.drop k).drop (m - (xs.take k).length) = xs.drop m := by
  rcases Nat.le_total k xs.length with hk | hk
  · rw [List.length_take_of_le hk, List.drop_drop, Nat.add_sub_cancel' h]
  · rw [List.drop_eq_nil_of_le hk, List.drop_nil, List.drop_eq_nil_of_le (hk.trans h)]

theorem wp_fillBuffer {wrap : Error → Error} {p : Nat} (buffer : BlobBytes) :
    machine.wp admits (fun r s' =>
      (r = .ok (buffer ++ s.rest.take (p - buffer.length)) ∧ s' = s.after (p - buffer.length)) ∨
        Halts admits s r s') (fillBuffer wrap p buffer) s := by
  induction h : p - buffer.length using Nat.strong_induction_on generalizing buffer s with
  | _ n ih =>
    subst h
    rw [fillBuffer]
    split
    swap
    · rename_i hge
      have hz : p - buffer.length = 0 := by omega
      exact Or.inl ⟨by simp [hz], by simp [hz, Session.after]⟩
    rename_i hlt
    refine Machine.wp_bind.mpr (wp_request.mpr (fun e he => ?_))
    cases hf : e.fails with
    | true =>
      simp only [answer, hf, if_true, Session.answering]
      exact Or.inr ⟨⟨_, rfl⟩, ⟨e, he, fun h => by simp [Env.Succeeds, hf] at h⟩, rfl, rfl, rfl⟩
    | false =>
      simp only [answer, hf, Bool.false_eq_true, if_false, Session.answering]
      generalize hk : min (min (p - buffer.length) CHUNK_SIZE) (e.pace + 1) = k
      have hle : k ≤ p - buffer.length := by omega
      have hpos : 0 < k := by
        have : 0 < CHUNK_SIZE := by decide
        omega
      change machine.wp admits _ (if _h : 0 < (s.rest.take k).length then _ else _) (s.after k)
      split
      · rename_i hb
        have hlt' : p - (buffer ++ s.rest.take k).length < p - buffer.length := by
          rw [List.length_append]
          omega
        refine Machine.wp_mono (ih _ hlt' (s := s.after k) (buffer ++ s.rest.take k) rfl) ?_
        rintro r s' (⟨rfl, rfl⟩ | hh)
        · refine Or.inl ⟨?_, ?_⟩
          · rw [List.append_assoc, List.length_append, ← Nat.sub_sub]
            exact congrArg (fun bytes => Except.ok (buffer ++ bytes)) (take_append_take_drop _ hle)
          · rw [List.length_append, ← Nat.sub_sub, Session.after, Session.after, Session.after]
            simp only [drop_drop_take _ hle]
        · exact Or.inr ⟨hh.error, hh.cause, hh.faulty, hh.completed, hh.aborted⟩
      · rename_i hb
        have hrest : s.rest = [] := by
          rw [List.length_take] at hb
          exact List.length_eq_zero_iff.mp (by omega)
        exact Or.inl ⟨by simp [hrest], by simp [hrest, Session.after]⟩

theorem wp_readPart {wrap : Error → Error} {p : Nat} (hp : 0 < p) :
    machine.wp admits (fun r s' =>
      (r = .ok (if s.rest = [] then none else some (s.rest.take p)) ∧ s' = s.after p) ∨
        Halts admits s r s') (readPart wrap p) s := by
  refine Machine.wp_bind.mpr (Machine.wp_mono (wp_fillBuffer []) ?_)
  rintro r s' (⟨rfl, rfl⟩ | hh)
  · have htake : s.rest.take p = [] ↔ s.rest = [] := by
      rw [List.take_eq_nil_iff, or_iff_right hp.ne']
    rw [onOk_ok, List.nil_append, List.length_nil, Nat.sub_zero]
    by_cases hr : s.rest = []
    · rw [if_pos (htake.mpr hr), if_pos hr]
      exact Or.inl ⟨rfl, rfl⟩
    · rw [if_neg (mt htake.mp hr), if_neg hr]
      exact Or.inl ⟨rfl, rfl⟩
  · obtain ⟨x, rfl⟩ := hh.error
    exact Or.inr ⟨⟨x, rfl⟩, hh.cause, hh.faulty, hh.completed, hh.aborted⟩

def numberedFrom : Nat → List BlobBytes → List (Nat × BlobBytes)
  | _, [] => []
  | k, part :: rest => (k, part) :: numberedFrom (k + 1) rest

structure Taken (p k : Nat) (s s' : Session) : Prop where
  rest : s'.rest = []
  uploaded : s'.uploaded = s.uploaded ++ numberedFrom k (pieces p s.rest)
  completed : s'.completed = s.completed
  aborted : s'.aborted = s.aborted
  faulty : s'.faulty = s.faulty

structure Sent (p k : Nat) (s s' : Session) : Prop where
  rest : s'.rest = s.rest.drop p
  uploaded : s'.uploaded = s.uploaded ++ [(k, s.rest.take p)]
  completed : s'.completed = s.completed
  aborted : s'.aborted = s.aborted
  faulty : s'.faulty = s.faulty

theorem Sent.taken {p k : Nat} {s s₁ s' : Session} (hp : 0 < p) (hr : s.rest ≠ [])
    (hs : Sent p k s s₁) (ht : Taken p (k + 1) s₁ s') : Taken p k s s' where
  rest := ht.rest
  uploaded := by
    rw [ht.uploaded, hs.uploaded, hs.rest, pieces_of_pos hp hr, numberedFrom, List.append_assoc]
    rfl
  completed := ht.completed.trans hs.completed
  aborted := ht.aborted.trans hs.aborted
  faulty := ht.faulty.trans hs.faulty

theorem Halts.from {A : Type} {s s₁ s' : Session} {r : Except Error A}
    (hh : Halts admits s₁ r s') (hc : s₁.completed = s.completed) (ha : s₁.aborted = s.aborted) :
    Halts admits s r s' where
  error := hh.error
  cause := hh.cause
  faulty := hh.faulty
  completed := hh.completed.trans hc
  aborted := hh.aborted.trans ha

abbrev PartsResult := Except Error (UInt64 × List CompletedMultipartUploadPart)

inductive PartsEnd (admits : Env → Prop) (limit p k : Nat) (total : UInt64)
    (done : List CompletedMultipartUploadPart) (s : Session) (r : PartsResult) (s' : Session) :
    Prop where
  | uploaded (parts : List CompletedMultipartUploadPart) : k + (pieces p s.rest).length ≤ limit →
      Taken p k s s' → parts.map CompletedMultipartUploadPart.partNumber =
        (List.range' k (pieces p s.rest).length).map Int.ofNat →
      r = .ok (total + UInt64.ofNat s.rest.length, done ++ parts) →
      PartsEnd admits limit p k total done s r s'
  | tooMany (x : Error) : limit < k + (pieces p s.rest).length → r = .error x →
      s'.completed = s.completed → s'.aborted = s.aborted →
      PartsEnd admits limit p k total done s r s'
  | halted : Halts admits s r s' → PartsEnd admits limit p k total done s r s'

section

variable {limit p k : Nat} {total : UInt64} {done : List CompletedMultipartUploadPart}
  {s₁ s' : Session} {r : PartsResult}

theorem PartsEnd.nil (hr : s.rest = []) (hk : k ≤ limit) :
    PartsEnd admits limit p k total done s (.ok (total, done)) (s.after p) := by
  refine .uploaded [] ?_ ⟨?_, ?_, rfl, rfl, rfl⟩ ?_ ?_
  · simpa [hr] using hk
  · simp [Session.after, hr]
  · simp [Session.after, hr, numberedFrom]
  · simp [hr]
  · simp [hr]

theorem PartsEnd.cons (hp : 0 < p) (hr : s.rest ≠ []) (hs : Sent p k s s₁) {etag : Text}
    (h : PartsEnd admits limit p (k + 1) (total + UInt64.ofNat (s.rest.take p).length)
      (done ++ [⟨k, etag⟩]) s₁ r s') : PartsEnd admits limit p k total done s r s' := by
  have hlen : k + (pieces p s.rest).length = k + 1 + (pieces p s₁.rest).length := by
    rw [hs.rest, pieces_of_pos hp hr, List.length_cons]
    omega
  have hbytes : UInt64.ofNat (s.rest.take p).length + UInt64.ofNat s₁.rest.length =
      UInt64.ofNat s.rest.length := by
    rw [← UInt64.ofNat_add, hs.rest, ← List.length_append, List.take_append_drop]
  cases h with
  | uploaded parts hle ht hparts hok =>
    refine .uploaded (⟨k, etag⟩ :: parts) (hlen ▸ hle) (hs.taken hp hr ht) ?_ ?_
    · rw [List.map_cons, hparts, pieces_of_pos hp hr, List.length_cons, List.range'_succ, hs.rest]
      rfl
    · rw [hok, UInt64.add_assoc, hbytes, List.append_assoc]
      rfl
  | tooMany x hlt herr hc ha =>
    exact .tooMany x (hlen ▸ hlt) herr (hc.trans hs.completed) (ha.trans hs.aborted)
  | halted hh => exact .halted (hh.from hs.completed hs.aborted)

end

theorem putPart_cases (s : Session) (k : Nat) (body : BlobBytes) (e : Env) :
    (∃ etag, s.putPart k body e =
      ({ s with uploaded := s.uploaded ++ [(k, body)] }, .ok (some etag))) ∨
    (¬ e.Succeeds ∧ (s.putPart k body e = (s.fault, .ok none) ∨
      ∃ x, s.putPart k body e = (s.fault, .error x))) := by
  unfold Session.putPart
  cases hf : e.fails with
  | true =>
    refine Or.inr ⟨fun h => by simp [Env.Succeeds, hf] at h, Or.inr ⟨.request [], ?_⟩⟩
    simp [Session.answering, hf]
  | false =>
    cases hh : e.header with
    | none =>
      refine Or.inr ⟨fun h => by simp [Env.Succeeds, hh] at h, Or.inl ?_⟩
      simp [Session.answering, hf]
    | some etag =>
      refine Or.inl ⟨etag, ?_⟩
      simp [Session.answering, hf]

theorem halts_fault {A : Type} {e : Env} (he : admits e) (hn : ¬ e.Succeeds) (x : Error) :
    Halts admits s (.error x : Except Error A) s.fault :=
  ⟨⟨x, rfl⟩, ⟨e, he, hn⟩, rfl, rfl, rfl⟩

theorem validPartNumber_iff {k : Nat} (hk : 1 ≤ k) :
    validPartNumber k = true ↔ k < MAX_MULTIPART_PARTS + 1 := by
  simp only [validPartNumber, Bool.and_eq_true, decide_eq_true_eq]
  omega

structure Completes (p : Nat) (s s' : Session) (contentLength : Option UInt64) : Prop where
  rest : s'.rest = []
  uploaded : s'.uploaded = s.uploaded ++ numberedFrom 1 (pieces p s.rest)
  completed : ∃ parts : List CompletedMultipartUploadPart,
    parts.map CompletedMultipartUploadPart.partNumber =
      (List.range' 1 (pieces p s.rest).length).map Int.ofNat ∧
        s'.completed = s.completed ++ [(parts, contentLength)]
  faulty : s'.faulty = s.faulty

def Uploadable (p : Nat) (stream : BlobBytes) : Prop :=
  1 ≤ stream.length ∧ stream.length ≤ MAX_MULTIPART_PARTS * p

structure Fails (s : Session) (r : Except Error A) (s' : Session) : Prop where
  error : ∃ x, r = .error x
  completed : s'.completed = s.completed

namespace S3Storage

variable {storage : S3Storage} {key uploadId : Text} {p : Nat}

theorem wp_uploadParts (hp : 0 < p) {k : Nat} (hk : 1 ≤ k) (hle : k ≤ MAX_MULTIPART_PARTS + 1)
    (total : UInt64) (done : List CompletedMultipartUploadPart) :
    machine.wp admits (PartsEnd admits (MAX_MULTIPART_PARTS + 1) p k total done s)
      (storage.uploadParts key uploadId p k total done) s := by
  obtain ⟨rest, hrest⟩ : ∃ rest, s.rest = rest := ⟨_, rfl⟩
  induction rest using pieces_induction hp generalizing s k total done with
  | nil =>
    rw [uploadParts]
    refine Machine.wp_bind.mpr (Machine.wp_mono (wp_readPart hp) ?_)
    rintro r s' (⟨rfl, rfl⟩ | hh)
    · rw [if_pos hrest]
      exact .nil hrest hle
    · obtain ⟨x, rfl⟩ := hh.error
      exact .halted ⟨⟨x, rfl⟩, hh.cause, hh.faulty, hh.completed, hh.aborted⟩
  | step rest hne ih =>
    subst hrest
    rw [uploadParts]
    refine Machine.wp_bind.mpr (Machine.wp_mono (wp_readPart hp) ?_)
    rintro r s' (⟨rfl, rfl⟩ | hh)
    swap
    · obtain ⟨x, rfl⟩ := hh.error
      exact .halted ⟨⟨x, rfl⟩, hh.cause, hh.faulty, hh.completed, hh.aborted⟩
    rw [if_neg hne, onOk_ok]
    dsimp only
    split
    · refine Machine.wp_bind.mpr (wp_request.mpr (fun e he => ?_))
      simp only [answer]
      rcases putPart_cases (s.after p) k (s.rest.take p) e with ⟨etag, h⟩ | ⟨hn, h | ⟨x, h⟩⟩
      · have hsent : Sent p k s { s.after p with uploaded :=
            (s.after p).uploaded ++ [(k, s.rest.take p)] } := ⟨rfl, rfl, rfl, rfl, rfl⟩
        rw [h]
        exact Machine.wp_mono (ih (Nat.le_succ_of_le hk) ((validPartNumber_iff hk).mp ‹_›) _ _
          hsent.rest) (fun r s' hr => PartsEnd.cons hp hne hsent hr)
      · rw [h]
        exact .halted ((halts_fault he hn _).from rfl rfl)
      · rw [h]
        exact .halted ((halts_fault he hn _).from rfl rfl)
    · rename_i hv
      have hlimit : MAX_MULTIPART_PARTS + 1 < k + (pieces p s.rest).length := by
        rw [pieces_of_pos hp hne, List.length_cons]
        rw [validPartNumber_iff hk] at hv
        omega
      exact .tooMany _ hlimit rfl rfl rfl

theorem wp_completeMultipartUploadForKey {parts : List CompletedMultipartUploadPart}
    {count : Nat} (contentLength : UInt64) (hne : parts ≠ [])
    (hparts : parts.map CompletedMultipartUploadPart.partNumber =
      (List.range' 1 count).map Int.ofNat) (hcount : count ≤ MAX_MULTIPART_PARTS) :
    machine.wp admits (fun r s' =>
      s' = { s with completed := s.completed ++ [(parts, none)] } ∧
        ((∃ etag, r = .ok (contentLength, etag)) ∨
          (∃ x, r = .error x) ∧ ∃ e, admits e ∧ ¬ e.Succeeds))
      (storage.completeMultipartUploadForKey key uploadId parts contentLength) s := by
  have hvalid : parts.find? (fun part => ¬ validPartNumber part.partNumber) = none := by
    refine List.find?_eq_none.mpr (fun part hm => ?_)
    have hn : part.partNumber ∈ (List.range' 1 count).map Int.ofNat :=
      hparts ▸ List.mem_map_of_mem hm
    obtain ⟨k, hk, he⟩ := List.mem_map.mp hn
    rw [List.mem_range'_1] at hk
    have hv : validPartNumber (k : Int) = true := (validPartNumber_iff hk.1).mpr (by omega)
    rw [← he]
    simpa using hv
  rw [completeMultipartUploadForKey, if_neg hne, hvalid]
  refine Machine.wp_bind.mpr (wp_request.mpr (fun e he => ?_))
  simp only [answer, Session.answering]
  cases hf : e.fails with
  | true => exact ⟨rfl, Or.inr ⟨⟨_, rfl⟩, e, he, fun h => by simp [Env.Succeeds, hf] at h⟩⟩
  | false => exact ⟨rfl, Or.inl ⟨_, rfl⟩⟩

theorem wp_uploadStream (hp : 0 < p) :
    machine.wp admits (fun r s' => s'.aborted = s.aborted ∧
      ((Uploadable p s.rest ∧ Completes p s s' none ∧
        (r = .ok (UInt64.ofNat s.rest.length) ∨
          (∃ x, r = .error x) ∧ ∃ e, admits e ∧ ¬ e.Succeeds)) ∨
      (Fails s r s' ∧ (¬ Uploadable p s.rest ∨ ∃ e, admits e ∧ ¬ e.Succeeds))))
      (storage.uploadStream key uploadId p) s := by
  refine Machine.wp_bind.mpr (Machine.wp_mono (wp_uploadParts hp le_rfl (by omega) 0 []) ?_)
  intro r s' hr
  cases hr with
  | uploaded parts hle ht hparts hok =>
    subst hok
    rw [onOk_ok, List.nil_append]
    have hcount : (pieces p s.rest).length ≤ MAX_MULTIPART_PARTS := by omega
    have hparts0 : parts = [] ↔ s.rest = [] := by
      have := congrArg List.length hparts
      simp only [List.length_map, List.length_range'] at this
      rw [← List.length_eq_zero_iff, this, List.length_eq_zero_iff, pieces_eq_nil_iff hp]
    dsimp only
    split
    · rename_i hnil
      refine ⟨ht.aborted, Or.inr ⟨⟨⟨_, rfl⟩, ht.completed⟩, Or.inl (fun h => ?_)⟩⟩
      have := h.1
      simp [hparts0.mp hnil] at this
    · rename_i hne
      refine Machine.wp_bind.mpr (Machine.wp_mono
        (wp_completeMultipartUploadForKey _ hne hparts hcount) ?_)
      rintro r s'' ⟨rfl, hr⟩
      have hstream : Uploadable p s.rest :=
        ⟨List.length_pos_iff.mpr (mt hparts0.mpr hne), (length_pieces_le_iff hp).mp hcount⟩
      have hdone : Completes p s { s' with completed := s'.completed ++ [(parts, none)] } none :=
        ⟨ht.rest, ht.uploaded, ⟨parts, hparts, by rw [ht.completed]⟩, ht.faulty⟩
      rcases hr with ⟨etag, rfl⟩ | ⟨⟨x, rfl⟩, hx⟩
      · exact ⟨ht.aborted, Or.inl ⟨hstream, hdone, Or.inl (by simp)⟩⟩
      · exact ⟨ht.aborted, Or.inl ⟨hstream, hdone, Or.inr ⟨⟨x, rfl⟩, hx⟩⟩⟩
  | tooMany x hlt herr hc ha =>
    subst herr
    refine ⟨ha, Or.inr ⟨⟨⟨x, rfl⟩, hc⟩, Or.inl (fun h => ?_)⟩⟩
    have := (length_pieces_le_iff hp).mpr h.2
    omega
  | halted hh =>
    obtain ⟨x, rfl⟩ := hh.error
    exact ⟨hh.aborted, Or.inr ⟨⟨⟨x, rfl⟩, hh.completed⟩, Or.inr hh.cause⟩⟩

def uploadOrAbort (storage : S3Storage) (key uploadId : Text) (p : Nat) : Action UInt64 :=
  if p < MIN_MULTIPART_PART_SIZE then
    fail (.message "multipart part size must be at least 5 MiB".toList)
  else
    (storage.uploadStream key uploadId p).attempt.bind (fun result =>
      match result with
      | .ok totalContentLength => .done (.ok totalContentLength)
      | .error error =>
        (storage.abortMultipartUploadForKey key uploadId).attempt.bind (fun _ => fail error))

theorem wp_abort (x : Error) :
    machine.wp admits (fun r s' => r = .error x ∧
      s' = { s with aborted := s.aborted ++ [uploadId] })
      ((storage.abortMultipartUploadForKey key uploadId).attempt.bind
        (fun _ => (fail x : Action A))) s := by
  unfold abortMultipartUploadForKey
  refine Machine.wp_bind.mpr (Machine.wp_attempt
    ((wp_request (c := .abortMultipartUpload key uploadId)).mpr (fun e _ => ?_)))
  simp only [answer, Session.answering]
  split <;> exact ⟨rfl, rfl⟩

theorem wp_uploadOrAbort (storage : S3Storage) (key uploadId : Text)
    (hp : MIN_MULTIPART_PART_SIZE ≤ p) :
    machine.wp admits (fun r s' =>
      (Uploadable p s.rest ∧ Completes p s s' none ∧ s'.aborted = s.aborted ∧
        r = .ok (UInt64.ofNat s.rest.length)) ∨
      ((∃ x, r = .error x) ∧ s'.aborted = s.aborted ++ [uploadId] ∧
        (Uploadable p s.rest ∧ Completes p s s' none ∨ s'.completed = s.completed) ∧
        (¬ Uploadable p s.rest ∨ ∃ e, admits e ∧ ¬ e.Succeeds)))
      (storage.uploadOrAbort key uploadId p) s := by
  have hpos : 0 < p := lt_of_lt_of_le (by decide) hp
  rw [uploadOrAbort, if_neg (Nat.not_lt.mpr hp)]
  refine Machine.wp_bind.mpr (Machine.wp_attempt (Machine.wp_mono (wp_uploadStream hpos) ?_))
  rintro r s' ⟨ha, ⟨hu, hc, rfl | ⟨⟨x, rfl⟩, hx⟩⟩ | ⟨hf, hx⟩⟩
  · exact Or.inl ⟨hu, hc, ha, rfl⟩
  · refine Machine.wp_mono (wp_abort x) ?_
    rintro r s'' ⟨rfl, rfl⟩
    refine Or.inr ⟨⟨x, rfl⟩, by rw [ha], Or.inl ⟨hu, hc.rest, hc.uploaded, hc.completed, hc.faulty⟩,
      Or.inr hx⟩
  · obtain ⟨x, rfl⟩ := hf.error
    refine Machine.wp_mono (wp_abort x) ?_
    rintro r s'' ⟨rfl, rfl⟩
    exact Or.inr ⟨⟨x, rfl⟩, by rw [ha], Or.inr hf.completed, hx⟩

theorem exec_putStreamMultipart (storage : S3Storage) (key : Text) (es : Nat → Env) (s : Session) :
    ((es 0).Succeeds ∧ ∃ uploadId, (es 0).header = some uploadId ∧
      machine.exec (storage.putStreamMultipart key) es s =
        machine.exec (storage.uploadOrAbort key uploadId storage.partSize)
          (fun n => es (n + 1)) s) ∨
    (¬ (es 0).Succeeds ∧
      ∃ x, machine.exec (storage.putStreamMultipart key) es s = (s, .error x)) := by
  have hexec : machine.exec (storage.putStreamMultipart key) es s = machine.exec
      (Prog.bind (Prog.bind (.done ((answer (.createMultipartUpload key) (es 0) s).2.mapError
        (.context ("creating multipart upload for ".toList ++ storage.address key))))
          (fun uploadId => (orFail uploadId
            (.message "S3 create multipart upload response missing upload id".toList)).bind
              (fun uploadId => .done (.ok (uploadId, storage.partSize)))))
        (fun upload => storage.uploadOrAbort key upload.1 upload.2))
      (fun n => es (n + 1)) s := rfl
  rw [hexec]
  simp only [answer, Session.answering]
  cases hf : (es 0).fails with
  | true => exact Or.inr ⟨fun h => by simp [Env.Succeeds, hf] at h, _, rfl⟩
  | false =>
    cases hh : (es 0).header with
    | none => exact Or.inr ⟨fun h => by simp [Env.Succeeds, hh] at h, _, rfl⟩
    | some uploadId => exact Or.inl ⟨⟨hf, by simp [hh]⟩, uploadId, rfl, rfl⟩

end S3Storage

def readTimes (p : Nat) : Nat → Action (List (Option BlobBytes))
  | 0 => return []
  | count + 1 => do
    let part ← readNextPart p
    let later ← readTimes p count
    return part :: later

theorem wp_readTimes {p : Nat} (hp : 0 < p) (ha : ∀ e, admits e → e.Succeeds) (count : Nat) :
    machine.wp admits (fun r _ => r = .ok ((List.range count).map (fun i => (pieces p s.rest)[i]?)))
      (readTimes p count) s := by
  induction count generalizing s with
  | zero => exact rfl
  | succ count ih =>
    refine Machine.wp_bind.mpr (Machine.wp_mono (wp_readPart hp) ?_)
    rintro r s' (⟨rfl, rfl⟩ | hh)
    swap
    · exact (hh.false ha).elim
    refine Machine.wp_bind.mpr (Machine.wp_mono ih ?_)
    rintro r s' rfl
    have hfirst : (pieces p s.rest)[0]? = if s.rest = [] then none else some (s.rest.take p) := by
      by_cases hr : s.rest = []
      · simp [hr]
      · rw [pieces_of_pos hp hr, if_neg hr]
        rfl
    have hrest : ∀ i, (pieces p (s.after p).rest)[i]? = (pieces p s.rest)[i + 1]? := by
      intro i
      by_cases hr : s.rest = []
      · simp [Session.after, hr]
      · rw [pieces_of_pos hp hr]
        rfl
    rw [List.range_succ_eq_map, List.map_cons, List.map_map, hfirst]
    exact congrArg (fun later => Except.ok (_ :: later))
      (List.map_congr_left (fun i _ => hrest i))

theorem parts_of_stream (storage : S3Storage) (key : Text) (stream : BlobBytes) (es : Nat → Env) :
    (∀ p, 0 < p → Splits p stream (pieces p stream) ∧ ((∀ n, (es n).Succeeds) → ∀ count,
      (machine.exec (readTimes p count) es { rest := stream }).2 =
        .ok ((List.range count).map (fun i => (pieces p stream)[i]?)))) ∧
    ((∀ n, (es n).Succeeds) → MIN_MULTIPART_PART_SIZE ≤ storage.partSize → stream ≠ [] →
      stream.length ≤ MAX_MULTIPART_PARTS * storage.partSize →
      (machine.exec (storage.putStreamMultipart key) es { rest := stream }).2 =
          .ok (UInt64.ofNat stream.length) ∧
        Completes storage.partSize { rest := stream }
          (machine.exec (storage.putStreamMultipart key) es { rest := stream }).1 none ∧
        (machine.exec (storage.putStreamMultipart key) es { rest := stream }).1.aborted = []) ∧
    (∀ total, (machine.exec (storage.putStreamMultipart key) es { rest := stream }).2 = .ok total →
      total = UInt64.ofNat stream.length ∧
        Completes storage.partSize { rest := stream }
          (machine.exec (storage.putStreamMultipart key) es { rest := stream }).1 none) ∧
    ((es 0).Succeeds → MIN_MULTIPART_PART_SIZE ≤ storage.partSize →
      ((machine.exec (storage.putStreamMultipart key) es { rest := stream }).1.faulty = true ∨
        stream = [] ∨ MAX_MULTIPART_PARTS * storage.partSize < stream.length) →
      (∃ x, (machine.exec (storage.putStreamMultipart key) es { rest := stream }).2 = .error x) ∧
      (machine.exec (storage.putStreamMultipart key) es { rest := stream }).1.aborted =
        (es 0).header.toList ∧
      (machine.exec (storage.putStreamMultipart key) es { rest := stream }).1.completed = []) ∧
    (¬ (es 0).Succeeds ∨ storage.partSize < MIN_MULTIPART_PART_SIZE → ∃ x,
      machine.exec (storage.putStreamMultipart key) es { rest := stream } =
        ({ rest := stream }, .error x)) := by
  refine ⟨fun p hp => ⟨pieces_splits hp stream, fun hs count => ?_⟩, ?_⟩
  · have hwp : machine.wp Env.Succeeds _ (readTimes p count) { rest := stream } :=
      wp_readTimes hp (fun _ h => h) count
    exact Machine.exec_of_wp hwp hs
  rcases S3Storage.exec_putStreamMultipart storage key es { rest := stream } with
    ⟨hs, uploadId, hh, hexec⟩ | ⟨hn, x, hexec⟩
  swap
  · rw [hexec]
    exact ⟨fun hs => absurd (hs 0) hn, fun total h => (nomatch h), fun hs => absurd hs hn,
      fun _ => ⟨x, rfl⟩⟩
  rw [hexec, hh]
  by_cases hp : storage.partSize < MIN_MULTIPART_PART_SIZE
  · have hsmall : storage.uploadOrAbort key uploadId storage.partSize =
        fail (.message "multipart part size must be at least 5 MiB".toList) := by
      rw [S3Storage.uploadOrAbort, if_pos hp]
    rw [hsmall]
    exact ⟨fun _ h => absurd hp (Nat.not_lt.mpr h), fun total h => (nomatch h),
      fun _ h => absurd hp (Nat.not_lt.mpr h), fun _ => ⟨_, rfl⟩⟩
  have hwp : machine.wp (fun e => ∃ n, e = es (n + 1)) _
      (storage.uploadOrAbort key uploadId storage.partSize) { rest := stream } :=
    S3Storage.wp_uploadOrAbort storage key uploadId (Nat.not_lt.mp hp)
  replace hwp := Machine.exec_of_wp hwp (fun n => ⟨n, rfl⟩)
  generalize machine.exec (storage.uploadOrAbort key uploadId storage.partSize)
    (fun n => es (n + 1)) { rest := stream } = out at hwp
  obtain ⟨s', r⟩ := out
  refine ⟨fun hall _ hne hlong => ?_, fun total hr => ?_, fun _ _ hf => ?_, fun h => ?_⟩
  · rcases hwp with ⟨-, hc, ha, hok⟩ | ⟨-, -, -, hu | ⟨e, ⟨n, rfl⟩, he⟩⟩
    · exact ⟨hok, hc, ha⟩
    · exact absurd ⟨List.length_pos_iff.mpr hne, hlong⟩ hu
    · exact absurd (hall (n + 1)) he
  · rcases hwp with ⟨-, hc, -, hok⟩ | ⟨⟨x, hx⟩, -⟩
    · exact ⟨Except.ok.inj (hr.symm.trans hok), hc⟩
    · cases hr.symm.trans hx
  · have hnot : ¬ (Uploadable storage.partSize stream ∧
        Completes storage.partSize { rest := stream } s' none) := by
      rintro ⟨hu, hc⟩
      rcases hf with hf | rfl | hlong
      · rw [hc.faulty] at hf
        cases hf
      · exact absurd hu.1 (by decide)
      · exact absurd hu.2 (Nat.not_le.mpr hlong)
    rcases hwp with ⟨hu, hc, -⟩ | ⟨hx, ha, hc, -⟩
    · exact absurd ⟨hu, hc⟩ hnot
    · exact ⟨hx, ha, hc.resolve_left hnot⟩
  · exact absurd (h.resolve_left (not_not.mpr hs)) hp

section Examples

def slowly (_ : Nat) : Env := { fails := false, pace := 0, header := some [], url := [] }

theorem slowly_read :
    (machine.exec (readTimes 2 3) slowly { rest := [1, 2, 3] }).2 =
      .ok [some [1, 2], some [3], none] ∧
    (machine.exec (S3Storage.putStreamMultipart ⟨"depot".toList, MIN_MULTIPART_PART_SIZE⟩
      "hello".toList) slowly { rest := [1, 2, 3] }).2 = .ok 3 := by
  obtain ⟨hreads, hstored, -⟩ := parts_of_stream ⟨"depot".toList, MIN_MULTIPART_PART_SIZE⟩
    "hello".toList [1, 2, 3] slowly
  refine ⟨?_, (hstored (fun _ => ⟨rfl, rfl⟩) (le_refl _) (by simp) (by decide)).1⟩
  rw [(hreads 2 (by decide)).2 (fun _ => ⟨rfl, rfl⟩) 3]
  simp [List.range_succ, getElem?_pieces]

end Examples

end Multipart
