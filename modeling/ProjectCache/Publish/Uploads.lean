import ProjectCache.Depot.Permitted
import ProjectCache.Depot.Rules
import ProjectCache.Depot.Sequence
import ProjectCache.Ingest.Rules

namespace Uploads

open Textual Nix Project DepotPath Tables Store Db Programs Depot Ingest SqliteDatabase

inductive Upload where
  | object (body : BlobBytes)
  | multipart (uploadId : Text) (parts : List CompletedMultipartUploadPart) (contentLength : Nat)
  deriving DecidableEq

namespace Upload

def run (service : IngestService) (b : Uuid) (h : StorePathHash) (o : Text) : Upload → Action Unit
  | object body => service.uploadObject b h o body
  | multipart uploadId parts contentLength =>
    service.completeMultipartUpload b h o uploadId parts contentLength

def size : Upload → Nat
  | object body => body.length
  | multipart _ _ contentLength => contentLength

def takenBy (storage : DepotStorage) (e : Env) : Upload → Bool
  | object body => storage.accepts body
  | multipart _ parts _ =>
    decide (storage.kind = .s3) && decide (parts ≠ []) &&
      parts.all (fun part => validPartNumber part.partNumber) && e.assembled.isSome

def store (storage : DepotStorage) (o : Text) : Upload → Action BlobMetadata
  | object body =>
    (perform (.putStream storage o body)).bind (fun written =>
      return ⟨octetStream, some written, none, none⟩)
  | multipart uploadId parts contentLength =>
    (perform (.completeMultipartUpload storage o uploadId parts contentLength)).bind
      (fun completed => return ⟨octetStream, some completed.contentLength, completed.etag, none⟩)

theorem run_eq (service : IngestService) (b : Uuid) (h : StorePathHash) (o : Text) (u : Upload) :
    u.run service b h o = (service.validateUploadTarget b h o).bind (fun target =>
      (u.store target.2 o).bind (IngestService.persistOrDelete target.1 target.2 h o)) := by
  cases u <;> (simp only [store, Prog.bind_assoc]; rfl)

end Upload

structure NarTarget (service : IngestService) (db : Database) (b : Uuid) (h : StorePathHash)
    (o : Text) (project : ProjectSlug) (s : StorageId) (storage : DepotStorage) : Prop where
  nar : ∃ digest compression, parseDepotObjectPath o = some (.nar digest compression)
  registered : ∃ row, db.buildPathInfo b h = some row ∧ row.url = o
  project : (db.projectBySlug project).map ProjectRow.storageId = some s
  storage : service.storageCatalog.storage s = some storage

def Target (service : IngestService) (db : Database) (b : Uuid) (h : StorePathHash) (o : Text)
    (s : StorageId) (storage : DepotStorage) : Prop :=
  ∃ context, db.buildContext b = some context ∧ context.status = .pending ∧
    NarTarget service db b h o context.projectSlug s storage

def Reads (es : Nat → Env) : Prop := ∀ n < 5, (es n).outcome = .answered

def cleanup (size : Nat) (es : Nat → Env) : Option Env :=
  if 2 ^ 63 ≤ size then some (es 0)
  else if (es 0).outcome ≠ .answered then some (es 1)
  else if (es 1).outcome ≠ .answered then some (es 2)
  else none

def TakesEffect (e : Env) : Prop := ∀ message, e.outcome ≠ .refused message

structure Destroys (service : IngestService) (w : World) (es : Nat → Env) (b : Uuid)
    (h : StorePathHash) (o : Text) (u : Upload) (s : StorageId) : Prop where
  reads : Reads es
  target : ∃ storage, Target service w.db b h o s storage ∧ u.takenBy storage (es 5) = true
  stored : (es 5).outcome = .answered
  cleaned : ∃ e ∈ cleanup u.size (fun n => es (n + 6)), TakesEffect e

section

variable {A B : Type} {es : Nat → Env} {w : World} {s : StorageId} {storage : DepotStorage}
  {o : Text}
  {h : StorePathHash} {m : BlobMetadata}

theorem exec_perform (c : Call) (f : c.Reply → Action B) :
    machine.exec ((perform c).bind f) es w =
      machine.exec (Prog.bind (.done (answer c (es 0) w).2) f) (fun n => es (n + 1))
        (answer c (es 0) w).1 := rfl

theorem answer_unanswered {c : Call} {e : Env} (hl : c.local = false) (he : e.outcome ≠ .answered) :
    ∃ x, (answer c e w).2 = .error x := by
  unfold answer
  rw [if_neg (by simp [hl])]
  cases ho : e.outcome with
  | answered => exact absurd ho he
  | refused message => exact ⟨_, rfl⟩
  | lost message => exact ⟨_, rfl⟩

theorem exec_unanswered {c : Call} (f : c.Reply → Action B) (hl : c.local = false)
    (he : (es 0).outcome ≠ .answered) : ∃ x, machine.exec ((perform c).bind f) es w =
      ((answer c (es 0) w).1, .error x) := by
  obtain ⟨x, hx⟩ := answer_unanswered hl he
  refine ⟨x, ?_⟩
  rw [exec_perform, hx]
  rfl

def Leads (p : Action B) (es : Nat → Env) (w : World) (count : Nat) (rest : Action B) : Prop :=
  machine.exec p es w = machine.exec rest (fun n => es (n + count)) w

def Fails (p : Action B) (es : Nat → Env) (w : World) : Prop :=
  ∃ x, machine.exec p es w = (w, .error x)

theorem Leads.trans {p q r : Action B} {m n : Nat} (h : Leads p es w m q)
    (h' : Leads q (fun k => es (k + m)) w n r) : Leads p es w (m + n) r := by
  refine Eq.trans h (Eq.trans h' ?_)
  simp only [Nat.add_assoc, Nat.add_comm n m]

theorem Leads.fails {p q : Action B} {m : Nat} (h : Leads p es w m q)
    (h' : Fails q (fun k => es (k + m)) w) : Fails p es w := by
  obtain ⟨x, hx⟩ := h'
  exact ⟨x, Eq.trans h hx⟩

theorem select_leads (query : Database → A) (f : A → Action B) (he : (es 0).outcome = .answered) :
    Leads ((select query).bind f) es w 1 (f (query w.db)) := by
  rw [Leads, select, exec_perform, answer_of_answered he]
  rfl

theorem select_fails {query : Database → A} (f : A → Action B) (he : (es 0).outcome ≠ .answered) :
    Fails ((select query).bind f) es w := by
  obtain ⟨x, hx⟩ := exec_unanswered (c := .select (fun _ db => query db)) f rfl he
  rw [answer_of_reads rfl] at hx
  exact ⟨x, hx⟩

theorem pendingBuildContext_cases (es : Nat → Env) (w : World) (b : Uuid)
    (f : BuildContextRecord → Action B) :
    (∃ context, w.db.buildContext b = some context ∧ context.status = .pending ∧
      (es 0).outcome = .answered ∧
        Leads ((IngestService.pendingBuildContext b).bind f) es w 1 (f context)) ∨
    Fails ((IngestService.pendingBuildContext b).bind f) es w ∧
      ((es 0).outcome = .answered → ∀ context, w.db.buildContext b = some context →
        context.status ≠ .pending) := by
  simp only [IngestService.pendingBuildContext, Prog.bind_eq, Prog.bind_assoc, getBuildContext]
  by_cases h0 : (es 0).outcome = .answered
  swap
  · exact Or.inr ⟨select_fails _ h0, fun h => absurd h h0⟩
  have hl := select_leads (w := w) (fun db => db.buildContext b) (fun context =>
    (orFail context (.buildNotFound b)).bind (fun context => Prog.bind
      (if context.status ≠ .pending then fail (.buildNotPending b) else return context) f)) h0
  cases hc : w.db.buildContext b with
  | none =>
    rw [hc] at hl
    exact Or.inr ⟨hl.fails ⟨_, rfl⟩, fun _ context h => nomatch h⟩
  | some context =>
    have hrest : Leads _ es w 1 (Prog.bind (if context.status ≠ .pending then
        fail (.buildNotPending b) else return context) f) := hc ▸ hl
    by_cases hp : context.status = .pending
    · rw [if_neg (not_not.mpr hp)] at hrest
      exact Or.inl ⟨context, rfl, hp, h0, hrest⟩
    · rw [if_pos hp] at hrest
      exact Or.inr ⟨hrest.fails ⟨_, rfl⟩, fun _ _ h => Option.some.inj h ▸ hp⟩

theorem getBuildPathNarinfo_cases (es : Nat → Env) (w : World) (b : Uuid) (h : StorePathHash)
    (f : Option Narinfo.NarInfo → Action B) :
    (∃ row narinfo, w.db.buildPathInfo b h = some row ∧ narinfo.url = row.url ∧
      (∀ n < 3, (es n).outcome = .answered) ∧
        Leads ((getBuildPathNarinfo b h).bind f) es w 3 (f (some narinfo))) ∨
    (w.db.buildPathInfo b h = none ∧
      Leads ((getBuildPathNarinfo b h).bind f) es w 1 (f none)) ∨
    Fails ((getBuildPathNarinfo b h).bind f) es w ∧ ¬ ∀ n < 3, (es n).outcome = .answered := by
  have hp : (getBuildPathNarinfo b h).bind f = (select (fun db => db.buildPathInfo b h)).bind
      (fun row => (inflateOptional row).bind f) := Prog.bind_assoc _ _ _
  rw [hp]
  by_cases h0 : (es 0).outcome = .answered
  swap
  · exact Or.inr (Or.inr ⟨select_fails _ h0, fun hr => h0 (hr 0 (by omega))⟩)
  have hl := select_leads (w := w) (fun db => db.buildPathInfo b h)
    (fun row => (inflateOptional row).bind f) h0
  cases hrow : w.db.buildPathInfo b h with
  | none =>
    rw [hrow] at hl
    exact Or.inr (Or.inl ⟨rfl, hl⟩)
  | some row =>
    rw [hrow] at hl
    have hinflate : (inflateOptional (some row)).bind f =
        (select (fun db => db.pathReferences row.storePathHash)).bind (fun references =>
          (select (fun db => db.pathSignatures row.storePathHash)).bind (fun signatures =>
            f (some { storePath := row.storePath, url := row.url, compression := row.compression,
                      narHash := .raw row.narHash, narSize := row.narSize, references,
                      deriver := row.deriver, signatures,
                      ca := row.ca.map Nix.NixContentAddress.raw }))) := by
      simp only [inflateOptional, inflateNarinfo, Prog.bind_eq, Prog.map_eq, Prog.bind_assoc]
      rfl
    rw [hinflate] at hl
    by_cases h1 : (es 1).outcome = .answered
    swap
    · refine Or.inr (Or.inr ⟨hl.fails (select_fails _ h1), fun hr => h1 (hr 1 (by omega))⟩)
    have hl := hl.trans (select_leads _ _ h1)
    by_cases h2 : (es 2).outcome = .answered
    swap
    · exact Or.inr (Or.inr ⟨hl.fails (select_fails _ h2), fun hr => h2 (hr 2 (by omega))⟩)
    refine Or.inl ⟨row, _, rfl, rfl, ?_, hl.trans (select_leads _ _ h2)⟩
    intro n hn
    interval_cases n
    · exact h0
    · exact h1
    · exact h2

theorem storageForProject_cases (es : Nat → Env) (w : World) (service : IngestService)
    (project : ProjectSlug)
    (f : StorageId × DepotStorage → Action B) :
    (∃ s storage, (w.db.projectBySlug project).map ProjectRow.storageId = some s ∧
      service.storageCatalog.storage s = some storage ∧ (es 0).outcome = .answered ∧
        Leads ((service.storageForProject project).bind f) es w 1 (f (s, storage))) ∨
    Fails ((service.storageForProject project).bind f) es w ∧
      ((es 0).outcome = .answered → ∀ s storage,
        (w.db.projectBySlug project).map ProjectRow.storageId = some s →
          service.storageCatalog.storage s ≠ some storage) := by
  simp only [IngestService.storageForProject, getProjectStorageId, Prog.bind_eq, Prog.bind_assoc]
  by_cases h0 : (es 0).outcome = .answered
  swap
  · exact Or.inr ⟨select_fails _ h0, fun h => absurd h h0⟩
  have hl := select_leads (w := w) (fun db => (db.projectBySlug project).map ProjectRow.storageId)
    (fun s => (orFail s (.projectNotFound project)).bind (fun s =>
      (orFail (service.storageCatalog.storage s) (.storageNotConfigured s)).bind (fun storage =>
        f (s, storage)))) h0
  cases hs : (w.db.projectBySlug project).map ProjectRow.storageId with
  | none =>
    rw [hs] at hl
    exact Or.inr ⟨hl.fails ⟨_, rfl⟩, fun _ _ _ h => nomatch h⟩
  | some s =>
    have hrest : Leads _ es w 1 ((orFail (service.storageCatalog.storage s)
      (.storageNotConfigured s)).bind (fun storage => f (s, storage))) := hs ▸ hl
    cases hc : service.storageCatalog.storage s with
    | none =>
      rw [hc] at hrest
      refine Or.inr ⟨hrest.fails ⟨_, rfl⟩, fun _ s' storage h => ?_⟩
      obtain rfl := Option.some.inj h
      simp [hc]
    | some storage =>
      rw [hc] at hrest
      exact Or.inl ⟨s, storage, rfl, hc, h0, hrest⟩

def findTarget (service : IngestService) (b : Uuid) (h : StorePathHash) (o : Text)
    (project : ProjectSlug) : Action (StorageId × DepotStorage) :=
  match parseDepotObjectPath o with
  | some (.nar _ _) =>
    (getBuildPathNarinfo b h).bind (fun narinfo =>
      (orFail narinfo (.buildLacksPath b h)).bind (fun narinfo =>
        if o ≠ narinfo.url then fail (.objectPathMismatch o narinfo.url h)
        else service.storageForProject project))
  | some (.narInfo _) => fail .narinfoUpload
  | _ => fail (.invalidUploadObjectPath o)

theorem validateUploadTarget_eq (service : IngestService) (b : Uuid) (h : StorePathHash)
    (o : Text) : service.validateUploadTarget b h o =
      (IngestService.pendingBuildContext b).bind (fun context =>
        findTarget service b h o context.projectSlug) := rfl

theorem findTarget_cases (es : Nat → Env) (w : World) (service : IngestService) (b : Uuid)
    (h : StorePathHash) (o : Text)
    (project : ProjectSlug) (f : StorageId × DepotStorage → Action B) :
    (∃ s storage, NarTarget service w.db b h o project s storage ∧
      (∀ n < 4, (es n).outcome = .answered) ∧
        Leads ((findTarget service b h o project).bind f) es w 4 (f (s, storage))) ∨
    Fails ((findTarget service b h o project).bind f) es w ∧
      ((∀ n < 4, (es n).outcome = .answered) → ∀ s storage,
        ¬ NarTarget service w.db b h o project s storage) := by
  by_cases hd : ∃ digest compression, parseDepotObjectPath o = some (.nar digest compression)
  swap
  · refine Or.inr ⟨?_, fun _ s storage ht => hd ht.nar⟩
    unfold findTarget
    split
    · rename_i digest compression h
      exact absurd ⟨digest, compression, h⟩ hd
    · exact ⟨_, rfl⟩
    · exact ⟨_, rfl⟩
  have hfind : (findTarget service b h o project).bind f = (getBuildPathNarinfo b h).bind
      (fun narinfo => (orFail narinfo (.buildLacksPath b h)).bind (fun narinfo => Prog.bind
        (if o ≠ narinfo.url then fail (.objectPathMismatch o narinfo.url h)
        else service.storageForProject project) f)) := by
    obtain ⟨digest, compression, hd⟩ := hd
    simp only [findTarget, hd, Prog.bind_assoc]
  rw [hfind]
  rcases getBuildPathNarinfo_cases es w b h (fun narinfo =>
      (orFail narinfo (.buildLacksPath b h)).bind (fun narinfo => Prog.bind
        (if o ≠ narinfo.url then fail (.objectPathMismatch o narinfo.url h)
        else service.storageForProject project) f))
    with ⟨row, narinfo, hrow, hu, h3, hl⟩ | ⟨hrow, hl⟩ | ⟨hf, hn⟩
  · have hrest : Leads _ es w 3 (Prog.bind (if o ≠ narinfo.url then
        fail (.objectPathMismatch o narinfo.url h) else service.storageForProject project) f) := hl
    by_cases ho : o = narinfo.url
    swap
    · rw [if_pos ho] at hrest
      refine Or.inr ⟨hrest.fails ⟨_, rfl⟩, fun _ s storage ht => ?_⟩
      obtain ⟨row', hrow', rfl⟩ := ht.registered
      obtain rfl := Option.some.inj (hrow.symm.trans hrow')
      exact ho hu.symm
    rw [if_neg (not_not.mpr ho)] at hrest
    rcases storageForProject_cases (fun n => es (n + 3)) w service project f
      with ⟨s, storage, hs, hstorage, h0, hlast⟩ | ⟨hf, hn⟩
    · refine Or.inl ⟨s, storage, ⟨hd, ⟨row, hrow, (ho.trans hu).symm⟩, hs, hstorage⟩, ?_,
        hrest.trans hlast⟩
      intro n hn
      rcases Nat.lt_or_eq_of_le (Nat.le_of_lt_succ hn) with hlt | rfl
      · exact h3 n hlt
      · exact h0
    · exact Or.inr ⟨hrest.fails hf, fun hr s storage ht =>
        hn (hr 3 (by omega)) s storage ht.project ht.storage⟩
  · refine Or.inr ⟨hl.fails ⟨_, rfl⟩, fun _ s storage ht => ?_⟩
    obtain ⟨row, hrow', -⟩ := ht.registered
    rw [hrow] at hrow'
    cases hrow'
  · exact Or.inr ⟨hf, fun hr => absurd (fun n hn => hr n (Nat.lt_succ_of_lt hn)) hn⟩

theorem validate_cases (es : Nat → Env) (w : World) (service : IngestService) (b : Uuid)
    (h : StorePathHash) (o : Text)
    (f : StorageId × DepotStorage → Action B) :
    (∃ s storage, Target service w.db b h o s storage ∧ Reads es ∧
      Leads ((service.validateUploadTarget b h o).bind f) es w 5 (f (s, storage))) ∨
    Fails ((service.validateUploadTarget b h o).bind f) es w ∧
      (Reads es → ∀ s storage, ¬ Target service w.db b h o s storage) := by
  rw [validateUploadTarget_eq, Prog.bind_assoc]
  rcases pendingBuildContext_cases es w b (fun context =>
      (findTarget service b h o context.projectSlug).bind f)
    with ⟨context, hc, hp, h0, hl⟩ | ⟨hf, hn⟩
  swap
  · refine Or.inr ⟨hf, fun hr s storage ht => ?_⟩
    obtain ⟨context, hc, hp, -⟩ := ht
    exact hn (hr 0 (by omega)) context hc hp
  rcases findTarget_cases (fun n => es (n + 1)) w service b h o context.projectSlug f
    with ⟨s, storage, ht, h4, hlast⟩ | ⟨hf, hn⟩
  · refine Or.inl ⟨s, storage, ⟨context, hc, hp, ht⟩, ?_, ?_⟩
    · intro n hn
      cases n with
      | zero => exact h0
      | succ n => exact h4 n (by omega)
    · exact hl.trans hlast
  · refine Or.inr ⟨hl.fails hf, fun hr s storage ht => ?_⟩
    obtain ⟨context', hc', -, ht⟩ := ht
    obtain rfl := Option.some.inj (hc.symm.trans hc')
    exact hn (fun n hlt => hr (n + 1) (by omega)) s storage ht

theorem carryOut_delete_blobs (storage : DepotStorage) (o : Text) (e : Env) :
    (carryOut (.deleteObject storage o) e w).1.blobs = (w.putBlob storage.id o none).blobs := rfl

theorem unaffected {e : Env} (h : ¬ TakesEffect e) (c : Call) (hl : c.local = false) :
    (answer c e w).1 = w := by
  unfold TakesEffect at h
  push Not at h
  obtain ⟨message, ho⟩ := h
  unfold answer
  rw [if_neg (by simp [hl]), ho]

theorem takesEffect_state {e : Env} (h : TakesEffect e) (c : Call) :
    (answer c e w).1 = (carryOut c e w).1 := by
  unfold answer
  split
  · rfl
  · cases ho : e.outcome with
    | refused message => exact absurd ho (h message)
    | answered => rfl
    | lost message => rfl

theorem delete_keeps_iff (storage : DepotStorage) {o : Text} {s : StorageId} (e : Env)
    (h : (w.blobs s o).isSome = true) :
    ((answer (.deleteObject storage o) e w).1.blobs s o).isSome = true ↔
      ¬ (s = storage.id ∧ TakesEffect e) := by
  by_cases he : TakesEffect e
  · rw [takesEffect_state he, carryOut_delete_blobs]
    by_cases hs : s = storage.id
    · simp [World.putBlob, hs, he]
    · simpa [World.putBlob, hs] using h
  · rw [unaffected he _ rfl]
    simpa [he] using h

def orDelete (storage : DepotStorage) (o : Text) : Except Error Unit → Action Unit
  | .ok _ => return ()
  | .error error => (perform (.deleteObject storage o)).attempt.bind (fun _ => fail error)

theorem persistOrDelete_eq (s : StorageId) (storage : DepotStorage) (h : StorePathHash) (o : Text)
    (m : BlobMetadata) : IngestService.persistOrDelete s storage h o m =
      (IngestService.recordNarObject s h o m).attempt.bind (orDelete storage o) := by
  unfold IngestService.persistOrDelete
  simp only [Prog.bind_eq]
  congr 1

theorem exec_perform_attempt {c : Call} (k : Except Error c.Reply → Action B) :
    machine.exec ((perform c).attempt.bind k) es w =
      machine.exec (k (answer c (es 0) w).2) (fun n => es (n + 1)) (answer c (es 0) w).1 := rfl

theorem exec_orDelete (storage : DepotStorage) (o : Text) (x : Error) :
    machine.exec (orDelete storage o (.error x)) es w =
      ((answer (.deleteObject storage o) (es 0) w).1, .error x) := rfl

theorem exec_attempt {A : Type} {c : Call} (g : c.Reply → Action A)
    (k : Except Error A → Action B) :
    machine.exec ((Prog.attempt ((perform c).bind g)).bind k) es w =
      machine.exec ((Prog.attempt (Prog.bind (.done (answer c (es 0) w).2) g)).bind k)
        (fun n => es (n + 1)) (answer c (es 0) w).1 := rfl

theorem upsert_blobs (e : Env) : (answer (.upsertStorageObject s o m) e w).1.blobs = w.blobs := by
  rcases answer_state (.upsertStorageObject s o m) e w with hs | hs <;> rw [hs]
  rfl

theorem link_blobs (e : Env) : (answer (.linkPathObject h o .nar) e w).1.blobs = w.blobs := by
  rcases answer_state (.linkPathObject h o .nar) e w with hs | hs <;> rw [hs]
  exact written_blobs _ _ _

theorem persist_cases (es : Nat → Env) (w : World) {size : Nat} (s : StorageId)
    (storage : DepotStorage) (o : Text) (hm : m.contentLength = some size)
    (hp : ∃ pi, w.db.pathInfo h = some pi) :
    (cleanup size es = none ∧ (machine.exec
      (IngestService.persistOrDelete s storage h o m) es w).2 = .ok ()) ∨
    ∃ e x v, cleanup size es = some e ∧ v.blobs = w.blobs ∧ machine.exec
      (IngestService.persistOrDelete s storage h o m) es w =
        ((answer (.deleteObject storage o) e v).1, .error x) := by
  by_cases hsize : 2 ^ 63 ≤ size
  · refine Or.inr ⟨es 0, .sizeOverflow, w, if_pos hsize, rfl, ?_⟩
    have hrecord : IngestService.recordNarObject s h o m = fail .sizeOverflow := by
      rw [IngestService.recordNarObject, upsertStorageObject, hm, if_pos (by simpa using hsize)]
      rfl
    rw [persistOrDelete_eq, hrecord]
    exact exec_orDelete storage o .sizeOverflow
  have hrecord : IngestService.recordNarObject s h o m =
      (perform (.upsertStorageObject s o m)).bind
        (fun _ => perform (.linkPathObject h o .nar)) := by
    rw [IngestService.recordNarObject, upsertStorageObject, hm, if_neg (by simpa using hsize)]
    rfl
  rw [persistOrDelete_eq, hrecord, exec_attempt]
  by_cases h0 : (es 0).outcome = .answered
  swap
  · obtain ⟨x, hx⟩ := answer_unanswered (c := .upsertStorageObject s o m) (w := w) rfl h0
    refine Or.inr ⟨es 1, x, (answer (.upsertStorageObject s o m) (es 0) w).1, ?_,
      upsert_blobs (es 0), ?_⟩
    · rw [cleanup, if_neg hsize, if_pos h0]
    · rw [hx]
      exact exec_orDelete storage o x
  rw [answer_of_answered h0]
  generalize hv : ({ w with db := w.db.upsertStorageObject s o m } : World) = v
  have hlink : machine.exec ((Prog.attempt (Prog.bind
      (.done (carryOut (.upsertStorageObject s o m) (es 0) w).2)
      (fun _ => perform (.linkPathObject h o .nar)))).bind (orDelete storage o))
      (fun n => es (n + 1)) (carryOut (.upsertStorageObject s o m) (es 0) w).1 =
    machine.exec (orDelete storage o (answer (.linkPathObject h o .nar) (es 1) v).2)
      (fun n => es (n + 2)) (answer (.linkPathObject h o .nar) (es 1) v).1 := by
    rw [← hv]
    exact exec_perform_attempt _
  rw [hlink]
  by_cases h1 : (es 1).outcome = .answered
  swap
  · obtain ⟨x, hx⟩ := answer_unanswered (c := .linkPathObject h o .nar) (w := v) rfl h1
    refine Or.inr ⟨es 2, x, (answer (.linkPathObject h o .nar) (es 1) v).1, ?_, ?_, ?_⟩
    · rw [cleanup, if_neg hsize, if_neg (not_not.mpr h0), if_pos h1]
    · rw [link_blobs, ← hv]
    · rw [hx]
      exact exec_orDelete storage o x
  · left
    have hdb : v.db.linkPathObject h o .nar =
        some { v.db with pathObjects := v.db.pathObjects.insertOrIgnore ⟨h, o, .nar⟩ } :=
      linkPathObject_eq_some.mpr ⟨by rw [← hv]; exact hp, rfl⟩
    refine ⟨by rw [cleanup, if_neg hsize, if_neg (not_not.mpr h0), if_neg (not_not.mpr h1)], ?_⟩
    rw [answer_of_answered h1]
    simp only [carryOut, World.written, hdb]
    rfl

theorem putStream_keeps (body : BlobBytes) (e : Env) {s' : StorageId} {o' : Text}
    (h : (w.blobs s' o').isSome = true) :
    ((answer (.putStream storage o body) e w).1.blobs s' o').isSome = true := by
  rcases answer_state (.putStream storage o body) e w with hs | hs
  · rwa [hs]
  · rw [hs]
    simp only [carryOut, World.putStream]
    split
    · exact putBlob_some h
    · exact h

theorem completeMultipart_keeps (uploadId : Text) (parts : List CompletedMultipartUploadPart)
    (contentLength : Nat) (e : Env) {s' : StorageId} {o' : Text}
    (h : (w.blobs s' o').isSome = true) :
    ((answer (.completeMultipartUpload storage o uploadId parts contentLength) e w).1.blobs
      s' o').isSome = true := by
  rcases answer_state (.completeMultipartUpload storage o uploadId parts contentLength) e w
    with hs | hs
  · rwa [hs]
  · rw [hs]
    simp only [carryOut, World.completeMultipartUpload]
    repeat' split
    all_goals first | exact h | exact putBlob_some h

theorem putStream_ok {body : BlobBytes} (e : Env) (h : storage.accepts body = true) :
    carryOut (.putStream storage o body) e w =
      (w.putBlob storage.id o (some (storage.stored body e.etag)), .ok body.length) := if_pos h

theorem putStream_error {body : BlobBytes} (e : Env) (h : ¬ storage.accepts body = true) :
    ∃ x, (carryOut (.putStream storage o body) e w).2 = .error x := by
  simp only [carryOut, World.putStream, if_neg h]
  exact ⟨_, rfl⟩

theorem completeMultipart_ok (uploadId : Text) {parts : List CompletedMultipartUploadPart}
    {contentLength : Nat} {e : Env}
    (h : (Upload.multipart uploadId parts contentLength).takenBy storage e = true) :
    ∃ blob, carryOut (.completeMultipartUpload storage o uploadId parts contentLength) e w =
      (w.putBlob storage.id o (some blob), .ok ⟨contentLength, e.etag⟩) := by
  simp only [Upload.takenBy, Bool.and_eq_true, decide_eq_true_eq] at h
  obtain ⟨⟨⟨hk, hne⟩, hall⟩, ha⟩ := h
  obtain ⟨bytes, hbytes⟩ := Option.isSome_iff_exists.mp ha
  refine ⟨storage.stored bytes e.etag, ?_⟩
  simp only [carryOut, World.completeMultipartUpload, hk, if_neg hne, hall, hbytes]
  rfl

theorem completeMultipart_error (uploadId : Text) {parts : List CompletedMultipartUploadPart}
    {contentLength : Nat} {e : Env}
    (h : ¬ (Upload.multipart uploadId parts contentLength).takenBy storage e = true) :
    ∃ x, (carryOut (.completeMultipartUpload storage o uploadId parts contentLength) e w).2 =
      .error x := by
  simp only [carryOut, World.completeMultipartUpload]
  split
  · exact ⟨_, rfl⟩
  · rename_i hk
    split
    · exact ⟨_, rfl⟩
    · rename_i hne
      split
      · exact ⟨_, rfl⟩
      · rename_i hall
        split
        · exact ⟨_, rfl⟩
        · rename_i bytes ha
          exact absurd (by simp [Upload.takenBy, hk, hne, not_not.mp hall, ha]) h

theorem store_cases (es : Nat → Env) (w : World) (u : Upload) (storage : DepotStorage) (o : Text)
    (f : BlobMetadata → Action B) :
    (((es 0).outcome = .answered ∧ u.takenBy storage (es 0) = true) ∧
      ∃ blob m, m.contentLength = some u.size ∧ machine.exec ((u.store storage o).bind f) es w =
        machine.exec (f m) (fun n => es (n + 1)) (w.putBlob storage.id o (some blob))) ∨
    (¬ ((es 0).outcome = .answered ∧ u.takenBy storage (es 0) = true) ∧
      ∃ x v, machine.exec ((u.store storage o).bind f) es w = (v, .error x) ∧
        ∀ s, (w.blobs s o).isSome = true → (v.blobs s o).isSome = true) := by
  cases u with
  | object body =>
    simp only [Upload.store, Prog.bind_assoc]
    by_cases h0 : (es 0).outcome = .answered
    swap
    · obtain ⟨x, hx⟩ := exec_unanswered (c := .putStream storage o body) _ rfl h0
      exact Or.inr ⟨fun h => h0 h.1, x, _, hx, fun s h => putStream_keeps body (es 0) h⟩
    by_cases ht : storage.accepts body = true
    · refine Or.inl ⟨⟨h0, ht⟩, storage.stored body (es 0).etag,
        ⟨octetStream, some body.length, none, none⟩, rfl, ?_⟩
      rw [exec_perform, answer_of_answered h0, putStream_ok _ ht]
      rfl
    · obtain ⟨x, hx⟩ := putStream_error (w := w) (o := o) (es 0) ht
      refine Or.inr ⟨fun h => ht h.2, x, (answer (.putStream storage o body) (es 0) w).1, ?_,
        fun s h => putStream_keeps body (es 0) h⟩
      rw [exec_perform, answer_of_answered h0, hx]
      rfl
  | multipart uploadId parts contentLength =>
    simp only [Upload.store, Prog.bind_assoc]
    by_cases h0 : (es 0).outcome = .answered
    swap
    · obtain ⟨x, hx⟩ := exec_unanswered
        (c := .completeMultipartUpload storage o uploadId parts contentLength) _ rfl h0
      exact Or.inr ⟨fun h => h0 h.1, x, _, hx,
        fun s h => completeMultipart_keeps uploadId parts contentLength (es 0) h⟩
    by_cases ht : (Upload.multipart uploadId parts contentLength).takenBy storage (es 0) = true
    · obtain ⟨blob, hblob⟩ := completeMultipart_ok (w := w) (o := o) uploadId ht
      refine Or.inl ⟨⟨h0, ht⟩, blob,
        ⟨octetStream, some contentLength, (es 0).etag, none⟩, rfl, ?_⟩
      rw [exec_perform, answer_of_answered h0, hblob]
      rfl
    · obtain ⟨x, hx⟩ := completeMultipart_error (w := w) (o := o) uploadId ht
      refine Or.inr ⟨fun h => ht h.2, x,
        (answer (.completeMultipartUpload storage o uploadId parts contentLength) (es 0) w).1, ?_,
        fun s h => completeMultipart_keeps uploadId parts contentLength (es 0) h⟩
      rw [exec_perform, answer_of_answered h0, hx]
      rfl

theorem target_unique {service : IngestService} {db : Database} {b : Uuid} {s s' : StorageId}
    {storage storage' : DepotStorage} (ht : Target service db b h o s storage)
    (ht' : Target service db b h o s' storage') : s = s' ∧ storage = storage' := by
  obtain ⟨context, hc, -, ht⟩ := ht
  obtain ⟨context', hc', -, ht'⟩ := ht'
  obtain rfl := Option.some.inj (hc.symm.trans hc')
  obtain rfl := Option.some.inj (ht.project.symm.trans ht'.project)
  exact ⟨rfl, Option.some.inj (ht.storage.symm.trans ht'.storage)⟩

theorem failed_upload_keeps_iff {service : IngestService} (u : Upload) (b : Uuid)
    (hs : (w.blobs s o).isSome = true) :
    (∀ x, (machine.exec (u.run service b h o) es w).2 = .error x →
      ((machine.exec (u.run service b h o) es w).1.blobs s o).isSome = true) ↔
    ¬ Destroys service w es b h o u s := by
  rw [Upload.run_eq]
  rcases validate_cases es w service b h o (fun target =>
      (u.store target.2 o).bind (IngestService.persistOrDelete target.1 target.2 h o))
    with ⟨s', storage, ht, hr, hl⟩ | ⟨⟨x, hx⟩, hn⟩
  swap
  · rw [hx]
    refine iff_of_true (fun _ _ => hs) (fun hd => ?_)
    obtain ⟨storage, ht, -⟩ := hd.target
    exact hn hd.reads s storage ht
  rw [hl]
  have hid : storage.id = s' := by
    obtain ⟨context, -, -, ht⟩ := ht
    exact StorageCatalog.storage_id ht.storage
  have hdestroys : Destroys service w es b h o u s ↔ s = s' ∧
      ((es 5).outcome = .answered ∧ u.takenBy storage (es 5) = true) ∧
        ∃ e ∈ cleanup u.size (fun n => es (n + 6)), TakesEffect e := by
    constructor
    · intro hd
      obtain ⟨storage', ht', hu⟩ := hd.target
      obtain ⟨rfl, rfl⟩ := target_unique ht ht'
      exact ⟨rfl, ⟨hd.stored, hu⟩, hd.cleaned⟩
    · rintro ⟨rfl, ⟨h5, hu⟩, hc⟩
      exact ⟨hr, ⟨storage, ht, hu⟩, h5, hc⟩
  rw [hdestroys]
  rcases store_cases (fun n => es (n + 5)) w u storage o
      (IngestService.persistOrDelete s' storage h o)
    with ⟨hstored, blob, m, hm, hexec⟩ | ⟨hnot, x, v, hexec, hkeeps⟩
  swap
  · rw [hexec]
    exact iff_of_true (fun _ _ => hkeeps s hs) (fun hd => hnot hd.2.1)
  rw [hexec]
  have hp : ∃ pi, (w.putBlob storage.id o (some blob)).db.pathInfo h = some pi := by
    obtain ⟨context, -, -, ht⟩ := ht
    obtain ⟨row, hrow, -⟩ := ht.registered
    exact ⟨row, (Option.filter_eq_some_iff.mp hrow).1⟩
  rcases persist_cases (fun n => es (n + 6)) _ s' storage o hm hp
    with ⟨hc, hok⟩ | ⟨e, x, v, hc, hv, hexec⟩
  · refine iff_of_true (fun x hx => ?_) (fun hd => ?_)
    · exact absurd (hok.symm.trans hx) (by simp)
    · obtain ⟨-, -, e, he, -⟩ := hd
      rw [hc] at he
      cases he
  · have hblob : (v.blobs s o).isSome = true := by
      rw [hv]
      exact putBlob_some hs
    have hdeleted : machine.exec (IngestService.persistOrDelete s' storage h o m)
        (fun n => es (n + 1 + 5)) (w.putBlob storage.id o (some blob)) =
      ((answer (.deleteObject storage o) e v).1, .error x) := hexec
    have hkeeps := delete_keeps_iff storage e hblob
    rw [hid] at hkeeps
    rw [hdeleted]
    have hcleaned : (∃ e ∈ cleanup u.size (fun n => es (n + 6)), TakesEffect e) ↔
        TakesEffect e := by
      rw [hc]
      simp
    rw [hcleaned]
    constructor
    · exact fun h hd => hkeeps.mp (h x rfl) ⟨hd.1, hd.2.2⟩
    · exact fun h _ _ => hkeeps.mpr (fun hd => h ⟨hd.1, hstored, hd.2⟩)

end

section Examples

open Depot.Server

attribute [local instance] standardBase64 standardWildMatch

def s3Server : Server :=
  { exampleServer with storageCatalog := ⟨.main, [⟨.main, .s3⟩], by decide, by decide⟩ }

def uploadedWorld : World :=
  ({ inTurn [.insertProject exampleSlug "Example".toList true .main,
      .beginBuild exampleSlug.text "main".toList none, .registerPaths 101 [helloPayload],
      .uploadObject 101 helloHash helloPayload.url [1, 2, 3, 4, 5]] with
    server := s3Server } : FreshSerialRun).world 4

def refusedClean (n : Nat) : Env :=
  { moment n with outcome := if n = 7 ∨ n = 8 then .refused [] else .answered }

theorem refusedClean_keeps :
    (machine.exec ((Upload.object [6, 7]).run s3Server.ingestService 101 helloHash
        helloPayload.url) refusedClean uploadedWorld).2.toOption = none ∧
      ((machine.exec ((Upload.object [6, 7]).run s3Server.ingestService 101 helloHash
        helloPayload.url) refusedClean uploadedWorld).1.blobs .main helloPayload.url).isSome =
          true := by
  have hfails : (machine.exec ((Upload.object [6, 7]).run s3Server.ingestService 101
      helloHash helloPayload.url) refusedClean uploadedWorld).2.toOption = none := by
    decide +kernel
  obtain ⟨x, hx⟩ := exists_error_of_toOption hfails
  refine ⟨hfails,
    (failed_upload_keeps_iff (.object [6, 7]) 101 (by decide +kernel)).mpr (fun hd => ?_) x hx⟩
  obtain ⟨e, he, heffect⟩ := hd.cleaned
  obtain rfl : refusedClean 8 = e := by
    have hc : cleanup 2 (fun n => refusedClean (n + 6)) = some (refusedClean 8) := rfl
    exact Option.some.inj (hc.symm.trans he)
  exact heffect [] rfl

def overlong : Upload :=
  .multipart "1".toList [⟨1, "etag".toList⟩] (2 ^ 63)

def assembling (n : Nat) : Env := { moment n with assembled := some [1, 2, 3, 4, 5] }

theorem overlong_destroys :
    (uploadedWorld.blobs .main helloPayload.url).isSome = true ∧
    (machine.exec (overlong.run s3Server.ingestService 101 helloHash helloPayload.url) assembling
      uploadedWorld).2 = .error .sizeOverflow ∧
    (machine.exec (overlong.run s3Server.ingestService 101 helloHash helloPayload.url) assembling
      uploadedWorld).1.blobs .main helloPayload.url = none := by
  decide +kernel

end Examples

end Uploads
