import ProjectCache.Access.Confinement
import ProjectCache.Access.KeyNames

namespace EnsuredKeys

open Textual Nix Project Calendar Tables Store Db Programs Signing KeyCrypto Depot SqliteDatabase
  Access SigningKeys KeyNames

structure UpsertProjectRequest where
  authorization : Option Text
  slug : Text
  storageId : Option Text
  displayName : Text
  isPublic : Bool

inductive UpsertProjectResponse where
  | badRequest
  | noContent (ensured : Option Text)
  deriving DecidableEq

structure WriteAppState where
  authorizer : Authorizer
  storageCatalog : StorageCatalog
  keyEncryptionKey : Option KeyEncryptionKey

def resolveOptionalStorageId (catalog : StorageCatalog) : Option StorageId → Option StorageId
  | some storageId => (catalog.storage storageId).map (fun _ => storageId)
  | none => if catalog.backends.length = 1 then some catalog.defaultStorageId else none

def requestedStorageId (catalog : StorageCatalog) : Option Text → Option StorageId
  | some rawStorageId => do
    let storageId ← (StorageId.new rawStorageId).toOption
    let _ ← catalog.storage storageId
    return storageId
  | none => resolveOptionalStorageId catalog none

@[reducible] def lookup (project : ProjectSlug) : Call :=
  .select (fun _ db => db.activeSigningKey project)

def replaces : Call → Bool
  | .replaceSigningKey _ => true
  | _ => false

theorem replaces_of_reads {c : Call} (h : c.reads = true) : replaces c = false := by
  cases c <;> first | rfl | cases h

theorem not_replaces (row : ProjectSigningKeyRow) :
    ¬ replaces (.replaceSigningKey row) = false := by simp [replaces]

theorem project_of_insertProject {db db' : Database} {row : ProjectRow}
    (h : db.insertProject row = some db') : ∃ p ∈ db'.projects.rows, p.slug = row.slug := by
  obtain ⟨t, rfl, ht⟩ := insertProject_eq_some h
  by_cases ha : db.projects.rows.any (fun p => p.slug = row.slug) = true
  · obtain ⟨p, hp, hs⟩ := List.any_eq_true.mp ha
    rcases mem_of_upsert ht hp with hm | ⟨-, hm⟩
    · exact ⟨p, hm, of_decide_eq_true hs⟩
    · exact ⟨_, hm, of_decide_eq_true hs⟩
  · rw [Table.upsert_of_not_any (Bool.eq_false_iff.mpr ha)] at ht
    exact ⟨row, (Table.mem_of_insert ht).mpr (Or.inr rfl), rfl⟩

theorem ne_of_replaceSigningKey {db db' : Database} {row : ProjectSigningKeyRow} {now : SqliteTime}
    (h : db.replaceSigningKey row now = some db') : db' ≠ db := by
  rintro rfl
  have hcount := count_replaceSigningKey h row.projectId
  simp at hcount

theorem fresh_of_replaceSigningKey {db db' : Database} {row : ProjectSigningKeyRow}
    {now : SqliteTime} (h : db.replaceSigningKey row now = some db') :
    row ∉ db.projectSigningKeys.rows := by
  intro hm
  obtain ⟨-, t, -, ht⟩ := replaceSigningKey_eq_some h
  obtain ⟨hfree, -⟩ := Table.insert_eq_some.mp ht
  have hclash := hfree _ (List.mem_map_of_mem hm)
  simp [Keyed.clash, retireKey_id] at hclash

section

variable [Base64] [Ed25519] [Ed25519Bytes] [ChaCha20Poly1305]

namespace WriteAppState

variable (state : WriteAppState)

def ensureIfConfigured (project : ProjectSlug) : Action UpsertProjectResponse :=
  match state.keyEncryptionKey with
  | none => return .noContent none
  | some keyEncryptionKey => do
    let publicKey ← ensureProjectSigningKey project keyEncryptionKey
    return .noContent (some publicKey)

def upsertProject (request : UpsertProjectRequest) : Action UpsertProjectResponse := do
  requireAdminHeaders state.authorizer request.authorization
  match ProjectSlug.parse request.slug with
  | .error _ => return .badRequest
  | .ok project =>
    match requestedStorageId state.storageCatalog request.storageId with
    | none => return .badRequest
    | some storageId => do
      insertProject project request.displayName request.isPublic storageId
      state.ensureIfConfigured project

end WriteAppState

structure UpsertRun where
  state : WriteAppState
  start : World
  schedule : Pool.Schedule machine UpsertProjectRequest

namespace UpsertRun

variable (r : UpsertRun)

def pool (n : Nat) : Pool machine UpsertProjectRequest UpsertProjectResponse :=
  Pool.run r.state.upsertProject ⟨r.start, []⟩ r.schedule n

def db (n : Nat) : Database := (r.pool n).state.db

def Happens (i n : Nat) (event : Prog.Event Interface) : Prop :=
  Pool.Happens r.state.upsertProject ⟨r.start, []⟩ r.schedule i n event

def Ran {A : Type} (i m n : Nat) (p rest : Action A) : Prop :=
  Pool.Ran r.state.upsertProject ⟨r.start, []⟩ r.schedule i m n p rest

variable {r}

theorem grows_le {m n : Nat} (h : m ≤ n) : Grows (r.db m) (r.db n) :=
  Pool.run_related (M := machine) (fun v w => Grows v.db w.db) (fun _ => Grows.refl _)
    Grows.trans answer_grows h

end UpsertRun

variable {r : UpsertRun} {i m n : Nat} {project : ProjectSlug} {kek : KeyEncryptionKey}

theorem ran_replaceProjectSigningKey {key : NamedSigningKey} {row : ProjectSigningKeyRow}
    {resume : Except Error Unit → Action Text}
    (h : r.Ran i m n (replaceProjectSigningKey project key kek)
      (.call (.replaceSigningKey row) resume)) :
    row.retiredAt = none ∧ ∃ p ∈ (r.db n).projects.rows, p.slug = project ∧
      p.id = row.projectId := by
  obtain ⟨k₁, projectId, h₁, h₂⟩ := Pool.Ran.after h
    (uses_projectIdBySlug (fun _ => replaces_of_reads) project) (not_replaces row)
  obtain ⟨k₂, id, h₃, h₄⟩ := Pool.Ran.after h₂
    (uses_reading (fun _ => replaces_of_reads) rfl) (not_replaces row)
  have hencrypt : (encryptSigningKey kek key.privateKeyText
      (projectSigningKeyAad project key.name)).Uses (fun c => replaces c = false) :=
    ((uses_reading (fun _ => replaces_of_reads) rfl).mapError _).bind
      (fun _ => uses_ofExcept _ _)
  obtain ⟨k₃, encrypted, h₅, h₆⟩ := Pool.Ran.after h₄ hencrypt (not_replaces row)
  obtain ⟨next, h₇⟩ := Pool.Ran.of_map h₆
  obtain ⟨k₄, found, h₈, h₉⟩ := Pool.Ran.finished h₁
  obtain ⟨k, -, hk, -, rfl⟩ := Publisher.ran_select h₈
  obtain ⟨p, hp, rfl⟩ := Option.map_eq_some_iff.mp (Publisher.ran_orFail h₉)
  obtain ⟨hpm, hps⟩ := Database.projectBySlug_eq_some.mp hp
  have hkn : k ≤ n := by
    have := h₂.le
    have := h₉.le
    omega
  obtain ⟨q, hq, hqi, hqs⟩ := (UpsertRun.grows_le (r := r) hkn).projects p hpm
  cases h₇ with
  | stay => exact ⟨rfl, q, hq, hqs.trans hps, hqi⟩
  | call _ _ _ hrest => cases hrest

theorem ran_generateProjectSigningKey {row : ProjectSigningKeyRow}
    {resume : Except Error Unit → Action Text}
    (h : r.Ran i m n (generateProjectSigningKey project none kek)
      (.call (.replaceSigningKey row) resume)) :
    row.retiredAt = none ∧ ∃ p ∈ (r.db n).projects.rows, p.slug = project ∧
      p.id = row.projectId := by
  have hname : (nextProjectSigningKeyName project).Uses (fun c => replaces c = false) :=
    (uses_projectIdBySlug (fun _ => replaces_of_reads) project).bind
      (fun _ => (uses_select (fun _ => replaces_of_reads) _).bind (fun _ => trivial))
  have hkey : ∀ name, (generateNamedSigningKey name).Uses (fun c => replaces c = false) := by
    intro name
    unfold generateNamedSigningKey
    split
    · trivial
    · exact ((uses_reading (fun _ => replaces_of_reads) rfl).mapError _).bind (fun _ => trivial)
  obtain ⟨k₁, name, -, h₁⟩ := Pool.Ran.after h hname (not_replaces row)
  obtain ⟨k₂, key, -, h₂⟩ := Pool.Ran.after h₁ (hkey name) (not_replaces row)
  exact ran_replaceProjectSigningKey h₂

theorem ran_activeProjectSigningKeyPublic {found : Option Text}
    (h : r.Ran i m n (activeProjectSigningKeyPublic project) (.done (.ok found))) :
    ∃ k, m ≤ k ∧ k < n ∧ ∃ record, r.Happens i k ⟨lookup project, .ok record⟩ ∧
      found = record.map ProjectSigningKeyRecord.publicKey := by
  obtain ⟨k₁, record, h₁, h₂⟩ := Pool.Ran.finished h
  obtain ⟨k, hmk, hk₁, hh⟩ := Pool.Ran.performed h₁
  have := h₂.le
  cases h₂
  exact ⟨k, hmk, by omega, record, hh, rfl⟩

theorem ran_ensureProjectSigningKey {row : ProjectSigningKeyRow}
    {resume : Except Error Unit → Action Text}
    (h : r.Ran i m n (ensureProjectSigningKey project kek)
      (.call (.replaceSigningKey row) resume)) :
    (∃ k, m ≤ k ∧ k < n ∧ r.Happens i k ⟨lookup project, .ok none⟩) ∧
    row.retiredAt = none ∧ ∃ p ∈ (r.db n).projects.rows, p.slug = project ∧
      p.id = row.projectId := by
  have hlook : (activeProjectSigningKeyPublic project).Uses (fun c => replaces c = false) :=
    (uses_select (fun _ => replaces_of_reads) _).bind (fun _ => trivial)
  obtain ⟨k₁, found, h₁, h₂⟩ := Pool.Ran.after h hlook (not_replaces row)
  obtain ⟨k, hmk, hk₁, record, hh, rfl⟩ := ran_activeProjectSigningKeyPublic h₁
  have := h₂.le
  cases record with
  | some record => cases h₂
  | none => exact ⟨⟨k, hmk, by omega, hh⟩, ran_generateProjectSigningKey h₂⟩

theorem ran_insertProject {displayName : Text} {isPublic : Bool} {storageId : StorageId} {u : Unit}
    (h : r.Ran i m n (insertProject project displayName isPublic storageId) (.done (.ok u))) :
    ∃ p ∈ (r.db n).projects.rows, p.slug = project := by
  obtain ⟨k₁, id, h₁, h₂⟩ := Pool.Ran.finished h
  obtain ⟨k, -, hk, hh⟩ := Pool.Ran.performed h₂
  obtain ⟨hstate, hreply⟩ := Publisher.carried_of_happens hh
  obtain ⟨db, hdb, hw⟩ := World.written_ok hreply
  obtain ⟨p, hp, hs⟩ := project_of_insertProject hdb
  have hnext : r.db (k + 1) = db := congrArg World.db (hstate.trans hw)
  obtain ⟨q, hq, -, hqs⟩ := (UpsertRun.grows_le (r := r) hk).projects p (hnext ▸ hp)
  exact ⟨q, hq, hqs.trans hs⟩

theorem ran_upsertProject {q : UpsertProjectRequest} {row : ProjectSigningKeyRow}
    {resume : Except Error Unit → Action UpsertProjectResponse}
    (h : r.Ran i m n (r.state.upsertProject q) (.call (.replaceSigningKey row) resume)) :
    ∃ project, ProjectSlug.parse q.slug = .ok project ∧ ∃ k, m ≤ k ∧
      (∃ p ∈ (r.db k).projects.rows, p.slug = project) ∧
      ∃ kek next, r.Ran i k n (ensureProjectSigningKey project kek)
        (.call (.replaceSigningKey row) next) := by
  have hadmin : (requireAdminHeaders r.state.authorizer q.authorization).Uses
      (fun c => replaces c = false) :=
    (uses_authenticateHeaders (fun _ => replaces_of_reads) _ _).bind (fun _ =>
      (uses_authorizeAdmin _).bind (fun _ => trivial))
  obtain ⟨k₁, u, h₁, h₂⟩ := Pool.Ran.after h hadmin (not_replaces row)
  cases hp : ProjectSlug.parse q.slug with
  | error x =>
    simp only [hp] at h₂
    cases h₂
  | ok project =>
    simp only [hp] at h₂
    cases hs : requestedStorageId r.state.storageCatalog q.storageId with
    | none =>
      simp only [hs] at h₂
      cases h₂
    | some storageId =>
      simp only [hs] at h₂
      have hinsert : (insertProject project q.displayName q.isPublic storageId).Uses
          (fun c => replaces c = false) :=
        (uses_reading (fun _ => replaces_of_reads) rfl).bind (fun _ => Prog.uses_perform rfl)
      obtain ⟨k₂, u', h₃, h₄⟩ := Pool.Ran.after h₂ hinsert (not_replaces row)
      have := h₁.le
      have := h₃.le
      refine ⟨project, rfl, k₂, by omega, ran_insertProject h₃, ?_⟩
      unfold WriteAppState.ensureIfConfigured at h₄
      split at h₄
      · cases h₄
      · rename_i kek _
        obtain ⟨next, h₅⟩ := Pool.Ran.of_map h₄
        exact ⟨kek, next, h₅⟩

theorem done_upsertProject {q : UpsertProjectRequest} {publicKey : Text}
    (h : r.Ran i m n (r.state.upsertProject q) (.done (.ok (.noContent (some publicKey))))) :
    ∃ project, ProjectSlug.parse q.slug = .ok project ∧
      ∃ k kek, r.Ran i k n (ensureProjectSigningKey project kek) (.done (.ok publicKey)) := by
  obtain ⟨k₁, u, h₁, h₂⟩ := Pool.Ran.finished h
  cases hp : ProjectSlug.parse q.slug with
  | error x =>
    simp only [hp] at h₂
    cases h₂
  | ok project =>
    simp only [hp] at h₂
    cases hs : requestedStorageId r.state.storageCatalog q.storageId with
    | none =>
      simp only [hs] at h₂
      cases h₂
    | some storageId =>
      simp only [hs] at h₂
      obtain ⟨k₂, u', h₃, h₄⟩ := Pool.Ran.finished h₂
      unfold WriteAppState.ensureIfConfigured at h₄
      split at h₄
      · cases h₄
      · rename_i kek _
        obtain ⟨k₃, publicKey', h₅, h₆⟩ := Pool.Ran.finished h₄
        have hle := h₆.le
        cases h₆
        exact ⟨project, rfl, k₂, kek, Pool.Ran.later h₅ hle⟩

theorem done_replaceProjectSigningKey {key : NamedSigningKey} {publicKey : Text}
    (h : r.Ran i m n (replaceProjectSigningKey project key kek) (.done (.ok publicKey))) :
    ∃ k < n, ∃ row, r.Happens i k ⟨.replaceSigningKey row, .ok ()⟩ ∧ row.publicKey = publicKey := by
  obtain ⟨k₁, projectId, -, h₁⟩ := Pool.Ran.finished h
  obtain ⟨k₂, id, -, h₂⟩ := Pool.Ran.finished h₁
  obtain ⟨k₃, encrypted, -, h₃⟩ := Pool.Ran.finished h₂
  obtain ⟨k₄, u, h₄, h₅⟩ := Pool.Ran.finished h₃
  obtain ⟨k, -, hk, hh⟩ := Pool.Ran.performed h₄
  have := h₅.le
  cases h₅
  exact ⟨k, by omega, _, hh, rfl⟩

theorem done_ensureProjectSigningKey {publicKey : Text}
    (h : r.Ran i m n (ensureProjectSigningKey project kek) (.done (.ok publicKey))) :
    ∃ k < n, (∃ record : ProjectSigningKeyRecord,
        r.Happens i k ⟨lookup project, .ok (some record)⟩ ∧ record.publicKey = publicKey) ∨
      ∃ row, r.Happens i k ⟨.replaceSigningKey row, .ok ()⟩ ∧ row.publicKey = publicKey := by
  obtain ⟨k₁, found, h₁, h₂⟩ := Pool.Ran.finished h
  obtain ⟨k, -, hk, record, hh, rfl⟩ := ran_activeProjectSigningKeyPublic h₁
  have := h₂.le
  cases record with
  | some record =>
    cases h₂
    exact ⟨k, by omega, Or.inl ⟨record, hh, rfl⟩⟩
  | none =>
    obtain ⟨k₂, name, -, h₃⟩ := Pool.Ran.finished h₂
    obtain ⟨k₃, key, -, h₄⟩ := Pool.Ran.finished h₃
    obtain ⟨k', hk', hreplace⟩ := done_replaceProjectSigningKey h₄
    exact ⟨k', hk', Or.inr hreplace⟩

namespace UpsertRun

variable (r)

def LooksAt (project : ProjectSlug) (i k : Nat) : Prop :=
  r.Happens i k ⟨lookup project, .ok none⟩

def CallsAt (i k : Nat) (q : UpsertProjectRequest) (row : ProjectSigningKeyRow) : Prop :=
  r.schedule.choice k = .advance i ∧
    ∃ resume, (r.pool k).AtCall i q (.replaceSigningKey row) resume

def ReplacesAt (project : ProjectSlug) (i k : Nat) : Prop :=
  ∃ q row, r.CallsAt i k q row ∧ ProjectSlug.parse q.slug = .ok project ∧ r.db (k + 1) ≠ r.db k

def Uninterrupted (project : ProjectSlug) : Prop :=
  ∀ i k l, r.LooksAt project i k → r.ReplacesAt project i l → k < l →
    ∀ m, k < m → m < l → ∀ j, ¬ r.ReplacesAt project j m

def Returns (project : ProjectSlug) (i n : Nat) (publicKey : Text) : Prop :=
  ∃ q : UpsertProjectRequest, ProjectSlug.parse q.slug = .ok project ∧
    (r.pool n).tasks[i]? = some ⟨q, .done (.ok (.noContent (some publicKey)))⟩

structure NeverRotates (project : ProjectSlug) : Prop where
  kept : ∀ m n, m ≤ n → ∀ psk, Stored (r.db m) project psk → Stored (r.db n) project psk
  same : ∀ n i publicKey, r.Returns project i n publicKey →
    ((r.db n).activeSigningKey project).map ProjectSigningKeyRecord.publicKey = some publicKey
  once : ∀ n, ∀ p ∈ (r.db n).projects.rows, p.slug = project →
    (r.db n).countSigningKeys p.id ≤ (r.db 0).countSigningKeys p.id + 1

variable {r}

theorem CallsAt.spec {q : UpsertProjectRequest} {row : ProjectSigningKeyRow}
    (h : r.CallsAt i n q row) : ∃ project, ProjectSlug.parse q.slug = .ok project ∧
      (∃ k < n, r.LooksAt project i k ∧ ∃ p ∈ (r.db k).projects.rows, p.slug = project) ∧
      row.retiredAt = none ∧
      ∃ p ∈ (r.db n).projects.rows, p.slug = project ∧ p.id = row.projectId := by
  obtain ⟨-, resume, hc⟩ := h
  have hran : r.Ran i 0 n (r.state.upsertProject q) (.call (.replaceSigningKey row) resume) :=
    Pool.ran_of_task rfl hc
  obtain ⟨project, hq, k, -, ⟨p, hp, hs⟩, kek, next, hensure⟩ := ran_upsertProject hran
  obtain ⟨⟨l, hkl, hln, hlook⟩, hactive, hrow⟩ := ran_ensureProjectSigningKey hensure
  obtain ⟨p', hp', -, hs'⟩ := (grows_le (r := r) hkl).projects p hp
  exact ⟨project, hq, ⟨l, hln, hlook, p', hp', hs'.trans hs⟩, hactive, hrow⟩

theorem CallsAt.effect {q : UpsertProjectRequest} {row : ProjectSigningKeyRow}
    (h : r.CallsAt i n q row) : r.db (n + 1) = r.db n ∨
      ∃ now, (r.db n).replaceSigningKey row now = some (r.db (n + 1)) := by
  obtain ⟨hi, resume, hc⟩ := h
  have hstate : (r.pool (n + 1)).state =
      (answer (.replaceSigningKey row) (r.schedule.env n) (r.pool n).state).1 :=
    congrArg Pool.state (Pool.run_succ_of_atCall hi hc)
  rcases answer_state (.replaceSigningKey row) (r.schedule.env n) (r.pool n).state with ha | ha
  · exact Or.inl (congrArg World.db (hstate.trans ha))
  · have hdb := congrArg World.db (hstate.trans ha)
    simp only [carryOut] at hdb
    cases hr : (r.pool n).state.db.replaceSigningKey row (r.schedule.env n).sqliteNow with
    | none =>
      rw [hr] at hdb
      exact Or.inl hdb
    | some db =>
      rw [hr] at hdb
      exact Or.inr ⟨_, hr.trans (congrArg some hdb.symm)⟩

theorem keys_of_step (n : Nat) :
    (r.db (n + 1)).projectSigningKeys = (r.db n).projectSigningKeys ∨
      ∃ i q row, r.CallsAt i n q row := by
  have hm : (r.pool n).Moves r.state.upsertProject (r.schedule.choice n) (r.schedule.env n)
      (r.pool (n + 1)) := Pool.moves_next _ _ _
  unfold db CallsAt
  generalize r.pool n = a, r.pool (n + 1) = b at hm
  cases hm with
  | submit q h => exact Or.inl rfl
  | stay => exact Or.inl rfl
  | advance j q c resume hj hc =>
    cases c with
    | replaceSigningKey row => exact Or.inr ⟨j, q, row, hj, resume, hc⟩
    | _ => exact Or.inl ((answer_frame _ _ _).projectSigningKeys (by simp [Call.writes]))

theorem CallsAt.other {q : UpsertProjectRequest} {row : ProjectSigningKeyRow}
    (h : r.CallsAt i n q row) (hq : ProjectSlug.parse q.slug ≠ .ok project) {p : ProjectRow}
    (hp : p ∈ (r.db n).projects.rows) (hs : p.slug = project) : p.id ≠ row.projectId := by
  obtain ⟨project', hq', -, -, p', hp', hs', hi'⟩ := h.spec
  intro hi
  obtain rfl := Database.project_eq_of_id hp hp' (hi.trans hi'.symm)
  exact hq (hs ▸ hs' ▸ hq')

theorem key_iff {psk : ProjectSigningKeyRow} (hno : ∀ i, ¬ r.ReplacesAt project i n)
    {p : ProjectRow} (hp : p ∈ (r.db n).projects.rows) (hs : p.slug = project)
    (hi : p.id = psk.projectId) : psk ∈ (r.db (n + 1)).projectSigningKeys.rows ↔
      psk ∈ (r.db n).projectSigningKeys.rows := by
  rcases r.keys_of_step n with hk | ⟨i, q, row, hc⟩
  · rw [hk]
  · rcases hc.effect with he | ⟨now, hr⟩
    · rw [he]
    · have hq : ProjectSlug.parse q.slug ≠ .ok project := fun hq =>
        hno i ⟨q, row, hc, hq, ne_of_replaceSigningKey hr⟩
      have hne : psk.projectId ≠ row.projectId := hi ▸ hc.other hq hp hs
      rw [(rows_of_replaceSigningKey hr).2]
      simp only [List.mem_append, List.mem_map, List.mem_singleton]
      constructor
      · rintro (⟨old, hold, rfl⟩ | rfl)
        · rw [retireKey_projectId] at hne
          rwa [Database.retireKey, if_neg (by simp [hne])]
        · exact absurd rfl hne
      · exact fun hm => Or.inl ⟨psk, hm, by rw [Database.retireKey, if_neg (by simp [hne])]⟩

theorem stored_succ {psk : ProjectSigningKeyRow} (hno : ∀ i, ¬ r.ReplacesAt project i n)
    (h : Stored (r.db n) project psk) : Stored (r.db (n + 1)) project psk := by
  obtain ⟨p, hp, hi, hs⟩ := h.project
  obtain ⟨p', hp', hi', hs'⟩ := (grows_le (r := r) (Nat.le_succ n)).projects p hp
  exact ⟨(key_iff hno hp hs hi).mpr h.row, h.active, p', hp', hi'.trans hi, hs'.trans hs⟩

theorem stored_of_succ {psk : ProjectSigningKeyRow} (hno : ∀ i, ¬ r.ReplacesAt project i n)
    {p : ProjectRow} (hp : p ∈ (r.db n).projects.rows) (hs : p.slug = project)
    (h : Stored (r.db (n + 1)) project psk) : Stored (r.db n) project psk := by
  obtain ⟨p₁, hp₁, hi₁, hs₁⟩ := h.project
  obtain ⟨p₂, hp₂, hi₂, hs₂⟩ := (grows_le (r := r) (Nat.le_succ n)).projects p hp
  obtain rfl : p₁ = p₂ :=
    Table.eq_of_clash hp₁ hp₂ (by simp [Keyed.clash, hs₁, hs₂, hs])
  have hi : p.id = psk.projectId := hi₂.symm.trans hi₁
  exact ⟨(key_iff hno hp hs hi).mp h.row, h.active, p, hp, hi, hs⟩

theorem LooksAt.absent {k : Nat} (h : r.LooksAt project i k) (psk : ProjectSigningKeyRow) :
    ¬ Stored (r.db k) project psk := by
  intro hs
  have hreply := (Publisher.carried_of_happens h).2
  have hnone : (r.db k).activeSigningKey project = none := Except.ok.inj hreply
  rw [hs.activeSigningKey] at hnone
  cases hnone

theorem LooksAt.not_replaces {k j : Nat} (h : r.LooksAt project i k) :
    ¬ r.ReplacesAt project j k := by
  rintro ⟨q, row, ⟨hj, resume, hc⟩, -, -⟩
  obtain ⟨hi, ⟨q', resume', hc'⟩, -⟩ := h
  cases hi.symm.trans hj
  have heq := Option.some.inj (hc.symm.trans hc')
  injection heq with _ hcall
  cases hcall

theorem absent {l : Nat} (hu : r.Uninterrupted project) (h : r.ReplacesAt project i l)
    (psk : ProjectSigningKeyRow) : ¬ Stored (r.db l) project psk := by
  intro hs
  obtain ⟨q, row, hc, hq, hne⟩ := h
  obtain ⟨project', hq', ⟨k, hkl, hlook, p, hp, hps⟩, -⟩ := hc.spec
  cases hq.symm.trans hq'
  have hback : ∀ m, k ≤ m → m ≤ l → Stored (r.db m) project psk → Stored (r.db k) project psk := by
    intro m hkm
    induction m, hkm using Nat.le_induction with
    | base => exact fun _ hs => hs
    | succ m hkm ih =>
      intro hml hs
      obtain ⟨p', hp', -, hps'⟩ := (grows_le (r := r) hkm).projects p hp
      refine ih (by omega) (stored_of_succ (fun j hj => ?_) hp' (hps'.trans hps) hs)
      rcases Nat.lt_or_ge k m with hlt | hge
      · exact hu i k l hlook ⟨q, row, hc, hq, hne⟩ hkl m hlt (by omega) j hj
      · obtain rfl : m = k := by omega
        exact hlook.not_replaces hj
  exact hlook.absent psk (hback l hkl.le le_rfl hs)

theorem kept (hu : r.Uninterrupted project) {m n : Nat} (hmn : m ≤ n) {psk : ProjectSigningKeyRow}
    (h : Stored (r.db m) project psk) : Stored (r.db n) project psk := by
  induction n, hmn using Nat.le_induction with
  | base => exact h
  | succ n _ ih => exact stored_succ (fun j hj => absent hu hj psk ih) ih

theorem CallsAt.stores {q : UpsertProjectRequest} {row : ProjectSigningKeyRow} {now : SqliteTime}
    (h : r.CallsAt i n q row) (hq : ProjectSlug.parse q.slug = .ok project)
    (hr : (r.db n).replaceSigningKey row now = some (r.db (n + 1))) :
    Stored (r.db (n + 1)) project row := by
  obtain ⟨project', hq', -, hactive, p, hp, hs, hi⟩ := h.spec
  cases hq.symm.trans hq'
  obtain ⟨hprojects, hrows⟩ := rows_of_replaceSigningKey hr
  refine ⟨?_, hactive, p, hprojects ▸ hp, hi, hs⟩
  rw [hrows]
  exact List.mem_append_right _ (List.mem_singleton_self row)

theorem ReplacesAt.retires {psk : ProjectSigningKeyRow} (h : r.ReplacesAt project i n)
    (hs : Stored (r.db n) project psk) : ¬ Stored (r.db (n + 1)) project psk := by
  intro hs'
  obtain ⟨q, row, hc, hq, hne⟩ := h
  rcases hc.effect with he | ⟨now, hr⟩
  · exact hne he
  · have hrow := hc.stores hq hr
    obtain ⟨p, hp, hi, hslug⟩ := hs'.project
    obtain ⟨p', hp', hi', hslug'⟩ := hrow.project
    obtain rfl : p = p' := Table.eq_of_clash hp hp' (by simp [Keyed.clash, hslug, hslug'])
    obtain rfl : psk = row := Table.eq_of_clash hs'.row hrow.row
      (by simp [Keyed.clash, hs'.active, hrow.active, ← hi, ← hi'])
    exact fresh_of_replaceSigningKey hr hs.row

theorem Returns.active (hu : r.Uninterrupted project) {publicKey : Text}
    (h : r.Returns project i n publicKey) :
    ((r.db n).activeSigningKey project).map ProjectSigningKeyRecord.publicKey = some publicKey := by
  obtain ⟨q, hq, ht⟩ := h
  have hran : r.Ran i 0 n (r.state.upsertProject q) (.done (.ok (.noContent (some publicKey)))) :=
    Pool.ran_of_task rfl ht
  obtain ⟨project', hq', k₀, kek, hensure⟩ := done_upsertProject hran
  cases hq.symm.trans hq'
  obtain ⟨k, hkn, ⟨record, hh, rfl⟩ | ⟨row, hh, rfl⟩⟩ := done_ensureProjectSigningKey hensure
  · have hfound : (r.db k).activeSigningKey project = some record :=
      Except.ok.inj (Publisher.carried_of_happens hh).2
    obtain ⟨psk, hs, rfl⟩ := Stored.of_activeSigningKey hfound
    rw [(kept hu hkn.le hs).activeSigningKey]
    rfl
  · obtain ⟨q', resume, hc⟩ := hh.atCall
    obtain ⟨rest, hrest⟩ := Pool.request_of_le hkn.le hc
    have heq := Option.some.inj (hrest.symm.trans ht)
    injection heq with heq
    subst heq
    obtain ⟨hstate, hreply⟩ := Publisher.carried_of_happens hh
    obtain ⟨db, hdb, hw⟩ := World.written_ok hreply
    have hnext : r.db (k + 1) = db := congrArg World.db (hstate.trans hw)
    have hcall : r.CallsAt i k q' row := ⟨hh.chosen, resume, hc⟩
    rw [(kept hu hkn (hcall.stores hq (hnext ▸ hdb))).activeSigningKey]
    rfl

theorem once (hu : r.Uninterrupted project) {p : ProjectRow} (hp : p ∈ (r.db n).projects.rows)
    (hs : p.slug = project) :
    (r.db n).countSigningKeys p.id ≤ (r.db 0).countSigningKeys p.id + 1 := by
  have hcount : ∀ m ≤ n, (r.db m).countSigningKeys p.id = (r.db 0).countSigningKeys p.id ∨
      (r.db m).countSigningKeys p.id = (r.db 0).countSigningKeys p.id + 1 ∧
        ∃ psk, Stored (r.db m) project psk := by
    intro m
    induction m with
    | zero => exact fun _ => Or.inl rfl
    | succ m ih =>
      intro hmn
      have hm := ih (by omega)
      have hsame : (r.db (m + 1)).countSigningKeys p.id = (r.db m).countSigningKeys p.id →
          (r.db (m + 1)).countSigningKeys p.id = (r.db 0).countSigningKeys p.id ∨
          (r.db (m + 1)).countSigningKeys p.id = (r.db 0).countSigningKeys p.id + 1 ∧
            ∃ psk, Stored (r.db (m + 1)) project psk := by
        rintro heq
        rw [heq]
        exact hm.imp id (fun ⟨h, psk, hpsk⟩ => ⟨h, psk, kept hu (Nat.le_succ m) hpsk⟩)
      rcases r.keys_of_step m with hk | ⟨i, q, row, hc⟩
      · exact hsame (by rw [Database.countSigningKeys, hk]; rfl)
      · rcases hc.effect with he | ⟨now, hr⟩
        · exact hsame (by rw [he])
        · have hadd := count_replaceSigningKey hr p.id
          by_cases hrow : row.projectId = p.id
          · obtain ⟨project', hq, -, -, p₁, hp₁, hs₁, hi₁⟩ := hc.spec
            obtain ⟨p₂, hp₂, hi₂, hs₂⟩ := (grows_le (r := r) (Nat.le_of_lt hmn)).projects p₁ hp₁
            obtain rfl := Database.project_eq_of_id hp₂ hp (hi₂.trans (hi₁.trans hrow))
            have hproject : project' = project := hs₁.symm.trans (hs₂.symm.trans hs)
            subst hproject
            have hreplaces : r.ReplacesAt project' i m :=
              ⟨q, row, hc, hq, ne_of_replaceSigningKey hr⟩
            rcases hm with hm | ⟨-, psk, hpsk⟩
            · rw [if_pos hrow, hm] at hadd
              exact Or.inr ⟨hadd, row, hc.stores hq hr⟩
            · exact absurd hpsk (absent hu hreplaces psk)
          · exact hsame (by rw [hadd, if_neg hrow, Nat.add_zero])
  rcases hcount n le_rfl with h | ⟨h, -⟩ <;> omega

end UpsertRun

def returned (task : Task Interface UpsertProjectRequest UpsertProjectResponse) :
    Option (Text × Text) :=
  match task.rest with
  | .done (.ok (.noContent (some publicKey))) => some (task.request.slug, publicKey)
  | _ => none

theorem returns_of_returned {publicKey : Text}
    (h : ((r.pool n).tasks[i]?).bind returned = some (project.text, publicKey)) :
    r.Returns project i n publicKey := by
  obtain ⟨⟨q, rest⟩, ht, hreturned⟩ := Option.bind_eq_some_iff.mp h
  unfold returned at hreturned
  split at hreturned
  · rename_i publicKey' hrest
    simp only [Option.some.injEq, Prod.mk.injEq] at hreturned
    obtain ⟨hslug, rfl⟩ := hreturned
    obtain rfl : rest = .done (.ok (.noContent (some publicKey'))) := hrest
    exact ⟨q, ProjectSlug.parse_eq_ok.mpr hslug.symm, ht⟩
  · cases hreturned

theorem never_rotates_iff (r : UpsertRun) (project : ProjectSlug) :
    r.NeverRotates project ↔ r.Uninterrupted project := by
  constructor
  · rintro h i k l - hreplace - m - hml j ⟨q, row, hc, hq, hne⟩
    rcases hc.effect with he | ⟨now, hr⟩
    · exact hne he
    · have hm := hc.stores hq hr
      have hl := h.kept (m + 1) l hml row hm
      exact hreplace.retires hl (h.kept l (l + 1) (Nat.le_succ l) row hl)
  · intro hu
    exact ⟨fun m n hmn psk hs => UpsertRun.kept hu hmn hs,
      fun n i publicKey hr => hr.active hu, fun n p hp hs => UpsertRun.once hu hp hs⟩

end

section Examples

open TokenExpiry Depot.Server Confinement

attribute [local instance] standardBase64 exampleEd25519 twoEd25519Bytes namedCipher

def upsertExample : UpsertProjectRequest :=
  ⟨none, "example".toList, none, "Example".toList, true⟩

def racingScript : List (Choice UpsertProjectRequest) :=
  [.submit upsertExample, .submit upsertExample] ++ List.replicate 3 (.advance 0) ++
    List.replicate 3 (.advance 1) ++ List.replicate 7 (.advance 0) ++ List.replicate 7 (.advance 1)

def racing : UpsertRun where
  state := ⟨constantAuthorizer ⟨"admin".toList, none, .bootstrapAdmin⟩,
    exampleServer.storageCatalog,
    some exampleKek⟩
  start := ⟨{}, fun _ _ => none⟩
  schedule :=
    { choice := fun n => racingScript.getD n .idle
      env := fun n =>
        { exampleCreation with
          uuid := BitVec.ofNat 128 (n + 1)
          random := fun length =>
            ⟨List.replicate length (if length = 32 ∧ 15 ≤ n then 1 else 0),
              List.length_replicate⟩ } }

def firstKey : Text := "example-1:O2onvM62pC1io6jQKm8Nc2UyFXcd4kOmOsBIoYtZ2ik=".toList

def secondKey : Text := "example-2:iojj3XQJ8ZX9UtstPLpdcspnCb8dlBIb83SIAbQPb1w=".toList

theorem second_ensure_rotates :
    ((racing.db 15).activeSigningKey exampleProject).map ProjectSigningKeyRecord.publicKey =
      some firstKey ∧
    racing.Returns exampleProject 0 22 firstKey ∧ racing.Returns exampleProject 1 22 secondKey ∧
    ((racing.db 22).activeSigningKey exampleProject).map ProjectSigningKeyRecord.publicKey =
      some secondKey ∧
    ¬ racing.NeverRotates exampleProject := by
  have hrun : ((racing.db 15).activeSigningKey exampleProject).map
        ProjectSigningKeyRecord.publicKey = some firstKey ∧
      ((racing.pool 22).tasks[0]?).bind returned = some (exampleProject.text, firstKey) ∧
      ((racing.pool 22).tasks[1]?).bind returned = some (exampleProject.text, secondKey) ∧
      ((racing.db 22).activeSigningKey exampleProject).map ProjectSigningKeyRecord.publicKey =
        some secondKey := by decide +kernel
  obtain ⟨hfirst, h₀, h₁, hsecond⟩ := hrun
  have hreturns := returns_of_returned h₀
  refine ⟨hfirst, hreturns, returns_of_returned h₁, hsecond, fun h => ?_⟩
  have heq := hsecond.symm.trans (h.same 22 0 firstKey hreturns)
  exact absurd heq (by decide)

end Examples

end EnsuredKeys
