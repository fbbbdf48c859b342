import ProjectCache.Depot.Machine

namespace Depot

open Textual Nix Project Calendar Tables Store Db Programs

inductive TableName where
  | projects
  | upstreamCaches
  | projectUpstreams
  | pathInfos
  | storageObjects
  | builds
  | buildPaths
  | projectRefs
  | pathObjects
  | pins
  | retentionPolicies
  | retentionRules
  | accessTokens
  | accessTokenRefPatterns
  | projectOidcIdentities
  | projectSigningKeys
  deriving DecidableEq, Repr

def Call.writes : Call → List TableName
  | .insertProject _ => [.projects]
  | .insertBuild _ _ _ _ => [.builds]
  | .insertPathInfo _ => [.pathInfos]
  | .attachBuildPath _ _ => [.buildPaths]
  | .publishBuild _ _ _ _ => [.projectRefs, .builds]
  | .upsertStorageObject _ _ _ => [.storageObjects]
  | .linkPathObject _ _ _ => [.pathObjects]
  | .upsertPin _ => [.pins]
  | .deletePin _ _ => [.pins]
  | .replaceRetentionPolicy _ _ => [.retentionPolicies, .retentionRules]
  | .deleteRetentionPolicy _ => [.retentionPolicies]
  | .clearDeletedState _ => [.storageObjects]
  | .markStale _ => [.storageObjects]
  | .deleteStorageObjects _ => [.storageObjects]
  | .upsertUpstreamCache _ => [.upstreamCaches]
  | .setUpstreamEnabled _ _ => [.upstreamCaches]
  | .linkProjectUpstream _ _ => [.projectUpstreams]
  | .unlinkProjectUpstream _ _ => [.projectUpstreams]
  | .insertAccessToken _ _ _ _ _ _ => [.accessTokens, .accessTokenRefPatterns]
  | .revokeAccessToken _ _ => [.accessTokens]
  | .replaceOidcIdentity _ _ _ _ => [.projectOidcIdentities]
  | .deleteOidcIdentity _ _ _ => [.projectOidcIdentities]
  | .replaceSigningKey _ => [.projectSigningKeys]
  | _ => []

structure Frame (tables : List TableName) (a b : Database) : Prop where
  projects : .projects ∉ tables → b.projects = a.projects
  upstreamCaches : .upstreamCaches ∉ tables → b.upstreamCaches = a.upstreamCaches
  projectUpstreams : .projectUpstreams ∉ tables → b.projectUpstreams = a.projectUpstreams
  pathInfos : .pathInfos ∉ tables → b.pathInfos = a.pathInfos
  storageObjects : .storageObjects ∉ tables → b.storageObjects = a.storageObjects
  builds : .builds ∉ tables → b.builds = a.builds
  buildPaths : .buildPaths ∉ tables → b.buildPaths = a.buildPaths
  projectRefs : .projectRefs ∉ tables → b.projectRefs = a.projectRefs
  pathObjects : .pathObjects ∉ tables → b.pathObjects = a.pathObjects
  pins : .pins ∉ tables → b.pins = a.pins
  retentionPolicies : .retentionPolicies ∉ tables → b.retentionPolicies = a.retentionPolicies
  retentionRules : .retentionRules ∉ tables → b.retentionRules = a.retentionRules
  accessTokens : .accessTokens ∉ tables → b.accessTokens = a.accessTokens
  accessTokenRefPatterns : .accessTokenRefPatterns ∉ tables →
    b.accessTokenRefPatterns = a.accessTokenRefPatterns
  projectOidcIdentities : .projectOidcIdentities ∉ tables →
    b.projectOidcIdentities = a.projectOidcIdentities
  projectSigningKeys : .projectSigningKeys ∉ tables →
    b.projectSigningKeys = a.projectSigningKeys

theorem Frame.refl (tables : List TableName) (a : Database) : Frame tables a a := by
  constructor <;> exact fun _ => rfl

theorem Frame.trans {tables : List TableName} {a b c : Database} (hab : Frame tables a b)
    (hbc : Frame tables b c) : Frame tables a c where
  projects := fun h => (hbc.projects h).trans (hab.projects h)
  upstreamCaches := fun h => (hbc.upstreamCaches h).trans (hab.upstreamCaches h)
  projectUpstreams := fun h => (hbc.projectUpstreams h).trans (hab.projectUpstreams h)
  pathInfos := fun h => (hbc.pathInfos h).trans (hab.pathInfos h)
  storageObjects := fun h => (hbc.storageObjects h).trans (hab.storageObjects h)
  builds := fun h => (hbc.builds h).trans (hab.builds h)
  buildPaths := fun h => (hbc.buildPaths h).trans (hab.buildPaths h)
  projectRefs := fun h => (hbc.projectRefs h).trans (hab.projectRefs h)
  pathObjects := fun h => (hbc.pathObjects h).trans (hab.pathObjects h)
  pins := fun h => (hbc.pins h).trans (hab.pins h)
  retentionPolicies := fun h => (hbc.retentionPolicies h).trans (hab.retentionPolicies h)
  retentionRules := fun h => (hbc.retentionRules h).trans (hab.retentionRules h)
  accessTokens := fun h => (hbc.accessTokens h).trans (hab.accessTokens h)
  accessTokenRefPatterns := fun h =>
    (hbc.accessTokenRefPatterns h).trans (hab.accessTokenRefPatterns h)
  projectOidcIdentities := fun h =>
    (hbc.projectOidcIdentities h).trans (hab.projectOidcIdentities h)
  projectSigningKeys := fun h => (hbc.projectSigningKeys h).trans (hab.projectSigningKeys h)

theorem Frame.mono {few many : List TableName} {a b : Database} (h : Frame few a b)
    (hsub : ∀ t ∈ few, t ∈ many) : Frame many a b where
  projects := fun hn => h.projects (fun hm => hn (hsub _ hm))
  upstreamCaches := fun hn => h.upstreamCaches (fun hm => hn (hsub _ hm))
  projectUpstreams := fun hn => h.projectUpstreams (fun hm => hn (hsub _ hm))
  pathInfos := fun hn => h.pathInfos (fun hm => hn (hsub _ hm))
  storageObjects := fun hn => h.storageObjects (fun hm => hn (hsub _ hm))
  builds := fun hn => h.builds (fun hm => hn (hsub _ hm))
  buildPaths := fun hn => h.buildPaths (fun hm => hn (hsub _ hm))
  projectRefs := fun hn => h.projectRefs (fun hm => hn (hsub _ hm))
  pathObjects := fun hn => h.pathObjects (fun hm => hn (hsub _ hm))
  pins := fun hn => h.pins (fun hm => hn (hsub _ hm))
  retentionPolicies := fun hn => h.retentionPolicies (fun hm => hn (hsub _ hm))
  retentionRules := fun hn => h.retentionRules (fun hm => hn (hsub _ hm))
  accessTokens := fun hn => h.accessTokens (fun hm => hn (hsub _ hm))
  accessTokenRefPatterns := fun hn => h.accessTokenRefPatterns (fun hm => hn (hsub _ hm))
  projectOidcIdentities := fun hn => h.projectOidcIdentities (fun hm => hn (hsub _ hm))
  projectSigningKeys := fun hn => h.projectSigningKeys (fun hm => hn (hsub _ hm))

variable {db db' : Database}

theorem insertProject_eq_some {row : ProjectRow} (h : db.insertProject row = some db') :
    ∃ t, db' = { db with projects := t } ∧ db.projects.upsert row (fun p => p.slug = row.slug)
      (fun p => { p with displayName := row.displayName, isPublic := row.isPublic,
                         storageId := row.storageId }) ⟨fun _ _ => rfl⟩ = some t := by
  obtain ⟨t, ht, rfl⟩ := Option.map_eq_some_iff.mp h
  exact ⟨t, rfl, ht⟩

theorem insertBuild_eq_some {id projectId : Uuid} {refName : Text} {revision : Option Text}
    {now : SqliteTime} (h : db.insertBuild id projectId refName revision now = some db') :
    ∃ t, db' = { db with builds := t } ∧
      db.builds.insert ⟨id, projectId, refName, revision, .pending, now, none⟩ = some t := by
  unfold Database.insertBuild at h
  split at h
  · obtain ⟨t, ht, rfl⟩ := Option.map_eq_some_iff.mp h
    exact ⟨t, rfl, ht⟩
  · cases h

theorem attachBuildPath_eq_some {buildId : Uuid} {p : StorePathHash} :
    db.attachBuildPath buildId p = some db' ↔
      ((∃ b, db.build buildId = some b) ∧ ∃ pi, db.pathInfo p = some pi) ∧
      db' = { db with buildPaths := db.buildPaths.insertOrIgnore ⟨buildId, p⟩ } := by
  unfold Database.attachBuildPath
  simp only [← Option.isSome_iff_exists, ← Bool.and_eq_true]
  split
  · rename_i h
    simp [h, eq_comm]
  · rename_i h
    simp [h]

theorem publishBuild_eq_some {projectId : Uuid} {refName : Text} {buildId : Uuid}
    {finalizedAt : UtcDateTime} {now : SqliteTime} :
    db.publishBuild projectId refName buildId finalizedAt now = some db' ↔
      (∃ p ∈ db.projects.rows, p.id = projectId) ∧ (∃ b, db.build buildId = some b) ∧
      ∃ t, db.projectRefs.upsert ⟨projectId, refName, buildId, now⟩
          (fun r => r.projectId = projectId && r.refName = refName)
          (fun r => { r with buildId, updatedAt := now }) ⟨fun _ _ => rfl⟩ = some t ∧
        db' = { db with
          projectRefs := t
          builds := db.builds.update (fun b => b.id = buildId)
            (Database.markFinalized finalizedAt) ⟨fun _ _ => rfl⟩ } := by
  unfold Database.publishBuild
  split
  · rename_i h
    simp only [Bool.and_eq_true, List.any_eq_true, decide_eq_true_eq,
      Option.isSome_iff_exists] at h
    simp only [Option.bind_eq_bind, Option.bind_eq_some_iff, Option.pure_def, Option.some.injEq]
    constructor
    · rintro ⟨t, ht, rfl⟩
      exact ⟨h.1, h.2, t, ht, rfl⟩
    · rintro ⟨-, -, t, ht, rfl⟩
      exact ⟨t, ht, rfl⟩
  · rename_i h
    simp only [Bool.and_eq_true, List.any_eq_true, decide_eq_true_eq, Option.isSome_iff_exists,
      not_and] at h
    simp only [reduceCtorEq, false_iff, not_and]
    exact fun hp hb => absurd hb (h hp)

theorem linkPathObject_eq_some {p : StorePathHash} {o : Text} {kind : PathObjectKind} :
    db.linkPathObject p o kind = some db' ↔ (∃ pi, db.pathInfo p = some pi) ∧
      db' = { db with pathObjects := db.pathObjects.insertOrIgnore ⟨p, o, kind⟩ } := by
  unfold Database.linkPathObject
  rw [← Option.isSome_iff_exists]
  split
  · rename_i h
    simp [h, eq_comm]
  · rename_i h
    simp [h]

theorem upsertPin_eq_some {row : PinRow} (h : db.upsertPin row = some db') :
    (∃ pi, db.pathInfo row.storePathHash = some pi) ∧ ∃ t, db' = { db with pins := t } ∧
      db.pins.upsert row (fun pin => pin.scopeKey = row.scopeKey && pin.name = row.name)
        (fun pin => { pin with projectId := row.projectId, storePathHash := row.storePathHash,
                               storePath := row.storePath }) ⟨fun _ _ => rfl⟩ = some t := by
  unfold Database.upsertPin at h
  split at h
  · rename_i hc
    obtain ⟨t, ht, rfl⟩ := Option.map_eq_some_iff.mp h
    exact ⟨Option.isSome_iff_exists.mp (Bool.and_eq_true_iff.mp hc).2, t, rfl, ht⟩
  · cases h

theorem replaceRetentionPolicy_eq_some {policy : RetentionPolicyRow}
    {rules : List RetentionRuleRow} (h : db.replaceRetentionPolicy policy rules = some db') :
    ∃ t r, db' = { db with retentionPolicies := t, retentionRules := r } := by
  unfold Database.replaceRetentionPolicy at h
  split at h
  · simp only [Option.bind_eq_bind, Option.bind_eq_some_iff, Option.pure_def,
      Option.some.injEq] at h
    obtain ⟨t, -, r, -, rfl⟩ := h
    exact ⟨t, r, rfl⟩
  · cases h

theorem upsertUpstreamCache_eq_some {row : UpstreamCacheRow}
    (h : db.upsertUpstreamCache row = some db') : ∃ t, db' = { db with upstreamCaches := t } := by
  obtain ⟨t, -, rfl⟩ := Option.map_eq_some_iff.mp h
  exact ⟨t, rfl⟩

theorem linkProjectUpstream_eq_some {projectId upstreamId : Uuid}
    (h : db.linkProjectUpstream projectId upstreamId = some db') :
    ∃ t, db' = { db with projectUpstreams := t } := by
  unfold Database.linkProjectUpstream at h
  split at h
  · cases h
    exact ⟨_, rfl⟩
  · cases h

theorem insertAccessToken_eq_some {row : AccessTokenRow} {refPatterns : List Text}
    (h : db.insertAccessToken row refPatterns = some db') :
    (∃ p ∈ db.projects.rows, p.id = row.projectId) ∧
    ∃ t r, db' = { db with accessTokens := t, accessTokenRefPatterns := r } ∧
      db.accessTokens.insert row = some t ∧
      Database.insertPatterns row.id refPatterns db.accessTokenRefPatterns = some r := by
  unfold Database.insertAccessToken at h
  split at h
  · rename_i hp
    simp only [Option.bind_eq_bind, Option.bind_eq_some_iff, Option.pure_def,
      Option.some.injEq] at h
    obtain ⟨t, ht, r, hr, rfl⟩ := h
    exact ⟨by simpa using hp, t, r, rfl, ht, hr⟩
  · cases h

theorem replaceOidcIdentity_eq_some {projectId : Uuid} {provider repository : Text}
    {refPatterns : List Text}
    (h : db.replaceOidcIdentity projectId provider repository refPatterns = some db') :
    ∃ t, db' = { db with projectOidcIdentities := t } := by
  unfold Database.replaceOidcIdentity at h
  split at h
  · obtain ⟨t, -, rfl⟩ := Option.map_eq_some_iff.mp h
    exact ⟨t, rfl⟩
  · cases h

theorem replaceSigningKey_eq_some {row : ProjectSigningKeyRow} {now : SqliteTime}
    (h : db.replaceSigningKey row now = some db') :
    (∃ p ∈ db.projects.rows, p.id = row.projectId) ∧
    ∃ t, db' = { db with projectSigningKeys := t } ∧
      (db.projectSigningKeys.relax (Database.retireKey row.projectId now)
        Database.clash_of_retireKey).insert row = some t := by
  unfold Database.replaceSigningKey at h
  split at h
  · rename_i hp
    obtain ⟨t, ht, rfl⟩ := Option.map_eq_some_iff.mp h
    exact ⟨by simpa using hp, t, rfl, ht⟩
  · cases h

theorem World.written_ok {w : World} {table : Text} {result : Option Database} {u : Unit}
    (h : (w.written table result).2 = .ok u) :
    ∃ db', result = some db' ∧ (w.written table result).1 = { w with db := db' } := by
  cases result with
  | none => cases h
  | some db' => exact ⟨db', rfl, rfl⟩

theorem frame_written {tables : List TableName} {w : World} {table : Text}
    {result : Option Database} (h : ∀ db', result = some db' → Frame tables w.db db') :
    Frame tables w.db (w.written table result).1.db := by
  cases result with
  | none => exact Frame.refl _ _
  | some db' => exact h db' rfl

theorem carryOut_frame (c : Call) (e : Env) (w : World) :
    Frame c.writes w.db (carryOut c e w).1.db := by
  cases c with
  | insertProject row =>
    refine frame_written (fun db' h => ?_)
    obtain ⟨t, rfl, -⟩ := insertProject_eq_some h
    constructor <;> simp [Call.writes]
  | insertBuild id projectId refName revision =>
    refine frame_written (fun db' h => ?_)
    obtain ⟨t, rfl, -⟩ := insertBuild_eq_some h
    constructor <;> simp [Call.writes]
  | attachBuildPath buildId p =>
    refine frame_written (fun db' h => ?_)
    obtain ⟨-, rfl⟩ := attachBuildPath_eq_some.mp h
    constructor <;> simp [Call.writes]
  | publishBuild projectId refName buildId finalizedAt =>
    refine frame_written (fun db' h => ?_)
    obtain ⟨-, -, t, -, rfl⟩ := publishBuild_eq_some.mp h
    constructor <;> simp [Call.writes]
  | linkPathObject p o kind =>
    refine frame_written (fun db' h => ?_)
    obtain ⟨-, rfl⟩ := linkPathObject_eq_some.mp h
    constructor <;> simp [Call.writes]
  | upsertPin row =>
    refine frame_written (fun db' h => ?_)
    obtain ⟨-, t, rfl, -⟩ := upsertPin_eq_some h
    constructor <;> simp [Call.writes]
  | replaceRetentionPolicy policy rules =>
    refine frame_written (fun db' h => ?_)
    obtain ⟨t, r, rfl⟩ := replaceRetentionPolicy_eq_some h
    constructor <;> simp [Call.writes]
  | upsertUpstreamCache row =>
    refine frame_written (fun db' h => ?_)
    obtain ⟨t, rfl⟩ := upsertUpstreamCache_eq_some h
    constructor <;> simp [Call.writes]
  | linkProjectUpstream projectId upstreamId =>
    refine frame_written (fun db' h => ?_)
    obtain ⟨t, rfl⟩ := linkProjectUpstream_eq_some h
    constructor <;> simp [Call.writes]
  | insertAccessToken id tokenHash name projectId expiresAt refPatterns =>
    refine frame_written (fun db' h => ?_)
    obtain ⟨-, t, r, rfl, -, -⟩ := insertAccessToken_eq_some h
    constructor <;> simp [Call.writes]
  | replaceOidcIdentity projectId provider repository refPatterns =>
    refine frame_written (fun db' h => ?_)
    obtain ⟨t, rfl⟩ := replaceOidcIdentity_eq_some h
    constructor <;> simp [Call.writes]
  | replaceSigningKey row =>
    refine frame_written (fun db' h => ?_)
    obtain ⟨-, t, rfl, -⟩ := replaceSigningKey_eq_some h
    constructor <;> simp [Call.writes]
  | putStream storage o body =>
    simp only [carryOut, World.putStream]
    split <;> exact Frame.refl _ _
  | createMultipartUpload storage o =>
    simp only [carryOut, World.createMultipartUpload]
    split <;> exact Frame.refl _ _
  | completeMultipartUpload storage o uploadId parts contentLength =>
    simp only [carryOut, World.completeMultipartUpload]
    split
    · exact Frame.refl _ _
    · split
      · exact Frame.refl _ _
      · split
        · exact Frame.refl _ _
        · split <;> exact Frame.refl _ _
  | _ => constructor <;> simp [Call.writes, carryOut, World.answering, World.putBlob,
      Database.insertPathInfo, Database.upsertStorageObject, Database.deletePin,
      Database.deleteRetentionPolicy,
      Database.clearDeletedState, Database.markStale, Database.deleteStorageObjects,
      Database.setUpstreamEnabled, Database.unlinkProjectUpstream, Database.revokeAccessToken,
      Database.deleteOidcIdentity]

@[simp] theorem written_blobs (w : World) (table : Text) (db : Option Database) :
    (w.written table db).1.blobs = w.blobs := by
  cases db <;> rfl

@[simp] theorem answering_blobs {A : Type} (w : World) (result : A × Database) :
    (w.answering result).1.blobs = w.blobs := rfl

theorem putBlob_some {w : World} {s s' : StorageId} {o o' : Text} {blob : Blob}
    (h : (w.blobs s' o').isSome = true) :
    ((w.putBlob s o (some blob)).blobs s' o').isSome = true := by
  simp only [World.putBlob]
  split
  · rfl
  · exact h

theorem answer_state (c : Call) (e : Env) (w : World) :
    (answer c e w).1 = w ∨ (answer c e w).1 = (carryOut c e w).1 := by
  unfold answer
  split
  · exact Or.inr rfl
  · split
    · exact Or.inr rfl
    · exact Or.inl rfl
    · exact Or.inr rfl

theorem answer_of_ok {c : Call} {e : Env} {w : World} {r : c.Reply}
    (h : (answer c e w).2 = .ok r) : answer c e w = carryOut c e w := by
  unfold answer at h ⊢
  split
  · rfl
  · rename_i hl
    rw [if_neg hl] at h
    split at h <;> simp_all

theorem answer_of_answered {c : Call} {e : Env} {w : World} (h : e.outcome = .answered) :
    answer c e w = carryOut c e w := by
  unfold answer
  split
  · rfl
  · rw [h]

theorem answer_frame (c : Call) (e : Env) (w : World) :
    Frame c.writes w.db (answer c e w).1.db := by
  rcases answer_state c e w with h | h
  · rw [h]
    exact Frame.refl _ _
  · rw [h]
    exact carryOut_frame c e w

end Depot
