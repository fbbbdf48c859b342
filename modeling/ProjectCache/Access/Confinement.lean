import ProjectCache.Access.Permitted
import ProjectCache.Access.TokenExpiry
import ProjectCache.Publish.Publisher
import ProjectCache.Read.Isolation

namespace Confinement

open Textual Nix Project Calendar Tables Store Db Programs Auth Ingest Depot SqliteDatabase Access

structure ApiRun where
  api : WriteServer
  start : World
  schedule : Pool.Schedule machine HttpRequest

namespace ApiRun

variable [Base64] [WildMatch] [Sha256] (r : ApiRun)

def pool (n : Nat) : Pool machine HttpRequest WriteResponse :=
  Pool.run r.api.program ⟨r.start, []⟩ r.schedule n

def world (n : Nat) : World := (r.pool n).state

def db (n : Nat) : Database := (r.world n).db

def Happens (i n : Nat) (event : Prog.Event Interface) : Prop :=
  Pool.Happens r.api.program ⟨r.start, []⟩ r.schedule i n event

def Ran {A : Type} (i m n : Nat) (p rest : Action A) : Prop :=
  Pool.Ran r.api.program ⟨r.start, []⟩ r.schedule i m n p rest

variable {r}

theorem grows_le {m n : Nat} (h : m ≤ n) : Grows (r.db m) (r.db n) :=
  Pool.run_related (M := machine) (fun v w => Grows v.db w.db) (fun _ => Grows.refl _)
    Grows.trans answer_grows h

theorem makes_of_atCall {n i : Nat} {q : HttpRequest} {c : Call}
    {resume : Except Error c.Reply → Action WriteResponse} (hc : (r.pool n).AtCall i q c resume) :
    r.api.Makes q.request c :=
  (Pool.within_run r.api.program_uses (by simp [Pool.Within]) n).atCall hc

theorem Ran.select {i m n : Nat} {B : Type} {query : Database → B} {b : B}
    (h : r.Ran i m n (Depot.select query) (.done (.ok b))) :
    ∃ k, m ≤ k ∧ k < n ∧ r.schedule.choice k = .advance i ∧ b = query (r.db k) :=
  Publisher.ran_select h

end ApiRun

theorem published_of_ref_changed {c : Call} {e : Env} {w : World} {row : ProjectRefRow}
    (h : ¬ (row ∈ w.db.projectRefs.rows ↔ row ∈ (answer c e w).1.db.projectRefs.rows)) :
    ∃ b t, c = .publishBuild row.projectId row.refName b t := by
  cases c with
  | publishBuild p name b t =>
    rcases answer_state (.publishBuild p name b t) e w with hs | hs
    · rw [hs] at h
      exact absurd Iff.rfl h
    rw [hs] at h
    simp only [carryOut] at h
    cases hd : w.db.publishBuild p name b t e.sqliteNow with
    | none => simp [hd, World.written] at h
    | some db' =>
      obtain ⟨-, -, refs, hrefs, rfl⟩ := publishBuild_eq_some.mp hd
      simp only [hd, World.written] at h
      suffices hk : row.projectId = p ∧ row.refName = name from ⟨b, t, by rw [hk.1, hk.2]⟩
      by_contra hne
      refine h ⟨fun hr => ?_, fun hr => ?_⟩
      · rcases mem_of_upsert hrefs hr with hu | ⟨hp, -⟩
        · exact hu
        · simp only [Bool.and_eq_true, decide_eq_true_eq] at hp
          exact absurd hp hne
      · rcases Table.of_mem_upsert hrefs hr with ⟨hu, -⟩ | ⟨old, -, hp, rfl⟩ | rfl
        · exact hu
        · simp only [Bool.and_eq_true, decide_eq_true_eq] at hp
          exact absurd hp hne
        · exact absurd ⟨rfl, rfl⟩ hne
  | _ =>
    rw [(answer_frame _ _ _).projectRefs (by simp [Call.writes])] at h
    exact absurd Iff.rfl h

section

variable [WildMatch]

def RefAllowed (pattern : Option Text) (refName : Text) : Prop :=
  ∀ p ∈ pattern, WildMatch.isMatch p refName = true

theorem refPatternMatches_some {pattern : Option Text} {refName : Text} :
    refPatternMatches pattern (some refName) = true ↔ RefAllowed pattern refName := by
  cases pattern with
  | none => simp [refPatternMatches, RefAllowed]
  | some p => simp [refPatternMatches, RefAllowed]

theorem refPatternMatches_none {pattern : Option Text} :
    refPatternMatches pattern none = true ↔ pattern = none := by
  cases pattern with
  | none => simp [refPatternMatches]
  | some p => simp [refPatternMatches]

variable [Base64] [Sha256] (r : ApiRun)

inductive MayWrite (i m n : Nat) (slug : ProjectSlug) (refName : Text) :
    AuthenticatedIdentity → Prop
  | accessToken {identity : AuthenticatedIdentity} {token : AccessTokenIdentity}
    (hk : identity.kind = .accessToken token) {l k : Nat} {clock : UtcDateTime}
    (hml : m ≤ l) (hl : r.Happens i l ⟨.now, .ok clock⟩) (hlk : l < k) (hkn : k < n)
    (hi : r.schedule.choice k = .advance i) {record : AccessTokenRecord}
    (hrecord : record ∈ (r.db k).accessTokenRecords
      (fun t => t.id = token.tokenId && Database.activeAt clock t))
    (hslug : record.projectSlug = slug) (hallowed : RefAllowed record.refPattern refName) :
    MayWrite i m n slug refName identity
  | oidc {identity : AuthenticatedIdentity} {oidc : OidcIdentity} (hk : identity.kind = .oidc oidc)
    {provider repository : Text} (hprovider : identity.provider = some provider)
    (hrepository : oidc.repository = some repository) {k : Nat} (hmk : m ≤ k) (hkn : k < n)
    (hi : r.schedule.choice k = .advance i) {binding : ProjectOidcIdentityRecord}
    (hbinding : binding ∈ (r.db k).matchingIdentities provider repository)
    (hslug : binding.projectSlug = slug)
    (hallowed : oidc.refName = none ∧ binding.refPattern = none ∨
      oidc.refName = some refName ∧ RefAllowed binding.refPattern refName) :
    MayWrite i m n slug refName identity

variable {r}

theorem mayWrite_of_oidc {i m n : Nat} {identity : AuthenticatedIdentity} {oidc : OidcIdentity}
    {slug : ProjectSlug} {refName : Text} {principal : AuthorizedPrincipal}
    (hk : identity.kind = .oidc oidc)
    (h : r.Ran i m n (authorizeOidcProjectRef identity oidc slug refName)
      (.done (.ok principal))) : MayWrite r i m n slug refName identity := by
  unfold authorizeOidcProjectRef at h
  split at h
  · cases h
  rename_i hname
  obtain ⟨k₁, bindings, h₁, h₂⟩ := Pool.Ran.finished h
  obtain ⟨k₂, provider, h₃, h₄⟩ := Pool.Ran.finished h₁
  obtain ⟨k₃, repository, h₅, h₆⟩ := Pool.Ran.finished h₄
  obtain ⟨k, hk₃, hk₁, hi, rfl⟩ := ApiRun.Ran.select (Pool.Ran.of_mapError h₆)
  have hb : ((((r.db k).matchingIdentities provider repository).filter
      (fun binding => binding.projectSlug = slug)).filter
        (fun binding => refPatternMatches binding.refPattern oidc.refName)) ≠ [] := by
    intro hnil
    simp only [principalOfBindings, hnil, if_true] at h₂
    cases h₂
  obtain ⟨binding, hbinding⟩ := List.exists_mem_of_ne_nil _ hb
  simp only [List.mem_filter, decide_eq_true_eq] at hbinding
  obtain ⟨⟨hmem, hslug⟩, hmatch⟩ := hbinding
  have := h₃.le
  have := h₅.le
  have := h₂.le
  refine .oidc hk (Publisher.ran_orFail h₃) (Publisher.ran_orFail h₅) (by omega) (by omega) hi hmem
    hslug
    ?_
  cases ho : oidc.refName with
  | none =>
    rw [ho] at hmatch
    exact Or.inl ⟨rfl, refPatternMatches_none.mp hmatch⟩
  | some name =>
    simp only [ho, Option.any_some, ne_eq, decide_not, Bool.not_eq_true', decide_eq_false_iff_not,
      not_not] at hname
    subst hname
    rw [ho] at hmatch
    exact Or.inr ⟨rfl, refPatternMatches_some.mp hmatch⟩

theorem mayWrite_of_accessToken {i m n : Nat} {identity : AuthenticatedIdentity}
    {token : AccessTokenIdentity} {slug : ProjectSlug} {refName : Text}
    {principal : AuthorizedPrincipal} (hk : identity.kind = .accessToken token)
    (h : r.Ran i m n (authorizeAccessTokenProjectRef identity token.tokenId slug refName)
      (.done (.ok principal))) : MayWrite r i m n slug refName identity := by
  obtain ⟨k₁, records, h₁, h₂⟩ := Pool.Ran.finished h
  obtain ⟨k₂, listed, h₃, h₄⟩ := Pool.Ran.finished h₁
  obtain ⟨k₃, clock, h₅, h₆⟩ := Pool.Ran.finished (Pool.Ran.of_mapError h₃)
  obtain ⟨l, hml, hl, hh⟩ := Pool.Ran.performed h₅
  obtain ⟨k, hk₃, hk₂, hi, rfl⟩ := ApiRun.Ran.select h₆
  split at h₄
  · cases h₄
  have hle := h₄.le
  cases h₄
  have hb : ((((r.db k).accessTokenRecords
      (fun t => t.id = token.tokenId && Database.activeAt clock t)).filter
        (fun record => record.projectSlug = slug)).filter
          (fun record => refPatternMatches record.refPattern (some refName))) ≠ [] := by
    intro hnil
    simp only [principalOfRecords, hnil, if_true] at h₂
    cases h₂
  obtain ⟨record, hrecord⟩ := List.exists_mem_of_ne_nil _ hb
  simp only [List.mem_filter, decide_eq_true_eq] at hrecord
  obtain ⟨⟨hmem, hslug⟩, hmatch⟩ := hrecord
  have := h₂.le
  exact .accessToken hk hml hh (by omega) (by omega) hi hmem hslug
    (refPatternMatches_some.mp hmatch)

theorem mayWrite_of_projectRef {i m n : Nat} {identity : AuthenticatedIdentity}
    {slug : ProjectSlug} {refName : Text} {principal : AuthorizedPrincipal}
    (h : r.Ran i m n (authorizeProjectRef identity slug refName) (.done (.ok principal))) :
    identity.kind = .bootstrapAdmin ∨ MayWrite r i m n slug refName identity := by
  unfold authorizeProjectRef at h
  cases hk : identity.kind with
  | bootstrapAdmin => exact Or.inl rfl
  | oidc oidc =>
    rw [hk] at h
    exact Or.inr (mayWrite_of_oidc hk h)
  | accessToken token =>
    rw [hk] at h
    exact Or.inr (mayWrite_of_accessToken hk h)

theorem MayWrite.later {i m n o : Nat} {slug : ProjectSlug} {refName : Text}
    {identity : AuthenticatedIdentity} (h : MayWrite r i m n slug refName identity) (hno : n ≤ o) :
    MayWrite r i m o slug refName identity := by
  cases h with
  | accessToken hk hml hl hlk hkn hi hrecord hslug hallowed =>
    exact .accessToken hk hml hl hlk (by omega) hi hrecord hslug hallowed
  | oidc hk hprovider hrepository hmk hkn hi hbinding hslug hallowed =>
    exact .oidc hk hprovider hrepository hmk (by omega) hi hbinding hslug hallowed

def Identified (i m : Nat) (q : HttpRequest) (identity : AuthenticatedIdentity) : Prop :=
  r.Ran i 0 m (r.api.authorizer.authorizeBearer (bearerFromHeaders q.authorization))
    (.done (.ok identity))

end

section

variable [WildMatch] [Base64] [Sha256] {r : ApiRun}

theorem granted_of_requireBuildAccess {i n : Nat} {q : HttpRequest} {b : Uuid}
    (h : r.Ran i 0 n (requireBuildAccess r.api.authorizer q.authorization b) (.done (.ok ()))) :
    ∃ k < n, ∃ context, (r.db k).buildContext b = some context ∧
      ∃ m identity, Identified (r := r) i m q identity ∧ (identity.kind = .bootstrapAdmin ∨
        MayWrite r i m n context.projectSlug context.refName identity) := by
  obtain ⟨k₁, found, h₁, h₂⟩ := Pool.Ran.finished h
  obtain ⟨k₂, context, h₃, h₄⟩ := Pool.Ran.finished h₂
  obtain ⟨k, hk, hk₁, hi, rfl⟩ := ApiRun.Ran.select h₁
  obtain ⟨k₃, identity, h₅, h₆⟩ := Pool.Ran.finished h₄
  obtain ⟨k₄, principal, h₇, h₈⟩ := Pool.Ran.finished h₆
  have hle := h₂.le
  refine ⟨k, by omega, context, Publisher.ran_orFail h₃, k₃, identity,
    (Pool.Ran.of_mapError h₅).earlier (Nat.zero_le _), ?_⟩
  exact (mayWrite_of_projectRef h₇).imp_right (fun hm => hm.later h₈.le)

end

section

variable [WildMatch] [Base64] [Sha256] (r : ApiRun)

def Works (i n : Nat) (q : HttpRequest) : Prop :=
  ∃ rest, (r.pool n).tasks[i]? = some ⟨q, rest⟩

def AdminsOnlyAdminister : Prop :=
  ∀ i n q request m identity, Works r i n q → q.request = .service request →
    Identified (r := r) i m q identity → identity.kind ≠ .bootstrapAdmin

def RefWritesConfined : Prop :=
  ∀ n (row : ProjectRefRow),
    ¬ (row ∈ (r.db n).projectRefs.rows ↔ row ∈ (r.db (n + 1)).projectRefs.rows) →
      ∃ i q b, r.schedule.choice n = .advance i ∧ Works r i n q ∧
        q.request = .service (.finalizeBuild b) ∧
          ∃ p ∈ (r.db n).projects.rows, p.id = row.projectId ∧ ∃ m identity,
            Identified (r := r) i m q identity ∧ MayWrite r i m n p.slug row.refName identity

variable {r}

theorem publication_of_atCall {n i : Nat} {q : HttpRequest} {p b : Uuid} {name : Text}
    {t : UtcDateTime} {resume : Except Error Unit → Action WriteResponse}
    (hc : (r.pool n).AtCall i q (.publishBuild p name b t) resume) :
    q.request = .service (.finalizeBuild b) ∧ ∃ k ≤ n,
      r.Ran i 0 k (requireBuildAccess r.api.authorizer q.authorization b) (.done (.ok ())) ∧
        ∃ k', k ≤ k' ∧ k' < n ∧ ∃ context, (r.db k').buildContext b = some context ∧
          name = context.refName ∧ ∃ l < n, ∃ row,
            (r.db l).projectBySlug context.projectSlug = some row ∧ row.id = p := by
  have hran : r.Ran i 0 n (r.api.program q) (.call (.publishBuild p name b t) resume) :=
    Pool.ran_of_task rfl hc
  have hno : ¬ FrozenBuild.isPublish (.publishBuild p name b t) = false := by
    simp [FrozenBuild.isPublish]
  obtain ⟨k, u, hgate, hcarry⟩ := Pool.Ran.after hran
    (uses_require FrozenBuild.reads_not_isPublish r.api _ _) hno
  have hq : q.request = .service (.finalizeBuild b) :=
    (ApiRun.makes_of_atCall hc).publishes
  refine ⟨hq, k, hcarry.le, ?_⟩
  rw [hq] at hgate hcarry
  obtain ⟨next, hservice⟩ := Pool.Ran.of_map hcarry
  obtain ⟨next', hfinalize⟩ := Pool.Ran.of_map hservice
  obtain ⟨-, ⟨k', hkk', hk'n, context, hcontext, hname, hrow⟩, -⟩ :=
    Publisher.ran_publish hfinalize
  exact ⟨hgate, k', hkk', hk'n, context, hcontext, hname, hrow⟩

theorem publisher_of_ref_changed {n : Nat} {row : ProjectRefRow}
    (h : ¬ (row ∈ (r.db n).projectRefs.rows ↔ row ∈ (r.db (n + 1)).projectRefs.rows)) :
    ∃ i q b t resume, r.schedule.choice n = .advance i ∧
      (r.pool n).AtCall i q (.publishBuild row.projectId row.refName b t) resume := by
  have hm : (r.pool n).Moves r.api.program (r.schedule.choice n) (r.schedule.env n)
      (r.pool (n + 1)) := Pool.moves_next _ _ _
  unfold ApiRun.db ApiRun.world at h
  generalize r.pool n = now, r.pool (n + 1) = after at h hm ⊢
  cases hm with
  | submit q hq => exact absurd Iff.rfl h
  | stay => exact absurd Iff.rfl h
  | advance i q c resume hi hc =>
    obtain ⟨b, t, rfl⟩ := published_of_ref_changed h
    exact ⟨i, q, b, t, resume, hi, hc⟩

theorem ref_change_granted {n : Nat} {row : ProjectRefRow}
    (h : ¬ (row ∈ (r.db n).projectRefs.rows ↔ row ∈ (r.db (n + 1)).projectRefs.rows)) :
    ∃ i q b, r.schedule.choice n = .advance i ∧ Works r i n q ∧
      q.request = .service (.finalizeBuild b) ∧
        ∃ p ∈ (r.db n).projects.rows, p.id = row.projectId ∧ ∃ m identity,
          Identified (r := r) i m q identity ∧
            (identity.kind = .bootstrapAdmin ∨ MayWrite r i m n p.slug row.refName identity) := by
  obtain ⟨i, q, b, t, resume, hi, hc⟩ := publisher_of_ref_changed h
  obtain ⟨hq, k₁, hk₁, hgate, k', hkk', hk'n, context', hcontext', hname, l, hl, p, hp, hpid⟩ :=
    publication_of_atCall hc
  obtain ⟨k, hk, context, hcontext, m, identity, hid, hgranted⟩ :=
    granted_of_requireBuildAccess hgate
  obtain ⟨-, hslug, href⟩ := (ApiRun.grows_le (by omega : k ≤ k')).buildContext hcontext hcontext'
  obtain ⟨p', hp', hpid'⟩ := (ApiRun.grows_le hl.le).projectBySlug hp
  obtain ⟨hpm, hps⟩ := Database.projectBySlug_eq_some.mp hp'
  refine ⟨i, q, b, hi, ⟨_, hc⟩, hq, p', hpm, hpid'.trans hpid, m, identity, hid, ?_⟩
  rw [hps, hslug, hname, href]
  exact hgranted.imp_right (fun hm => hm.later hk₁)

theorem refs_confined (h : AdminsOnlyAdminister r) : RefWritesConfined r := by
  intro n row hrow
  obtain ⟨i, q, b, hi, hw, hq, p, hp, hpid, m, identity, hid, hgranted⟩ := ref_change_granted hrow
  exact ⟨i, q, b, hi, hw, hq, p, hp, hpid, m, identity, hid,
    hgranted.resolve_left (h i n q _ m identity hw hq hid)⟩

end

section Examples

open Depot.Server Isolation

attribute [local instance] standardBase64 standardWildMatch TokenExpiry.exampleSha256

def actionsIdentity (refName : Option Text) : AuthenticatedIdentity where
  subject := "repo:example/app".toList
  provider := some "github".toList
  kind := .oidc ⟨"issuer".toList, some "example/app".toList, refName⟩

def constantAuthorizer (identity : AuthenticatedIdentity) : Authorizer where
  authorizeBearer := fun _ => return identity
  reads := fun _ => trivial

def pendingWorld : World where
  db := {
    projects := .single ⟨1, exampleSlug, "Example".toList, true, .main⟩
    pathInfos := .single helloRow
    builds := .single ⟨3, 1, "main".toList, none, .pending, midnight, none⟩
    buildPaths := .single ⟨3, helloHash⟩
    projectOidcIdentities := .single ⟨1, "github".toList, "example/app".toList, "main".toList⟩ }
  blobs := fun s o =>
    if s = .main ∧ o = helloRow.url then
      some (DepotStorage.stored ⟨.main, .filesystem⟩ [1, 2, 3, 4, 5] none)
    else none

def finalizingScript : List (Choice HttpRequest) :=
  .submit ⟨none, .service (.finalizeBuild 3)⟩ :: List.replicate 12 (.advance 0)

def finalizingRun : ApiRun where
  api := ⟨exampleServer, constantAuthorizer (actionsIdentity (some "main".toList))⟩
  start := pendingWorld
  schedule := { choice := fun n => finalizingScript.getD n .idle, env := moment }

theorem finalizing_adminsOnlyAdminister : AdminsOnlyAdminister finalizingRun := by
  intro i n q request m identity _ _ h
  cases h
  exact fun hk => nomatch hk

theorem finalizing_refs_confined :
    (finalizingRun.db 12).projectRefs.rows = [] ∧
      (finalizingRun.db 13).projectRefs.rows.map ProjectRefRow.buildId = [3] ∧
      RefWritesConfined finalizingRun := by
  have hrun : (finalizingRun.db 12).projectRefs.rows = [] ∧
      (finalizingRun.db 13).projectRefs.rows.map ProjectRefRow.buildId = [3] := by decide +kernel
  exact ⟨hrun.1, hrun.2, refs_confined finalizing_adminsOnlyAdminister⟩

end Examples

end Confinement
