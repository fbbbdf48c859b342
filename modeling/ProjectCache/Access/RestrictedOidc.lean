import ProjectCache.Access.Confinement

namespace RestrictedOidc

open Textual Nix Project Calendar Tables Store Db Programs Auth Ingest Depot SqliteDatabase Access
  Confinement

inductive OfProject : Server.Request → Prop
  | beginBuild (project refName : Text) (revision : Option Text) :
    OfProject (.beginBuild project refName revision)
  | registerPaths (b : Uuid) (paths : List NarInfoPayload) : OfProject (.registerPaths b paths)
  | uploadObject (b : Uuid) (h : StorePathHash) (objectPath : Text) (body : BlobBytes) :
    OfProject (.uploadObject b h objectPath body)
  | completeMultipartUpload (b : Uuid) (h : StorePathHash) (objectPath uploadId : Text)
    (parts : List CompletedMultipartUploadPart) (contentLength : Nat) :
    OfProject (.completeMultipartUpload b h objectPath uploadId parts contentLength)
  | finalizeBuild (b : Uuid) : OfProject (.finalizeBuild b)
  | upsertPin (name : Text) (project : ProjectSlug) (h : StorePathHash) (storePath : Text) :
    OfProject (.upsertPin name (some project) h storePath)
  | deletePin (name : Text) (project : ProjectSlug) : OfProject (.deletePin name (some project))

theorem OfProject.writes [Base64] {server : Server} {request : Server.Request} {c : Call}
    (h : OfProject request) (hm : server.Makes request c) (hw : c.reads = false) :
    .projects ∉ c.writes ∧ .projectOidcIdentities ∉ c.writes := by
  cases hm with
  | reads hr =>
    rw [hw] at hr
    cases hr
  | insertProject | replaceRetentionPolicy | deleteRetentionPolicy | clearDeletedState | markStale
  | deleteReady | deleteStorageObjects | upsertUpstreamCache | setUpstreamEnabled
  | linkProjectUpstream | unlinkProjectUpstream => cases h
  | _ => simp [Call.writes]

theorem matchingIdentities_congr {a b : Database} (hp : a.projects = b.projects)
    (hi : a.projectOidcIdentities = b.projectOidcIdentities) (provider repository : Text) :
    a.matchingIdentities provider repository = b.matchingIdentities provider repository := by
  unfold Database.matchingIdentities Database.identityRecords
  rw [hp, hi]

structure WellScoped (db : Database) : Prop where
  refs : ∀ ref ∈ db.projectRefs.rows, ∃ build ∈ db.builds.rows, build.id = ref.buildId ∧
    build.projectId = ref.projectId
  pins : ∀ pin ∈ db.pins.rows, ∀ id ∈ pin.projectId, pin.scopeKey = .project id

def ShownByRefs (db : Database) (slug : ProjectSlug) (h : StorePathHash) : Prop :=
  ∃ p ∈ db.projects.rows, p.slug = slug ∧ ∃ ref ∈ db.projectRefs.rows, ref.projectId = p.id ∧
    ⟨ref.buildId, h⟩ ∈ db.buildPaths.rows

theorem visiblePath_project_iff {db : Database} {slug : ProjectSlug} {h : StorePathHash} :
    db.visiblePath (.project slug) h = true ↔ ShownByRefs db slug h ∨
      ∃ p ∈ db.projects.rows, p.slug = slug ∧
        ∃ pin ∈ db.pins.rows, pin.projectId = some p.id ∧ pin.storePathHash = h := by
  simp only [Database.visiblePath, List.any_eq_true, Bool.and_eq_true, decide_eq_true_eq,
    List.contains_iff_mem, Database.mem_projectVisiblePaths]
  constructor
  · rintro ⟨p, hp, hs, ⟨ref, href, hid, hpath⟩ | ⟨pin, hpin, hid, hh, -⟩⟩
    · exact Or.inl ⟨p, hp, hs, ref, href, hid, hpath⟩
    · exact Or.inr ⟨p, hp, hs, pin, hpin, hid, hh⟩
  · rintro (⟨p, hp, hs, ref, href, hid, hpath⟩ | ⟨p, hp, hs, pin, hpin, hid, hh⟩)
    · exact ⟨p, hp, hs, Or.inl ⟨ref, href, hid, hpath⟩⟩
    · exact ⟨p, hp, hs, Or.inr ⟨pin, hpin, hid, hh, p, hp, rfl⟩⟩

theorem buildContext_eq_some {db : Database} {b : Uuid} {context : BuildContextRecord}
    (h : db.buildContext b = some context) : ∃ build ∈ db.builds.rows, build.id = b ∧
      ∃ p ∈ db.projects.rows, p.id = build.projectId ∧ p.slug = context.projectSlug := by
  simp only [Database.buildContext, Option.bind_eq_bind, Option.bind_eq_some_iff, Option.pure_def,
    Option.some.injEq] at h
  obtain ⟨build, hb, p, hp, rfl⟩ := h
  obtain ⟨hbm, hbi⟩ := Database.build_eq_some.mp hb
  exact ⟨build, hbm, hbi, p, List.mem_of_find?_eq_some hp, by simpa using List.find?_some hp, rfl⟩

theorem buildContext_of_build {db : Database} {build : BuildRow} {p : ProjectRow}
    (hb : build ∈ db.builds.rows) (hp : p ∈ db.projects.rows) (hid : build.projectId = p.id) :
    ∃ context, db.buildContext build.id = some context ∧ context.projectSlug = p.slug := by
  have hbuild := Database.build_eq_some.mpr ⟨hb, rfl⟩
  have hfind : db.projects.rows.find? (fun q => q.id = build.projectId) = some p :=
    Table.find?_eq_some_of_unique hp (by simp [hid])
      (fun q hq hqid => Database.project_eq_of_id hq hp (by simpa [hid] using hqid))
  simp only [Database.buildContext, hbuild, hfind, Option.bind_eq_bind, Option.bind_some]
  exact ⟨_, rfl, rfl⟩

theorem upsertPin_others {db db' : Database} {row pin : PinRow} {id : Uuid}
    (h : db.upsertPin row = some db') (hrow : row.projectId ≠ some id)
    (hscope : row.scopeKey ≠ .project id) (hpin : pin.projectId = some id)
    (hkey : pin ∈ db.pins.rows → pin.scopeKey = .project id) :
    pin ∈ db'.pins.rows ↔ pin ∈ db.pins.rows := by
  obtain ⟨-, pins, rfl, hpins⟩ := upsertPin_eq_some h
  constructor
  · intro hm
    rcases Table.of_mem_upsert hpins hm with ⟨hu, -⟩ | ⟨old, -, -, rfl⟩ | rfl
    · exact hu
    · exact absurd hpin hrow
    · exact absurd hpin hrow
  · intro hm
    rcases mem_of_upsert hpins hm with hu | ⟨hp, -⟩
    · exact hu
    · simp only [Bool.and_eq_true, decide_eq_true_eq] at hp
      exact absurd (hp.1.symm.trans (hkey hm)) hscope

theorem deletePin_others {db : Database} {scopeKey : PinScope} {name : Text} {pin : PinRow}
    {id : Uuid} (hscope : scopeKey ≠ .project id)
    (hkey : pin ∈ db.pins.rows → pin.scopeKey = .project id) :
    pin ∈ (db.deletePin scopeKey name).2.pins.rows ↔ pin ∈ db.pins.rows := by
  simp only [Database.deletePin, Table.mem_delete, Bool.and_eq_false_iff, decide_eq_false_iff_not]
  refine ⟨fun hm => hm.1, fun hm => ⟨hm, Or.inl (fun hs => hscope (hs ▸ hkey hm))⟩⟩

section

variable [WildMatch]

structure Restricted (db : Database) (identity : AuthenticatedIdentity) (oidc : OidcIdentity)
    (slug : ProjectSlug) : Prop where
  kind : identity.kind = .oidc oidc
  bindings : ∀ provider ∈ identity.provider, ∀ repository ∈ oidc.repository,
    ∀ binding ∈ db.matchingIdentities provider repository, binding.projectSlug = slug →
      ∃ pattern, binding.refPattern = some pattern ∧
        ∀ refName ∈ oidc.refName, WildMatch.isMatch pattern refName = false

variable [Base64] [Sha256] (r : ApiRun)

def ComesFrom (identity : AuthenticatedIdentity) : Prop :=
  ∀ i n q, Works r i n q → ∀ m other, Identified (r := r) i m q other → other = identity

def Authorized (i n : Nat) (q : HttpRequest) : Prop :=
  r.Ran i 0 n (r.api.require q.authorization q.request) (.done (.ok ()))

inductive AsksForRef (slug : ProjectSlug) : Server.Request → Prop
  | beginBuild {project refName : Text} {revision : Option Text}
    (hp : ProjectSlug.parse project = .ok slug) :
    AsksForRef slug (.beginBuild project refName revision)
  | registerPaths {b : Uuid} {paths : List NarInfoPayload} {k : Nat} {context : BuildContextRecord}
    (hc : (r.db k).buildContext b = some context) (hs : context.projectSlug = slug) :
    AsksForRef slug (.registerPaths b paths)
  | uploadObject {b : Uuid} {h : StorePathHash} {objectPath : Text} {body : BlobBytes} {k : Nat}
    {context : BuildContextRecord} (hc : (r.db k).buildContext b = some context)
    (hs : context.projectSlug = slug) : AsksForRef slug (.uploadObject b h objectPath body)
  | completeMultipartUpload {b : Uuid} {h : StorePathHash} {objectPath uploadId : Text}
    {parts : List CompletedMultipartUploadPart} {contentLength : Nat} {k : Nat}
    {context : BuildContextRecord} (hc : (r.db k).buildContext b = some context)
    (hs : context.projectSlug = slug) :
    AsksForRef slug (.completeMultipartUpload b h objectPath uploadId parts contentLength)
  | finalizeBuild {b : Uuid} {k : Nat} {context : BuildContextRecord}
    (hc : (r.db k).buildContext b = some context) (hs : context.projectSlug = slug) :
    AsksForRef slug (.finalizeBuild b)

variable {r} {identity : AuthenticatedIdentity} {oidc : OidcIdentity} {slug : ProjectSlug}

theorem not_mayWrite (h : ∀ k, Restricted (r.db k) identity oidc slug) {i m n : Nat}
    {refName : Text} : ¬ MayWrite r i m n slug refName identity := by
  intro hm
  cases hm with
  | accessToken hk => exact nomatch (h 0).kind.symm.trans hk
  | oidc hk hprovider hrepository _ _ _ hbinding hslug hallowed =>
    cases (h 0).kind.symm.trans hk
    obtain ⟨pattern, hp, hno⟩ := (h _).bindings _ hprovider _ hrepository _ hbinding hslug
    rcases hallowed with ⟨-, hnone⟩ | ⟨href, hmatch⟩
    · rw [hp] at hnone
      cases hnone
    · have := hmatch pattern hp
      rw [hno refName href] at this
      cases this

theorem authorized_of_call {n i : Nat} {q : HttpRequest} {c : Call}
    {resume : Except Error c.Reply → Action WriteResponse} (hc : (r.pool n).AtCall i q c resume)
    (hw : c.reads = false) : ∃ k, k ≤ n ∧ Authorized r i k q ∧
      r.Ran i k n (r.api.carryOut q.request) (.call c resume) := by
  have hran : r.Ran i 0 n (r.api.program q) (.call c resume) := Pool.ran_of_task rfl hc
  obtain ⟨k, u, hgate, hcarry⟩ := Pool.Ran.after hran
    (uses_require (fun _ h => h) r.api _ _) (by simp [hw])
  exact ⟨k, hcarry.le, hgate, hcarry⟩

theorem not_admin (hk : identity.kind = .oidc oidc) (hf : ComesFrom r identity) {i n k : Nat}
    {q : HttpRequest} (hw : Works r i n q)
    (h : r.Ran i 0 k (requireAdminHeaders r.api.authorizer q.authorization) (.done (.ok ()))) :
    False := by
  obtain ⟨k₁, other, h₁, h₂⟩ := Pool.Ran.finished h
  obtain ⟨k₂, principal, h₃, h₄⟩ := Pool.Ran.finished h₂
  obtain rfl := hf i n q hw k₁ other (Pool.Ran.of_mapError h₁)
  simp only [authorizeAdmin, hk] at h₃
  cases h₃

theorem ofProject_of_authorized (hk : identity.kind = .oidc oidc) (hf : ComesFrom r identity)
    {i n k : Nat} {q : HttpRequest} (hw : Works r i n q) (h : Authorized r i k q) :
    ∃ request, q.request = .service request ∧ OfProject request := by
  obtain ⟨authorization, request⟩ := q
  have hno := fun h => not_admin hk hf hw (k := k) h
  cases request with
  | service request =>
    refine ⟨request, rfl, ?_⟩
    cases request with
    | beginBuild project refName revision => exact .beginBuild _ _ _
    | registerPaths b paths => exact .registerPaths _ _
    | uploadObject b h o body => exact .uploadObject _ _ _ _
    | completeMultipartUpload b h o u parts len => exact .completeMultipartUpload _ _ _ _ _ _
    | finalizeBuild b => exact .finalizeBuild _
    | upsertPin name project h storePath =>
      cases project with
      | some project => exact .upsertPin _ _ _ _
      | none => exact (hno h).elim
    | deletePin name project =>
      cases project with
      | some project => exact .deletePin _ _
      | none => exact (hno h).elim
    | _ => exact (hno h).elim
  | _ => exact (hno h).elim

structure Written (i n : Nat) (q : HttpRequest) (c : Call) (request : Server.Request) : Prop where
  service : q.request = .service request
  ofProject : OfProject request
  makes : r.api.server.Makes request c

theorem written_of_call (hk : identity.kind = .oidc oidc) (hf : ComesFrom r identity) {n i : Nat}
    {q : HttpRequest} {c : Call} {resume : Except Error c.Reply → Action WriteResponse}
    (hc : (r.pool n).AtCall i q c resume) (hw : c.reads = false) :
    ∃ request k, Written (r := r) i n q c request ∧ k ≤ n ∧ Authorized r i k q ∧
      r.Ran i k n (r.api.carryOut q.request) (.call c resume) := by
  obtain ⟨k, hkn, hgate, hcarry⟩ := authorized_of_call hc hw
  obtain ⟨request, hq, ho⟩ := ofProject_of_authorized hk hf ⟨_, hc⟩ hgate
  refine ⟨request, k, ⟨hq, ho, ?_⟩, hkn, hgate, hcarry⟩
  have hmakes := ApiRun.makes_of_atCall hc
  rw [hq] at hmakes
  cases hmakes with
  | reads h => exact .reads h
  | service h => exact h

theorem step_cases (n : Nat) : r.world (n + 1) = r.world n ∨
    ∃ i q c resume, (r.pool n).AtCall i q c resume ∧ c.reads = false ∧
      r.world (n + 1) = (answer c (r.schedule.env n) (r.world n)).1 := by
  have hm : (r.pool n).Moves r.api.program (r.schedule.choice n) (r.schedule.env n)
      (r.pool (n + 1)) := Pool.moves_next _ _ _
  unfold ApiRun.world
  generalize r.pool n = now, r.pool (n + 1) = after at hm
  cases hm with
  | submit q hq => exact Or.inl rfl
  | stay => exact Or.inl rfl
  | advance i q c resume hi hc =>
    cases hw : c.reads with
    | true => exact Or.inl (answer_of_reads hw _ _)
    | false => exact Or.inr ⟨i, q, c, resume, hc, hw, rfl⟩

theorem unadministered (hk : identity.kind = .oidc oidc) (hf : ComesFrom r identity) (n : Nat) :
    (r.db n).projects = (r.db 0).projects ∧
      (r.db n).projectOidcIdentities = (r.db 0).projectOidcIdentities := by
  induction n with
  | zero => exact ⟨rfl, rfl⟩
  | succ n ih =>
    rcases step_cases (r := r) n with hs | ⟨i, q, c, resume, hc, hw, hs⟩
    · unfold ApiRun.db
      rw [hs]
      exact ih
    obtain ⟨request, k, hwritten, -⟩ := written_of_call hk hf hc hw
    have hframe := answer_frame c (r.schedule.env n) (r.world n)
    obtain ⟨hp, hi⟩ := hwritten.ofProject.writes hwritten.makes hw
    unfold ApiRun.db at ih ⊢
    rw [hs]
    exact ⟨(hframe.projects hp).trans ih.1, (hframe.projectOidcIdentities hi).trans ih.2⟩

theorem restricted_always (h : Restricted (r.db 0) identity oidc slug)
    (hf : ComesFrom r identity) (n : Nat) : Restricted (r.db n) identity oidc slug := by
  obtain ⟨hp, hi⟩ := unadministered h.kind hf n
  refine ⟨h.kind, fun provider hpr repository hre binding hb => ?_⟩
  rw [matchingIdentities_congr hp hi] at hb
  exact h.bindings provider hpr repository hre binding hb

theorem not_granted (h : Restricted (r.db 0) identity oidc slug) (hf : ComesFrom r identity)
    {i n k : Nat} {q : HttpRequest} {b : Uuid} (hw : Works r i n q)
    (hgate : r.Ran i 0 k (requireBuildAccess r.api.authorizer q.authorization b)
      (.done (.ok ()))) {l : Nat} {context : BuildContextRecord}
    (hc : (r.db l).buildContext b = some context) : context.projectSlug ≠ slug := by
  rintro rfl
  obtain ⟨m, hm, context', hc', k', other, hid, hgranted⟩ := granted_of_requireBuildAccess hgate
  obtain rfl := hf i n q hw k' other hid
  have hslug : context'.projectSlug = context.projectSlug := by
    rcases Nat.le_total m l with hml | hlm
    · exact ((ApiRun.grows_le hml).buildContext hc' hc).2.1.symm
    · exact ((ApiRun.grows_le hlm).buildContext hc hc').2.1
  rw [hslug] at hgranted
  rcases hgranted with hadmin | hmay
  · exact nomatch hadmin.symm.trans h.kind
  · exact not_mayWrite (restricted_always h hf) hmay

theorem not_authorized (h : Restricted (r.db 0) identity oidc slug) (hf : ComesFrom r identity)
    {i n k : Nat} {q : HttpRequest} {request : Server.Request} (hw : Works r i n q)
    (hq : q.request = .service request) (ha : AsksForRef r slug request) :
    ¬ Authorized r i k q := by
  intro hgate
  unfold Authorized at hgate
  rw [hq] at hgate
  cases ha with
  | beginBuild hp =>
    obtain ⟨k₁, slug', h₁, h₂⟩ := Pool.Ran.finished hgate
    rw [hp] at h₁
    cases h₁
    obtain ⟨k₂, other, h₃, h₄⟩ := Pool.Ran.finished h₂
    obtain ⟨k₃, principal, h₅, h₆⟩ := Pool.Ran.finished h₄
    obtain rfl := hf i n q hw k₂ other ((Pool.Ran.of_mapError h₃).earlier (Nat.zero_le _))
    rcases mayWrite_of_projectRef h₅ with hadmin | hmay
    · exact nomatch hadmin.symm.trans h.kind
    · exact not_mayWrite (restricted_always h hf) hmay
  | registerPaths hc hs | uploadObject hc hs | completeMultipartUpload hc hs
  | finalizeBuild hc hs => exact not_granted h hf hw hgate hc hs

theorem refs_unchanged (h : Restricted (r.db 0) identity oidc slug) (hf : ComesFrom r identity)
    {p : ProjectRow} (hp : p ∈ (r.db 0).projects.rows) (hs : p.slug = slug) (n : Nat)
    {ref : ProjectRefRow} (href : ref.projectId = p.id) :
    ref ∈ (r.db n).projectRefs.rows ↔ ref ∈ (r.db 0).projectRefs.rows := by
  induction n with
  | zero => exact Iff.rfl
  | succ n ih =>
    rw [← ih]
    by_contra hne
    obtain ⟨i, q, b, -, hw, -, p', hp', hid', m, other, hother, hgranted⟩ :=
      ref_change_granted (fun hiff => hne hiff.symm)
    obtain rfl := hf i n q hw m other hother
    rw [(unadministered h.kind hf n).1] at hp'
    obtain rfl := Database.project_eq_of_id hp hp' (href.symm.trans hid'.symm)
    rw [hs] at hgranted
    rcases hgranted with hadmin | hmay
    · exact nomatch hadmin.symm.trans h.kind
    · exact not_mayWrite (restricted_always h hf) hmay

theorem paths_unchanged (h : Restricted (r.db 0) identity oidc slug) (hf : ComesFrom r identity)
    {p : ProjectRow} (hp : p ∈ (r.db 0).projects.rows) (hs : p.slug = slug) {build : BuildRow}
    (hb : build ∈ (r.db 0).builds.rows) (hid : build.projectId = p.id) (n : Nat)
    {path : StorePathHash} :
    ⟨build.id, path⟩ ∈ (r.db n).buildPaths.rows ↔ ⟨build.id, path⟩ ∈ (r.db 0).buildPaths.rows := by
  refine ⟨fun hn => ?_, fun h0 => (ApiRun.grows_le (Nat.zero_le n)).buildPaths _ h0⟩
  induction n with
  | zero => exact hn
  | succ n ih =>
    refine ih ?_
    unfold ApiRun.db at hn ⊢
    rcases step_cases (r := r) n with hstep | ⟨i, q, c, resume, hc, hw, hstep⟩
    · rwa [hstep] at hn
    rw [hstep] at hn
    obtain ⟨request, k, hwritten, -, hgate, -⟩ := written_of_call h.kind hf hc hw
    cases c with
    | attachBuildPath b path' =>
      rcases answer_state (.attachBuildPath b path') (r.schedule.env n) (r.world n) with ha | ha
      · rwa [ha] at hn
      rw [ha] at hn
      simp only [carryOut] at hn
      cases hd : (r.world n).db.attachBuildPath b path' with
      | none => simpa [World.written, hd] using hn
      | some db' =>
        obtain ⟨-, rfl⟩ := attachBuildPath_eq_some.mp hd
        simp only [World.written, hd] at hn
        rcases Table.mem_insertOrIgnore.mp hn with hm | ⟨-, hm⟩
        · exact hm
        · obtain ⟨hbid, -⟩ := BuildPathRow.mk.inj hm
          obtain ⟨context, hcontext, hslug⟩ := buildContext_of_build hb hp hid
          rw [hbid] at hcontext
          have hmakes := hwritten.makes
          cases hmakes with
          | reads hr => cases hr
          | attachBuildPath =>
            exact absurd hgate (not_authorized h hf ⟨_, hc⟩ hwritten.service
              (.registerPaths hcontext (hslug.trans hs)))
    | _ =>
      rw [(answer_frame _ _ _).buildPaths (by simp [Call.writes])] at hn
      exact hn

theorem shownByRefs_unchanged (h : Restricted (r.db 0) identity oidc slug)
    (hf : ComesFrom r identity) (hscoped : WellScoped (r.db 0)) (n : Nat) {path : StorePathHash} :
    ShownByRefs (r.db n) slug path ↔ ShownByRefs (r.db 0) slug path := by
  unfold ShownByRefs
  rw [(unadministered h.kind hf n).1]
  constructor
  · rintro ⟨p, hp, hs, ref, href, hid, hpath⟩
    rw [refs_unchanged h hf hp hs n hid] at href
    obtain ⟨build, hb, hbid, hbp⟩ := hscoped.refs ref href
    rw [← hbid, paths_unchanged h hf hp hs hb (hbp.trans hid) n, hbid] at hpath
    exact ⟨p, hp, hs, ref, href, hid, hpath⟩
  · rintro ⟨p, hp, hs, ref, href, hid, hpath⟩
    exact ⟨p, hp, hs, ref, (refs_unchanged h hf hp hs n hid).mpr href, hid,
      (ApiRun.grows_le (Nat.zero_le n)).buildPaths _ hpath⟩

variable (r) in
def ScopedTo (n : Nat) : Option ProjectSlug → PinScope → Option Uuid → Prop
  | none, scopeKey, projectId => scopeKey = .global ∧ projectId = none
  | some slug, scopeKey, projectId => ∃ l < n, ∃ p, (r.db l).projectBySlug slug = some p ∧
      scopeKey = .project p.id ∧ projectId = some p.id

theorem ScopedTo.later {m n : Nat} {project : Option ProjectSlug} {scopeKey : PinScope}
    {projectId : Option Uuid} (h : ScopedTo r m project scopeKey projectId) (hmn : m ≤ n) :
    ScopedTo r n project scopeKey projectId := by
  cases project with
  | none => exact h
  | some slug =>
    obtain ⟨l, hl, hp⟩ := h
    exact ⟨l, by omega, hp⟩

theorem ScopedTo.key {n : Nat} {project : Option ProjectSlug} {scopeKey : PinScope}
    {projectId : Option Uuid} (h : ScopedTo r n project scopeKey projectId) :
    ∀ id ∈ projectId, scopeKey = .project id := by
  cases project with
  | none => exact fun id hid => nomatch h.2.symm.trans hid
  | some slug =>
    obtain ⟨l, -, p, -, rfl, rfl⟩ := h
    simp

theorem scope_of_pinScope {i m n : Nat} {project : Option ProjectSlug} {scopeKey : PinScope}
    {projectId : Option Uuid}
    (h : r.Ran i m n (pinScope project) (.done (.ok (scopeKey, projectId)))) :
    ScopedTo r n project scopeKey projectId := by
  cases project with
  | none =>
    cases h
    exact ⟨rfl, rfl⟩
  | some slug =>
    obtain ⟨k₁, id, h₁, h₂⟩ := Pool.Ran.finished h
    obtain ⟨k₂, found, h₃, h₄⟩ := Pool.Ran.finished h₁
    obtain ⟨l, -, hl, -, rfl⟩ := ApiRun.Ran.select h₃
    obtain ⟨p, hp, hid⟩ := Option.map_eq_some_iff.mp (Publisher.ran_orFail h₄)
    have := h₄.le
    have := h₂.le
    cases h₂
    exact ⟨l, by omega, p, hp, by rw [hid], by rw [hid]⟩

theorem ran_perform {i m n : Nat} {c d : Call} {resume : Except Error d.Reply → Action c.Reply}
    (h : r.Ran i m n (perform c) (.call d resume)) : d = c := by
  cases h with
  | stay => rfl
  | call _ _ _ hrest => cases hrest

theorem scope_of_upsertPin {i m n : Nat} {name : Text} {project : Option ProjectSlug}
    {path : StorePathHash} {storePath : Text} {row : PinRow}
    {resume : Except Error Unit → Action Unit}
    (h : r.Ran i m n (upsertPin name project path storePath) (.call (.upsertPin row) resume)) :
    ScopedTo r n project row.scopeKey row.projectId := by
  have hr : ∀ d : Call, d.reads = true → d.reads = true := fun _ hd => hd
  have hno : ¬ Call.reads (.upsertPin row) = true := by simp [Call.reads]
  obtain ⟨k₁, ⟨scopeKey, projectId⟩, h₁, h₂⟩ := Pool.Ran.after h (Server.uses_pinScope hr _) hno
  obtain ⟨k₂, found, h₃, h₄⟩ := Pool.Ran.after h₂ (uses_select hr _) hno
  have hfound : (orFail found (.unknownPinnedPath path)).Uses (fun d : Call => d.reads = true) :=
    uses_orFail _ _
  obtain ⟨k₃, existing, h₅, h₆⟩ := Pool.Ran.after h₄ hfound hno
  split at h₆
  · cases h₆
  cases ran_perform h₆
  exact (scope_of_pinScope h₁).later h₂.le

theorem scope_of_deletePin {i m n : Nat} {name name' : Text} {project : Option ProjectSlug}
    {scopeKey : PinScope} {resume : Except Error Bool → Action Bool}
    (h : r.Ran i m n (deletePin name project) (.call (.deletePin scopeKey name') resume)) :
    ∃ projectId, ScopedTo r n project scopeKey projectId := by
  have hr : ∀ d : Call, d.reads = true → d.reads = true := fun _ hd => hd
  have hno : ¬ Call.reads (.deletePin scopeKey name') = true := by simp [Call.reads]
  obtain ⟨k₁, ⟨scopeKey', projectId⟩, h₁, h₂⟩ := Pool.Ran.after h (Server.uses_pinScope hr _) hno
  cases ran_perform h₂
  exact ⟨projectId, (scope_of_pinScope h₁).later h₂.le⟩

variable (r) in
def NoPinRequests (slug : ProjectSlug) : Prop :=
  ∀ i n q, Works r i n q →
    (∀ name path storePath, q.request ≠ .service (.upsertPin name (some slug) path storePath)) ∧
      ∀ name, q.request ≠ .service (.deletePin name (some slug))

theorem pins_unchanged (hk : identity.kind = .oidc oidc) (hf : ComesFrom r identity)
    (hscoped : WellScoped (r.db 0)) (hno : NoPinRequests r slug) {p : ProjectRow}
    (hp : p ∈ (r.db 0).projects.rows) (hs : p.slug = slug) (n : Nat) {pin : PinRow}
    (hpin : pin.projectId = some p.id) :
    pin ∈ (r.db n).pins.rows ↔ pin ∈ (r.db 0).pins.rows := by
  have hother : ∀ l p', ∀ other, (r.db l).projectBySlug other = some p' → other ≠ slug →
      p'.id ≠ p.id := by
    intro l p' other hp' hne hid
    obtain ⟨hm, rfl⟩ := Database.projectBySlug_eq_some.mp hp'
    rw [(unadministered hk hf l).1] at hm
    exact hne ((Database.project_eq_of_id hm hp hid).symm ▸ hs)
  induction n with
  | zero => exact Iff.rfl
  | succ n ih =>
    refine Iff.trans ?_ ih
    have hkey : pin ∈ (r.db n).pins.rows → pin.scopeKey = .project p.id :=
      fun hm => hscoped.pins pin (ih.mp hm) p.id hpin
    unfold ApiRun.db at hkey ⊢
    rcases step_cases (r := r) n with hstep | ⟨i, q, c, resume, hc, hw, hstep⟩
    · rw [hstep]
    rw [hstep]
    obtain ⟨request, k, hwritten, -, -, hcarry⟩ := written_of_call hk hf hc hw
    rw [hwritten.service] at hcarry
    obtain ⟨hnoUpsert, hnoDelete⟩ := hno i n q ⟨_, hc⟩
    rw [hwritten.service] at hnoUpsert hnoDelete
    have hmakes := hwritten.makes
    have hof := hwritten.ofProject
    rcases answer_state c (r.schedule.env n) (r.world n) with ha | ha
    · rw [ha]
    rw [ha]
    cases hmakes with
    | reads hr =>
      rw [hw] at hr
      cases hr
    | @upsertPin name project path storePath scopeKey projectId =>
      cases hof with
      | upsertPin name project' =>
        have hne : project' ≠ slug := fun he => hnoUpsert name path storePath (he ▸ rfl)
        obtain ⟨next, hservice⟩ := Pool.Ran.of_map hcarry
        obtain ⟨next', hupsert⟩ := Pool.Ran.of_map hservice
        obtain ⟨l, -, p', hp', hscope, hid⟩ := scope_of_upsertPin hupsert
        simp only [carryOut]
        cases hd : (r.world n).db.upsertPin ⟨scopeKey, name, projectId, path, storePath⟩ with
        | none => simp [World.written]
        | some db' =>
          have hpid := hother l p' _ hp' hne
          simp only [World.written]
          refine upsertPin_others hd ?_ ?_ hpin hkey
          · rw [hid]
            simpa using hpid
          · rw [hscope]
            simpa using hpid
    | @deletePin name project scopeKey =>
      cases hof with
      | deletePin name project' =>
        have hne : project' ≠ slug := fun he => hnoDelete name (he ▸ rfl)
        obtain ⟨next, hservice⟩ := Pool.Ran.of_map hcarry
        obtain ⟨next', hdelete⟩ := Pool.Ran.of_map hservice
        obtain ⟨-, l, -, p', hp', hscope, -⟩ := scope_of_deletePin hdelete
        simp only [carryOut, World.answering]
        refine deletePin_others ?_ hkey
        rw [hscope]
        simpa using hother l p' _ hp' hne
    | insertProject | replaceRetentionPolicy | deleteRetentionPolicy | clearDeletedState
    | markStale | deleteReady | deleteStorageObjects | upsertUpstreamCache | setUpstreamEnabled
    | linkProjectUpstream | unlinkProjectUpstream => cases hof
    | _ => rw [(carryOut_frame _ _ _).pins (by simp [Call.writes])]

theorem build_of_publication {n i : Nat} {q : HttpRequest} {p b : Uuid} {name : Text}
    {t : UtcDateTime} {resume : Except Error Unit → Action WriteResponse}
    (hc : (r.pool n).AtCall i q (.publishBuild p name b t) resume) :
    ∃ build ∈ (r.db n).builds.rows, build.id = b ∧ build.projectId = p := by
  obtain ⟨-, -, -, -, k, -, hk, context, hcontext, -, l, hl, row, hrow, rfl⟩ :=
    publication_of_atCall hc
  obtain ⟨build, hb, hbid, owner, howner, hoid, hoslug⟩ := buildContext_eq_some hcontext
  obtain ⟨build', hb', hbid', hproject, -⟩ := (ApiRun.grows_le hk.le).builds build hb
  obtain ⟨owner', howner', hoid', hoslug'⟩ := (ApiRun.grows_le hk.le).projects owner howner
  obtain ⟨row', hrow', hrid⟩ := (ApiRun.grows_le hl.le).projectBySlug hrow
  have hbySlug := Database.projectBySlug_of_mem howner'
  rw [hoslug', hoslug, hrow', Option.some.injEq] at hbySlug
  exact ⟨build', hb', hbid'.trans hbid, by rw [hproject, ← hoid, ← hoid', ← hbySlug, hrid]⟩

theorem pins_scoped_step {n i : Nat} {q : HttpRequest} {row : PinRow}
    {resume : Except Error Unit → Action WriteResponse}
    (hc : (r.pool n).AtCall i q (.upsertPin row) resume) :
    ∀ id ∈ row.projectId, row.scopeKey = .project id := by
  obtain ⟨k, -, -, hcarry⟩ := authorized_of_call hc rfl
  obtain ⟨authorization, request⟩ := q
  cases ApiRun.makes_of_atCall hc with
  | reads h => cases h
  | service h =>
    cases h with
    | reads h => cases h
    | @upsertPin name project path storePath =>
      obtain ⟨next, hservice⟩ := Pool.Ran.of_map hcarry
      obtain ⟨next', hupsert⟩ := Pool.Ran.of_map hservice
      exact (scope_of_upsertPin hupsert).key

theorem wellScoped_run (h : WellScoped (r.db 0)) (n : Nat) : WellScoped (r.db n) := by
  induction n with
  | zero => exact h
  | succ n ih =>
    have hgrows : Grows (r.db n) (r.db (n + 1)) := ApiRun.grows_le (Nat.le_succ n)
    unfold ApiRun.db at ih hgrows ⊢
    rcases step_cases (r := r) n with hstep | ⟨i, q, c, resume, hc, hw, hstep⟩
    · rwa [hstep]
    rw [hstep] at hgrows ⊢
    constructor
    · intro ref href
      suffices hb : ∃ build ∈ (r.world n).db.builds.rows, build.id = ref.buildId ∧
          build.projectId = ref.projectId by
        obtain ⟨build, hm, hid, hp⟩ := hb
        obtain ⟨build', hm', hid', hp', -⟩ := hgrows.builds build hm
        exact ⟨build', hm', hid'.trans hid, hp'.trans hp⟩
      rcases (answer_publishing c (r.schedule.env n) (r.world n)).ref ref href with
        ⟨hold, -⟩ | ⟨publication, hq, hp, -, hb, -⟩
      · exact ih.refs ref hold
      · obtain rfl := mem_publicationOf hq
        rw [← hb, ← hp]
        exact build_of_publication hc
    · intro pin hpin
      cases c with
      | upsertPin row =>
        rcases answer_state (.upsertPin row) (r.schedule.env n) (r.world n) with ha | ha
        · exact ih.pins pin (ha ▸ hpin)
        rw [ha] at hpin
        simp only [carryOut] at hpin
        cases hd : (r.world n).db.upsertPin row with
        | none => exact ih.pins pin (by simpa [World.written, hd] using hpin)
        | some db' =>
          obtain ⟨-, pins, rfl, hpins⟩ := upsertPin_eq_some hd
          simp only [World.written, hd] at hpin
          have hrow := pins_scoped_step hc
          rcases Table.of_mem_upsert hpins hpin with ⟨hold, -⟩ | ⟨old, -, hmatch, rfl⟩ | rfl
          · exact ih.pins pin hold
          · simp only [Bool.and_eq_true, decide_eq_true_eq] at hmatch
            exact fun id hid => hmatch.1.trans (hrow id hid)
          · exact hrow
      | deletePin scopeKey name =>
        rcases answer_state (.deletePin scopeKey name) (r.schedule.env n) (r.world n) with ha | ha
        · exact ih.pins pin (ha ▸ hpin)
        rw [ha] at hpin
        simp only [carryOut, World.answering, Database.deletePin, Table.mem_delete] at hpin
        exact ih.pins pin hpin.1
      | _ =>
        rw [(answer_frame _ _ _).pins (by simp [Call.writes])] at hpin
        exact ih.pins pin hpin

variable (r) in
def NoEffect (slug : ProjectSlug) : Prop :=
  (∀ i n q request, Works r i n q → q.request = .service request →
    (AsksForRef r slug request ∨ (∃ name path storePath,
      request = .upsertPin name (some slug) path storePath) ∨
        ∃ name, request = .deletePin name (some slug)) → ∀ k, ¬ Authorized r i k q) ∧
    ∀ n path, (r.db n).visiblePath (.project slug) path = (r.db 0).visiblePath (.project slug) path

variable (r) in
structure OnlyPins (identity : AuthenticatedIdentity) (slug : ProjectSlug) : Prop where
  refused : ∀ i n q request, Works r i n q → q.request = .service request →
    AsksForRef r slug request → ∀ k, ¬ Authorized r i k q
  shown : ∀ n path, ShownByRefs (r.db n) slug path ↔ ShownByRefs (r.db 0) slug path
  visible : NoPinRequests r slug → ∀ n path,
    (r.db n).visiblePath (.project slug) path = (r.db 0).visiblePath (.project slug) path
  pins : ∀ n provider repository, identity.provider = some provider →
    (∃ oidc, identity.kind = .oidc oidc ∧ oidc.repository = some repository) →
    (∃ binding ∈ (r.db n).matchingIdentities provider repository, binding.projectSlug = slug) →
      ∀ es : Nat → Env, (∀ k, (es k).outcome = .answered) →
        ∃ principal,
          (machine.exec (authorizeProject identity slug) es (r.world n)).2 = .ok principal

theorem visible_unchanged (h : Restricted (r.db 0) identity oidc slug) (hf : ComesFrom r identity)
    (hscoped : WellScoped (r.db 0)) (hno : NoPinRequests r slug) (n : Nat) (path : StorePathHash) :
    (r.db n).visiblePath (.project slug) path = (r.db 0).visiblePath (.project slug) path := by
  rw [Bool.eq_iff_iff, visiblePath_project_iff, visiblePath_project_iff,
    shownByRefs_unchanged h hf hscoped n, (unadministered h.kind hf n).1]
  refine or_congr_right (exists_congr (fun p => and_congr_right (fun hp => and_congr_right
    (fun hs => exists_congr (fun pin => ?_)))))
  constructor
  · rintro ⟨hpin, hid, hh⟩
    exact ⟨(pins_unchanged h.kind hf hscoped hno hp hs n hid).mp hpin, hid, hh⟩
  · rintro ⟨hpin, hid, hh⟩
    exact ⟨(pins_unchanged h.kind hf hscoped hno hp hs n hid).mpr hpin, hid, hh⟩

omit [Base64] [Sha256] [WildMatch] in
theorem authorizeProject_answers {w : World} {provider repository : Text}
    (hk : identity.kind = .oidc oidc) (hp : identity.provider = some provider)
    (hr : oidc.repository = some repository)
    (hb : ∃ binding ∈ w.db.matchingIdentities provider repository, binding.projectSlug = slug)
    {es : Nat → Env} (he : ∀ k, (es k).outcome = .answered) :
    ∃ principal, (machine.exec (authorizeProject identity slug) es w).2 = .ok principal := by
  obtain ⟨binding, hmem, hslug⟩ := hb
  have hne : (w.db.matchingIdentities provider repository).filter
      (fun binding => binding.projectSlug = slug) ≠ [] :=
    List.ne_nil_of_mem (List.mem_filter.mpr ⟨hmem, by simpa using hslug⟩)
  have hwp : machine.wp (fun e => e.outcome = .answered)
      (fun result _ => ∃ principal, result = .ok principal) (authorizeProject identity slug) w := by
    unfold authorizeProject
    rw [hk]
    refine Machine.wp_bind.mpr (Machine.wp_bind.mpr ?_)
    rw [hp]
    refine wp_orFail ?_ (by simp)
    rintro _ ⟨⟩
    rw [onOk_ok]
    refine Machine.wp_bind.mpr ?_
    rw [hr]
    refine wp_orFail ?_ (by simp)
    rintro _ ⟨⟩
    rw [onOk_ok]
    refine Machine.wp_mapError (wp_select ?_ (fun e ha hno => absurd ha hno))
    change Machine.wp _ _ _ (principalOfBindings _ _ _) _
    rw [principalOfBindings, if_neg hne]
    exact ⟨_, rfl⟩
  exact Machine.exec_of_wp hwp he

theorem restricted_onlyPins (h : Restricted r.start.db identity oidc slug)
    (hf : ComesFrom r identity) (hscoped : WellScoped r.start.db) : OnlyPins r identity slug where
  refused := fun _ _ _ _ hw hq ha _ => not_authorized h hf hw hq ha
  shown := fun n _ => shownByRefs_unchanged h hf hscoped n
  visible := fun hno n path => visible_unchanged h hf hscoped hno n path
  pins := fun _ _ _ hp ⟨_, hk, hr⟩ hb _ he => authorizeProject_answers hk hp hr hb he

end

section Examples

open Depot.Server Isolation

attribute [local instance] standardBase64 standardWildMatch TokenExpiry.exampleSha256

def pinningRun : ApiRun where
  api := ⟨exampleServer, constantAuthorizer (actionsIdentity (some "feature".toList))⟩
  start := pendingWorld
  schedule :=
    { choice := fun n =>
        (.submit ⟨none, .service (.upsertPin "kept".toList (some exampleSlug) helloHash
          helloRow.storePath)⟩ :: List.replicate 4 (.advance 0)).getD n .idle
      env := moment }

theorem pinning_restricted :
    Restricted pinningRun.start.db (actionsIdentity (some "feature".toList))
    ⟨"issuer".toList, some "example/app".toList, some "feature".toList⟩ exampleSlug := by
  have hbindings : pinningRun.start.db.matchingIdentities "github".toList "example/app".toList =
      [⟨exampleSlug, "github".toList, "example/app".toList, some "main".toList⟩] := by
    decide +kernel
  refine ⟨rfl, ?_⟩
  rintro _ ⟨⟩ _ ⟨⟩ binding hb -
  rw [hbindings, List.mem_singleton] at hb
  subst hb
  refine ⟨_, rfl, ?_⟩
  rintro _ ⟨⟩
  decide +kernel

theorem pinning_comesFrom :
    ComesFrom pinningRun (actionsIdentity (some "feature".toList)) := by
  intro i n q _ m other h
  cases h
  rfl

theorem pinning_wellScoped : WellScoped pinningRun.start.db := ⟨by decide, by decide⟩

theorem pinning_onlyPins : OnlyPins pinningRun (actionsIdentity (some "feature".toList))
    exampleSlug := restricted_onlyPins pinning_restricted pinning_comesFrom pinning_wellScoped

theorem pinning_has_effect :
    Restricted pinningRun.start.db (actionsIdentity (some "feature".toList))
      ⟨"issuer".toList, some "example/app".toList, some "feature".toList⟩ exampleSlug ∧
    ComesFrom pinningRun (actionsIdentity (some "feature".toList)) ∧
    ¬ NoEffect pinningRun exampleSlug := by
  refine ⟨pinning_restricted, pinning_comesFrom, fun h => ?_⟩
  have hpinned : (pinningRun.db 5).visiblePath (.project exampleSlug) helloHash ≠
      (pinningRun.db 0).visiblePath (.project exampleSlug) helloHash := by decide +kernel
  exact hpinned (h.2 5 helloHash)

end Examples

end RestrictedOidc
