import ProjectCache.Gc.Interrupted
import ProjectCache.Publish.Answered

namespace Completed

open Textual Nix Project Calendar Tables DepotPath Narinfo Validation Store Db Programs Ingest Depot
  Depot.Server Read Vouching Answering Isolation Served Registration Answered SqliteDatabase
open PathTables (Agrees)

def AvailableTo (slug : ProjectSlug) (client : UpstreamCacheClient) (o : Text) (w : World) : Prop :=
  ∃ project, w.db.projectBySlug slug = some project ∧
    Available project.storageId (upstreamsIn w.db (.project slug)) client o w

section

variable [Base64] [WildMatch]

structure Publishes (s : SerialRun) (b : Uuid) (client : UpstreamCacheClient) (count : Nat) :
    Prop where
  answered : ∀ k ≤ count, ∀ j, AnswersFrom client ((s.turns k).env j)
  requests : ∀ k < count, (∃ paths, s.request k = .registerPaths b paths) ∨
    ∃ h o body, s.request k = .uploadObject b h o body
  succeeds : ∀ k < count, ∃ x, s.response k = .ok x
  uploaded : ∀ k < count, ∀ uploads, s.response k = .ok (.requiredUploads uploads) →
    ∀ upload ∈ uploads, ∃ j < count, ∃ body,
      s.request j = .uploadObject b upload.storePathHash upload.objectPath body
  finalizes : s.request count = .finalizeBuild b

def RegisteredIn (s : SerialRun) (b : Uuid) (count : Nat) (h : StorePathHash) : Prop :=
  ∃ k < count, ∃ paths, s.request k = .registerPaths b paths ∧ ∃ path ∈ paths, HashOf path h

variable {s : SerialRun} {b : Uuid} {context : BuildContextRecord} {project : ProjectRow}
  {upstreams : List UpstreamCache} {client : UpstreamCacheClient} {i j k count : Nat} {o : Text}
  {h : StorePathHash} {paths : List NarInfoPayload} {path : NarInfoPayload}

omit [WildMatch] in
theorem writes_of_makes {server : Server} {q : Request} {c : Call}
    (hq : (∃ paths, q = .registerPaths b paths) ∨ ∃ h o body, q = .uploadObject b h o body)
    (hc : server.Makes q c) :
    ∀ t ∈ c.writes, t ∈ [TableName.pathInfos, .buildPaths, .storageObjects, .pathObjects] := by
  cases hc with
  | reads hr =>
    simp [writes_of_reads hr]
  | insertPathInfo | attachBuildPath | upsertStorageObject | linkPathObject => simp [Call.writes]
  | putStream | deleteUploaded => simp [Call.writes]
  | _ => rcases hq with ⟨_, hq⟩ | ⟨_, _, _, hq⟩ <;> cases hq

omit [WildMatch] in
theorem registers_of_makes {server : Server} {c : Call}
    (hc : server.Makes (.registerPaths b paths) c) : Registers c := by
  cases hc with
  | reads hr => exact .reads hr
  | insertPathInfo => exact .insertPathInfo _
  | attachBuildPath => exact .attachBuildPath _ _
  | upsertStorageObject => exact .upsertStorageObject _ _ _
  | linkPathObject => exact .linkPathObject _ _ _
  | deleteUploaded hq => cases hq

theorem quiet_turn (hk : s.request k = .registerPaths b paths) :
    Quiet (s.world k) (s.world (k + 1)) := by
  apply SerialRun.of_wp_any (fun _ v => Quiet (s.world k) v)
  apply wp_of_uses (fun v => Quiet (s.world k) v) (s.server.program_uses _) _ (Quiet.refl _)
  intro c e v hc hv
  rw [hk] at hc
  exact hv.trans ((registers_of_makes hc).quiet e)

variable (hp : Publishes s b client count)
  (hs : Setting b context project upstreams s.start.db)

namespace Publishes

include hp

theorem turn (post : Except Error Response → World → Prop) (hk : k ≤ count)
    (h : machine.wp (AnswersFrom client) post (s.server.program (s.request k)) (s.world k)) :
    post (s.response k) (s.world (k + 1)) :=
  SerialRun.of_wp post h (hp.answered k hk)

theorem frame (hk : k < count) :
    Frame [.pathInfos, .buildPaths, .storageObjects, .pathObjects] (s.db k) (s.db (k + 1)) := by
  apply SerialRun.of_wp_any (fun _ v => Frame _ (s.db k) v.db)
  apply wp_of_uses (fun v => Frame _ (s.db k) v.db) (s.server.program_uses _) _ (Frame.refl _ _)
  intro c e v hc hv
  exact hv.trans ((answer_frame c e v).mono (writes_of_makes (hp.requests k hk) hc))

include hs

theorem setting (hk : k ≤ count) : Setting b context project upstreams (s.db k) := by
  induction k with
  | zero => exact hs
  | succ k ih =>
    exact (ih (by omega)).of_frame (hp.frame (by omega)) (by decide) (by decide) (by decide)
      (by decide)

theorem registration (hk : k < count) (hq : s.request k = .registerPaths b paths) :
    (∀ g row, (s.db (k + 1)).pathInfo g = some row → FirstStored (s.db k) paths g row) ∧
      ∃ uploads, s.response k = .ok (.requiredUploads uploads) ∧
        (s.server.storageCatalog.storage project.storageId).isSome = true ∧
        ∀ path ∈ paths, ∃ h row, RegisteredAs b path h row (s.world (k + 1)) ∧
          (Available project.storageId upstreams client path.url (s.world (k + 1)) ∨
            Planned uploads h path.url) := by
  obtain ⟨x, hx⟩ := hp.succeeds k hk
  have hturn := hp.turn
    (fun r v => (∀ g row, v.db.pathInfo g = some row → FirstStored (s.db k) paths g row) ∧
      ∀ x, r = .ok x → ∃ uploads, x = .requiredUploads uploads ∧
        (s.server.storageCatalog.storage project.storageId).isSome = true ∧
        ∀ path ∈ paths, ∃ h row, RegisteredAs b path h row v ∧
          (Available project.storageId upstreams client path.url v ∨ Planned uploads h path.url))
    hk.le (by
      rw [hq]
      apply Machine.wp_bind.mpr
      apply Machine.wp_mono (wp_registerPaths (hp.setting hs hk.le))
      rintro r v ⟨hfirst, hall⟩
      cases r with
      | error x => exact ⟨hfirst, fun _ hx => by cases hx⟩
      | ok uploads =>
        refine ⟨hfirst, fun x hx => ?_⟩
        cases hx
        exact ⟨uploads, rfl, hall uploads rfl⟩)
  obtain ⟨uploads, rfl, hall⟩ := hturn.2 x hx
  exact ⟨hturn.1, uploads, hx, hall⟩

theorem upload {body : BlobBytes} (hk : k < count) (hq : s.request k = .uploadObject b h o body) :
    Available project.storageId upstreams client o (s.world (k + 1)) ∧
      ∀ o', Available project.storageId upstreams client o' (s.world k) →
        Available project.storageId upstreams client o' (s.world (k + 1)) := by
  obtain ⟨x, hx⟩ := hp.succeeds k hk
  refine hp.turn (fun r v => ∀ x, r = .ok x → Available project.storageId upstreams client o v ∧
    ∀ o', Available project.storageId upstreams client o' (s.world k) →
      Available project.storageId upstreams client o' v) hk.le ?_ x hx
  rw [hq]
  apply Machine.wp_bind.mpr
  apply Machine.wp_mono (wp_uploadObject (hp.setting hs hk.le))
  intro r v huploaded
  cases r with
  | error x => exact fun _ hx => by cases hx
  | ok _ => exact fun _ _ => huploaded rfl

theorem available_le (hjk : j ≤ k) (hk : k ≤ count)
    (ha : Available project.storageId upstreams client o (s.world j)) :
    Available project.storageId upstreams client o (s.world k) := by
  induction k, hjk using Nat.le_induction with
  | base => exact ha
  | succ k _ ih =>
    rcases hp.requests k (by omega) with ⟨paths, hq⟩ | ⟨h, o', body, hq⟩
    · exact (ih (by omega)).of_blobs (quiet_turn hq).blobs
    · exact (hp.upload hs (by omega) hq).2 o (ih (by omega))

theorem available (hk : k < count) (hq : s.request k = .registerPaths b paths)
    (hpath : path ∈ paths) : ∃ h row, RegisteredAs b path h row (s.world (k + 1)) ∧
      FirstStored (s.db k) paths h row ∧
      Available project.storageId upstreams client path.url (s.world count) := by
  obtain ⟨hfirst, uploads, hresponse, -, hall⟩ := hp.registration hs hk hq
  obtain ⟨h, row, hrow, havailable⟩ := hall path hpath
  refine ⟨h, row, hrow, hfirst h row hrow.stored, ?_⟩
  rcases havailable with ha | ⟨upload, hu, rfl, hobject⟩
  · exact hp.available_le hs (by omega) (le_refl count) ha
  · obtain ⟨j, hj, body, hupload⟩ := hp.uploaded k hk uploads hresponse upload hu
    rw [hobject] at hupload
    exact hp.available_le hs (by omega) (le_refl count) (hp.upload hs hj hupload).1

end Publishes

omit hp hs in
theorem attached_or_registered (ha : Attached (s.world k) b h) :
    Attached s.start b h ∨ RegisteredIn s b k h := by
  induction k with
  | zero => exact Or.inl ha
  | succ k ih =>
    have hlater : Attached (s.world k) b h → Attached s.start b h ∨ RegisteredIn s b (k + 1) h := by
      intro hm
      apply (ih hm).imp_right
      rintro ⟨j, hj, hregistered⟩
      exact ⟨j, by omega, hregistered⟩
    by_cases hq : ∃ paths, s.request k = .registerPaths b paths
    · obtain ⟨paths, hq⟩ := hq
      obtain ⟨size, happlied, -⟩ := attached_turn hq
      rcases (happlied.attached b h).mp ha with hm | ⟨-, path, hpath, hhash⟩
      · exact hlater hm
      · exact Or.inr ⟨k, by omega, paths, hq, path, List.mem_of_mem_take hpath, hhash⟩
    · have hsame := attached_turn_of_ne (n := k) (fun paths hk => hq ⟨paths, hk⟩) h
      exact hlater (hsame.mp ha)

end

section

variable [Base64] [WildMatch] {s : SerialRun} {b : Uuid} {context : BuildContextRecord}
  {client : UpstreamCacheClient} {count : Nat}

omit [Base64] [WildMatch] in
theorem setting_of_context {db : Database} (hb : db.buildContext b = some context)
    (hpending : context.status = .pending) : ∃ project, project.id = context.projectId ∧
      Setting b context project (upstreamsIn db (.project context.projectSlug)) db := by
  have hc := hb
  simp only [Database.buildContext, Option.bind_eq_bind, Option.bind_eq_some_iff, Option.pure_def,
    Option.some.injEq] at hc
  obtain ⟨row, -, project, hproject, rfl⟩ := hc
  have hm := List.mem_of_find?_eq_some hproject
  exact ⟨project, rfl, hb, hpending, Database.projectBySlug_of_mem hm, rfl⟩

theorem registered_listed (hp : Publishes s b client count) {project : ProjectRow}
    {upstreams : List UpstreamCache} (hs : Setting b context project upstreams s.start.db)
    {k : Nat} (hk : k < count) {paths : List NarInfoPayload}
    (hq : s.request k = .registerPaths b paths) {path : NarInfoPayload} (hpath : path ∈ paths) :
    ∃ h row, HashOf path h ∧ (s.db (k + 1)).pathInfo h = some row ∧
      FirstStored (s.db k) paths h row ∧ Agrees (narinfoOf row) path.intoNarinfo ∧
      (h, path.url) ∈ (s.db count).buildPathNarObjects b ∧
      Available project.storageId upstreams client path.url (s.world count) := by
  obtain ⟨h, row, hrow, hfirst, havailable⟩ := hp.available hs hk hq hpath
  have hgrows : Grows (s.db (k + 1)) (s.db count) := SerialRun.grows_le hk
  have hlisted : (h, path.url) ∈ (s.db count).buildPathNarObjects b :=
    Database.mem_buildPathNarObjects.mpr ⟨hgrows.buildPaths _ hrow.attached, row,
      hgrows.pathInfo hrow.stored, hrow.agrees.url⟩
  exact ⟨h, row, hrow.hash, hrow.stored, hfirst, hrow.agrees, hlisted, havailable⟩

theorem listed_available (hp : Publishes s b client count) {project : ProjectRow}
    (hs : Setting b context project (upstreamsIn s.start.db (.project context.projectSlug))
      s.start.db)
    (hattached : ∀ h, Attached s.start b h → RegisteredIn s b count h ∨
      ∃ row, s.start.db.pathInfo h = some row ∧
        AvailableTo context.projectSlug client row.url s.start) :
    ∀ path ∈ (s.db count).buildPathNarObjects b, Available project.storageId
      (upstreamsIn s.start.db (.project context.projectSlug)) client path.2 (s.world count) := by
  rintro ⟨h, o⟩ hm
  obtain ⟨hattachedNow, row, hrow, rfl⟩ := Database.mem_buildPathNarObjects.mp hm
  have hregistered : RegisteredIn s b count h → Available project.storageId
      (upstreamsIn s.start.db (.project context.projectSlug)) client row.url (s.world count) := by
    rintro ⟨k, hk, paths, hq, path, hpath, hhash⟩
    obtain ⟨h', row', hhash', -, -, -, hlisted, havailable⟩ :=
      registered_listed hp hs hk hq hpath
    obtain rfl := Except.ok.inj (hhash.symm.trans hhash')
    obtain ⟨-, row'', hrow'', hurl⟩ := Database.mem_buildPathNarObjects.mp hlisted
    obtain rfl := Option.some.inj (hrow.symm.trans hrow'')
    rwa [hurl]
  rcases attached_or_registered hattachedNow with hstart | hin
  · rcases hattached h hstart with hin | ⟨row', hrow', project', hproject', havailable⟩
    · exact hregistered hin
    · have hgrows : Grows s.start.db (s.db count) := SerialRun.grows_le (Nat.zero_le count)
      obtain rfl := Option.some.inj ((hgrows.pathInfo hrow').symm.trans hrow)
      obtain rfl := Option.some.inj (hs.projectBySlug.symm.trans hproject')
      exact hp.available_le hs (Nat.zero_le count) (le_refl count) havailable
  · exact hregistered hin

theorem plan_completes [Signing.Ed25519] (reads : ReadService)
    (hcatalog : reads.storageCatalog = s.server.storageCatalog)
    (hp : Publishes s b client count)
    (hb : s.start.db.buildContext b = some context) (hpending : context.status = .pending)
    (hsome : ∃ k < count, ∃ paths, s.request k = .registerPaths b paths ∧ paths ≠ [])
    (hagree : ∀ upstream o,
      (client.headObject upstream o).isSome = (client.getObject upstream o).isSome)
    (hattached : ∀ h, Attached s.start b h → RegisteredIn s b count h ∨
      ∃ row, s.start.db.pathInfo h = some row ∧
        AvailableTo context.projectSlug client row.url s.start) :
    (∃ x, s.response count = .ok x) ∧
    (∃ ref ∈ (s.db (count + 1)).projectRefs.rows, ref.projectId = context.projectId ∧
      ref.refName = context.refName ∧ ref.buildId = b) ∧
    ∀ k < count, ∀ paths, s.request k = .registerPaths b paths → ∀ path ∈ paths,
      ∃ h row, HashOf path h ∧ (s.db (k + 1)).pathInfo h = some row ∧
        FirstStored (s.db k) paths h row ∧ Agrees (narinfoOf row) path.intoNarinfo ∧
        ∀ es, (∀ j, AnswersFrom client (es j)) →
          (machine.exec (getProjectNarinfo context.projectSlug h) es (s.world (count + 1))).2 =
            .ok (some (narinfoOf row)) ∧
          ∃ metadata bytes, (machine.exec (reads.getObject (.project context.projectSlug) path.url)
            es (s.world (count + 1))).2 = .ok (some (metadata, bytes)) := by
  obtain ⟨project, hid, hs⟩ := setting_of_context hb hpending
  obtain ⟨k₀, hk₀, paths₀, hq₀, hne₀⟩ := hsome
  obtain ⟨path₀, hpath₀⟩ := List.exists_mem_of_ne_nil paths₀ hne₀
  obtain ⟨-, -, -, hconfigured, -⟩ := hp.registration hs hk₀ hq₀
  obtain ⟨storage, hstorage⟩ := Option.isSome_iff_exists.mp hconfigured
  obtain ⟨h₀, row₀, -, -, -, -, hlisted₀, -⟩ := registered_listed hp hs hk₀ hq₀ hpath₀
  have hfinalized := hp.turn
    (fun r v => (∃ x, r = .ok x) ∧ Finalized b context project
      (upstreamsIn s.start.db (.project context.projectSlug)) client
      ((s.db count).buildPathNarObjects b) v)
    (le_refl count) (by
      rw [hp.finalizes]
      apply Machine.wp_bind.mpr
      apply Machine.wp_mono (wp_finalizeBuild (hp.setting hs (le_refl count)) hstorage
        (List.ne_nil_of_mem hlisted₀) (listed_available hp hs hattached))
      rintro r v ⟨rfl, hv⟩
      exact ⟨⟨_, rfl⟩, hv⟩)
  obtain ⟨hok, ⟨ref, href, hproject, hname, hbuild⟩, hfound, hbySlug, hupstreams⟩ := hfinalized
  refine ⟨hok, ⟨ref, href, hproject.trans hid, hname, hbuild⟩, ?_⟩
  intro k hk paths hq path hpath
  obtain ⟨h, row, hhash, hrow, hfirst, hagrees, hlisted, -⟩ :=
    registered_listed hp hs hk hq hpath
  refine ⟨h, row, hhash, hrow, hfirst, hagrees, fun es hes => ?_⟩
  have hgrows : Grows (s.db (k + 1)) (s.db (count + 1)) := SerialRun.grows_le (by omega)
  have hrow' : (s.db (count + 1)).pathInfo h = some row := hgrows.pathInfo hrow
  have hattachedNow : ⟨b, h⟩ ∈ (s.db (count + 1)).buildPaths.rows :=
    (SerialRun.grows count).buildPaths _ (Database.mem_buildPathNarObjects.mp hlisted).1
  obtain ⟨hmem, hslug⟩ := Database.projectBySlug_eq_some.mp hbySlug
  have hvisible : (s.db (count + 1)).visiblePath (.project context.projectSlug) h = true := by
    apply visiblePath_iff.mpr
    exact Or.inl ⟨ref, href, ⟨project, hmem, hproject.symm, hslug⟩, hbuild.symm ▸ hattachedNow⟩
  constructor
  · have hresolved := Machine.exec_of_wp
      (wp_resolveNarinfo (pathInfoIn_of_visible hrow' hvisible)) hes
    exact hresolved.2
  · have hview : ∀ slug, DepotView.project context.projectSlug = .project slug →
        ∃ p, (s.db (count + 1)).projectBySlug slug = some p := by
      rintro slug ⟨⟩
      exact ⟨project, hbySlug⟩
    have hserved : (s.db (count + 1)).storageObjectVisibleInView (.project context.projectSlug)
          path.url = true ∧ Stocked reads.storageCatalog (s.world (count + 1)) path.url ∨
        ∃ upstream ∈ upstreamsIn (s.db (count + 1)) (.project context.projectSlug),
          (client.getObject upstream path.url).isSome = true := by
      cases hfound _ hlisted with
      | stored hlink hlive hpresent =>
        rw [hcatalog]
        apply Or.inl
        refine ⟨objectVisible_of_visible hvisible hlink, stocked hstorage ?_ hlive⟩
        rwa [StorageCatalog.storage_id hstorage]
      | upstream upstream hm hhead =>
        exact Or.inr ⟨upstream, hupstreams.symm ▸ hm, (hagree upstream path.url) ▸ hhead⟩
    obtain ⟨metadata, bytes, -, hbytes, -⟩ :=
      Machine.exec_of_wp (wp_getObject reads hview hserved) hes
    exact ⟨metadata, bytes, hbytes⟩

end

section Examples

open SigningKeys Announced Interrupted

attribute [local instance] standardBase64 standardWildMatch helloEd25519

def continued (before : List Request) (n : Nat) (requests : List Request) : SerialRun where
  server := exampleServer
  start := (inTurn before).world n
  turns := fun k =>
    { request := requests.getD k (.deletePin [] none)
      env := fun j => moment (100 * (n + k) + j) }

def sharing : SerialRun :=
  continued [.insertProject exampleSlug "Example".toList true .main,
      .beginBuild exampleSlug.text "main".toList none, .registerPaths 101 [helloPayload],
      .uploadObject 101 helloHash helloPayload.url [1, 2, 3, 4, 5], .finalizeBuild 101,
      .beginBuild exampleSlug.text "main".toList none] 6
    [.registerPaths 501 [helloPayload, glibcPayload],
      .uploadObject 501 glibcHash glibcPayload.url [6, 7, 8], .finalizeBuild 501]

def reading : ReadService := ⟨StoreDir.defaultNix, exampleServer.storageCatalog, none, none⟩

def exampleContext (buildId : Uuid) : BuildContextRecord :=
  ⟨buildId, 0, exampleSlug, "main".toList, none, .pending⟩

theorem sharing_responses :
    (sharing.response 0).toOption = some (.requiredUploads
      [⟨glibcHash, glibcPayload.url, octetStream, .proxy⟩]) ∧
    (sharing.response 1).toOption = some .ok ∧
    sharing.start.db.buildContext 501 = some (exampleContext 501) ∧
    ∀ row ∈ sharing.start.db.buildPaths.rows, row.buildId ≠ 501 := by decide +kernel

theorem sharing_publishes : Publishes sharing 501 .silent 2 where
  answered := fun _ _ _ => ⟨rfl, rfl⟩
  requests := by
    intro k hk
    interval_cases k
    · exact Or.inl ⟨_, rfl⟩
    · exact Or.inr ⟨_, _, _, rfl⟩
  succeeds := by
    intro k hk
    interval_cases k
    · exact ⟨_, eq_ok_of_toOption sharing_responses.1⟩
    · exact ⟨_, eq_ok_of_toOption sharing_responses.2.1⟩
  uploaded := by
    intro k hk uploads hr upload hu
    interval_cases k
    · rw [eq_ok_of_toOption sharing_responses.1] at hr
      cases hr
      obtain rfl := List.mem_singleton.mp hu
      exact ⟨1, by decide, [6, 7, 8], rfl⟩
    · rw [eq_ok_of_toOption sharing_responses.2.1] at hr
      cases hr
  finalizes := rfl

theorem sharing_completes :
    (∃ x, sharing.response 2 = .ok x) ∧
    (∃ ref ∈ (sharing.db 3).projectRefs.rows, ref.projectId = 0 ∧ ref.refName = "main".toList ∧
      ref.buildId = 501) ∧
    ∀ path ∈ [helloPayload, glibcPayload], ∃ h row, HashOf path h ∧
      (machine.exec (getProjectNarinfo exampleSlug h) moment (sharing.world 3)).2 =
        .ok (some (narinfoOf row)) ∧ Agrees (narinfoOf row) path.intoNarinfo ∧
      ∃ metadata bytes, (machine.exec (reading.getObject (.project exampleSlug) path.url) moment
        (sharing.world 3)).2 = .ok (some (metadata, bytes)) := by
  obtain ⟨-, -, hcontext, hnone⟩ := sharing_responses
  have hcompleted := plan_completes reading rfl sharing_publishes hcontext rfl
    ⟨0, by decide, _, rfl, by decide⟩ (fun _ _ => rfl)
    (fun h hattached => absurd rfl (hnone ⟨501, h⟩ hattached))
  simp only [Nat.reduceAdd] at hcompleted
  obtain ⟨hok, href, hpaths⟩ := hcompleted
  refine ⟨hok, href, fun path hpath => ?_⟩
  obtain ⟨h, row, hhash, -, -, hagrees, hserved⟩ := hpaths 0 (by decide) _ rfl path hpath
  obtain ⟨hnarinfo, hobject⟩ := hserved moment (fun _ => ⟨rfl, rfl⟩)
  exact ⟨h, row, hhash, hnarinfo, hagrees, hobject⟩

def forgotten : SerialRun :=
  continued [.insertProject exampleSlug "Example".toList true .main,
      .beginBuild exampleSlug.text "main".toList none, .registerPaths 101 [glibcPayload]] 3
    [.registerPaths 101 [helloPayload],
      .uploadObject 101 helloHash helloPayload.url [1, 2, 3, 4, 5], .finalizeBuild 101]

theorem forgotten_responses :
    (forgotten.response 0).toOption = some (.requiredUploads
      [⟨helloHash, helloPayload.url, octetStream, .proxy⟩]) ∧
    (forgotten.response 1).toOption = some .ok ∧ (forgotten.response 2).toOption = none ∧
    forgotten.start.db.buildContext 101 = some (exampleContext 101) := by decide +kernel

theorem forgotten_path_refused :
    (∃ r : FreshSerialRun, ∃ n, forgotten.start = r.world n) ∧
    Publishes forgotten 101 .silent 2 ∧
    forgotten.start.db.buildContext 101 = some (exampleContext 101) ∧
    (exampleContext 101).status = .pending ∧
    (∃ k < 2, ∃ paths, forgotten.request k = .registerPaths 101 paths ∧ paths ≠ []) ∧
    (∀ upstream o, (UpstreamCacheClient.silent.headObject upstream o).isSome =
      (UpstreamCacheClient.silent.getObject upstream o).isSome) ∧
    ∃ x, forgotten.response 2 = .error x := by
  obtain ⟨hregister, hupload, hfinalize, hcontext⟩ := forgotten_responses
  refine ⟨⟨_, _, rfl⟩, ⟨fun _ _ _ => ⟨rfl, rfl⟩, ?_, ?_, ?_, rfl⟩, hcontext, rfl,
    ⟨0, by decide, _, rfl, by decide⟩, fun _ _ => rfl, exists_error_of_toOption hfinalize⟩
  · intro k hk
    interval_cases k
    · exact Or.inl ⟨_, rfl⟩
    · exact Or.inr ⟨_, _, _, rfl⟩
  · intro k hk
    interval_cases k
    · exact ⟨_, eq_ok_of_toOption hregister⟩
    · exact ⟨_, eq_ok_of_toOption hupload⟩
  · intro k hk uploads hr upload hu
    interval_cases k
    · rw [eq_ok_of_toOption hregister] at hr
      cases hr
      obtain rfl := List.mem_singleton.mp hu
      exact ⟨1, by decide, [1, 2, 3, 4, 5], rfl⟩
    · rw [eq_ok_of_toOption hupload] at hr
      cases hr

end Examples

end Completed
