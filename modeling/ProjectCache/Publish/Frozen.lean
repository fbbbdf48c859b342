import ProjectCache.Publish.Once

namespace FrozenBuild

open Textual Nix Project Calendar Tables Store Db Programs Ingest Depot Depot.Server
  SqliteDatabase

inductive FoundBy (objectPath : Text) : Prog.Event Interface → Prop
  | stored (storage : DepotStorage) (metadata : BlobMetadata) :
    FoundBy objectPath ⟨.head storage objectPath, .ok (some metadata)⟩
  | upstream (upstream : UpstreamCache) (metadata : BlobMetadata) :
    FoundBy objectPath ⟨.headUpstreamObject upstream objectPath, .ok (some metadata)⟩

def isPublish : Call → Bool
  | .publishBuild _ _ _ _ => true
  | _ => false

theorem reads_not_isPublish (c : Call) (h : c.reads = true) : isPublish c = false := by
  cases c <;> first | rfl | cases h

theorem objectExistsUpstream_found {o : Text} {upstreams : List UpstreamCache}
    {events : List (Prog.Event Interface)}
    (h : (objectExistsUpstream o upstreams).Follows events (.done (.ok true))) :
    ∃ e ∈ events, FoundBy o e := by
  induction upstreams generalizing events with
  | nil => cases h.done.1
  | cons u rest ih =>
    obtain ⟨found, early, late, rfl, he, hl⟩ := Prog.Follows.finished h
    obtain rfl := he.performed
    cases found with
    | some metadata => exact ⟨_, List.mem_append_left _ (List.mem_singleton.mpr rfl),
        .upstream u metadata⟩
    | none =>
      obtain ⟨e, hm, hf⟩ := ih hl
      exact ⟨e, List.mem_append_right _ hm, hf⟩

theorem recordIfStored_found {storageId : StorageId} {storage : DepotStorage} {h : StorePathHash}
    {o : Text} {events : List (Prog.Event Interface)}
    (hf : (IngestService.recordIfStored storageId storage h o).Follows events
      (.done (.ok true))) : ∃ e ∈ events, FoundBy o e := by
  obtain ⟨found, early, late, rfl, he, hl⟩ := Prog.Follows.finished hf
  obtain rfl := he.performed
  cases found with
  | some metadata => exact ⟨_, List.mem_append_left _ (List.mem_singleton.mpr rfl),
      .stored storage metadata⟩
  | none => cases hl.done.1

theorem finalizePaths_found {buildId : Uuid} {storageId : StorageId} {storage : DepotStorage}
    {upstreams : List UpstreamCache} {paths : List (StorePathHash × Text)}
    {events : List (Prog.Event Interface)}
    (h : (IngestService.finalizePaths buildId storageId storage upstreams paths).Follows events
      (.done (.ok ()))) : ∀ path ∈ paths, ∃ e ∈ events, FoundBy path.2 e := by
  induction paths generalizing events with
  | nil => simp
  | cons path rest ih =>
    obtain ⟨stored, early, late, rfl, he, hl⟩ := Prog.Follows.finished h
    cases stored with
    | true =>
      intro p hp
      rcases List.mem_cons.mp hp with rfl | hp
      · obtain ⟨e, hm, hf⟩ := recordIfStored_found he
        exact ⟨e, List.mem_append_left _ hm, hf⟩
      · obtain ⟨e, hm, hf⟩ := ih hl p hp
        exact ⟨e, List.mem_append_right _ hm, hf⟩
    | false =>
      obtain ⟨exists', early', late', rfl, he', hl'⟩ := Prog.Follows.finished hl
      cases exists' with
      | false => cases hl'.done.1
      | true =>
        intro p hp
        rcases List.mem_cons.mp hp with rfl | hp
        · obtain ⟨e, hm, hf⟩ := objectExistsUpstream_found he'
          exact ⟨e, List.mem_append_right _ (List.mem_append_left _ hm), hf⟩
        · obtain ⟨e, hm, hf⟩ := ih hl' p hp
          exact ⟨e, List.mem_append_right _ (List.mem_append_right _ hm), hf⟩

def listing (b : Uuid) : Call := .select (fun _ db => db.buildPathNarObjects b)

theorem finalizeBuild_follows {service : IngestService} {b : Uuid} {c : Call}
    {resume : Except Error c.Reply → Action Unit} {events : List (Prog.Event Interface)}
    (h : (service.finalizeBuild b).Follows events (.call c resume)) (hc : isPublish c = true) :
    ∃ (early late : List (Prog.Event Interface)) (paths : List (StorePathHash × Text)),
      events = early ++ ⟨listing b, .ok paths⟩ :: late ∧
        ∀ path ∈ paths, ∃ e ∈ late, FoundBy path.2 e := by
  have hr : ∀ d : Call, d.reads = true → isPublish d = false := reads_not_isPublish
  have hno : ¬ isPublish c = false := by simp [hc]
  obtain ⟨context, e₁, l₁, rfl, h₁, k₁⟩ := h.after (uses_pendingBuildContext hr b) hno
  obtain ⟨paths, e₂, l₂, rfl, h₂, k₂⟩ := Prog.Follows.after k₁ (uses_select hr _) hno
  obtain rfl := h₂.performed
  split at k₂
  · cases k₂.done.1
  obtain ⟨upstreams, e₃, l₃, rfl, h₃, k₃⟩ :=
    Prog.Follows.after k₂ (uses_projectUpstreams hr _) hno
  obtain ⟨⟨storageId, storage⟩, e₄, l₄, rfl, h₄, k₄⟩ :=
    Prog.Follows.after k₃ (uses_storageForProject hr _ _) hno
  obtain ⟨u, e₅, l₅, rfl, h₅, k₅⟩ := Prog.Follows.after k₄
    (uses_finalizePaths hr (fun _ _ _ => rfl) (fun _ _ => rfl) _ _ _ _ _) hno
  refine ⟨e₁, e₃ ++ (e₄ ++ (e₅ ++ l₅)), paths, by simp [listing], fun path hp => ?_⟩
  obtain ⟨e, hm, hf⟩ := finalizePaths_found h₅ path hp
  exact ⟨e, by simp [hm], hf⟩

def isAttach : Call → Bool
  | .attachBuildPath _ _ => true
  | _ => false

theorem reads_not_isAttach (c : Call) (h : c.reads = true) : isAttach c = false := by
  cases c <;> first | rfl | cases h

def statusCheck (b : Uuid) : Call := .select (fun _ db => db.buildContext b)

theorem pendingBuildContext_follows {b : Uuid} {context : BuildContextRecord}
    {events : List (Prog.Event Interface)}
    (h : (IngestService.pendingBuildContext b).Follows events (.done (.ok context))) :
    ⟨statusCheck b, .ok (some context)⟩ ∈ events ∧ context.status = .pending := by
  obtain ⟨found, e₁, l₁, rfl, h₁, k₁⟩ := Prog.Follows.finished h
  obtain rfl := h₁.performed
  obtain ⟨checked, e₂, l₂, rfl, h₂, k₂⟩ := Prog.Follows.finished k₁
  cases found with
  | none => cases h₂.done.1
  | some row =>
    cases h₂.done.1
    split at k₂
    · cases k₂.done.1
    · rename_i hstatus
      cases k₂.done.1
      exact ⟨List.mem_append_left _ (List.mem_singleton.mpr rfl), not_not.mp hstatus⟩

theorem registerPaths_follows [Base64] {service : IngestService} {b : Uuid}
    {paths : List NarInfoPayload} {c : Call}
    {resume : Except Error c.Reply → Action (List RequiredUpload)}
    {events : List (Prog.Event Interface)}
    (h : (service.registerPaths b paths).Follows events (.call c resume))
    (hc : isAttach c = true) :
    ∃ context : BuildContextRecord, ⟨statusCheck b, .ok (some context)⟩ ∈ events ∧
      context.status = .pending := by
  obtain ⟨context, early, late, rfl, he, -⟩ :=
    h.after (uses_pendingBuildContext reads_not_isAttach b) (by simp [hc])
  obtain ⟨hm, hs⟩ := pendingBuildContext_follows he
  exact ⟨context, List.mem_append_left _ hm, hs⟩

section

variable [Base64] [WildMatch] (r : ServerRun)

def Frozen : Prop :=
  ∀ m n, m ≤ n → ∀ b ∈ (r.db m).builds.rows, b.status = .finalized → ∀ h : StorePathHash,
    ⟨b.id, h⟩ ∈ (r.db n).buildPaths.rows ↔ ⟨b.id, h⟩ ∈ (r.db m).buildPaths.rows

def PublishedPathsFound : Prop :=
  ∀ n i, r.schedule.choice n = .advance i → ∀ p ∈ r.publishes n, ∀ k, n ≤ k →
    ∀ h : StorePathHash, ⟨p.buildId, h⟩ ∈ (r.db k).buildPaths.rows →
      ∃ pi, (r.db k).pathInfo h = some pi ∧ ∃ m < n, ∃ e, r.Happens i m e ∧ FoundBy pi.url e

def attaches (k : Nat) : Option (Uuid × StorePathHash) :=
  match r.call k with
  | some (.attachBuildPath b h) => some (b, h)
  | _ => none

structure Adds (j s k : Nat) (b : Uuid) (h : StorePathHash) : Prop where
  before : s < k
  foundPending : ∃ context : BuildContextRecord,
    r.Happens j s ⟨statusCheck b, .ok (some context)⟩ ∧ context.status = .pending
  chosen : r.schedule.choice k = .advance j
  attaches : attaches r k = some (b, h)
  takesEffect : ∀ message, (r.schedule.env k).outcome ≠ .refused message

def ListsAllPaths : Prop :=
  ∀ i m n, r.schedule.choice n = .advance i → ∀ p ∈ r.publishes n,
    (∃ reply, r.Happens i m ⟨listing p.buildId, reply⟩) →
    ∀ j s k h, s < n → m ≤ k → Adds r j s k p.buildId h →
      ⟨p.buildId, h⟩ ∈ (r.db k).buildPaths.rows

variable {r}

theorem attached_step {k : Nat} {b : Uuid} {h : StorePathHash}
    (hr : ⟨b, h⟩ ∈ (r.db (k + 1)).buildPaths.rows) :
    ⟨b, h⟩ ∈ (r.db k).buildPaths.rows ∨
      attaches r k = some (b, h) ∧ (∀ message, (r.schedule.env k).outcome ≠ .refused message) ∧
        ∃ pi, (r.db k).pathInfo h = some pi := by
  unfold ServerRun.db at hr ⊢
  rcases r.changed_by_call k with hs | ⟨c, hc, hs⟩
  · exact Or.inl (hs ▸ hr)
  · rw [hs] at hr
    cases c with
    | attachBuildPath b' h' =>
      by_cases hrefused : ∃ message, (r.schedule.env k).outcome = .refused message
      · obtain ⟨message, ho⟩ := hrefused
        simp only [answer, Call.local, Bool.false_eq_true, if_false, ho] at hr
        exact Or.inl hr
      rcases answer_state (.attachBuildPath b' h') (r.schedule.env k) (r.world k) with ha | ha
      · exact Or.inl (ha ▸ hr)
      rw [ha] at hr
      simp only [carryOut] at hr
      cases hd : (r.world k).db.attachBuildPath b' h' with
      | none => exact Or.inl (by simpa [World.written, hd] using hr)
      | some db' =>
        obtain ⟨⟨-, hpi⟩, rfl⟩ := attachBuildPath_eq_some.mp hd
        simp only [World.written, hd] at hr
        rcases Table.mem_insertOrIgnore.mp hr with hm | ⟨-, hm⟩
        · exact Or.inl hm
        · cases hm
          exact Or.inr ⟨by simp [attaches, hc], not_exists.mp hrefused, hpi⟩
    | _ =>
      refine Or.inl ?_
      rw [(answer_frame _ _ _).buildPaths (by simp [Call.writes])] at hr
      exact hr

theorem atCall_of_call {k : Nat} {c : Call} (h : r.call k = some c) :
    ∃ i q resume, r.schedule.choice k = .advance i ∧ (r.pool k).AtCall i q c resume := by
  unfold ServerRun.call nextCall at h
  split at h
  · rename_i i hi
    split at h
    · rename_i q c' resume ht
      cases h
      exact ⟨i, q, resume, hi, ht⟩
    · cases h
  · cases h

theorem call_of_happens {i k : Nat} {e : Prog.Event Interface} (h : r.Happens i k e) :
    r.call k = some e.call := by
  obtain ⟨q, resume, hcall⟩ := h.atCall
  rw [ServerRun.call, h.chosen]
  exact nextCall_of_atCall hcall

theorem adds_of_attaches {k : Nat} {b : Uuid} {h : StorePathHash}
    (ha : attaches r k = some (b, h))
    (hf : ∀ message, (r.schedule.env k).outcome ≠ .refused message) : ∃ j s, Adds r j s k b h := by
  have hcall : r.call k = some (.attachBuildPath b h) := by
    unfold attaches at ha
    split at ha
    · rename_i hcall
      cases ha
      exact hcall
    · cases ha
  obtain ⟨j, q, resume, hj, hc⟩ := atCall_of_call hcall
  obtain ⟨paths, rfl⟩ : ∃ paths, q = .registerPaths b paths := by
    cases (ServerRun.within k).atCall hc with
    | reads hr => cases hr
    | attachBuildPath h => exact ⟨_, rfl⟩
  obtain ⟨events, hfollows, -, he⟩ := ServerRun.history hc
  obtain ⟨next, hfollows⟩ := Prog.Follows.of_map hfollows
  obtain ⟨context, hm, hs⟩ := registerPaths_follows hfollows rfl
  obtain ⟨x, hx, hxe⟩ := List.mem_map.mp hm
  obtain ⟨hlt, hhappens⟩ := he x hx
  exact ⟨j, x.1, hlt, ⟨context, hxe ▸ hhappens, hs⟩, hj, ha, hf⟩

theorem not_found_pending {n s j : Nat} {p : Publication} (hp : p ∈ r.publishes n) (hns : n ≤ s)
    {context : BuildContextRecord}
    (hh : r.Happens j s ⟨statusCheck p.buildId, .ok (some context)⟩) :
    context.status ≠ .pending := by
  intro hs
  rcases Nat.eq_or_lt_of_le hns with rfl | hlt
  · obtain ⟨i, q, resume, hi, hc⟩ := publication_atCall hp
    obtain rfl : j = i := by simpa [hi, eq_comm] using hh.chosen
    obtain ⟨q', resume', hc'⟩ := hh.atCall
    have hsame : some (statusCheck p.buildId) = some (Call.publishBuild _ _ _ _) :=
      (nextCall_of_atCall hc').symm.trans (nextCall_of_atCall hc)
    cases hsame
  · obtain ⟨b, hb, hid, hfinal⟩ := PublishOnce.finalized_after hlt hp
    have hreply : .ok (some context) =
        (answer (statusCheck p.buildId) (r.schedule.env s) (r.world s)).2 := hh.reply
    rw [answer_of_ok hreply.symm] at hreply
    have hpending := PublishOnce.pendingIn_of_context (Except.ok.inj hreply).symm hs b hb hid
    rw [hfinal] at hpending
    cases hpending

theorem attached_of_listed (hl : ListsAllPaths r) {i m n : Nat}
    (hi : r.schedule.choice n = .advance i) {p : Publication} (hp : p ∈ r.publishes n)
    (hm : ∃ reply, r.Happens i m ⟨listing p.buildId, reply⟩) {k : Nat} (hmk : m ≤ k)
    {h : StorePathHash} (hr : ⟨p.buildId, h⟩ ∈ (r.db k).buildPaths.rows) :
    ⟨p.buildId, h⟩ ∈ (r.db m).buildPaths.rows := by
  induction k, hmk using Nat.le_induction with
  | base => exact hr
  | succ k hmk ih =>
    rcases attached_step hr with hold | ⟨ha, hf, -⟩
    · exact ih hold
    obtain ⟨j, s, hadds⟩ := adds_of_attaches ha hf
    rcases Nat.lt_or_ge s n with hsn | hns
    · exact ih (hl i m n hi p hp hm j s k h hsn hmk hadds)
    · obtain ⟨context, hh, hs⟩ := hadds.foundPending
      exact absurd hs (not_found_pending hp hns hh)

theorem registered (r : FreshRun) (n : Nat) {b : Uuid} {h : StorePathHash}
    (hr : ⟨b, h⟩ ∈ (r.db n).buildPaths.rows) : ∃ pi, (r.db n).pathInfo h = some pi := by
  induction n with
  | zero => simp [ServerRun.db, ServerRun.world, ServerRun.pool, Pool.run, r.empty] at hr
  | succ n ih =>
    obtain ⟨pi, hpi⟩ := (attached_step hr).elim ih (fun h => h.2.2)
    exact ⟨pi, (ServerRun.grows n).pathInfo hpi⟩

theorem publisher_history {n i : Nat} (hi : r.schedule.choice n = .advance i) {p : Publication}
    (hp : p ∈ r.publishes n) : ∃ m < n, ∃ paths : List (StorePathHash × Text),
      r.Happens i m ⟨listing p.buildId, .ok paths⟩ ∧
        ∀ path ∈ paths, ∃ k < n, ∃ e, r.Happens i k e ∧ FoundBy path.2 e := by
  obtain ⟨j, q, resume, hj, hc⟩ := publication_atCall hp
  obtain rfl : i = j := by simpa [hi] using hj
  obtain rfl : q = .finalizeBuild p.buildId := by
    cases (ServerRun.within n).atCall hc with
    | reads hr => cases hr
    | publishBuild => rfl
  obtain ⟨events, hf, -, he⟩ := ServerRun.history hc
  obtain ⟨next, hf⟩ := Prog.Follows.of_map hf
  obtain ⟨early, late, paths, heq, hfound⟩ := finalizeBuild_follows hf rfl
  obtain ⟨before, after, rfl, -, hafter⟩ := List.map_eq_append_iff.mp heq
  obtain ⟨x, rest, rfl, hx, hrest⟩ := List.map_eq_cons_iff.mp hafter
  obtain ⟨hxn, hxh⟩ := he x (by simp)
  refine ⟨x.1, hxn, paths, hx ▸ hxh, fun path hpath => ?_⟩
  obtain ⟨e, hel, hef⟩ := hfound path hpath
  obtain ⟨y, hy, rfl⟩ := List.mem_map.mp (hrest ▸ hel)
  obtain ⟨hyn, hyh⟩ := he y (by simp [hy])
  exact ⟨y.1, hyn, y.2, hyh, hef⟩

theorem listed {i m : Nat} {b : Uuid} {paths : List (StorePathHash × Text)}
    (h : r.Happens i m ⟨listing b, .ok paths⟩) : paths = (r.db m).buildPathNarObjects b := by
  have hreply : .ok paths = (answer (listing b) (r.schedule.env m) (r.world m)).2 := h.reply
  rw [answer_of_ok hreply.symm] at hreply
  exact Except.ok.inj hreply

theorem frozen_of_listsAllPaths (r : FreshRun) (hl : ListsAllPaths r.toServerRun) :
    Frozen r.toServerRun ∧ PublishedPathsFound r.toServerRun := by
  constructor
  · intro m n hmn b hb hs h
    refine ⟨fun hr => ?_, fun hr => (ServerRun.grows_le hmn).buildPaths _ hr⟩
    obtain ⟨k, hkm, p, hp, hpb⟩ := (PublishOnce.consistent r m).published b hb hs
    obtain ⟨i, -, -, hi, -⟩ := publication_atCall hp
    obtain ⟨l, hlk, paths, hh, -⟩ := publisher_history hi hp
    have hlist := attached_of_listed hl hi hp ⟨_, hh⟩ (by omega : l ≤ n) (hpb ▸ hr)
    exact hpb ▸ (ServerRun.grows_le (by omega : l ≤ m)).buildPaths _ hlist
  · intro n i hi p hp k hnk h hr
    obtain ⟨l, hln, paths, hh, hfound⟩ := publisher_history hi hp
    have hlist := attached_of_listed hl hi hp ⟨_, hh⟩ (by omega : l ≤ k) hr
    obtain ⟨pi, hpi⟩ := registered r l hlist
    have hmem : (h, pi.url) ∈ paths := by
      rw [listed hh]
      exact Database.mem_buildPathNarObjects.mpr ⟨hlist, pi, hpi, rfl⟩
    exact ⟨pi, (ServerRun.grows_le (by omega : l ≤ k)).pathInfo hpi, hfound _ hmem⟩

end

section Examples

attribute [local instance] standardBase64 standardWildMatch

def publishedScript : List (Choice Request) :=
  uploadedScript ++ [.submit (.finalizeBuild 5)] ++ advances 4 10

theorem scripted_idle {script : List (Choice Request)} {n : Nat} (h : script.length ≤ n) :
    (scripted script).schedule.choice n = .idle := by
  simp [scripted, List.getD, List.getElem?_eq_none h]

theorem published_listsAllPaths : ListsAllPaths (scripted publishedScript).toServerRun := by
  have hrun : (∀ n < 37, (scripted publishedScript).publishes n = none ∨ n = 36) ∧
      (∀ n < 27, (scripted publishedScript).schedule.choice n ≠ .advance 4) ∧
      ∀ n < 37, attaches (scripted publishedScript).toServerRun n = none ∨ n < 27 := by
    decide +kernel
  obtain ⟨hpublishes, hchoice, hattaches⟩ := hrun
  have hlast : (scripted publishedScript).schedule.choice 36 = .advance 4 := by decide
  rintro i m n hi p hp ⟨reply, hm⟩ j s k h - hmk hadds
  have ha := hadds.attaches
  have hn : n = 36 := by
    by_cases hlt : n < 37
    · refine (hpublishes n hlt).resolve_left (fun hnone => ?_)
      rw [hnone] at hp
      cases hp
    · rw [scripted_idle (Nat.not_lt.mp hlt)] at hi
      cases hi
  subst hn
  obtain rfl : i = 4 := by simpa [hlast, eq_comm] using hi
  have hm27 : 27 ≤ m := Nat.not_lt.mp (fun hlt => hchoice m hlt hm.chosen)
  by_cases hlt : k < 37
  · rcases hattaches k hlt with hnone | hk
    · rw [hnone] at ha
      cases ha
    · omega
  · unfold attaches ServerRun.call at ha
    rw [scripted_idle (Nat.not_lt.mp hlt)] at ha
    cases ha

theorem published_frozen : Frozen (scripted publishedScript).toServerRun ∧
    PublishedPathsFound (scripted publishedScript).toServerRun :=
  frozen_of_listsAllPaths (scripted publishedScript) published_listsAllPaths

def secondPayload : NarInfoPayload :=
  { helloPayload with
    storePath := "/nix/store/0123456789abcdfghijklmnpqrsvwxyz-second".toList
    url := "nar/120ay2q1av2xs4n842rb3d7vz8qms1dcb87a5yd6azaci20x11lz.nar.zst".toList
    narHash := "sha256:120ay2q1av2xs4n842rb3d7vz8qms1dcb87a5yd6azaci20x11lz".toList }

def lateScript : List (Choice Request) :=
  uploadedScript ++ [.submit (.registerPaths 5 [secondPayload])] ++ advances 4 1 ++
  [.submit (.finalizeBuild 5)] ++ advances 5 10 ++ advances 4 2

theorem late_not_frozen : ¬ Frozen (scripted lateScript).toServerRun := by
  intro h
  have hrun : ∃ b ∈ ((scripted lateScript).db 39).builds.rows, b.status = .finalized ∧
      ∃ p ∈ ((scripted lateScript).db 41).buildPaths.rows, p.buildId = b.id ∧
        p ∉ ((scripted lateScript).db 39).buildPaths.rows := by decide +kernel
  obtain ⟨b, hb, hs, ⟨_, p⟩, hp, rfl, hno⟩ := hrun
  exact hno ((h 39 41 (by decide) b hb hs p).mp hp)

end Examples

end FrozenBuild
