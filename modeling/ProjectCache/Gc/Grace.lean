import ProjectCache.Gc.Collecting
import ProjectCache.Gc.Safety

namespace Grace

open Textual Nix Project Calendar Tables Store Db Programs Ingest Depot Depot.Server
  SqliteDatabase Gc Collecting

def LinkedToBuild (db : Database) (slug : ProjectSlug) (o : Text) : Prop :=
  ∃ p ∈ db.projects.rows, p.slug = slug ∧ ∃ b ∈ db.builds.rows, b.projectId = p.id ∧
    ∃ bp ∈ db.buildPaths.rows, bp.buildId = b.id ∧ ∃ po ∈ db.pathObjects.rows,
      po.storePathHash = bp.storePathHash ∧ po.objectPath = o

def HasPolicy (db : Database) (slug : ProjectSlug) (policy : ProjectRetentionPolicyRecord) : Prop :=
  ∃ now, lookedUp now (getProjectRetentionPolicy slug) db = .ok policy

def PastGrace (db : Database) (key : StorageId × Text) (now : SqliteTime) : Prop :=
  ∃ so ∈ db.storageObjects.rows, (so.storageId, so.objectPath) = key ∧ ∃ t ∈ so.firstDeletedAt,
    ∀ slug policy, HasPolicy db slug policy → LinkedToBuild db slug so.objectPath →
      t.unixepoch + policy.objectDeleteGraceSeconds.toNat ≤ now.unixepoch

section

variable [Base64] [WildMatch] (r : ServerRun)

def DatabaseClockNeverBack : Prop := ∀ m n, m ≤ n →
  (r.schedule.env m).sqliteNow.unixepoch ≤ (r.schedule.env n).sqliteNow.unixepoch

def OneAtATime : Prop := ∀ n i j q q', i ≠ j → r.schedule.choice n = .advance i → r.Works i n q →
  ¬ r.Works j n q'

def ListsPastGrace : Prop := ∀ i l ready,
  ListsAt r DEFAULT_GC_GRACE_PERIOD_SECONDS i l ready →
    ∀ so ∈ (r.db l).storageObjects.rows, ∀ t ∈ so.firstDeletedAt,
      t.unixepoch + DEFAULT_GC_GRACE_PERIOD_SECONDS ≤ (r.schedule.env l).sqliteNow.unixepoch →
        ∀ slug policy, HasPolicy (r.db l) slug policy → LinkedToBuild (r.db l) slug so.objectPath →
          t.unixepoch + policy.objectDeleteGraceSeconds.toNat ≤
            (r.schedule.env l).sqliteNow.unixepoch

variable {r}

theorem past_grace_of_listed (h : ListsPastGrace r) (hclock : DatabaseClockNeverBack r)
    {i k l : Nat}
    {ready : List (StorageId × Text)} {key : StorageId × Text}
    (hl : ListsAt r DEFAULT_GC_GRACE_PERIOD_SECONDS i l ready) (hkey : key ∈ ready) (hlk : l ≤ k) :
    PastGrace (r.db l) key (r.schedule.env k).sqliteNow := by
  rw [hl.lists] at hkey
  obtain ⟨so, hm, hso, -, t, ht, hage⟩ := mem_readyForDeletion.mp hkey
  refine ⟨so, hm, hso, t, ht, fun slug policy hp hlinked => ?_⟩
  exact (h i l ready hl so hm t ht (by omega) slug policy hp hlinked).trans (hclock l k hlk)

end

theorem looksUp_select {B : Type} {query : SqliteTime → Database → B}
    (h : (Call.select query).LooksUp)
    (now : SqliteTime) (db : Database) (storageObjects : Table StorageObjectRow) :
    query now { db with storageObjects } = query now db := by
  generalize hc : Call.select query = c at h
  cases h with
  | select query' h =>
    cases hc
    exact h db storageObjects
  | now => cases hc

theorem not_marks_listing : ¬ Marks (listing DEFAULT_GC_GRACE_PERIOD_SECONDS) := by
  rintro (hl | ⟨roots, h⟩ | ⟨roots, h⟩)
  · have heq := looksUp_select hl (.whole noon) {} (.single (tombedRow "nar/old".toList morning))
    revert heq
    decide +kernel
  · cases h
  · cases h

section

variable [Base64] [WildMatch] {r : ServerRun} {i k l : Nat} {ready : List (StorageId × Text)}

theorem follows_listing {server : Server} {events : List (Prog.Event Interface)}
    {resume : Except Error (List (StorageId × Text)) → Action Response}
    (h : (server.program (.runLocalGc false DEFAULT_GC_GRACE_PERIOD_SECONDS)).Follows events
      (.call (listing DEFAULT_GC_GRACE_PERIOD_SECONDS) resume)) :
    resume (.ok ready) = deleting server.gcService ready := by
  rw [program_runLocalGc] at h
  obtain ⟨u, early, late, -, -, hlate⟩ := h.after marking_uses not_marks_listing
  rcases hlate.call with ⟨heq, -⟩ | ⟨reply, later, -, hl⟩
  · cases heq
    rfl
  · cases reply with
    | error x => cases hl.done.1
    | ok ready' =>
      have huses := (Prog.Uses.follows (deleting_uses server.gcService ready') hl).1.1
      rcases huses with ⟨_, _, heq, -⟩ | ⟨_, heq⟩ <;> cases heq

theorem deleting_of_listed (hl : ListsAt r DEFAULT_GC_GRACE_PERIOD_SECONDS i l ready) :
    (r.pool (l + 1)).tasks[i]? = some
        ⟨.runLocalGc false DEFAULT_GC_GRACE_PERIOD_SECONDS, deleting r.server.gcService ready⟩ ∧
      r.db (l + 1) = r.db l := by
  obtain ⟨hi, ⟨q, resume, hcall⟩, hreply⟩ := hl.happens
  obtain ⟨rest, hrest, -⟩ := hl.works
  obtain rfl : q = .runLocalGc false DEFAULT_GC_GRACE_PERIOD_SECONDS := by
    have heq := Option.some.inj (hcall.symm.trans hrest)
    injection heq
  have hnext := Pool.run_succ_of_atCall hi hcall
  have hstate : (answer (listing DEFAULT_GC_GRACE_PERIOD_SECONDS) (r.schedule.env l)
      (r.world l)).1 = r.world l := answer_of_reads rfl _ _
  obtain ⟨events, hf, -⟩ := ServerRun.history hcall
  have hresume : resume (.ok ready) = deleting r.server.gcService ready := follows_listing hf
  have hpool : r.pool (l + 1) = _ := hnext
  refine ⟨?_, ?_⟩
  · rw [hpool, List.getElem?_set_self (Pool.atCall_lt hcall), ← hreply, hresume]
  · rw [ServerRun.db, ServerRun.world, hpool]
    exact congrArg World.db hstate

theorem respects_alone (h : OneAtATime r) (m n : Nat) :
    Pool.Respects ⟨Eq, fun _ _ => True⟩ r.server.program ⟨r.start, []⟩ r.schedule i m n where
  admits := fun _ _ _ _ => trivial
  later := fun k _ _ hne ⟨⟨q, rest⟩, htask, hrunning⟩ => by
    have hm := r.moves k
    change (r.pool k).state = (r.pool (k + 1)).state
    generalize hnext : r.pool (k + 1) = next at hm
    cases hm with
    | submit q' hq => rfl
    | advance j q' c resume hj hc =>
      refine absurd ⟨rest, htask, hrunning⟩ (h k j i q' q ?_ hj ⟨_, hc, rfl⟩)
      rintro rfl
      exact hne hj
    | stay => rfl

omit [Base64] [WildMatch] in
theorem outline_deleting (service : GcService) (w : World) :
    Outline (M := machine) ⟨Eq, fun _ _ => True⟩
      (fun c _ t _ => ∀ key, Removes c key → t.db = w.db) (fun _ _ => True)
      (deleting service ready) w := by
  refine Outline.bind (Outline.mono (Outline.of_invariant (fun t : World => t.db = w.db)
    (fun a b hab ha => hab ▸ ha) (fun c e t hc _ ht => ?_)
    (deleteReadyObjects_uses service ready (fun _ h => h)) rfl) (fun c e t rest _ hc _ _ => hc.2)
    (fun result t ht => ?_))
  · obtain ⟨storage, o, rfl, -⟩ := hc
    rcases answer_state (.deleteObject storage o) e t with hs | hs <;> rw [hs] <;> exact ht
  · cases result with
    | error x => trivial
    | ok deleted =>
      rw [onOk_ok]
      rintro _ rfl e -
      refine ⟨fun _ _ => ht, ?_⟩
      generalize machine.answer (Call.deleteStorageObjects deleted) e t = reply
      obtain ⟨v, result⟩ := reply
      cases result <;> trivial

theorem removed_past_grace (r : ServerRun) (h : ListsPastGrace r)
    (hclock : DatabaseClockNeverBack r) {i k : Nat} {key : StorageId × Text}
    (hk : RemovesAt r DEFAULT_GC_GRACE_PERIOD_SECONDS i k key) :
    (∃ l < k, ∃ ready, ListsAt r DEFAULT_GC_GRACE_PERIOD_SECONDS i l ready ∧ key ∈ ready ∧
      PastGrace (r.db l) key (r.schedule.env k).sqliteNow) ∧
    (OneAtATime r → PastGrace (r.db k) key (r.schedule.env k).sqliteNow) := by
  obtain ⟨l, hlk, ready, hl, hkey⟩ := hk.listed
  have hpast := past_grace_of_listed h hclock hl hkey hlk.le
  refine ⟨⟨l, hlk, ready, hl, hkey, hpast⟩, fun halone => ?_⟩
  obtain ⟨htask, hdb⟩ := deleting_of_listed hl
  obtain ⟨c, reply, ⟨hchosen, ⟨q, resume, hcall⟩, -⟩, hc⟩ := hk.removes
  obtain ⟨rest, hrest, hout⟩ := Pool.outline_along (M := machine) (fun _ => rfl)
    (fun hab hbc => Eq.trans hab hbc) hlk (fun _ _ _ _ _ => trivial)
    (respects_alone halone (l + 1) k)
    htask (outline_deleting r.server.gcService (r.world (l + 1)))
  have heq := Option.some.inj (hcall.symm.trans hrest)
  injection heq with _ heq
  subst heq
  have hsame : r.db k = r.db (l + 1) :=
    Pool.check_of_atCall (e := r.schedule.env k) (fun _ => rfl) hout trivial key hc
  rw [hsame, hdb]
  exact hpast

end

theorem grace_of_hasPolicy {db : Database} {slug : ProjectSlug}
    {policy : ProjectRetentionPolicyRecord} (h : HasPolicy db slug policy) :
    ∃ p ∈ db.projects.rows, p.slug = slug ∧ policy.objectDeleteGraceSeconds =
      ((db.retentionPolicyRow p.id).map RetentionPolicyRow.objectDeleteGraceSeconds).getD
        DEFAULT_OBJECT_DELETE_GRACE_SECONDS := by
  obtain ⟨now, h⟩ := h
  have hwp : machine.wp (fun _ => True) (fun r _ => ∀ policy, r = .ok policy →
      ∃ p ∈ db.projects.rows, p.slug = slug ∧ policy.objectDeleteGraceSeconds =
        ((db.retentionPolicyRow p.id).map RetentionPolicyRow.objectDeleteGraceSeconds).getD
          DEFAULT_OBJECT_DELETE_GRACE_SECONDS)
      (getProjectRetentionPolicy slug) ⟨db, fun _ _ => none⟩ := by
    refine Machine.wp_bind.mpr (Machine.wp_bind.mpr (wp_select ?_ (fun _ _ _ _ _ h => nomatch h)))
    rw [onOk_ok]
    refine wp_orFail (fun id hid => ?_) (fun _ _ h => nomatch h)
    obtain ⟨p, hp, rfl⟩ := Option.map_eq_some_iff.mp hid
    obtain ⟨hm, hslug⟩ := Database.projectBySlug_eq_some.mp hp
    rw [onOk_ok]
    refine Machine.wp_bind.mpr (wp_select ?_ (fun _ _ _ _ _ h => nomatch h))
    rw [onOk_ok]
    cases hrow : db.retentionPolicyRow p.id with
    | none =>
      rintro _ ⟨⟩
      exact ⟨p, hm, hslug, by rw [hrow]; rfl⟩
    | some row =>
      refine Machine.wp_bind.mpr (wp_select ?_ (fun _ _ _ _ _ h => nomatch h))
      rintro _ ⟨⟩
      exact ⟨p, hm, hslug, by rw [hrow]; rfl⟩
  exact Machine.exec_of_wp hwp (fun _ => trivial) policy h

section Examples

attribute [local instance] standardBase64 standardWildMatch

def gracedScript (grace : UInt64) : List (Choice Request) :=
  [.submit (.insertProject exampleSlug "Example".toList true .main)] ++ advances 0 2 ++
  [.submit (.replaceRetentionPolicy exampleSlug 1 grace [⟨10, "release".toList, none, some 1⟩])] ++
  advances 1 4 ++ [.submit (.beginBuild exampleSlug.text "main".toList none)] ++ advances 2 4 ++
  [.submit (.registerPaths 10 [helloPayload])] ++ advances 3 10 ++
  [.submit (.uploadObject 10 helloHash helloPayload.url [1, 2, 3, 4, 5])] ++ advances 4 9 ++
  [.submit (.finalizeBuild 10)] ++ advances 5 12 ++
  [.submit (.runLocalGc false DEFAULT_GC_GRACE_PERIOD_SECONDS)] ++ advances 6 16 ++
  [.submit (.runLocalGc false DEFAULT_GC_GRACE_PERIOD_SECONDS)] ++ advances 7 17

def evening : CivilTime := { noon with hour := 18, hour_lt := by decide }

def graced (grace : UInt64) : FreshRun :=
  { scripted (gracedScript grace) with
    schedule := {
      choice := fun n => (gracedScript grace).getD n .idle
      env := fun n =>
        { moment n with sqliteNow := .whole (if n < 64 then noon else evening) } } }

theorem graced_idle {grace : UInt64} {n : Nat} (h : 82 ≤ n) :
    (graced grace).schedule.choice n = .idle := by
  have hlen : (gracedScript grace).length = 82 := by simp [gracedScript, advances]
  simp [graced, List.getD, List.getElem?_eq_none (hlen ▸ h)]

theorem graced_clock (grace : UInt64) : DatabaseClockNeverBack (graced grace).toServerRun := by
  intro m n hmn
  have hle : noon.seconds ≤ evening.seconds := by decide +kernel
  have hclock (k : Nat) : ((graced grace).schedule.env k).sqliteNow.unixepoch =
      (if k < 64 then noon else evening).seconds := rfl
  rw [hclock, hclock]
  by_cases hm : m < 64
  · rw [if_pos hm]
    by_cases hn : n < 64
    · rw [if_pos hn]
    · rw [if_neg hn]
      exact Int.ofNat_le.mpr hle
  · rw [if_neg hm, if_neg (by omega)]

theorem graced_lists_past_grace : ListsPastGrace (graced 3600).toServerRun := by
  have hrun : ∀ l < 82, (∀ so ∈ ((graced 3600).db l).storageObjects.rows, ∀ t ∈ so.firstDeletedAt,
        (moment 0).sqliteNow.unixepoch ≤ t.unixepoch) ∧
      (64 ≤ l → ((graced 3600).db l).retentionPolicies.rows = [⟨1, 1, 3600⟩] ∧
        ((graced 3600).db l).projects.rows.map ProjectRow.id = [1]) := by decide +kernel
  intro i l ready hl so hm t ht hage slug policy hp _
  have hlt : l < 82 := by
    by_contra hge
    have hi := hl.happens.chosen
    rw [graced_idle (Nat.not_lt.mp hge)] at hi
    cases hi
  obtain ⟨hnoon, hpolicy⟩ := hrun l hlt
  by_cases hlate : 64 ≤ l
  · obtain ⟨hrows, hids⟩ := hpolicy hlate
    obtain ⟨p, hpm, -, hgrace⟩ := grace_of_hasPolicy hp
    have hid : p.id = 1 := by
      have hmem := List.mem_map_of_mem (f := ProjectRow.id) hpm
      simpa [hids] using hmem
    rw [Database.retentionPolicyRow, hrows, hid] at hgrace
    have hhour : policy.objectDeleteGraceSeconds = 3600 := hgrace.trans (by decide)
    have hseconds : (policy.objectDeleteGraceSeconds.toNat : Int) = 3600 := by rw [hhour]; rfl
    simp only [DEFAULT_GC_GRACE_PERIOD_SECONDS] at hage
    omega
  · have hclock : ((graced 3600).schedule.env l).sqliteNow = (moment 0).sqliteNow := by
      simp only [graced, not_le.mp hlate, if_true]
      rfl
    have := hnoon so hm t ht
    rw [hclock] at hage
    simp only [DEFAULT_GC_GRACE_PERIOD_SECONDS] at hage
    omega

def othersDone (pool : Servers) (choice : Choice Request) : Bool :=
  match choice with
  | .advance i => (pool.tasks.eraseIdx i).all (fun task => !task.running)
  | _ => true

theorem graced_alone (grace : UInt64) (h : ∀ n < 82,
      othersDone ((graced grace).pool n) ((graced grace).schedule.choice n) = true) :
    OneAtATime (graced grace).toServerRun := by
  rintro n i j q q' hij hi - ⟨rest, hrest, hrunning⟩
  have hlt : n < 82 := by
    by_contra hge
    rw [graced_idle (Nat.not_lt.mp hge)] at hi
    cases hi
  have hrun := h n hlt
  rw [hi, othersDone] at hrun
  have hdone := List.all_eq_true.mp hrun _
    (List.mem_eraseIdx_iff_getElem?.mpr ⟨j, hij.symm, hrest⟩)
  rw [hrunning] at hdone
  cases hdone

theorem graced_hour_removed :
    PastGrace ((graced 3600).db 80) (.main, helloPayload.url)
      ((graced 3600).schedule.env 80).sqliteNow := by
  have hrun : (graced 3600).schedule.choice 80 = .advance 7 ∧
      (((graced 3600).pool 80).tasks[7]?).map Task.request =
        some (.runLocalGc false DEFAULT_GC_GRACE_PERIOD_SECONDS) ∧
      ((.main, helloPayload.url) : StorageId × Text) ∈
        (((graced 3600).call 80).map removed).getD [] := by decide +kernel
  obtain ⟨hi, hq, hc⟩ := hrun
  exact (removed_past_grace (graced 3600).toServerRun graced_lists_past_grace (graced_clock _)
    (removesAt_of_call hi hq hc)).2 (graced_alone _ (by decide +kernel))

theorem graced_week_removed :
    OneAtATime (graced 604800).toServerRun ∧ DatabaseClockNeverBack (graced 604800).toServerRun ∧
    RemovesAt (graced 604800).toServerRun DEFAULT_GC_GRACE_PERIOD_SECONDS 7 80
      (.main, helloPayload.url) ∧
    ¬ PastGrace ((graced 604800).db 80) (.main, helloPayload.url)
      ((graced 604800).schedule.env 80).sqliteNow := by
  have hrun : (graced 604800).schedule.choice 80 = .advance 7 ∧
      (((graced 604800).pool 80).tasks[7]?).map Task.request =
        some (.runLocalGc false DEFAULT_GC_GRACE_PERIOD_SECONDS) ∧
      ((.main, helloPayload.url) : StorageId × Text) ∈
        (((graced 604800).call 80).map removed).getD [] ∧
      (∀ so ∈ ((graced 604800).db 80).storageObjects.rows, ∀ t ∈ so.firstDeletedAt,
        ((graced 604800).schedule.env 80).sqliteNow.unixepoch < t.unixepoch + 604800) ∧
      (lookedUp (moment 0).now (getProjectRetentionPolicy exampleSlug)
        ((graced 604800).db 80)).toOption.map
          ProjectRetentionPolicyRecord.objectDeleteGraceSeconds = some 604800 ∧
      LinkedToBuild ((graced 604800).db 80) exampleSlug helloPayload.url := by
    unfold LinkedToBuild
    decide +kernel
  obtain ⟨hi, hq, hc, hyoung, hpolicy, hlinked⟩ := hrun
  refine ⟨graced_alone _ (by decide +kernel), graced_clock _, removesAt_of_call hi hq hc, ?_⟩
  rintro ⟨so, hm, hkey, t, ht, hpast⟩
  obtain ⟨-, ho⟩ := Prod.mk.inj hkey
  obtain ⟨policy, hp, hgrace⟩ := Option.map_eq_some_iff.mp hpolicy
  have hle := hpast exampleSlug policy ⟨_, eq_ok_of_toOption hp⟩ (ho ▸ hlinked)
  have hlt := hyoung so hm t ht
  rw [hgrace] at hle
  exact absurd hle (not_le.mpr hlt)

end Examples

end Grace
