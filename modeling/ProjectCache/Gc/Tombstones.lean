import ProjectCache.Gc.Interrupted
import ProjectCache.Gc.Safety

namespace Tombstones

open Textual Nix Project Calendar Tables Store Db Programs Depot Depot.Server Ingest Gc
  SqliteDatabase Interrupted

def Tombstoned (db : Database) (s : StorageId) (o : Text) (t : SqliteTime) : Prop :=
  ∃ so ∈ db.storageObjects.rows, so.storageId = s ∧ so.objectPath = o ∧ so.firstDeletedAt = some t

section

variable {db : Database} {s : StorageId} {o : Text} {t : SqliteTime}

theorem tombstoned_cleared {live : List StorePathHash}
    (h : Tombstoned (db.clearDeletedState live) s o t) :
    Tombstoned db s o t ∧ o ∉ db.liveObjects live := by
  obtain ⟨so', hm', hs, ho, ht⟩ := h
  obtain ⟨so, hm, rfl⟩ := mem_clearDeletedState.mp hm'
  by_cases hl : so.objectPath ∈ db.liveObjects live
  · rw [if_pos hl] at ht
    cases ht
  · rw [if_neg hl] at hs ho ht
    exact ⟨⟨so, hm, hs, ho, ht⟩, ho ▸ hl⟩

theorem tombstoned_tidied {live stale : List StorePathHash} {now : SqliteTime}
    (h : Tombstoned (tidied db live stale now) s o t) :
    (Tombstoned db s o t ∧ o ∉ db.liveObjects live) ∨ t = now ∧ o ∉ db.liveObjects stale := by
  obtain ⟨so', hm', hs, ho, ht⟩ := h
  obtain ⟨so, hm, rfl⟩ := mem_tidied.mp hm'
  rw [tidiedRow_storageId] at hs
  rw [tidiedRow_objectPath] at ho
  by_cases hl : so.objectPath ∈ db.liveObjects live <;>
    by_cases hst : so.objectPath ∈ db.liveObjects stale
  · simp [tidiedRow, hl, hst, untombed] at ht
  · simp only [tidiedRow, hl, hst, decide_true, not_false_eq_true, tombed, untombed,
      Option.getD_none, Option.some.injEq] at ht
    exact Or.inr ⟨ht.symm, ho ▸ hst⟩
  · simp only [tidiedRow, hl, hst, decide_false, not_true] at ht
    exact Or.inl ⟨⟨so, hm, hs, ho, ht⟩, ho ▸ hl⟩
  · simp only [tidiedRow, hl, hst, decide_true, decide_false, not_false_eq_true, tombed,
      Option.some.injEq] at ht
    cases hf : so.firstDeletedAt with
    | none =>
      rw [hf, Option.getD_none] at ht
      exact Or.inr ⟨ht.symm, ho ▸ hst⟩
    | some u =>
      rw [hf, Option.getD_some] at ht
      exact Or.inl ⟨⟨so, hm, hs, ho, hf.trans (congrArg some ht)⟩, ho ▸ hl⟩

theorem tombstoned_deleted {objects : List (StorageId × Text)}
    (h : Tombstoned (db.deleteStorageObjects objects) s o t) : Tombstoned db s o t := by
  obtain ⟨so, hm, hrest⟩ := h
  exact ⟨so, (Table.mem_delete.mp hm).1, hrest⟩

theorem tombstoned_of_answer {c : Call} (hc : ∀ roots, c ≠ .markStale roots) {e : Env} {w : World}
    (h : Tombstoned (answer c e w).1.db s o t) : Tombstoned w.db s o t := by
  rcases answer_state c e w with hs | hs
  · rwa [hs] at h
  by_cases hl : LeavesObjects c = true
  · have heq := answer_storageObjects hl e w
    unfold Tombstoned at h ⊢
    rwa [heq] at h
  rw [hs] at h
  cases c with
  | markStale roots => exact absurd rfl (hc roots)
  | upsertStorageObject s' o' m =>
    obtain ⟨so, hm, hrest⟩ := h
    rcases Database.mem_upsertStorageObject.mp hm with rfl | ⟨hm, -⟩
    · cases hrest.2.2
    · exact ⟨so, hm, hrest⟩
  | clearDeletedState roots => exact (tombstoned_cleared h).1
  | deleteStorageObjects objects => exact tombstoned_deleted h
  | deleteObject storage objectPath => exact h
  | _ => exact absurd rfl hl

end

structure TimedRun extends FreshSerialRun where
  now : Nat → UtcDateTime
  sqliteNow : Nat → SqliteTime
  moments : ∀ n k, ((turns n).env k).now = now n ∧ ((turns n).env k).sqliteNow = sqliteNow n

section

variable [Base64] [WildMatch] (r : TimedRun)

structure FoundStale (o : Text) (m : Nat) : Prop where
  gc : ∃ g, r.request m = .runLocalGc false g
  stale : ¬ LiveAt (r.now m) (r.db m) o

structure StaleSince (s : StorageId) (o : Text) (m n : Nat) : Prop where
  tombstone : ∀ j, m < j → j ≤ n → Tombstoned (r.db j) s o (r.sqliteNow m)
  stale : ∀ j g response, m ≤ j → j < n → r.request j = .runLocalGc false g →
    r.response j = .ok response → ¬ LiveAt (r.now j) (r.db j) o

variable {r}

theorem StaleSince.succ {s : StorageId} {o : Text} {m n : Nat} (h : StaleSince r s o m n)
    (ht : Tombstoned (r.db (n + 1)) s o (r.sqliteNow m))
    (hs : ∀ g response, r.request n = .runLocalGc false g → r.response n = .ok response →
      ¬ LiveAt (r.now n) (r.db n) o) : StaleSince r s o m (n + 1) where
  tombstone := fun j hmj hjn => by
    rcases Nat.lt_or_ge j (n + 1) with hlt | hge
    · exact h.tombstone j hmj (Nat.le_of_lt_succ hlt)
    · obtain rfl := Nat.le_antisymm hjn hge
      exact ht
  stale := fun j g response hmj hjn hq hr => by
    rcases Nat.lt_or_ge j n with hlt | hge
    · exact h.stale j g response hmj hlt hq hr
    · obtain rfl := Nat.le_antisymm (Nat.le_of_lt_succ hjn) hge
      exact hs g response hq hr

theorem stops_turn {n : Nat} {g : Int} (hq : r.request n = .runLocalGc false g) :
    ∃ result, (∀ response, r.response n = .ok response → ∃ x, result = .ok x) ∧
      Stops r.server.storageCatalog g True (RootsAt (r.now n) (r.db n))
        (RootsAt (r.now n) (r.db n)) (· = r.sqliteNow n) (r.world n) result (r.world (n + 1)) := by
  have hgc : machine.wp (fun e => e.now = r.now n ∧ e.sqliteNow = r.sqliteNow n)
      (Stops r.server.storageCatalog g True (RootsAt (r.now n) (r.db n))
        (RootsAt (r.now n) (r.db n)) (· = r.sqliteNow n) (r.world n))
      (r.server.gcService.runLocalGcWithGracePeriod false g) (r.world n) :=
    wp_runLocalGc r.server.gcService g True _ _ _
      (wp_rootsAt (fun _ he => he.1) (r.world n) (r.db n).storageObjects)
      (wp_rootsAt (fun _ he => he.1) (r.world n)) (fun _ he => he.2) (fun _ _ _ => trivial)
  have hturn : machine.wp (fun e => e.now = r.now n ∧ e.sqliteNow = r.sqliteNow n)
      (fun response w => ∃ result, (∀ x, response = .ok x → ∃ y, result = .ok y) ∧
        Stops r.server.storageCatalog g True (RootsAt (r.now n) (r.db n))
          (RootsAt (r.now n) (r.db n)) (· = r.sqliteNow n) (r.world n) result w)
      (r.server.program (r.request n)) (r.world n) := by
    rw [hq]
    refine Machine.wp_bind.mpr (Machine.wp_mono hgc (fun result w hw => ?_))
    cases result with
    | ok x => exact ⟨.ok x, fun _ _ => ⟨x, rfl⟩, hw⟩
    | error x => exact ⟨.error x, fun _ hx => absurd hx (by simp), hw⟩
  exact SerialRun.of_wp _ hturn (r.moments n)

theorem tombstoned_turn {n : Nat} {s : StorageId} {o : Text} {t : SqliteTime}
    (h : Tombstoned (r.db (n + 1)) s o t) :
    (Tombstoned (r.db n) s o t ∧ ∀ g response, r.request n = .runLocalGc false g →
      r.response n = .ok response → ¬ LiveAt (r.now n) (r.db n) o) ∨
    t = r.sqliteNow n ∧ FoundStale r o n := by
  by_cases hgc : ∃ g, r.request n = .runLocalGc false g
  · obtain ⟨g, hq⟩ := hgc
    have htidied : ∀ {live stale now}, RootsAt (r.now n) (r.db n) live →
        RootsAt (r.now n) (r.db n) stale → now = r.sqliteNow n →
        Tombstoned (tidied (r.db n) live stale now) s o t →
        (Tombstoned (r.db n) s o t ∧ ¬ LiveAt (r.now n) (r.db n) o) ∨
          t = r.sqliteNow n ∧ FoundStale r o n := by
      intro live stale now hl hs hnow ht
      rcases tombstoned_tidied ht with ⟨hold, hno⟩ | ⟨rfl, hno⟩
      · exact Or.inl ⟨hold, mt hl.mem_liveObjects.mpr hno⟩
      · exact Or.inr ⟨hnow, ⟨g, hq⟩, mt hs.mem_liveObjects.mpr hno⟩
    have hfound : ∀ {P : Prop}, (Tombstoned (r.db n) s o t ∧ ¬ LiveAt (r.now n) (r.db n) o) ∨ P →
        (Tombstoned (r.db n) s o t ∧ ∀ g response, r.request n = .runLocalGc false g →
          r.response n = .ok response → ¬ LiveAt (r.now n) (r.db n) o) ∨ P :=
      fun h => h.imp_left (fun ⟨ht, hno⟩ => ⟨ht, fun _ _ _ _ => hno⟩)
    obtain ⟨result, hok, hstops⟩ := stops_turn hq
    unfold SerialRun.db at h
    generalize r.world (n + 1) = v at h hstops
    cases hstops with
    | failed x =>
      refine Or.inl ⟨h, fun _ response _ hr => ?_⟩
      obtain ⟨y, hy⟩ := hok response hr
      cases hy
    | cleared hl x =>
      obtain ⟨hold, hno⟩ := tombstoned_cleared h
      exact Or.inl ⟨hold, fun _ _ _ _ => mt hl.mem_liveObjects.mpr hno⟩
    | marked hl hs ht x => exact hfound (htidied hl hs ht h)
    | deleting hl hs ht ht' hgone hf x => exact hfound (htidied hl hs ht h)
    | deleted hl hs ht ht' hd hr => exact hfound (htidied hl hs ht (tombstoned_deleted h))
  · refine Or.inl ⟨?_, fun g _ hq => absurd ⟨g, hq⟩ hgc⟩
    have hkeeps : ∀ u, Tombstoned (r.db (n + 1)) s o u → Tombstoned (r.db n) s o u := by
      refine SerialRun.of_wp_any (fun _ v => ∀ u, Tombstoned v.db s o u →
        Tombstoned (r.db n) s o u) (wp_of_uses (fun v => ∀ u, Tombstoned v.db s o u →
          Tombstoned (r.db n) s o u) (r.server.program_uses _) (fun c e v hc hv u hu => ?_)
        (fun _ hu => hu))
      refine hv u (tombstoned_of_answer (fun roots hr => ?_) hu)
      subst hr
      generalize hq : r.request n = q at hc
      cases hc with
      | reads hr => cases hr
      | markStale roots => exact hgc ⟨_, hq⟩
    exact hkeeps t h

theorem tombstone_since (n : Nat) {s : StorageId} {o : Text} {t : SqliteTime}
    (h : Tombstoned (r.db n) s o t) :
    ∃ m < n, t = r.sqliteNow m ∧ FoundStale r o m ∧ StaleSince r s o m n := by
  induction n with
  | zero =>
    obtain ⟨so, hm, -⟩ := h
    simp [SerialRun.db, SerialRun.world, r.empty] at hm
  | succ n ih =>
    rcases tombstoned_turn h with ⟨hold, hno⟩ | ⟨rfl, hfound⟩
    · obtain ⟨m, hmn, rfl, hfound, hsince⟩ := ih hold
      exact ⟨m, by omega, rfl, hfound, hsince.succ h hno⟩
    · refine ⟨n, Nat.lt_succ_self n, rfl, hfound, ⟨fun j hj hjn => ?_, fun j _ _ hj hjn _ _ => ?_⟩⟩
      · obtain rfl : j = n + 1 := by omega
        exact h
      · obtain rfl : j = n := by omega
        exact hfound.stale

theorem deleted_stale_since (r : TimedRun) (n : Nat) {g : Int}
    (hq : r.request n = .runLocalGc false g) {s : StorageId} {o : Text}
    (hg : Gone (r.world n) (r.world (n + 1)) s o) :
    ∃ m ≤ n, FoundStale r o m ∧ StaleSince r s o m n ∧ ¬ LiveAt (r.now n) (r.db n) o ∧
      (r.sqliteNow m).unixepoch ≤ (r.sqliteNow n).unixepoch - g := by
  obtain ⟨result, -, hstops⟩ := stops_turn hq
  obtain ⟨so, hm, hs, ho, hno, t, t', rfl, rfl, hage, -⟩ := gone_of_stops hstops hg
  cases hf : so.firstDeletedAt with
  | none =>
    rw [hf, Option.getD_none] at hage
    exact ⟨n, le_rfl, ⟨⟨g, hq⟩, hno⟩, ⟨fun j hj hjn => absurd hj (by omega),
      fun j _ _ hj hjn => absurd hj (by omega)⟩, hno, hage⟩
  | some t =>
    rw [hf, Option.getD_some] at hage
    obtain ⟨m, hmn, rfl, hfound, hsince⟩ := tombstone_since n ⟨so, hm, hs, ho, hf⟩
    exact ⟨m, hmn.le, hfound, hsince, hno, hage⟩

end

section

variable [Base64] [WildMatch] (r : TimedRun)

def TimesNeverBack : Prop := ∀ m n, m ≤ n → (r.now m).instant ≤ (r.now n).instant ∧
  (r.sqliteNow m).unixepoch ≤ (r.sqliteNow n).unixepoch

def SparesRecentlyLive : Prop := ∀ n g s o, r.request n = .runLocalGc false g →
  Gone (r.world n) (r.world (n + 1)) s o → ∀ j ≤ n,
    (r.sqliteNow n).unixepoch - g ≤ (r.sqliteNow j).unixepoch → ¬ LiveAt (r.now j) (r.db j) o

end

section Examples

attribute [local instance] standardBase64 standardWildMatch

def hourOf (n : Nat) : Nat := 12 + if n < 8 then 0 else if n = 8 then 1 else if n = 9 then 5 else 6

theorem hourOf_lt (n : Nat) : hourOf n < 24 := by
  unfold hourOf
  split_ifs <;> omega

theorem hourOf_mono {m n : Nat} (h : m ≤ n) : hourOf m ≤ hourOf n := by
  unfold hourOf
  split_ifs <;> omega

def oClock (n : Nat) : CivilTime := { noon with hour := hourOf n, hour_lt := hourOf_lt n }

def inTime (requests : List Request) : TimedRun where
  toFreshSerialRun := { inTurn requests with
    turns := fun n =>
      { request := requests.getD n (.deletePin [] none)
        env := fun k => Env.quiet (oClock n) (BitVec.ofNat 128 (100 * n + k)) } }
  now := fun n => .whole (oClock n)
  sqliteNow := fun n => .whole (oClock n)
  moments := fun _ _ => ⟨rfl, rfl⟩

theorem inTime_neverBack (requests : List Request) : TimesNeverBack (inTime requests) := by
  intro m n hmn
  have hle := hourOf_mono hmn
  have hseconds : (oClock m).seconds ≤ (oClock n).seconds := by
    simp only [CivilTime.seconds, CivilTime.dayNumber, oClock]
    omega
  simp only [inTime, UtcDateTime.whole, SqliteTime.whole, UtcDateTime.instant, UtcDateTime.toOffset,
    OffsetDateTime.instant, SqliteTime.unixepoch]
  omega

def policyBetween : TimedRun :=
  inTime (unretainedRequests.dropLast ++ [.runLocalGc false 21600,
    .replaceRetentionPolicy exampleSlug 1 0 [⟨10, "main".toList, none, some 1⟩],
    .replaceRetentionPolicy exampleSlug 1 0 [⟨10, "release".toList, none, some 1⟩],
    .runLocalGc false 21600])

theorem policyBetween_deleted :
    TimesNeverBack policyBetween ∧ ¬ SparesRecentlyLive policyBetween := by
  refine ⟨inTime_neverBack _, fun h => ?_⟩
  have hrun : (retainedBuilds (policyBetween.now 9) (policyBetween.db 9)).toOption = some [201] ∧
      helloPayload.url ∈ (policyBetween.db 9).liveObjects [helloHash] ∧
      ⟨201, helloHash⟩ ∈ (policyBetween.db 9).buildPaths.rows ∧
      (∃ so ∈ (policyBetween.world 10).db.storageObjects.rows,
        so.storageId = .main ∧ so.objectPath = helloPayload.url ∧
          ∀ so' ∈ (policyBetween.world (10 + 1)).db.storageObjects.rows,
            ¬ (so'.storageId = .main ∧ so'.objectPath = helloPayload.url)) := by decide +kernel
  obtain ⟨hretained, hlive, hpath, hgone⟩ := hrun
  have hkept : LiveAt (policyBetween.now 9) (policyBetween.db 9) helloPayload.url := by
    refine ⟨[201], eq_ok_of_toOption hretained, (mem_liveObjects.mp hlive).mono (fun p hp => ?_)⟩
    obtain rfl := List.mem_singleton.mp hp
    exact .retained 201 List.mem_cons_self hpath
  exact h 10 21600 .main helloPayload.url rfl (Or.inr hgone) 9 (by decide)
    (by decide +kernel) hkept

theorem policyBetween_stale_since :
    ∃ m ≤ 10, FoundStale policyBetween helloPayload.url m ∧
      StaleSince policyBetween .main helloPayload.url m 10 ∧
      ¬ LiveAt (policyBetween.now 10) (policyBetween.db 10) helloPayload.url ∧
      (policyBetween.sqliteNow m).unixepoch ≤ (policyBetween.sqliteNow 10).unixepoch - 21600 := by
  have hgone : ∃ so ∈ (policyBetween.world 10).db.storageObjects.rows,
      so.storageId = .main ∧ so.objectPath = helloPayload.url ∧
        ∀ so' ∈ (policyBetween.world (10 + 1)).db.storageObjects.rows,
          ¬ (so'.storageId = .main ∧ so'.objectPath = helloPayload.url) := by decide +kernel
  exact deleted_stale_since policyBetween 10 rfl (Or.inr hgone)

end Examples

end Tombstones
