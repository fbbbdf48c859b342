import ProjectCache.Depot.Sequence

namespace Gc

open Textual Nix Project Calendar Tables Store Db Programs Depot SqliteDatabase Closure

def quietAt (now : UtcDateTime) : Env := { Env.quiet now.civil 0 with now }

def lookedUp {A : Type} (now : UtcDateTime) (p : Action A) (db : Database) : Except Error A :=
  (machine.exec p (fun _ => quietAt now) ⟨db, fun _ _ => none⟩).2

section

variable {A : Type} {admits : Env → Prop} {w : World} {now : UtcDateTime}

theorem answer_of_looksUp {c : Call} (hc : c.LooksUp) {e : Env} (he : e.now = now) (w : World) :
    (answer c e w).1 = w ∧
      (answer c (quietAt now) ⟨w.db, fun _ _ => none⟩).1 = ⟨w.db, fun _ _ => none⟩ ∧
        ((answer c e w).2 = (answer c (quietAt now) ⟨w.db, fun _ _ => none⟩).2 ∨
          ∃ x, (answer c e w).2 = .error x) := by
  refine ⟨answer_of_reads hc.reads e w, answer_of_reads hc.reads _ _, ?_⟩
  cases hc with
  | now =>
    subst he
    exact Or.inl rfl
  | select query _ =>
    have hquiet : (answer (.select (fun _ db => query db)) (quietAt now)
        ⟨w.db, fun _ _ => none⟩).2 = .ok (query w.db) := by
      rw [answer_of_answered rfl]
      rfl
    rcases @answer_select _ query e w with ha | ⟨x, ha⟩
    · exact Or.inl (by rw [ha, hquiet])
    · exact Or.inr ⟨x, by rw [ha]⟩

theorem wp_lookedUp {p : Action A} (hp : p.Direct Call.LooksUp)
    (ha : ∀ e, admits e → e.now = now) :
    machine.wp admits (fun r v => v = w ∧ (r = lookedUp now p w.db ∨ ∃ x, r = .error x)) p w :=
  Machine.wp_direct hp (fun _ e hc he => answer_of_looksUp hc (ha e he) w)

theorem lookedUp_storageObjects {p : Action A} (hp : p.Direct Call.LooksUp) (now : UtcDateTime)
    (db : Database) (storageObjects : Table StorageObjectRow) :
    lookedUp now p { db with storageObjects } = lookedUp now p db := by
  refine Machine.exec_related
    (fun v w : World => v.db = { w.db with storageObjects := v.db.storageObjects }) hp.uses ?_ rfl _
  intro c e v w hc hvw
  rw [answer_of_reads hc.reads, answer_of_reads hc.reads]
  refine ⟨?_, hvw⟩
  cases hc with
  | now => rfl
  | select query h =>
    have hquery : query v.db = query w.db := by rw [hvw, h]
    simp only [answer, Call.local, Bool.false_eq_true, if_false, carryOut, hquery]
    cases e.outcome <;> rfl

end

inductive IsRoot (db : Database) (retained : List Uuid) (h : StorePathHash) : Prop
  | retained (b : Uuid) (hb : b ∈ retained) (hp : ⟨b, h⟩ ∈ db.buildPaths.rows)
  | pending (b : BuildRow) (hb : b ∈ db.builds.rows) (hs : b.status = .pending)
    (hp : ⟨b.id, h⟩ ∈ db.buildPaths.rows)
  | pinned (pin : PinRow) (hb : pin ∈ db.pins.rows) (hp : pin.storePathHash = h)

def Live (db : Database) (roots : StorePathHash → Prop) (o : Text) : Prop :=
  ∃ root ∈ db.pathInfos.rows, roots root.storePathHash ∧ ∃ pi,
    Relation.ReflTransGen (fun x y => y ∈ db.referencedPaths x) root pi ∧
      ∃ po ∈ db.pathObjects.rows, po.storePathHash = pi.storePathHash ∧ po.objectPath = o

section

variable {db : Database} {roots : List StorePathHash} {h : StorePathHash} {o : Text}

theorem mem_pendingPaths : h ∈ db.pendingPaths ↔
    ∃ b ∈ db.builds.rows, b.status = .pending ∧ ⟨b.id, h⟩ ∈ db.buildPaths.rows := by
  simp only [Database.pendingPaths, List.mem_map, List.mem_filter, List.any_eq_true,
    Bool.and_eq_true, decide_eq_true_eq]
  constructor
  · rintro ⟨⟨b', h'⟩, ⟨hp, b, hb, rfl, hs⟩, rfl⟩
    exact ⟨b, hb, hs, hp⟩
  · rintro ⟨b, hb, hs, hp⟩
    exact ⟨⟨b.id, h⟩, ⟨hp, b, hb, rfl, hs⟩, rfl⟩

theorem mem_pinnedPaths : h ∈ db.pinnedPaths ↔ ∃ pin ∈ db.pins.rows, pin.storePathHash = h := by
  simp [Database.pinnedPaths]

theorem mem_referencedPaths {x y : PathInfoRow} : y ∈ db.referencedPaths x ↔
    y ∈ db.pathInfos.rows ∧ y.storePath ∈ x.references := by
  simp only [Database.referencedPaths, List.mem_flatMap, List.mem_filter, decide_eq_true_eq]
  constructor
  · rintro ⟨r, hr, hy, rfl⟩
    exact ⟨hy, hr⟩
  · rintro ⟨hy, hr⟩
    exact ⟨y.storePath, hr, hy, rfl⟩

theorem mem_livePaths {pi : PathInfoRow} : pi ∈ db.livePaths roots ↔
    Reachable db.referencedPaths (db.rootPathInfos roots) pi :=
  (recursiveUnion_initial (fun _ _ _ hb => (mem_referencedPaths.mp hb).1)
    (fun _ ha => (List.mem_filter.mp ha).1)).2 pi

theorem mem_liveObjects : o ∈ db.liveObjects roots ↔ Live db (· ∈ roots) o := by
  simp only [Database.liveObjects, List.mem_flatMap, List.mem_map, List.mem_filter,
    decide_eq_true_eq, mem_livePaths, Reachable, Database.rootPathInfos]
  constructor
  · rintro ⟨pi, ⟨root, ⟨hm, hr⟩, hreach⟩, po, ⟨hpo, hph⟩, hobject⟩
    exact ⟨root, hm, hr, pi, hreach, po, hpo, hph, hobject⟩
  · rintro ⟨root, hm, hr, pi, hreach, po, hpo, hph, hobject⟩
    exact ⟨pi, ⟨root, ⟨hm, hr⟩, hreach⟩, po, ⟨hpo, hph⟩, hobject⟩

theorem Live.mono {P Q : StorePathHash → Prop} (h : Live db P o) (hPQ : ∀ p, P p → Q p) :
    Live db Q o := by
  obtain ⟨root, hm, hr, hrest⟩ := h
  exact ⟨root, hm, hPQ _ hr, hrest⟩

end

section

variable {admits : Env → Prop} {w : World}

theorem wp_pathsOfBuilds (ids : List Uuid) :
    machine.wp admits (fun r v => v = w ∧ ∀ paths, r = .ok paths → ∀ h, h ∈ paths ↔
      ∃ b ∈ ids, ⟨b, h⟩ ∈ w.db.buildPaths.rows) (pathsOfBuilds ids) w := by
  induction ids with
  | nil =>
    refine ⟨rfl, ?_⟩
    rintro _ ⟨⟩ h
    simp
  | cons id rest ih =>
    refine Machine.wp_bind.mpr (wp_select ?_ (fun _ _ _ _ => ⟨rfl, fun _ h => nomatch h⟩))
    rw [onOk_ok]
    refine Machine.wp_bind.mpr (Machine.wp_mono ih (fun r v hv => ?_))
    obtain ⟨rfl, hr⟩ := hv
    cases r with
    | error x => exact ⟨rfl, fun _ h => nomatch h⟩
    | ok others =>
      refine ⟨rfl, ?_⟩
      rintro _ ⟨⟩ h
      rw [List.mem_append, hr others rfl, Database.mem_attachedPaths]
      simp

variable [WildMatch]

theorem wp_listRootStorePathHashes {P : List Uuid → Prop}
    (hP : machine.wp admits (fun r v => v = w ∧ ∀ ids, r = .ok ids → P ids)
      listRetainedBuildIdsForGc w) :
    machine.wp admits (fun r v => v = w ∧ ∀ roots, r = .ok roots → ∃ retained, P retained ∧
      ∀ h, h ∈ roots ↔ IsRoot w.db retained h) listRootStorePathHashes w := by
  have herror : ∀ (x : Error) (roots : List StorePathHash),
      (.error x : Except Error _) = .ok roots →
      ∃ retained, P retained ∧ ∀ h, h ∈ roots ↔ IsRoot w.db retained h := fun _ _ h => nomatch h
  refine Machine.wp_bind.mpr (Machine.wp_mono hP (fun r v hv => ?_))
  obtain ⟨rfl, hr⟩ := hv
  cases r with
  | error x => exact ⟨rfl, herror x⟩
  | ok retained =>
    rw [onOk_ok]
    refine Machine.wp_bind.mpr (Machine.wp_mono (wp_pathsOfBuilds retained) (fun r v hv => ?_))
    obtain ⟨rfl, hpaths⟩ := hv
    cases r with
    | error x => exact ⟨rfl, herror x⟩
    | ok paths =>
      rw [onOk_ok]
      refine Machine.wp_bind.mpr (wp_select ?_ (fun _ _ _ x => ⟨rfl, herror x⟩))
      rw [onOk_ok]
      refine Machine.wp_bind.mpr (wp_select ?_ (fun _ _ _ x => ⟨rfl, herror x⟩))
      refine ⟨rfl, ?_⟩
      rintro _ ⟨⟩
      refine ⟨retained, hr retained rfl, fun h => ?_⟩
      simp only [List.mem_dedup, List.mem_insertionSort, List.mem_append, hpaths paths rfl,
        mem_pendingPaths, mem_pinnedPaths]
      constructor
      · rintro ((⟨b, hb, hp⟩ | ⟨b, hb, hs, hp⟩) | ⟨pin, hb, hp⟩)
        · exact .retained b hb hp
        · exact .pending b hb hs hp
        · exact .pinned pin hb hp
      · rintro (⟨b, hb, hp⟩ | ⟨b, hb, hs, hp⟩ | ⟨pin, hb, hp⟩)
        · exact Or.inl (Or.inl ⟨b, hb, hp⟩)
        · exact Or.inl (Or.inr ⟨b, hb, hs, hp⟩)
        · exact Or.inr ⟨pin, hb, hp⟩

def retainedBuilds (now : UtcDateTime) (db : Database) : Except Error (List Uuid) :=
  lookedUp now listRetainedBuildIdsForGc db

theorem wp_retainedBuilds {now : UtcDateTime} (ha : ∀ e, admits e → e.now = now) :
    machine.wp admits (fun r v => v = w ∧ ∀ ids, r = .ok ids →
      retainedBuilds now w.db = .ok ids) listRetainedBuildIdsForGc w := by
  refine Machine.wp_mono (wp_lookedUp looks_listRetainedBuildIdsForGc ha) ?_
  rintro r v ⟨rfl, rfl | ⟨x, rfl⟩⟩
  · exact ⟨rfl, fun _ h => h⟩
  · exact ⟨rfl, fun _ h => nomatch h⟩

end

end Gc
