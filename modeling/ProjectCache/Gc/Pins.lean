import ProjectCache.Gc.Interrupted
import ProjectCache.Read.Lookup

namespace Pins

open Textual Nix Project Calendar Tables Store Db Programs Depot Depot.Server Ingest Gc Read Lookup
  SqliteDatabase

def ListsObject (db : Database) (o : Text) : Prop :=
  ∃ so ∈ db.storageObjects.rows, so.objectPath = o ∧ so.deletedAt = none

section

variable {catalog : StorageCatalog} {w : World} {admits : Env → Prop} {o : Text}

theorem isSome_found_of_backed (hb : Backed catalog (fun _ => True) w) (preferred : StorageId) :
    ((asked w.db preferred o).findSome? (heldAt catalog w o)).isSome = true ↔
      ListsObject w.db o := by
  rw [isSome_found]
  refine exists_congr (fun so => and_congr_right (fun hm => ?_))
  constructor
  · rintro ⟨ho, hd, -⟩
    exact ⟨ho, hd⟩
  · rintro ⟨rfl, hd⟩
    exact ⟨rfl, hd, (hb so hm).1, (hb so hm).2 trivial⟩

theorem wp_getVisible (ha : ∀ e, admits e → e.outcome = .answered)
    (hb : Backed catalog (fun _ => True) w) {view : DepotView}
    (hview : ∀ slug, view = .project slug → ∃ p, w.db.projectBySlug slug = some p)
    {h : StorePathHash} (hv : w.db.visiblePath view h = true)
    (hl : ⟨h, o, .nar⟩ ∈ w.db.pathObjects.rows) :
    machine.wp admits (fun r _ => ∃ found, r = .ok found ∧
      (found.isSome = true ↔ ListsObject w.db o))
      (DbBackedObjectStore.getVisible ⟨catalog⟩ view o) w := by
  have hvisible : w.db.storageObjectVisibleInView view o = true :=
    List.any_eq_true.mpr ⟨_, hl, by simp [hv]⟩
  obtain ⟨preferred, hpreferred⟩ := exists_preferred hview
  refine Machine.wp_mono (Lookup.wp_getVisible hpreferred) (fun r v hr => ⟨_, hr.ok ha, ?_⟩)
  rw [if_pos hvisible]
  exact isSome_found_of_backed hb preferred

theorem listsObject_of_stops {g : Int} {faults : Prop} {clock : SqliteTime → Prop} {v : World}
    {result : Except Error RunGcResponse} {h : StorePathHash} {pi : PathInfoRow}
    (hs : Stops catalog g faults (h ∈ ·) (h ∈ ·) clock w result v)
    (hp : w.db.pathInfo h = some pi) (hl : ⟨h, o, .nar⟩ ∈ w.db.pathObjects.rows)
    (ho : ListsObject w.db o) : ListsObject v.db o := by
  obtain ⟨so, hm, rfl, hd⟩ := ho
  obtain ⟨hpi, hhash⟩ := Database.pathInfo_eq_some.mp hp
  have hlive : ∀ {roots : List StorePathHash}, h ∈ roots →
      so.objectPath ∈ w.db.liveObjects roots := fun {roots} hroot => mem_liveObjects.mpr
    ⟨pi, hpi, hhash ▸ hroot, pi, .refl, ⟨h, so.objectPath, .nar⟩, hl, hhash.symm, rfl⟩
  have htidied : ∀ {live stale : List StorePathHash} {t : SqliteTime}, h ∈ live → h ∈ stale →
      untombed so ∈ (tidied w.db live stale t).storageObjects.rows := fun hc hk =>
    mem_tidied.mpr ⟨so, hm, by simp [hlive hc, hlive hk, tidiedRow]⟩
  cases hs with
  | failed x => exact ⟨so, hm, rfl, hd⟩
  | cleared hc x =>
    exact ⟨untombed so, mem_clearDeletedState.mpr ⟨so, hm, by simp [hlive hc]⟩, rfl, rfl⟩
  | marked hc hk ht x => exact ⟨untombed so, htidied hc hk, rfl, rfl⟩
  | deleting hc hk ht ht' hgone hf x => exact ⟨untombed so, htidied hc hk, rfl, rfl⟩
  | @deleted live stale hc hk t t' ht ht' deleted hdel =>
    refine ⟨untombed so, Table.mem_delete.mpr ⟨htidied hc hk, decide_eq_false (fun hkey => ?_)⟩,
      rfl, rfl⟩
    exact Interrupted.not_ready (htidied hc hk) rfl (List.mem_filter.mp (hdel ▸ hkey)).1

theorem backed_of_stops {g : Int} {clear mark : List StorePathHash → Prop}
    {clock : SqliteTime → Prop} {v : World} {result : Except Error RunGcResponse}
    (hs : Stops catalog g False clear mark clock w result v)
    (hb : Backed catalog (fun _ => True) w) : Backed catalog (fun _ => True) v := by
  have htidied : ∀ {live stale : List StorePathHash} {t : SqliteTime},
      Backed catalog (fun _ => True) { w with db := tidied w.db live stale t } := by
    intro live stale t
    refine hb.of_rows _ (fun so' hm' => ?_)
    obtain ⟨so, hm, rfl⟩ := mem_tidied.mp hm'
    exact ⟨so, hm, by simp, by simp, Or.inl⟩
  cases hs with
  | failed x => exact hb
  | cleared hc x =>
    refine hb.of_rows _ (fun so' hm' => ?_)
    obtain ⟨so, hm, rfl⟩ := mem_clearDeletedState.mp hm'
    refine ⟨so, hm, ?_, ?_, Or.inl⟩ <;> split <;> rfl
  | marked hc hk ht x => exact htidied
  | deleting hc hk ht ht' hgone hf x => exact hf.elim
  | @deleted live stale hc hk t t' ht ht' deleted hdel =>
    have hrows := htidied.of_rows ((tidied w.db live stale t).deleteStorageObjects deleted)
      (fun so hm => ⟨so, (Table.mem_delete.mp hm).1, rfl, rfl, Or.inl⟩)
    refine hrows.drop (fun so hm _ => ?_)
    exact of_decide_eq_false (Table.mem_delete.mp hm).2

end

def viewOf : Option ProjectSlug → DepotView
  | none => .aggregate
  | some slug => .project slug

def InScope (db : Database) (pin : PinRow) : Option ProjectSlug → Prop
  | none => pin.scopeKey = .global ∧ pin.projectId = none
  | some slug => ∃ p, db.projectBySlug slug = some p ∧ pin.scopeKey = .project p.id ∧
    pin.projectId = some p.id

section

variable {w : World} {admits : Env → Prop} {name storePath : Text} {project : Option ProjectSlug}
  {h : StorePathHash}

theorem mem_upsertPin {db db' : Database} {row : PinRow} (hd : db.upsertPin row = some db') :
    row ∈ db'.pins.rows := by
  obtain ⟨-, t, rfl, ht⟩ := upsertPin_eq_some hd
  rcases Table.upsert_mem ht with hm | ⟨pin, -, hkey, hm⟩
  · exact hm
  · simp only [Bool.and_eq_true, decide_eq_true_eq] at hkey
    obtain ⟨scopeKey, pinName, _, _, _⟩ := pin
    obtain ⟨rfl, rfl⟩ := hkey
    exact hm

theorem wp_pinScope :
    machine.wp admits (fun r v => v = w ∧ ∀ scope, r = .ok scope →
      ∀ pin : PinRow, pin.scopeKey = scope.1 → pin.projectId = scope.2 → InScope w.db pin project)
      (pinScope project) w := by
  cases project with
  | none =>
    refine ⟨rfl, ?_⟩
    rintro _ ⟨⟩ pin hs hp
    exact ⟨hs, hp⟩
  | some slug =>
    refine Machine.wp_bind.mpr (Machine.wp_bind.mpr (wp_select ?_
      (fun _ _ _ _ => ⟨rfl, fun _ h => nomatch h⟩)))
    rw [onOk_ok]
    refine wp_orFail (fun id hid => ⟨rfl, ?_⟩) (fun _ => ⟨rfl, fun _ h => nomatch h⟩)
    obtain ⟨p, hp, rfl⟩ := Option.map_eq_some_iff.mp hid
    rintro _ ⟨⟩ pin hs hpin
    exact ⟨p, hp, hs, hpin⟩

theorem wp_upsertPin :
    machine.wp admits (fun r v => (∃ pins, v = { w with db := { w.db with pins } }) ∧
      (r = .ok () → ∃ pin ∈ v.db.pins.rows, pin.name = name ∧ pin.storePathHash = h ∧
        InScope w.db pin project)) (upsertPin name project h storePath) w := by
  have hsame : ∃ pins, w = { w with db := { w.db with pins } } := ⟨w.db.pins, rfl⟩
  refine Machine.wp_bind.mpr (Machine.wp_mono wp_pinScope ?_)
  rintro r v ⟨rfl, hscope⟩
  cases r with
  | error x => exact ⟨hsame, fun h => by cases h⟩
  | ok scope =>
    obtain ⟨scopeKey, projectId⟩ := scope
    rw [onOk_ok]
    refine Machine.wp_bind.mpr (wp_select ?_ (fun _ _ _ _ => ⟨hsame, fun h => by cases h⟩))
    rw [onOk_ok]
    refine Machine.wp_bind.mpr (wp_orFail (fun existing _ => ?_)
      (fun _ => ⟨hsame, fun h => by cases h⟩))
    rw [onOk_ok]
    split
    · exact ⟨hsame, fun h => by cases h⟩
    have hwritten : ∃ pins, ((v.written "pins".toList
        (v.db.upsertPin ⟨scopeKey, name, projectId, h, storePath⟩)).1 =
          { v with db := { v.db with pins } }) := by
      cases hd : v.db.upsertPin ⟨scopeKey, name, projectId, h, storePath⟩ with
      | none => exact hsame
      | some db' =>
        obtain ⟨-, pins, rfl, -⟩ := upsertPin_eq_some hd
        exact ⟨pins, rfl⟩
    refine wp_perform_of (c := .upsertPin ⟨scopeKey, name, projectId, h, storePath⟩)
      (fun e _ r hr => ⟨hwritten, fun _ => ?_⟩) (fun e _ x _ u hu => ?_)
    · simp only [carryOut] at hr ⊢
      cases hd : v.db.upsertPin ⟨scopeKey, name, projectId, h, storePath⟩ with
      | none =>
        rw [hd] at hr
        cases hr
      | some db' =>
        exact ⟨_, mem_upsertPin hd, rfl, rfl, hscope _ rfl _ rfl rfl⟩
    · refine ⟨?_, fun h => by cases h⟩
      rcases hu with rfl | rfl
      · exact hsame
      · exact hwritten

theorem wp_listsObject [Base64] [WildMatch] {server : Server} {q : Request} {o : Text}
    (hq : ∀ g, q ≠ .runLocalGc false g) (ho : ListsObject w.db o) :
    machine.wp admits (fun _ v => ListsObject v.db o) (server.program q) w := by
  refine wp_of_uses (fun v => ListsObject v.db o) (server.program_uses q)
    (fun c e v hc hv => ?_) ho
  by_cases hl : .storageObjects ∈ c.writes
  · cases hc with
    | upsertStorageObject hq s p m =>
      rcases answer_state (.upsertStorageObject s p m) e v with hs | hs
      · rwa [hs]
      rw [hs]
      obtain ⟨so, hm, rfl, hd⟩ := hv
      by_cases hkey : so.storageId = s ∧ so.objectPath = p
      · exact ⟨_, Database.mem_upsertStorageObject.mpr (Or.inl rfl), hkey.2.symm, rfl⟩
      · exact ⟨so, Database.mem_upsertStorageObject.mpr (Or.inr ⟨hm, hkey⟩), rfl, hd⟩
    | clearDeletedState => exact absurd rfl (hq _)
    | markStale => exact absurd rfl (hq _)
    | deleteStorageObjects => exact absurd rfl (hq _)
    | reads hr => rwa [answer_of_reads hr]
    | _ => simp [Call.writes] at hl
  · have hsame := (answer_frame c e v).storageObjects hl
    obtain ⟨so, hm, hrest⟩ := hv
    exact ⟨so, hsame ▸ hm, hrest⟩

end

section

variable [Base64] [WildMatch] (r : SerialRun)

def Answered : Prop := ∀ n k, ((r.turns n).env k).outcome = .answered

def Served (view : DepotView) (o : Text) (n : Nat) : Prop :=
  ∀ es : Nat → Env, (∀ k, (es k).outcome = .answered) → ∃ metadata bytes,
    (machine.exec (DbBackedObjectStore.getVisible ⟨r.server.storageCatalog⟩ view o) es
      (r.world n)).2 = .ok (some (metadata, bytes))

variable {r}

theorem of_gc_turn {n : Nat} {g : Int} (post : World → Prop) (ha : Answered r)
    (hq : r.request n = .runLocalGc false g)
    (h : machine.wp (fun e => e.outcome = .answered) (fun _ v => post v)
      (r.server.gcService.runLocalGcWithGracePeriod false g) (r.world n)) :
    post (r.world (n + 1)) := by
  have hturn : machine.wp (fun e => e.outcome = .answered) (fun _ v => post v)
      (r.server.program (r.request n)) (r.world n) := by
    rw [hq]
    exact Machine.wp_seq h (fun _ _ hv => hv)
  exact SerialRun.of_wp (fun _ v => post v) hturn (ha n)

theorem backed_step (ha : Answered r) (hs : ∀ n, FitsColumn (r.request n)) (n : Nat)
    (h : Backed r.server.storageCatalog (fun _ => True) (r.world n)) :
    Backed r.server.storageCatalog (fun _ => True) (r.world (n + 1)) := by
  by_cases hgc : ∃ g, r.request n = .runLocalGc false g
  · obtain ⟨g, hq⟩ := hgc
    have hroots : ∀ w : World, machine.wp (fun e => e.outcome = .answered) (fun x v => v = w ∧
        ∀ roots, x = .ok roots → True) listRootStorePathHashes w := fun w =>
      Machine.wp_mono (wp_reading (uses_listRootStorePathHashes (fun _ h => h)))
        (fun _ _ hv => ⟨hv, fun _ _ => trivial⟩)
    refine of_gc_turn _ ha hq (Machine.wp_mono (wp_runLocalGc r.server.gcService g False
      (fun _ => True) (fun _ => True) (fun _ => True) (hroots _) (fun _ => hroots _)
      (fun _ _ => trivial)
      (fun e he hne => hne he)) (fun x v hv => backed_of_stops hv h))
  · exact SerialRun.of_wp (fun _ v => Backed r.server.storageCatalog (fun _ => True) v)
      (wp_request (fun _ he => he) (hs n) (fun g hq => hgc ⟨g, hq⟩) h) (ha n)

theorem all_backed {r : FreshSerialRun} (ha : Answered r.toSerialRun)
    (hs : ∀ n, FitsColumn (r.request n)) (n : Nat) :
    Backed r.server.storageCatalog (fun _ => True) (r.world n) := by
  induction n with
  | zero =>
    intro so hm
    simp [SerialRun.world, r.empty] at hm
  | succ n ih => exact backed_step ha hs n ih

theorem listsObject_step (ha : Answered r) {n : Nat} {pin : PinRow} {pi : PathInfoRow} {o : Text}
    (hpin : pin ∈ (r.db n).pins.rows) (hp : (r.db n).pathInfo pin.storePathHash = some pi)
    (hl : ⟨pin.storePathHash, o, .nar⟩ ∈ (r.db n).pathObjects.rows) (ho : ListsObject (r.db n) o) :
    ListsObject (r.db (n + 1)) o := by
  by_cases hgc : ∃ g, r.request n = .runLocalGc false g
  · obtain ⟨g, hq⟩ := hgc
    have hroots : ∀ w : World, pin ∈ w.db.pins.rows →
        machine.wp (fun e => e.outcome = .answered) (fun x v => v = w ∧
          ∀ roots, x = .ok roots → pin.storePathHash ∈ roots) listRootStorePathHashes w := by
      intro w hpin
      refine Machine.wp_mono (wp_listRootStorePathHashes (P := fun _ => True)
        (Machine.wp_mono (wp_reading (uses_looking (fun _ h => h)
          looks_listRetainedBuildIdsForGc)) (fun _ _ hv => ⟨hv, fun _ _ => trivial⟩))) ?_
      rintro x v ⟨rfl, hx⟩
      refine ⟨rfl, fun roots hr => ?_⟩
      obtain ⟨retained, -, hroot⟩ := hx roots hr
      exact (hroot _).mpr (.pinned pin hpin rfl)
    refine of_gc_turn (fun v => ListsObject v.db o) ha hq (Machine.wp_mono
      (wp_runLocalGc r.server.gcService g True (pin.storePathHash ∈ ·) (pin.storePathHash ∈ ·)
        (fun _ => True) (hroots _ hpin) (fun _ => hroots _ hpin) (fun _ _ => trivial)
        (fun _ _ _ => trivial))
      (fun x v hv => listsObject_of_stops hv hp hl ho))
  · exact SerialRun.of_wp_any (fun _ v => ListsObject v.db o)
      (wp_listsObject (fun g hq => hgc ⟨g, hq⟩) ho)

theorem pin_turn {n : Nat} {name storePath : Text} {project : Option ProjectSlug}
    {h : StorePathHash} {x : Response} (hq : r.request n = .upsertPin name project h storePath)
    (hr : r.response n = .ok x) :
    (r.db (n + 1)).storageObjects = (r.db n).storageObjects ∧
      ∃ pin ∈ (r.db (n + 1)).pins.rows, pin.name = name ∧ pin.storePathHash = h ∧
        InScope (r.db n) pin project := by
  refine SerialRun.of_wp_any (fun x v => ∀ y, x = .ok y →
    v.db.storageObjects = (r.db n).storageObjects ∧ ∃ pin ∈ v.db.pins.rows, pin.name = name ∧
      pin.storePathHash = h ∧ InScope (r.db n) pin project) ?_ x hr
  rw [hq]
  refine Machine.wp_bind.mpr (Machine.wp_mono wp_upsertPin ?_)
  rintro y v ⟨⟨pins, rfl⟩, hpin⟩
  cases y with
  | error x => exact fun _ h => nomatch h
  | ok u => exact fun _ _ => ⟨rfl, hpin rfl⟩

theorem visible_of_pin {n m : Nat} (hnm : n ≤ m) {pin : PinRow} {project : Option ProjectSlug}
    (hscope : InScope (r.db n) pin project) (hpin : pin ∈ (r.db m).pins.rows) :
    (r.db m).visiblePath (viewOf project) pin.storePathHash = true ∧
      ∀ slug, viewOf project = .project slug → ∃ p, (r.db m).projectBySlug slug = some p := by
  cases project with
  | none =>
    refine ⟨?_, fun slug h => nomatch h⟩
    exact List.contains_iff_mem.mpr
      (Database.mem_aggregateVisiblePaths.mpr (Or.inr ⟨pin, hpin, hscope.2, rfl⟩))
  | some slug =>
    obtain ⟨p, hp, -, hid⟩ := hscope
    obtain ⟨q, hq, hqp⟩ := (SerialRun.grows_le (r := r) hnm).projectBySlug hp
    obtain ⟨hm, hslug⟩ := Database.projectBySlug_eq_some.mp hq
    refine ⟨List.any_eq_true.mpr ⟨q, hm, ?_⟩, ?_⟩
    · have hvisible : (q.id, pin.storePathHash) ∈ (r.db m).projectVisiblePaths :=
        Database.mem_projectVisiblePaths.mpr
          (Or.inr ⟨pin, hpin, hqp ▸ hid, rfl, q, hm, rfl⟩)
      simp [hslug, hvisible]
    · rintro _ ⟨⟩
      exact ⟨q, hq⟩

theorem served_iff {r : FreshSerialRun} (ha : Answered r.toSerialRun)
    (hs : ∀ n, FitsColumn (r.request n)) {n m : Nat} (hnm : n ≤ m) {pin : PinRow}
    {project : Option ProjectSlug} (hscope : InScope (r.db n) pin project)
    (hpin : pin ∈ (r.db m).pins.rows) {o : Text}
    (hl : ⟨pin.storePathHash, o, .nar⟩ ∈ (r.db m).pathObjects.rows) :
    Served r.toSerialRun (viewOf project) o m ↔ ListsObject (r.db m) o := by
  obtain ⟨hv, hview⟩ := visible_of_pin hnm hscope hpin
  have hread : ∀ es : Nat → Env, (∀ k, (es k).outcome = .answered) → ∃ found,
      (machine.exec (DbBackedObjectStore.getVisible ⟨r.server.storageCatalog⟩ (viewOf project) o) es
        (r.world m)).2 = .ok found ∧ (found.isSome = true ↔ ListsObject (r.db m) o) := fun es he =>
    Machine.exec_of_wp (Pins.wp_getVisible (fun _ he => he) (all_backed ha hs m) hview hv hl) he
  constructor
  · intro hserved
    obtain ⟨found, hfound, hiff⟩ := hread (fun _ => moment 0) (fun _ => rfl)
    obtain ⟨metadata, bytes, hr⟩ := hserved (fun _ => moment 0) (fun _ => rfl)
    refine hiff.mp ?_
    rw [hr, Except.ok.injEq] at hfound
    rw [← hfound]
    rfl
  · intro ho es he
    obtain ⟨found, hfound, hiff⟩ := hread es he
    obtain ⟨⟨metadata, bytes⟩, rfl⟩ := Option.isSome_iff_exists.mp (hiff.mpr ho)
    exact ⟨metadata, bytes, hfound⟩

theorem pin_serves_iff (r : FreshSerialRun) (ha : Answered r.toSerialRun)
    (hs : ∀ n, FitsColumn (r.request n)) {n : Nat} {name storePath : Text}
    {project : Option ProjectSlug} {h : StorePathHash} {x : Response} {pi : PathInfoRow}
    (hq : r.request n = .upsertPin name project h storePath) (hr : r.response n = .ok x)
    (hp : (r.db n).pathInfo h = some pi) (hl : ⟨h, pi.url, .nar⟩ ∈ (r.db n).pathObjects.rows) :
    ∃ pin ∈ (r.db (n + 1)).pins.rows, pin.name = name ∧ InScope (r.db n) pin project ∧
      ((∀ m, n < m → (∀ k, n < k → k ≤ m → pin ∈ (r.db k).pins.rows) →
        Served r.toSerialRun (viewOf project) pi.url m) ↔ ListsObject (r.db n) pi.url) := by
  obtain ⟨hsame, pin, hpin, hname, rfl, hscope⟩ := pin_turn hq hr
  have hgrows : ∀ {m}, n ≤ m → Grows (r.db n) (r.db m) := fun hnm => SerialRun.grows_le hnm
  have hlists : ListsObject (r.db n) pi.url ↔ ListsObject (r.db (n + 1)) pi.url := by
    unfold ListsObject
    rw [hsame]
  refine ⟨pin, hpin, hname, hscope, fun hserved => ?_, fun ho m hnm hkept => ?_⟩
  · have hfirst := hserved (n + 1) (Nat.lt_succ_self n) (fun k hnk hk => by
      obtain rfl : k = n + 1 := by omega
      exact hpin)
    exact hlists.mpr ((served_iff ha hs (Nat.le_succ n) hscope hpin
      ((hgrows (Nat.le_succ n)).pathObjects _ hl)).mp hfirst)
  · refine (served_iff ha hs (by omega) hscope (hkept m hnm (Nat.le_refl m))
      ((hgrows (by omega)).pathObjects _ hl)).mpr ?_
    induction m, hnm using Nat.le_induction with
    | base => exact hlists.mp ho
    | succ m hnm ih =>
      exact listsObject_step ha (hkept m hnm (Nat.le_succ m)) ((hgrows (by omega)).pathInfo hp)
        ((hgrows (by omega)).pathObjects _ hl) (ih (fun k hnk hk => hkept k hnk (by omega)))

end

section Examples

attribute [local instance] standardBase64 standardWildMatch

open Interrupted

def keepHello : Request := .upsertPin "kept".toList none helloHash helloPayload.storePath

def pinnedFirst : FreshSerialRun :=
  inTurn (unretainedRequests.take 7 ++ [keepHello, .runLocalGc false 0])

def pinnedLate : FreshSerialRun :=
  inTurn (unretainedRequests.take 7 ++ [.runLocalGc false 3600, keepHello])

theorem inTurn_fits {requests : List Request} (h : ∀ q ∈ requests, FitsColumn q) (n : Nat) :
    FitsColumn ((inTurn requests).request n) := by
  change FitsColumn (requests.getD n (.deletePin [] none))
  rw [List.getD_eq_getElem?_getD]
  cases hq : requests[n]? with
  | none => trivial
  | some q => exact h q (List.mem_of_getElem? hq)

theorem pinnedFirst_serves : ∃ pin ∈ (pinnedFirst.db 8).pins.rows, pin.name = "kept".toList ∧
    ∀ m, 7 < m → (∀ k, 7 < k → k ≤ m → pin ∈ (pinnedFirst.db k).pins.rows) →
      Served pinnedFirst.toSerialRun .aggregate helloPayload.url m := by
  have hrun : (pinnedFirst.response 7).toOption = some .ok ∧
      ((pinnedFirst.db 7).pathInfo helloHash).map PathInfoRow.url = some helloPayload.url ∧
      ⟨helloHash, helloPayload.url, .nar⟩ ∈ (pinnedFirst.db 7).pathObjects.rows ∧
      ListsObject (pinnedFirst.db 7) helloPayload.url := by
    unfold ListsObject
    decide +kernel
  obtain ⟨hr, hp, hl, ho⟩ := hrun
  obtain ⟨pi, hp, hurl⟩ := Option.map_eq_some_iff.mp hp
  rw [← hurl] at hl ho ⊢
  have hr' : pinnedFirst.response 7 = .ok .ok := by
    cases h : pinnedFirst.response 7 with
    | error x =>
      rw [h] at hr
      cases hr
    | ok x =>
      rw [h] at hr
      exact congrArg Except.ok (Option.some.inj hr)
  obtain ⟨pin, hpin, hname, -, hserves⟩ := pin_serves_iff pinnedFirst (fun _ _ => rfl)
    (inTurn_fits (by decide)) (show pinnedFirst.request 7 = keepHello from rfl) hr' hp hl
  simp only [Nat.reduceAdd] at hpin
  exact ⟨pin, hpin, hname, hserves.mpr ho⟩

theorem pinnedLate_not_served : (pinnedLate.response 6).toOption = some .ok ∧
    pinnedLate.request 8 = keepHello ∧ (pinnedLate.response 8).toOption = some .ok ∧
    (pinnedLate.db 9).pins.rows.map PinRow.storePathHash = [helloHash] ∧
    ¬ Served pinnedLate.toSerialRun .aggregate helloPayload.url 9 := by
  have hrun : (pinnedLate.response 6).toOption = some .ok ∧
      (pinnedLate.response 8).toOption = some .ok ∧
      (pinnedLate.db 9).pins.rows.map PinRow.storePathHash = [helloHash] ∧
      (machine.exec (DbBackedObjectStore.getVisible ⟨pinnedLate.server.storageCatalog⟩ .aggregate
        helloPayload.url) (fun _ => moment 0) (pinnedLate.world 9)).2.toOption = some none := by
    decide +kernel
  obtain ⟨hfinalized, hpinned, hpins, hread⟩ := hrun
  refine ⟨hfinalized, rfl, hpinned, hpins, fun hserved => ?_⟩
  obtain ⟨metadata, bytes, hr⟩ := hserved (fun _ => moment 0) (fun _ => rfl)
  rw [hr] at hread
  cases hread

end Examples

end Pins
